import Depot.Proofs.Config
import Depot.Proofs.Store.Cloud
import Depot.Store.Construction

/-!
This module contains the theory of opening stores below others: the store that is opened has the
settings of the other one, and nothing is changed by opening it.
-/

namespace Depot

open Depot.Action

def World.meeting (world : World) (fault : Option (String × Failure)) : World :=
  { world with fault }

namespace Action

variable {α β : Type} {act : Action α} {next : α → Action β}

def Clientless (act : Action α) : Prop :=
  ∀ world, (act.perform world).2.clients = world.clients

namespace Clientless

theorem pure (a : α) : (Pure.pure a : Action α).Clientless :=
  fun _ => rfl

theorem throw (failure : Failure) : (throw failure : Action α).Clientless :=
  fun _ => rfl

theorem pure_bind {a : α} (h : (next a).Clientless) :
    ((Pure.pure a : Action α) >>= next).Clientless :=
  h

theorem throw_bind (failure : Failure) (next : α → Action β) :
    ((MonadExcept.throw failure : Action α) >>= next).Clientless :=
  fun _ => rfl

theorem ofResult (result : Except Failure α) : (Action.ofResult result).Clientless :=
  fun _ => rfl

theorem bind (h : act.Clientless) (hnext : ∀ a, (next a).Clientless) :
    (act >>= next).Clientless := by
  intro world
  have hact := h world
  cases hperform : act.perform world with
  | mk result world' =>
    rw [hperform] at hact
    cases result with
    | error failure =>
      rw [perform_bind_of_error hperform]
      exact hact
    | ok a =>
      rw [perform_bind_of_ok hperform, hnext a world']
      exact hact

theorem get_bind {next : World → Action β} (h : ∀ world, (next world).Clientless) :
    (get >>= next).Clientless := by
  intro world
  rw [perform_get_bind]
  exact h world world

theorem note (level : Level) (topic : Topic) (message : String) :
    (Depot.note level topic message).Clientless := by
  intro world
  obtain ⟨kept, hperform⟩ := perform_note level topic message world
  rw [hperform]
  rfl

theorem record (call : Cloud.Call) : (Cloud.record call).Clientless := by
  unfold Cloud.record
  refine bind (fun _ => rfl) fun _ => get_bind fun world => ?_
  cases world.fault with
  | none => exact pure _
  | some fault =>
    dsimp only
    split
    · exact throw _
    · exact pure _

end Clientless

end Action

namespace Store

variable {root store : Store} {segment : String} {world : World}

/-- Whether a store only differs from another one in what it is rooted at. -/
def Kin (store root : Store) : Prop :=
  store = { root with location := store.location }

namespace Kin

theorem refl (store : Store) : Kin store store := rfl

theorem compression_eq (h : Kin store root) : store.compression = root.compression := by
  rw [h]

theorem rooted (h : Kin store root) (location : Location) : Kin { store with location } root := by
  rw [h]
  rfl

end Kin

theorem ofSettings_eq (store : Store) (location : Location) :
    ofSettings store.backend location
        ⟨store.extension, store.compression.name, store.overwrite⟩
      =
    .ok { store with location } := by
  unfold ofSettings
  dsimp only
  rw [Codec.Scheme.parse_name]

theorem checkOptions_yields {backend : Backend} {known : List String} {options : ClientOptions}
    (h : options.names.find? (!known.contains ·) = none) (world : World) :
    (checkOptions backend known options).Yields world (.ok ()) world := by
  unfold checkOptions
  rw [h]
  exact .pure () world

def Opens (store : Store) (location : Location) (act : Action Store) (world : World) : Prop :=
  ∃ result, act.Yields world result world
    ∧ ∀ store', result = .ok store' → store' = { store with location }

theorem opens_of_error {location : Location} {act : Action Store} {failure : Failure}
    (h : act.Yields world (.error failure) world) : store.Opens location act world := by
  refine ⟨_, h, ?_⟩
  intro store' hok
  cases hok

theorem opens_of_ok {location : Location} {act : Action Store}
    (h : act.Yields world (.ok { store with location }) world) :
    store.Opens location act world := by
  refine ⟨_, h, ?_⟩
  intro store' hok
  cases hok
  rfl

theorem newFiles_yields {location : Location} (h : store.backend = .files)
    (hscheme : location.scheme = "file") (world : World) :
    (newFiles (some (.location location))
      ⟨store.extension, store.compression.name, store.overwrite⟩ {}).Yields world
        (.ok { store with location }) world := by
  have hsettings := ofSettings_eq store location
  rw [h] at hsettings
  have hoptions : (checkOptions .files [] {}).Yields world (.ok ()) world :=
    checkOptions_yields rfl world
  unfold newFiles
  refine hoptions.bind (Yields.get_bind fun records => (Yields.pure location world).bind ?_)
  dsimp only
  rw [if_neg (by simp [hscheme]), hsettings]
  refine (Yields.ofResult _ world).bind ((note_yields _ _ _ world).bind ?_)
  rw [h]
  exact .pure _ world

theorem newFiles_opens (location : Location) (h : store.backend = .files) (world : World) :
    store.Opens location (newFiles (some (.location location))
      ⟨store.extension, store.compression.name, store.overwrite⟩ {}) world := by
  by_cases hscheme : location.scheme = "file"
  · exact opens_of_ok (newFiles_yields h hscheme world)
  · have hoptions : (checkOptions .files [] {}).Yields world (.ok ()) world :=
      checkOptions_yields rfl world
    apply opens_of_error
    unfold newFiles
    refine hoptions.bind (Yields.get_bind fun records => (Yields.pure location world).bind ?_)
    dsimp only
    rw [if_pos hscheme]
    exact (Yields.throw _ world).bind_error

theorem makeClient_yields (request : Cloud.ClientRequest) (world : World) :
    (makeClient { client := true } request).Yields world (.ok ()) world :=
  .pure () world

section Buckets

variable {location : Location}

theorem requireBase_yields (backend : Backend) (location : Location) (world : World) :
    (requireBase backend (some (.location location))).Yields world (.ok (.location location))
      world :=
  .pure _ world

theorem newGcs_yields_of {result : Except Failure Store} (h : store.backend = .gcs)
    (hscheme : ¬(location.scheme ≠ "gs" ∨ location.host = ""))
    (hrecord : (do
      Cloud.record (.bucket location.host)
      note .debug .gcs ("GCSObjectStore initialized: " ++ location.render)
      return { store with location } : Action Store).Yields world result world) :
    (newGcs (some (.location location))
      ⟨store.extension, store.compression.name, store.overwrite⟩ { client := true }).Yields world
        result world := by
  have hsettings := ofSettings_eq store location
  rw [h] at hsettings hrecord
  have hoptions : (checkOptions .gcs ["client", "project"] { client := true }).Yields world
      (.ok ()) world := checkOptions_yields rfl world
  unfold newGcs
  refine hoptions.bind ((requireBase_yields .gcs location world).bind
    ((Yields.pure location world).bind ?_))
  dsimp only
  rw [if_neg hscheme, hsettings]
  refine (Yields.ofResult _ world).bind (Yields.get_bind fun records => ?_)
  exact (makeClient_yields _ world).bind hrecord

theorem newGcs_yields (h : store.backend = .gcs)
    (hscheme : ¬(location.scheme ≠ "gs" ∨ location.host = ""))
    (hmet : world.met (.bucket location.host) = none) :
    (newGcs (some (.location location))
      ⟨store.extension, store.compression.name, store.overwrite⟩ { client := true }).Yields world
        (.ok { store with location }) world := by
  refine newGcs_yields_of h hscheme ((Cloud.record_yields_of_none hmet).bind ?_)
  exact (note_yields _ _ _ world).bind (.pure _ world)

theorem newGcs_opens (location : Location) (h : store.backend = .gcs) (world : World) :
    store.Opens location (newGcs (some (.location location))
      ⟨store.extension, store.compression.name, store.overwrite⟩ { client := true }) world := by
  by_cases hscheme : location.scheme ≠ "gs" ∨ location.host = ""
  · have hoptions : (checkOptions .gcs ["client", "project"] { client := true }).Yields world
        (.ok ()) world := checkOptions_yields rfl world
    apply opens_of_error
    unfold newGcs
    refine hoptions.bind ((requireBase_yields .gcs location world).bind
      ((Yields.pure location world).bind ?_))
    dsimp only
    rw [if_pos hscheme]
    exact (Yields.throw _ world).bind_error
  · cases hmet : world.met (.bucket location.host) with
    | some failure =>
      apply opens_of_error
      exact newGcs_yields_of h hscheme (Cloud.record_yields_of_some hmet).bind_error
    | none => exact opens_of_ok (newGcs_yields h hscheme hmet)

theorem newS3_yields (h : store.backend = .s3)
    (hscheme : ¬(location.scheme ≠ "s3" ∨ location.host = "")) (world : World) :
    (newS3 (some (.location location))
      ⟨store.extension, store.compression.name, store.overwrite⟩ { client := true }).Yields world
        (.ok { store with location }) world := by
  have hsettings := ofSettings_eq store location
  rw [h] at hsettings
  have hoptions : (checkOptions .s3 ["client", "endpoint_url", "region"]
      { client := true }).Yields world (.ok ()) world := checkOptions_yields rfl world
  unfold newS3
  refine hoptions.bind ((requireBase_yields .s3 location world).bind
    ((Yields.pure location world).bind ?_))
  dsimp only
  rw [if_neg hscheme, hsettings]
  refine (Yields.ofResult _ world).bind (Yields.get_bind fun records => ?_)
  refine (makeClient_yields _ world).bind ((note_yields _ _ _ world).bind ?_)
  rw [h]
  exact .pure _ world

theorem newS3_opens (location : Location) (h : store.backend = .s3) (world : World) :
    store.Opens location (newS3 (some (.location location))
      ⟨store.extension, store.compression.name, store.overwrite⟩ { client := true }) world := by
  by_cases hscheme : location.scheme ≠ "s3" ∨ location.host = ""
  · have hoptions : (checkOptions .s3 ["client", "endpoint_url", "region"]
        { client := true }).Yields world (.ok ()) world := checkOptions_yields rfl world
    apply opens_of_error
    unfold newS3
    refine hoptions.bind ((requireBase_yields .s3 location world).bind
      ((Yields.pure location world).bind ?_))
    dsimp only
    rw [if_pos hscheme]
    exact (Yields.throw _ world).bind_error
  · exact opens_of_ok (newS3_yields h hscheme world)

end Buckets

theorem subStore_yields (store : Store) (segment : String) {world : World}
    (hscheme : store.location.scheme = store.backend.scheme)
    (hhost : store.backend ≠ .files → store.location.host ≠ "")
    (hmet : store.backend = .gcs → world.met (.bucket store.location.host) = none) :
    (store.subStore segment).Yields world
      (.ok { store with location := store.location.join segment }) world := by
  unfold subStore make
  cases hbackend : store.backend with
  | files =>
    rw [hbackend] at hscheme
    have hbase : (store.location.join segment).scheme = "file" := hscheme
    have hmade := newFiles_yields hbackend hbase world
    rw [hbackend] at hmade
    exact hmade
  | gcs =>
    rw [hbackend] at hscheme hhost
    have hbase : ¬((store.location.join segment).scheme ≠ "gs"
        ∨ (store.location.join segment).host = "") :=
      not_or.2 ⟨Classical.not_not.2 hscheme, hhost (by simp)⟩
    have hcall : world.met (.bucket (store.location.join segment).host) = none := hmet hbackend
    have hmade := newGcs_yields hbackend hbase hcall
    rw [hbackend] at hmade
    exact hmade
  | s3 =>
    rw [hbackend] at hscheme hhost
    have hbase : ¬((store.location.join segment).scheme ≠ "s3"
        ∨ (store.location.join segment).host = "") :=
      not_or.2 ⟨Classical.not_not.2 hscheme, hhost (by simp)⟩
    have hmade := newS3_yields hbackend hbase world
    rw [hbackend] at hmade
    exact hmade

theorem subStore_opens (store : Store) (segment : String) (world : World) :
    store.Opens (store.location.join segment) (store.subStore segment) world := by
  unfold subStore make
  cases hbackend : store.backend with
  | files =>
    have hopens := newFiles_opens (store.location.join segment) hbackend world
    exact hopens
  | gcs =>
    have hopens := newGcs_opens (store.location.join segment) hbackend world
    exact hopens
  | s3 =>
    have hopens := newS3_opens (store.location.join segment) hbackend world
    exact hopens

theorem checkOptions_clientless (backend : Backend) (known : List String)
    (options : ClientOptions) : (checkOptions backend known options).Clientless := by
  unfold checkOptions
  cases options.names.find? (!known.contains ·) with
  | some name => exact .throw _
  | none => exact .pure _

theorem newFiles_clientless (location : Location) (settings : Settings) :
    (newFiles (some (.location location)) settings {}).Clientless := by
  unfold newFiles
  refine (checkOptions_clientless _ _ _).bind fun _ => Clientless.get_bind fun _ => ?_
  refine Clientless.pure_bind ?_
  dsimp only
  split
  · exact .throw_bind _ _
  · refine (Clientless.ofResult _).bind fun store => ?_
    exact (Clientless.note _ _ _).bind fun _ => .pure _

theorem newGcs_clientless (location : Location) (settings : Settings) :
    (newGcs (some (.location location)) settings { client := true }).Clientless := by
  unfold newGcs
  refine (checkOptions_clientless _ _ _).bind fun _ => ?_
  refine Clientless.pure_bind (Clientless.pure_bind ?_)
  dsimp only
  split
  · exact .throw_bind _ _
  · refine (Clientless.ofResult _).bind fun store => Clientless.get_bind fun _ => ?_
    refine Clientless.pure_bind ((Clientless.record _).bind fun _ => ?_)
    exact (Clientless.note _ _ _).bind fun _ => .pure _

theorem newS3_clientless (location : Location) (settings : Settings) :
    (newS3 (some (.location location)) settings { client := true }).Clientless := by
  unfold newS3
  refine (checkOptions_clientless _ _ _).bind fun _ => ?_
  refine Clientless.pure_bind (Clientless.pure_bind ?_)
  dsimp only
  split
  · exact .throw_bind _ _
  · refine (Clientless.ofResult _).bind fun store => Clientless.get_bind fun _ => ?_
    exact Clientless.pure_bind ((Clientless.note _ _ _).bind fun _ => .pure _)

theorem subStore_clientless (store : Store) (segment : String) :
    (store.subStore segment).Clientless := by
  unfold subStore make
  cases store.backend with
  | files => exact newFiles_clientless _ _
  | gcs => exact newGcs_clientless _ _
  | s3 => exact newS3_clientless _ _

end Store

end Depot
