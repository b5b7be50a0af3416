import Depot.CommandLine.Program
import Depot.Proofs.Store.Opening
import Depot.Proofs.Store.Storable

/-!
This module contains the proof that all ways of describing a store come to the same: the environment
and the command line give the same description, which is in canonical form, and every store that is
made of it or below such a store has its settings.
-/

namespace Depot

open Depot.Action

namespace Store

variable {config : Config} {store below : Store}

structure Suits (store : Store) (config : Config) : Prop where
  extension_eq : store.extension = config.extension
  compression_eq : store.compression = config.compression
  overwrite_eq : store.overwrite = config.overwrite

inductive Derived (root : Store) : Store → Prop where
  | root : Derived root root
  | step {store below : Store} {segment : String} {world world' : World} (h : Derived root store)
      (hmade : (store.subStore segment).perform world = (.ok below, world')) : Derived root below

theorem Derived.suits (h : Derived store below) (hsuits : store.Suits config) :
    below.Suits config := by
  induction h with
  | root => exact hsuits
  | @step parent child segment world world' _ hmade ih =>
    obtain ⟨result, hyields, hlike⟩ := parent.subStore_opens segment world
    rw [← hyields.fst_eq, hmade] at hlike
    rw [hlike child rfl]
    exact ⟨ih.extension_eq, ih.compression_eq, ih.overwrite_eq⟩

structure Gives (config : Config) (act : Action Store) : Prop where
  suits : ∀ world store world', act.perform world = (.ok store, world') → store.Suits config

section Gives

variable {α : Type} {act : Action α} {next : α → Action Store}

theorem Gives.pure (h : store.Suits config) : Gives config (pure store) := by
  constructor
  intro world store' world' hperform
  cases hperform
  exact h

theorem Gives.throw (failure : Failure) : Gives config (throw failure) := by
  constructor
  intro world store world' hperform
  cases hperform

theorem Gives.bind (h : ∀ a, Gives config (next a)) : Gives config (act >>= next) := by
  constructor
  intro world store world' hperform
  obtain ⟨a, world₁, -, hnext⟩ := exists_of_bind_ok hperform
  exact (h a).suits _ _ _ hnext

theorem Gives.announced {act : Action Store} {last : Store → Action Unit} (h : Gives config act) :
    Gives config (act >>= fun store => last store >>= fun _ => Pure.pure store) := by
  constructor
  intro world store world' hperform
  obtain ⟨made, world₁, hmade, hlast⟩ := exists_of_bind_ok hperform
  obtain ⟨-, world₂, -, hreturn⟩ := exists_of_bind_ok hlast
  cases hreturn
  exact h.suits _ _ _ hmade

theorem Gives.of_settings (backend : Backend) (location : Location) {next : Store → Action Store}
    (h : ∀ store, store.Suits config → Gives config (next store)) :
    Gives config (Action.ofResult (ofSettings backend location
      ⟨config.extension, config.compression.name, config.overwrite⟩) >>= next) := by
  have hmade : ofSettings backend location
      ⟨config.extension, config.compression.name, config.overwrite⟩
        = .ok ⟨backend, location, config.extension, config.compression, config.overwrite⟩ :=
    ofSettings_eq ⟨backend, location, config.extension, config.compression, config.overwrite⟩ location
  rw [hmade]
  exact h _ ⟨rfl, rfl, rfl⟩

theorem gives_newFiles (base : Option Base) (options : ClientOptions) :
    Gives config
      (newFiles base ⟨config.extension, config.compression.name, config.overwrite⟩ options) := by
  unfold newFiles
  refine .bind fun _ => .bind fun world => .bind fun location => ?_
  dsimp only
  split
  · exact .throw _
  · exact .of_settings .files location fun store hsuits => .bind fun _ => .pure hsuits

theorem gives_newGcs (base : Option Base) (options : ClientOptions) :
    Gives config
      (newGcs base ⟨config.extension, config.compression.name, config.overwrite⟩ options) := by
  unfold newGcs
  refine .bind fun _ => .bind fun base => .bind fun location => ?_
  dsimp only
  split
  · exact .throw _
  · refine .of_settings .gcs location fun store hsuits => ?_
    exact .bind fun _ => .bind fun _ => .bind fun _ => .bind fun _ => .pure hsuits

theorem gives_newS3 (base : Option Base) (options : ClientOptions) :
    Gives config
      (newS3 base ⟨config.extension, config.compression.name, config.overwrite⟩ options) := by
  unfold newS3
  refine .bind fun _ => .bind fun base => .bind fun location => ?_
  dsimp only
  split
  · exact .throw _
  · refine .of_settings .s3 location fun store hsuits => ?_
    exact .bind fun _ => .bind fun _ => .bind fun _ => .pure hsuits

theorem gives_ofConfig (config : Config) (options : ClientOptions) :
    Gives config (ofConfig config options) := by
  unfold ofConfig ofUrl
  refine .bind fun location => ?_
  dsimp only
  split
  · split
    · exact (gives_newFiles _ _).announced
    · exact (Gives.throw _).announced
  · split
    · exact .bind fun _ => (gives_newGcs _ _).announced
    · split
      · exact .bind fun _ => (gives_newS3 _ _).announced
      · exact (Gives.throw _).announced

end Gives

end Store

namespace Config

variable {env : Environment}

theorem ofTexts_cases (url extension compression : String) (overwrite : Bool) :
    (∃ config : Config, config.Canonical ∧ ofTexts url extension compression overwrite = .ok config)
      ∨ ∃ problems, ofTexts url extension compression overwrite
          = .error { reason := .config problems } := by
  rw [ofTexts_eq]
  cases hfields : ofFields (texts url extension compression overwrite) with
  | ok config => exact .inl ⟨config, canonical_of_ofFields hfields, rfl⟩
  | error problems => exact .inr ⟨problems, rfl⟩

theorem ofEnvironment_eq (h : Text.strip (env.get urlVariable) ≠ "")
    (command : Option CommandLine.Command) :
    ofEnvironment env = ({ command } : CommandLine.Arguments).config env := by
  unfold ofEnvironment CommandLine.Arguments.config
  dsimp only [Option.getD_none]
  rw [if_neg h, if_pos rfl, Bool.false_or, ofTexts_eq, ofTexts_eq, ofFields_strip _ _ _ h]

/--
The environment and the command line describe the same store. A description that was accepted is in
canonical form, is accepted again as it is, and all stores that are made of it have its settings.
-/
theorem routes_agree :
    (∀ (env : Environment) (command : Option CommandLine.Command),
        Text.strip (env.get urlVariable) ≠ "" →
          ofEnvironment env = ({ command } : CommandLine.Arguments).config env
            ∧ ((∃ config : Config, config.Canonical ∧ ofEnvironment env = .ok config)
              ∨ ∃ problems, ofEnvironment env = .error { reason := .config problems }))
      ∧ ∀ (fields : List (String × Value)) (config : Config), ofFields fields = .ok config →
          config.Canonical
            ∧ ofFields (texts config.url config.extension config.compression.name config.overwrite)
              = .ok config
            ∧ ∀ options world store world',
                (Store.ofConfig config options).perform world = (.ok store, world') →
                  ∀ below, Store.Derived store below → below.Suits config := by
  constructor
  · intro env command hurl
    have hroutes := ofEnvironment_eq hurl command
    refine ⟨hroutes, ?_⟩
    rw [hroutes]
    exact ofTexts_cases _ _ _ _
  · intro fields config haccepted
    have hcanonical := canonical_of_ofFields haccepted
    refine ⟨hcanonical, ofFields_of_canonical hcanonical, ?_⟩
    intro options world store world' hmade below hbelow
    exact hbelow.suits ((Store.gives_ofConfig config options).suits _ _ _ hmade)

def padded : Environment :=
  [(urlVariable, " file:///d\n"), (extensionVariable, "json "), (compressionVariable, " GZip")]

def trimmed : Config :=
  ⟨"file:///d", ".json", .gzip, false⟩

def described : Store :=
  ⟨.files, ⟨"file", "", "/d"⟩, ".json", .gzip, false⟩

theorem routes_agree_padded :
    Text.strip (padded.get urlVariable) ≠ ""
      ∧ ofEnvironment padded = ({} : CommandLine.Arguments).config padded
      ∧ ofFields (texts " file:///d\n" "json " " GZip" false) = .ok trimmed ∧ trimmed.Canonical
      ∧ (Store.ofConfig trimmed {}).perform Store.Files.bare = (.ok described, Store.Files.bare)
      ∧ described.Suits trimmed := by
  have hurl : Text.strip (padded.get urlVariable) ≠ "" := by decide
  have haccepted : ofFields (texts " file:///d\n" "json " " GZip" false) = .ok trimmed := by
    rw [ofFields_texts _ _ _ (checkUrl_of_strip_ne (by decide))]
    rfl
  have hmade : (Store.ofConfig trimmed {}).perform Store.Files.bare
      = (.ok described, Store.Files.bare) := rfl
  obtain ⟨hroutes, hforms⟩ := routes_agree
  obtain ⟨hcanonical, -, hstores⟩ := hforms _ trimmed haccepted
  exact ⟨hurl, (hroutes padded none hurl).1, haccepted, hcanonical, hmade,
    hstores _ _ _ _ hmade _ .root⟩

end Config

end Depot
