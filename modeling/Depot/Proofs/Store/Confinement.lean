import Depot.Proofs.Path.Query
import Depot.Proofs.Store.Scans
import Depot.Proofs.Store.Storable
import Depot.Proofs.Store.Views

/-!
This module contains the theory of what walks get to see. All keys of a listing start with the text
that is asked for, so walks stay below the base of a store where that text does, and nowhere else.
-/

namespace Depot

open Depot.Path

namespace Cloud

theorem key_mem_of_strike {fault : Option (String × Failure)} {listing : Listing} {key : String}
    (h : Item.key key ∈ strike fault listing) : Item.key key ∈ listing := by
  induction listing with
  | nil => exact h
  | cons item rest ih =>
    cases item with
    | call call =>
      have hcases : strike fault (.call call :: rest) = .call call :: strike fault rest
          ∨ ∃ failure, strike fault (.call call :: rest) = [.call call, .failed failure] := by
        cases fault with
        | none => exact .inl rfl
        | some met =>
          by_cases hmet : met.1 = call.name
          · exact .inr ⟨met.2, if_pos hmet⟩
          · exact .inl (if_neg hmet)
      rcases hcases with hon | ⟨failure, hstruck⟩
      · rw [hon, List.mem_cons] at h
        exact List.mem_cons_of_mem _ (ih (h.resolve_left (by simp)))
      · rw [hstruck] at h
        simp at h
    | failed failure =>
      rcases List.mem_cons.1 h with hsame | h
      · cases hsame
      · exact List.mem_cons_of_mem _ (ih h)
    | key other =>
      rcases List.mem_cons.1 h with hsame | h
      · rw [hsame]
        exact List.mem_cons_self
      · exact List.mem_cons_of_mem _ (ih h)

variable {world : World} {host query key : String}

theorem Gcs.startsWith_of_mem_listing (hpages : world.bucket.fixedPages = none)
    {offset : Option String} (h : Item.key key ∈ Gcs.listing world host query offset) :
    Text.startsWith query key = true := by
  unfold listing at h
  rw [hpages] at h
  have hkey := (List.mem_cons.1 (key_mem_of_strike h)).resolve_left (by simp)
  have hfilter := (List.mem_filter.1 (Listing.key_mem_ofKeys.1 hkey)).2
  exact (Bool.and_eq_true_iff.1 hfilter).1

theorem S3.startsWith_of_mem_listing (hpages : world.bucket.fixedPages = none)
    {after : Option String} (h : Item.key key ∈ S3.listing world host query after) :
    Text.startsWith query key = true := by
  unfold listing pages at h
  rw [hpages] at h
  have hkey := (List.mem_cons.1 (key_mem_of_strike h)).resolve_left (by simp)
  obtain ⟨items, hitems, hkey⟩ :=
    List.mem_flatMap.1 ((List.mem_cons.1 hkey).resolve_left (by simp))
  obtain ⟨page, hpage, rfl⟩ := List.mem_map.1 hitems
  have hmem := Listing.key_mem_ofKeys.1 ((List.mem_cons.1 hkey).resolve_left (by simp))
  have hall : key ∈ world.bucket.keysAfter query after := by
    rw [← Bucket.flatten_paged world.bucket.pageSize (world.bucket.keysAfter query after)]
    exact List.mem_flatten.2 ⟨page, hpage, (List.mem_filter.1 hmem).1⟩
  exact (Bool.and_eq_true_iff.1 (List.mem_filter.1 hall).2).1

end Cloud

namespace Store

variable {store : Store} {world : World} {under : String}

theorem Files.startsWith_of_mem_listing {tree : Depot.Files.Tree} {query key : String}
    (h : Item.key key ∈ listing tree query) : Text.startsWith query key = true := by
  unfold listing at h
  dsimp only at h
  split at h
  · cases h
  · split at h
    · simp at h
    · have hmem := Listing.key_mem_ofKeys.1 h
      unfold keysBelow at hmem
      rw [List.mem_mergeSort] at hmem
      exact (List.mem_filter.1 hmem).2
    · cases h

theorem startsWith_of_mem_listing (hpages : world.bucket.fixedPages = none) {query key : String}
    {offset : Option String} (h : Item.key key ∈ store.listing world query offset) :
    Text.startsWith query key = true := by
  unfold Store.listing at h
  cases hbackend : store.backend with
  | files =>
    rw [hbackend] at h
    exact Files.startsWith_of_mem_listing h
  | gcs =>
    rw [hbackend] at h
    exact Cloud.Gcs.startsWith_of_mem_listing hpages h
  | s3 =>
    rw [hbackend] at h
    exact Cloud.S3.startsWith_of_mem_listing hpages h

/-- Whether a walk tells the names of keys below the base of a store, and of no others. -/
def Confines (store : Store) (walk : Walk) : Prop :=
  ∀ visit ∈ walk.visits, Text.startsWith (store.location.keyPrefix ++ "/") visit.key = true
    ∧ visit.name = store.naming.name visit.key

theorem walkOf_confined (hbase : Relative store.location.keyPrefix)
    (hguarded : Guarded store.location.keyPrefix under) (hpages : world.bucket.fixedPages = none)
    (start : String) (visitor : Visitor) : store.Confines (store.walkOf world under start visitor) := by
  have hquery := (startsWith_queryPrefix_iff hbase under).2 hguarded
  intro visit hvisit
  have hlisted := startsWith_of_mem_listing hpages (Walk.key_mem_of_mem_run [] _ visit hvisit)
  refine ⟨?_, Walk.name_eq_of_mem_run [] _ visit hvisit⟩
  unfold Text.startsWith at hquery hlisted ⊢
  rw [List.isPrefixOf_iff_prefix] at hquery hlisted ⊢
  exact hquery.trans hlisted

section Holding

variable {key : String}

theorem visits_holding (hbackend : store.backend ≠ .files) (hne : key ≠ "")
    (h : Text.startsWith (store.query under) key = true) :
    (store.walkOf (holding key) under "" {}).visits = [⟨key, store.naming.name key⟩] := by
  have hkeys := keysFrom_holding h
  have hempty : (holding key).bucket.has "" = false := by
    have hget := Cloud.Bucket.get?_put_of_ne {} .empty (Ne.symm hne)
    unfold Cloud.Bucket.has
    exact congrArg Option.isSome hget
  have hquiet : (store.listing (holding key) (store.query under) none).quiet = [.key key] := by
    unfold Store.listing
    cases hkind : store.backend with
    | files => exact absurd hkind hbackend
    | gcs =>
      dsimp only
      rw [Cloud.Gcs.quiet_listing rfl rfl, hkeys]
      rfl
    | s3 =>
      dsimp only
      rw [Cloud.S3.quiet_listing rfl rfl _ (Cloud.Bucket.empty_not_mem_keysAfter hempty _ _)]
      exact congrArg Listing.ofKeys hkeys
  have hshown : (Walk.run store.naming.name none {} []
        (store.listing (holding key) (store.query under) none).quiet).shown
      = (store.walkOf (holding key) under "" {}).shown := Walk.run_quiet [] _
  rw [hquiet] at hshown
  exact (congrArg Prod.fst hshown).symm

end Holding

theorem not_startsWith_append_letter {base query : String}
    (h : ¬Text.startsWith (base ++ "/") query = true) :
    ¬Text.startsWith (base ++ "/") (query ++ "x") = true := by
  intro hmore
  unfold Text.startsWith at h hmore
  rw [List.isPrefixOf_iff_prefix] at h hmore
  rw [String.toList_append] at h
  rw [String.toList_append, String.toList_append] at hmore
  change base.toList ++ ['/'] <+: query.toList ++ ['x'] at hmore
  rcases List.prefix_concat_iff.1 hmore with hsame | hbegins
  · have hletter : '/' = 'x' := List.append_singleton_inj.1 hsame |>.2
    exact absurd hletter (by decide)
  · exact h hbegins

/--
All walks and listings under a text stay below the base of a store if what is asked for is guarded,
as it is without dots in it. Of a bucket every other text brings up what is not below the base.
-/
theorem enumeration_confined_iff (store : Store) (hbase : Relative store.location.keyPrefix)
    (under : String) :
    ((∀ c ∈ Text.splitOn '/' under.toList, c ≠ here ∧ c ≠ up) →
        Guarded store.location.keyPrefix under)
      ∧ (Guarded store.location.keyPrefix under →
          ∀ world : World, world.bucket.fixedPages = none →
            (∀ start visitor, ∃ walk : Walk,
              (store.walkFrom under start visitor).Yields world (.ok walk) world
                ∧ store.Confines walk)
            ∧ ∀ limit told, ∃ walk : Walk,
              (store.list under limit told).Yields world (walk.result.map fun _ => walk.names) world
                ∧ store.Confines walk)
      ∧ (¬Guarded store.location.keyPrefix under → store.backend ≠ .files →
          ∃ world : World, world.fault = none ∧ world.bucket.fixedPages = none
            ∧ ∃ walk : Walk, (store.walk under {}).Yields world (.ok walk) world
              ∧ ¬store.Confines walk) := by
  refine ⟨guarded_of_dotless hbase, fun hguarded world hpages => ⟨?_, ?_⟩, ?_⟩
  · intro start visitor
    exact ⟨_, walkFrom_yields store under start visitor world,
      walkOf_confined hbase hguarded hpages start visitor⟩
  · intro limit told
    have hlist := list_yields store under limit told world
    unfold listed at hlist
    by_cases hlimit : limit ≤ 0
    · rw [if_pos hlimit] at hlist
      exact ⟨Walk.ending .exhausted, hlist, List.forall_mem_nil _⟩
    · rw [if_neg hlimit] at hlist
      exact ⟨_, hlist, walkOf_confined hbase hguarded hpages "" _⟩
  · intro hopen hbackend
    have hquery := mt (startsWith_queryPrefix_iff hbase under).1 hopen
    have hkey : store.query under ++ "x" ≠ "" := by
      intro hempty
      have hnil := congrArg String.toList hempty
      simp at hnil
    have hstarts : Text.startsWith (store.query under) (store.query under ++ "x") = true := by
      unfold Text.startsWith
      rw [List.isPrefixOf_iff_prefix, String.toList_append]
      exact List.prefix_append _ _
    refine ⟨holding (store.query under ++ "x"), rfl, rfl, _, walkFrom_yields store under "" {} _, ?_⟩
    intro hconfined
    have hvisits := visits_holding hbackend hkey hstarts
    have hvisit := hconfined ⟨store.query under ++ "x", store.naming.name (store.query under ++ "x")⟩
      (by rw [hvisits]; exact List.mem_singleton_self _)
    exact not_startsWith_append_letter hquery hvisit.1

section Sample

theorem enumeration_confined_iff_rack :
    Relative (rack "/root" "").location.keyPrefix ∧ Guarded "root" "x/../y"
      ∧ ∃ walk : Walk,
        ((rack "/root" "").walkFrom "x/../y" "z" {}).Yields (holding "root-other/y") (.ok walk)
            (holding "root-other/y")
          ∧ (rack "/root" "").Confines walk := by
  have hbase : Relative (rack "/root" "").location.keyPrefix := by decide
  have hguarded : Guarded "root" "x/../y" := by decide
  obtain ⟨-, hconfined, -⟩ := enumeration_confined_iff (rack "/root" "") hbase "x/../y"
  exact ⟨hbase, hguarded, (hconfined hguarded (holding "root-other/y") rfl).1 "z" {}⟩

namespace Files

open Depot.Files Depot.Files.Tree

def whole : Store :=
  { backend := .files, location := ⟨"file", "", "/"⟩ }

def house : Store :=
  { backend := .files, location := ⟨"file", "", "/root"⟩ }

def nextDoor : World :=
  { tree := (bare.tree.insert ["root-other"] .directory).insert ["x", "root-other"] (.file .empty) }

theorem rooted_whole : Rooted whole [] :=
  ⟨by decide, by decide⟩

theorem stocked_nextDoor : Stocked whole ["root-other/x"] nextDoor.tree := by
  have houter : (bare.tree.insert ["root-other"] .directory).Sound :=
    sound_bare.insert rfl (by simp) (.inl rfl)
  have hplace : objectPlace whole "root-other/x" = ["x", "root-other"] := by
    rw [rooted_whole.objectPlace_eq (by decide)]
    decide
  refine ⟨houter.insert (by decide) (by simp) (.inr (by decide)), by simp, by decide, ?_, ?_, ?_⟩
  · rw [List.forall_mem_singleton, objectPathname]
    exact ⟨by decide, by decide⟩
  · rw [List.forall_mem_singleton, hplace]
    exact ⟨.empty, rfl⟩
  · intro place raw hfile
    refine ⟨"root-other/x", List.mem_singleton_self _, ?_⟩
    rw [hplace]
    by_cases hinner : place = ["x", "root-other"]
    · exact hinner
    · unfold nextDoor at hfile
      rw [get?_insert_of_ne _ _ hinner] at hfile
      by_cases hdir : place = ["root-other"]
      · rw [hdir] at hfile
        cases hfile
      · rw [get?_insert_of_ne _ _ hdir] at hfile
        exact absurd hfile (fileless_bare place raw)

theorem listing_nextDoor : listing nextDoor.tree "root" = [.key "root-other/x"] := by
  have hkey : whole.key "root-other/x" = "root-other/x" := by decide
  have hscannable : Scannable "root" := ⟨by decide, ⟨by decide, by decide⟩⟩
  rw [listing_eq stocked_nextDoor rooted_whole hscannable]
  unfold keysOf
  rw [List.map_singleton, hkey, List.filter_cons_of_pos (by decide), List.filter_nil,
    List.mergeSort_singleton]
  rfl

end Files

/-- Asked for the dot, both kinds of stores visit what is beside their base. -/
theorem sibling_visited :
    (∃ walk : Walk,
        ((rack "/root" "").walk "." {}).Yields (holding "root-other/x") (.ok walk)
            (holding "root-other/x")
          ∧ walk.visits = [⟨"root-other/x", "root-other/x"⟩])
      ∧ (∃ walk : Walk,
        (Files.house.walk "." {}).Yields Files.nextDoor (.ok walk) Files.nextDoor
          ∧ walk.visits = [⟨"root-other/x", "root-other/x"⟩])
      ∧ Text.startsWith "root/" "root-other/x" = false := by
  have hvisits : ((rack "/root" "").walkOf (holding "root-other/x") "." "" {}).visits
      = [⟨"root-other/x", "root-other/x"⟩] :=
    visits_holding (by decide) (by decide) (by decide)
  have hvisits' : (Files.house.walkOf Files.nextDoor "." "" {}).visits
      = [⟨"root-other/x", "root-other/x"⟩] := by
    have hquery : Files.house.query "." = "root" := by decide
    unfold walkOf
    rw [hquery]
    unfold Store.listing Files.house
    dsimp only
    rw [Files.listing_nextDoor]
    decide
  exact ⟨⟨_, walkFrom_yields _ "." "" {} _, hvisits⟩, ⟨_, walkFrom_yields _ "." "" {} _, hvisits'⟩,
    by decide⟩

end Sample

end Store

end Depot
