import Depot.Proofs.Store.Requests
import Depot.Proofs.Store.Scans
import Depot.Proofs.Walk.Course

/-!
This module contains flat maps from names to bodies, and what requests to them show: the plain
picture of a store in a directory.
-/

namespace Depot

namespace Walk

variable {toName : String → String} {visitor : Visitor} {seen : List String}

def told (w : Walk) : List String × WalkEnd :=
  (w.names, w.stop)

theorem told_afterVisit (visit : Visit) (w : Walk) :
    (w.afterVisit visit).told = (visit.name :: w.told.1, w.told.2) := rfl

theorem told_eq_of_shown {w w' : Walk} (h : w.shown = w'.shown) : w.told = w'.told := by
  have hstop : w.stop = w'.stop := congrArg Prod.snd h
  unfold told
  rw [names_eq_of_shown h, hstop]

theorem result_eq_of_told {w w' : Walk} (h : w.told = w'.told) : w.result = w'.result := by
  have hstop : w.stop = w'.stop := congrArg Prod.snd h
  have hlength := congrArg (fun told => told.1.length) h
  unfold told names at hlength
  rw [List.length_map, List.length_map] at hlength
  unfold result
  rw [hstop, hlength]

theorem ofWalk_eq_of_told {w w' : Walk} (h : w.told = w'.told) :
    Answer.ofWalk w = Answer.ofWalk w' :=
  Answer.ofWalk_eq_of_shown (congrArg Prod.fst h) (result_eq_of_told h)

theorem run_names (keys : List String) (seen : List String) :
    (run toName none visitor seen (Listing.ofKeys keys)).told
      =
    (run id none visitor seen (Listing.ofKeys (keys.map toName))).told := by
  induction keys generalizing seen with
  | nil => rfl
  | cons key keys ih =>
    have hnone : ∀ key, isBefore none key = false := fun key => rfl
    have hrest := ih (toName key :: seen)
    unfold Listing.ofKeys at hrest ⊢
    rw [List.map_cons, List.map_cons, List.map_cons, run_key, run_key, hnone, hnone, id_eq]
    split
    · rfl
    · rw [if_neg Bool.false_ne_true, if_neg Bool.false_ne_true]
      cases visitor.reply (toName key :: seen) with
      | some failure => rfl
      | none =>
        change told (afterVisit _ _) = told (afterVisit _ _)
        rw [told_afterVisit, told_afterVisit, hrest]

end Walk

abbrev Flat := Table String ByteArray

namespace Flat

variable {store : Store} {flat : Flat}

def under (store : Store) (flat : Flat) (query : String) : List String :=
  (flat.keys.filter fun name => Text.startsWith query (store.key name)).mergeSort fun name name' =>
    store.key name ≤ store.key name'

def from? (store : Store) (flat : Flat) (query : String) (offset : Option String) : List String :=
  (flat.under store query).filter fun name => offset.all (· ≤ store.key name)

/-- A walk over names. If it is cancelled from the start, it fails where there is any name. -/
def walk (store : Store) (flat : Flat) (under start : String) (visitor : Visitor) : Walk :=
  let query := store.query under
  if visitor.cancelled [] && !(flat.under store query).isEmpty then
    Walk.ending (.failed Walk.cancelledFailure)
  else
    Walk.run id none visitor []
      (Listing.ofKeys (flat.from? store query (Path.startOffset? query start)))

def perform (store : Store) (flat : Flat) (request : Request) : Answer × Flat :=
  match request with
  | .write name source overwrite =>
    match source.content with
    | .error failure => (Answer.of .flag (.error failure), flat)
    | .ok body =>
      if !store.mayReplace overwrite && (flat.get? name).isSome then (.flag false, flat)
      else (.flag true, flat.insert name body)
  | .read name =>
    match flat.get? name with
    | some body => (.body body, flat)
    | none => (.absent, flat)
  | .contains name => (.flag (flat.get? name).isSome, flat)
  | .delete name =>
    if (flat.get? name).isSome then (.done, flat.erase name) else (.absent, flat)
  | .list under limit _ => (.names ((flat.under store (store.query under)).take limit.toNat), flat)
  | .walk under visitor => (.ofWalk (flat.walk store under "" visitor), flat)
  | .walkFrom under start visitor => (.ofWalk (flat.walk store under start visitor), flat)

def serve (store : Store) (flat : Flat) : List Request → List Answer × Flat
  | [] => ([], flat)
  | request :: requests =>
    let (answer, flat) := flat.perform store request
    let (answers, flat) := serve store flat requests
    (answer :: answers, flat)

section Walks

open Store.Files

variable {world : World} {outer : List String} {query : String}

theorem keysOf_eq (store : Store) (flat : Flat) (query : String) :
    keysOf store flat.keys query = (flat.under store query).map store.key := by
  unfold keysOf under
  rw [List.filter_map, List.map_mergeSort (s := fun key key' => decide (key ≤ key'))]
  · rfl
  · intro name _ name' _
    rfl

theorem sorted_under (store : Store) (flat : Flat) (query : String) :
    ((flat.under store query).map store.key).Pairwise (· ≤ ·) := by
  rw [← keysOf_eq]
  exact Keys.sorted_mergeSort _

theorem mem_keys_of_mem_under {name : String} (h : name ∈ flat.under store query) :
    name ∈ flat.keys := by
  unfold under at h
  rw [List.mem_mergeSort] at h
  exact (List.mem_filter.1 h).1

theorem filter_keys (store : Store) (flat : Flat) (query : String) (offset : Option String) :
    ((flat.under store query).map store.key).filter (fun key => !Walk.isBefore offset key)
      =
    (flat.from? store query offset).map store.key := by
  rw [List.filter_map]
  unfold from?
  congr 1
  apply List.filter_congr
  intro name _
  rw [Function.comp_apply, Bool.eq_iff_iff, Bool.not_eq_true', Walk.isBefore_eq_false_iff]

theorem told_walkOf (hbackend : store.backend = .files) (hrooted : Rooted store outer)
    (hstocked : Stocked store flat.keys world.tree) {under : String}
    (hquery : Scannable (store.query under)) (start : String) (visitor : Visitor) :
    (store.walkOf world under start visitor).told = (flat.walk store under start visitor).told := by
  have hlisting : ∀ offset, store.listing world (store.query under) offset
      = Listing.ofKeys ((flat.under store (store.query under)).map store.key) := by
    intro offset
    unfold Store.listing
    rw [hbackend]
    dsimp only
    rw [listing_eq hstocked hrooted hquery, keysOf_eq]
  have hnames : ∀ offset, ((flat.from? store (store.query under) offset).map store.key).map
      store.naming.name = flat.from? store (store.query under) offset := by
    intro offset
    apply Store.map_name_key hrooted.clean
    intro name hname
    have hmem := mem_keys_of_mem_under (List.mem_filter.1 hname).1
    exact (hstocked.clean name hmem).relative
  unfold Store.walkOf walk
  dsimp only
  rw [hlisting]
  -- A walk cancelled from the start fails at the first key, even one before the offset.
  cases hcancel : visitor.cancelled [] with
  | true =>
    cases hunder : flat.under store (store.query under) with
    | nil =>
      unfold from?
      rw [hunder]
      rfl
    | cons name names =>
      rw [List.map_cons]
      exact Walk.told_eq_of_shown (Walk.run_cancelled hcancel _ _)
  | false =>
    rw [Bool.false_and, if_neg Bool.false_ne_true,
      Walk.told_eq_of_shown (Walk.run_filter (sorted_under store flat _) hcancel), filter_keys,
      Walk.run_names, hnames]

theorem listed_eq (hbackend : store.backend = .files) (hrooted : Rooted store outer)
    (hstocked : Stocked store flat.keys world.tree) {under : String}
    (hquery : Scannable (store.query under)) (limit : Int) :
    store.listed world under limit
      =
    .ok ((flat.under store (store.query under)).take limit.toNat) := by
  unfold Store.listed
  by_cases hlimit : limit ≤ 0
  · have hzero : limit.toNat = 0 := by omega
    rw [if_pos hlimit, hzero, List.take_zero]
  · -- A listing is a walk that stops at its limit.
    have htold := told_walkOf hbackend hrooted hstocked hquery "" (Walk.collector limit)
    have hwalk : flat.walk store under "" (Walk.collector limit)
        = Walk.run id none (Walk.collector limit) []
            (Listing.ofKeys (flat.under store (store.query under))) := by
      have hfrom : flat.from? store (store.query under) (Path.startOffset? (store.query under) "")
          = flat.under store (store.query under) := by
        unfold from?
        rw [List.filter_eq_self]
        exact fun name _ => rfl
      unfold walk
      dsimp only
      rw [hfrom]
      rfl
    obtain ⟨hnames, count, hresult⟩ := Walk.run_collector
      (flat.under store (store.query under)) (Int.not_le.1 hlimit)
    rw [hwalk] at htold
    have hnames' := congrArg Prod.fst htold
    have hresult' := Walk.result_eq_of_told htold
    unfold Walk.told at hnames'
    dsimp only at hnames'
    rw [if_neg hlimit]
    dsimp only
    rw [hnames', hnames, hresult', hresult]
    rfl

end Walks

end Flat

end Depot
