import Depot.Proofs.Location.Below
import Depot.Proofs.Store.Opening
import Depot.Proofs.Store.Peers
import Depot.Proofs.Store.Places
import Depot.Proofs.Walk

/-!
This module contains the theory of stores opened below others: such a store shows what is behind the
way that leads from the one to the other, and what is done to it there is done to the other one.
-/

namespace Depot

open Depot.Path Depot.Action

namespace Location

variable {location : Location} {outer : List Component} {segments : List String}

theorem foldl_join_eq (location : Location) (segments : List String) :
    segments.foldl join location
      =
    { location with path := (segments.foldl join location).path } := by
  induction segments generalizing location with
  | nil => rfl
  | cons segment segments ih =>
    rw [List.foldl_cons, ih]
    rfl

theorem Footed.foldl_join (h : location.Footed outer)
    (hsegments : ∀ segment ∈ segments, Relative segment) :
    (segments.foldl Location.join location).Footed
      (outer ++ segments.flatMap fun segment => Text.splitOn '/' segment.toList) := by
  induction segments generalizing location outer with
  | nil =>
    rw [List.flatMap_nil, List.append_nil]
    exact h
  | cons segment segments ih =>
    rw [List.forall_mem_cons] at hsegments
    rw [List.foldl_cons, List.flatMap_cons, ← List.append_assoc]
    exact ih (h.join hsegments.1) hsegments.2

end Location

namespace Store

variable {store child : Store} {way name : String} {outer : List Component}
  {segments : List String} {world : World}

namespace Files

open Depot.Files

variable {tree : Tree}

theorem base_of_footed (h : store.location.Footed outer) :
    base store = keyPath store.location.keyPrefix := by
  unfold base keyPath
  rw [h.keyPrefix_eq]
  rcases h.path_eq with hpath | ⟨rfl, hpath, -⟩
  · have hne : store.location.path ≠ "" := by
      intro hempty
      have hnil := congrArg String.toList (hpath.symm.trans hempty)
      rw [String.toList_ofList] at hnil
      cases hnil
    have htext : String.ofList (Path.render true outer)
        = "/" ++ String.ofList (Text.joinWith '/' outer) := by
      rw [← String.toList_inj]
      simp [Path.render]
    rw [if_neg hne, hpath, htext]
  · rw [if_pos hpath]
    rfl

theorem names_base_of_footed (h : store.location.Footed outer) :
    (base store).names = outer.map String.ofList := by
  have hsettled := settled_of_plain h.plain
  rw [base_of_footed h, names_keyPath, h.keyPrefix_eq, String.toList_ofList]
  by_cases hne : outer = []
  · rw [hne]
    rfl
  · rw [Text.splitOn_joinWith hne hsettled.slashless, Pathname.keptNames_settled hsettled]

theorem startOf_base_of_footed (h : store.location.Footed outer) (tree : Tree) :
    tree.startOf (base store) = [] := by
  apply startOf_of_ne_current
  rw [base_of_footed h]
  exact start_keyPath _

theorem names_object_of_footed (h : store.location.Footed outer)
    (hname : Relative (store.naming.withExtension name)) :
    (objectPathname store name).names
      =
    (base store).names
      ++ (Text.splitOn '/' (store.naming.withExtension name).toList).map String.ofList := by
  rw [names_objectPathname hname, names_base_of_footed h]
  unfold pieces
  rw [h.outline_eq, List.map_append]

theorem within_of_footed (h : store.location.Footed outer)
    (hname : Relative (store.naming.withExtension name))
    (hzero : (objectPathname store name).holdsZero = false) (tree : Tree) :
    Within store tree name := by
  have hnames := names_object_of_footed h hname
  have hdots : ∀ part ∈ (Text.splitOn '/' (store.naming.withExtension name).toList).map
      String.ofList, Tree.isDots part = false := by
    intro part hpart
    obtain ⟨c, hc, rfl⟩ := List.mem_map.1 hpart
    exact Pathname.isDots_of_plain (hname c hc)
  refine ⟨hzero, ?_, ?_⟩
  · unfold Pathname.holdsZero at hzero ⊢
    rw [hnames, List.any_append, Bool.or_eq_false_iff] at hzero
    exact hzero.1
  · have hstart := startOf_base_of_footed h tree
    unfold basePlace isWithin
    rw [startOf_objectPathname, hstart, hnames, List.foldl_append,
      Tree.foldl_enter_plain hdots, List.isSuffixOf_iff_suffix]
    exact List.suffix_append _ _

theorem checkedPath_of_footed (hsound : tree.Sound) (h : store.location.Footed outer)
    (hname : Relative (store.naming.withExtension name)) :
    checkedPath store name tree
      =
    if (objectPathname store name).holdsZero then
      .error (traversal store name (.malformed .zeroByte))
    else .ok (objectPathname store name) := by
  cases hzero : (objectPathname store name).holdsZero with
  | true =>
    unfold checkedPath
    rw [resolveFor_eq hsound, hzero]
    rfl
  | false => exact checkedPath_of_within hsound (within_of_footed h hname hzero tree)

theorem objectPath_alike {store' : Store} {name' : String} {outer' : List Component}
    (hsound : world.tree.Sound) (h : store.location.Footed outer)
    (hname : Relative (store.naming.withExtension name)) (h' : store'.location.Footed outer')
    (hname' : Relative (store'.naming.withExtension name'))
    (hkey : store'.key name' = store.key name) :
    (objectPath store name).Alike (objectPath store' name') world := by
  have hpath : objectPathname store' name' = objectPathname store name := by
    rw [objectPathname, objectPathname, hkey]
  apply Alike.of_yields (objectPath_yields_checkedPath store name world)
    (objectPath_yields_checkedPath store' name' world)
  rw [checkedPath_of_footed hsound h hname, checkedPath_of_footed hsound h' hname', hpath]
  split
  · rfl
  · rfl

end Files

structure Grounded (store : Store) : Prop where
  scheme_eq : store.location.scheme = store.backend.scheme
  host_ne : store.backend ≠ .files → store.location.host ≠ ""
  path_clean : Text.startsWith "/" store.location.path = true
      ∧ cleanJoin [store.location.path] = store.location.path
    ∨ store.backend ≠ .files ∧ store.location.path = ""

theorem Grounded.footed (h : Grounded store) : ∃ outer, store.location.Footed outer := by
  rcases h.path_clean with ⟨hslash, hclean⟩ | ⟨hbucket, hempty⟩
  · exact Location.Footed.of_clean hslash hclean
  · exact ⟨[], List.forall_mem_nil _, .inr ⟨rfl, hempty, h.host_ne hbucket⟩⟩

section Opening

theorem subStores_yields (store : Store) (segments : List String)
    (hscheme : store.location.scheme = store.backend.scheme)
    (hhost : store.backend ≠ .files → store.location.host ≠ "")
    (hmet : store.backend = .gcs → world.met (.bucket store.location.host) = none) :
    (segments.foldlM subStore store).Yields world
      (.ok { store with location := segments.foldl Location.join store.location }) world := by
  induction segments generalizing store with
  | nil => exact .pure store world
  | cons segment segments ih =>
    rw [List.foldlM_cons]
    exact (subStore_yields store segment hscheme hhost hmet).bind
      (ih { store with location := store.location.join segment } hscheme hhost hmet)

theorem subStores_clientless (store : Store) (segments : List String) :
    (segments.foldlM subStore store).Clientless := by
  induction segments generalizing store with
  | nil => exact .pure store
  | cons segment segments ih =>
    rw [List.foldlM_cons]
    exact (subStore_clientless store segment).bind ih

end Opening

structure Shows (store : Store) (way : String) (child : Store) : Prop where
  key_eq : ∀ name, child.key name = store.key (way ++ "/" ++ name)
  write : ∀ world name source overwrite, Relative (child.naming.withExtension name) →
    (store.backend = .files → world.tree.Sound) →
    (child.write name source overwrite).Alike (store.write (way ++ "/" ++ name) source overwrite)
      world
  openRaw : ∀ world name, Relative (child.naming.withExtension name) →
    (store.backend = .files → world.tree.Sound) →
    (child.openRaw name).Alike (store.openRaw (way ++ "/" ++ name)) world
  readBytes : ∀ world name, Relative (child.naming.withExtension name) →
    (store.backend = .files → world.tree.Sound) →
    (child.readBytes name).Alike (store.readBytes (way ++ "/" ++ name)) world
  contains : ∀ world name, Relative (child.naming.withExtension name) →
    (store.backend = .files → world.tree.Sound) →
    (child.contains name).Alike (store.contains (way ++ "/" ++ name)) world
  delete : ∀ world name, Relative (child.naming.withExtension name) →
    (store.backend = .files → world.tree.Sound) →
    (child.delete name).Alike (store.delete (way ++ "/" ++ name)) world
  walkFrom : ∀ world under start visitor visitor',
    Walk.Likened child.naming.name store.naming.name visitor visitor' →
    ∃ walk : Walk, (child.walkFrom under start visitor).Yields world (.ok walk) world
      ∧ (store.walkFrom (way ++ "/" ++ under) start visitor').Yields world
          (.ok (walk.renamed store.naming.name)) world
      ∧ ∀ visit ∈ walk.visits, visit.name = child.naming.name visit.key
  name_iff : ∀ rest,
    store.naming.name (child.location.keyPrefix ++ "/" ++ rest)
        = way ++ "/" ++ child.naming.name (child.location.keyPrefix ++ "/" ++ rest)
      ↔ ¬child.naming.Overlaps rest

namespace Shows

section Under

variable (hunder : store.location.Under child.location way)

include hunder

theorem query_of_under (under : String) : child.query under = store.query (way ++ "/" ++ under) :=
  hunder.queryPrefix_eq under

theorem walkOf_of_under (h : Peers store child) (world : World) (under start : String)
    {visitor visitor' : Visitor}
    (hvisitors : Walk.Likened child.naming.name store.naming.name visitor visitor') :
    store.walkOf world (way ++ "/" ++ under) start visitor'
      =
    (child.walkOf world under start visitor).renamed store.naming.name := by
  have hlisting : ∀ query offset,
      child.listing world query offset = store.listing world query offset := by
    intro query offset
    unfold listing
    rw [h.backend_eq, h.host_eq]
  unfold walkOf
  dsimp only
  rw [hlisting, query_of_under hunder]
  exact Walk.run_renamed hvisitors [] _

variable (hextension : child.extension = store.extension)

include hextension

theorem key_of_under (name : String) : child.key name = store.key (way ++ "/" ++ name) := by
  unfold key Naming.key naming Naming.withExtension
  dsimp only
  rw [hextension, hunder.cleanJoin_eq, ← String.append_assoc]

theorem relative_of_under (hname : Relative (child.naming.withExtension name)) :
    Relative (store.naming.withExtension (way ++ "/" ++ name)) := by
  have hlong := hunder.relative.append_slash hname
  unfold naming Naming.withExtension at hlong ⊢
  dsimp only at hlong ⊢
  rw [String.append_assoc, ← hextension]
  exact hlong

end Under

theorem of_under {outer below : List Component} (h : Peers store child)
    (hextension : child.extension = store.extension)
    (hunder : store.location.Under child.location way) (hfooted : store.location.Footed outer)
    (hbelow : child.location.Footed below) : Shows store way child := by
  have hkey : ∀ name, store.key (way ++ "/" ++ name) = child.key name :=
    fun name => (key_of_under hunder hextension name).symm
  have hpeers : Peers child store :=
    ⟨h.backend_eq.symm, h.host_eq.symm, h.compression_eq.symm, h.overwrite_eq.symm⟩
  have hpath : ∀ {world : World} {name : String}, Relative (child.naming.withExtension name) →
      (store.backend = .files → world.tree.Sound) → child.backend = .files →
      (Files.objectPath child name).Alike (Files.objectPath store (way ++ "/" ++ name)) world := by
    intro world name hname hsound hfiles
    rw [h.backend_eq] at hfiles
    exact Files.objectPath_alike (hsound hfiles) hbelow hname hfooted
      (relative_of_under hunder hextension hname) (hkey name)
  refine ⟨key_of_under hunder hextension, ?_, ?_, ?_, ?_, ?_, ?_, ?_⟩
  · intro world name source overwrite hname hsound
    exact hpeers.write (hkey name) (hpath hname hsound) source overwrite
  · intro world name hname hsound
    exact hpeers.openRaw (hkey name) (hpath hname hsound)
  · intro world name hname hsound
    exact hpeers.readBytes (hkey name) (hpath hname hsound)
  · intro world name hname hsound
    exact hpeers.contains (hkey name) (hpath hname hsound)
  · intro world name hname hsound
    exact hpeers.delete (hkey name) (hpath hname hsound)
  · intro world under start visitor visitor' hvisitors
    refine ⟨_, walkFrom_yields child under start visitor world, ?_, ?_⟩
    · rw [← walkOf_of_under hunder h world under start hvisitors]
      exact walkFrom_yields store _ start visitor' world
    · exact Walk.name_eq_of_mem_run [] _
  · intro rest
    unfold naming
    rw [hextension]
    exact Naming.name_under_iff hunder

end Shows

/--
A store that is opened below another one, step by step, has its settings and its client, and shows
what the other one has at the end of the way.
-/
theorem subStores_show (h : Grounded store) (hne : segments ≠ [])
    (hsegments : ∀ segment ∈ segments, Relative segment)
    (hmet : store.backend = .gcs → world.met (.bucket store.location.host) = none) :
    ∃ child, (segments.foldlM subStore store).Yields world (.ok child) world
      ∧ ((segments.foldlM subStore store).perform world).2.clients = world.clients
      ∧ child = { store with location := { store.location with path := child.location.path } }
      ∧ Shows store ("/".intercalate segments) child := by
  obtain ⟨outer, hfooted⟩ := h.footed
  have hbelow := hfooted.foldl_join hsegments
  have hway := Relative.intercalate hne hsegments
  have hunder : store.location.Under (segments.foldl Location.join store.location)
      ("/".intercalate segments) := by
    apply Location.Under.of_footed hfooted hway
    rw [Relative.splitOn_intercalate hne]
    exact hbelow
  have hlocation := Location.foldl_join_eq store.location segments
  have hhost : (segments.foldl Location.join store.location).host = store.location.host := by
    rw [hlocation]
  have hpeers :
      Peers store { store with location := segments.foldl Location.join store.location } :=
    ⟨rfl, hhost, rfl, rfl⟩
  refine ⟨_, subStores_yields store segments h.scheme_eq h.host_ne hmet,
    subStores_clientless store segments world, ?_, Shows.of_under hpeers rfl hunder hfooted hbelow⟩
  exact congrArg (fun location => { store with location }) hlocation

section Sample

def rack (path extension : String) : Store :=
  { backend := .gcs, location := ⟨"gs", "b", path⟩, extension }

def holding (key : String) : World :=
  { tree := { nodes := .empty }, bucket := { objects := Table.empty.insert key .empty } }

theorem grounded_rack (extension : String) : Grounded (rack "/a" extension) := by
  have hpath : Text.startsWith "/" "/a" = true ∧ cleanJoin ["/a"] = "/a" := by decide
  have hhost : "b" ≠ "" := by decide
  exact ⟨rfl, fun _ => hhost, .inl hpath⟩

theorem subStores_show_rack :
    ∃ child, (["b", "c"].foldlM subStore (rack "/a" ".x")).Yields (holding "k") (.ok child)
        (holding "k")
      ∧ Shows (rack "/a" ".x") "b/c" child := by
  have hmet : (holding "k").met (.bucket "b") = none := World.met_of_fault_none rfl _
  obtain ⟨child, hopen, -, -, hshows⟩ := subStores_show (grounded_rack ".x")
    (List.cons_ne_nil "b" ["c"]) (by decide) fun _ => hmet
  exact ⟨child, hopen, hshows⟩

theorem keysFrom_holding {key query : String} (h : Text.startsWith query key = true) :
    (holding key).bucket.keysFrom query none = [key] := by
  have hsorted : (holding key).bucket.sortedKeys = [key] := List.mergeSort_singleton key
  unfold Cloud.Bucket.keysFrom
  rw [hsorted, List.filter_cons_of_pos (by simp [h]), List.filter_nil]

theorem listing_rack (path extension : String) {key query : String}
    (h : Text.startsWith query key = true) (hne : query ≠ "") :
    (rack path extension).listing (holding key) query none
      =
    [.call (.listBlobs "b" (some query) none), .key key] := by
  have hpages : (holding key).bucket.fixedPages = none := rfl
  unfold listing Cloud.Gcs.listing
  dsimp only
  rw [hpages, if_neg hne]
  dsimp only
  rw [keysFrom_holding h]
  rfl

/-- Of an extension that reaches into the base of the store below, each tells another part. -/
theorem overlap_told :
    Grounded (rack "/a" "/c") ∧ Relative "b"
      ∧ ((rack "/a" "/c").subStore "b").Yields (holding "a/b/c") (.ok (rack "/a/b" "/c"))
          (holding "a/b/c")
      ∧ ((rack "/a/b" "/c").walkOf (holding "a/b/c") "" "" {}).visits = [⟨"a/b/c", "a/b"⟩]
      ∧ ((rack "/a" "/c").walkOf (holding "a/b/c") "b/" "" {}).visits = [⟨"a/b/c", "b"⟩] := by
  have hhost : "b" ≠ "" := by decide
  have hquery : (rack "/a/b" "/c").query "" = "a/b/" := by decide
  have hquery' : (rack "/a" "/c").query "b/" = "a/b/" := by decide
  have hstarts : Text.startsWith "a/b/" "a/b/c" = true := by decide
  have hmet : (holding "a/b/c").met (.bucket "b") = none := World.met_of_fault_none rfl _
  have hjoin : (rack "/a" "/c").location.join "b" = ⟨"gs", "b", "/a/b"⟩ := by decide
  refine ⟨grounded_rack "/c", by decide, ?_, ?_, ?_⟩
  · have hopen := subStore_yields (rack "/a" "/c") "b" rfl (fun _ => hhost)
      fun _ => hmet
    rw [hjoin] at hopen
    exact hopen
  · have hlisting := listing_rack "/a/b" "/c" hstarts (by decide)
    unfold walkOf
    rw [hquery]
    dsimp only [startOffset?]
    rw [if_pos rfl, hlisting]
    decide
  · have hlisting := listing_rack "/a" "/c" hstarts (by decide)
    unfold walkOf
    rw [hquery']
    dsimp only [startOffset?]
    rw [if_pos rfl, hlisting]
    decide

end Sample
end Store

end Depot
