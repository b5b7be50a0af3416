import Depot.Proofs.Naming
import Depot.Proofs.Store.Scans
import Depot.Proofs.Store.Sessions
import Depot.Proofs.Store.Views

/-!
This module contains what there is below a clean base if all of it was written through the store: the
objects of its names. What the store lists are their keys, in ascending order and from an offset on.
-/

namespace Depot

open Depot.Path

namespace Location.Footed

variable {location : Location} {outer : List Component} (h : location.Footed outer)

include h

theorem tidy : location.Tidy :=
  tidy_of_spelled (settled_of_plain h.plain) h.keyPrefix_eq

theorem clean : location.Clean := by
  unfold Clean Relative
  rw [h.keyPrefix_eq]
  by_cases hnil : outer = []
  · rw [hnil]
    exact .inl rfl
  · right
    rw [String.toList_ofList, Text.splitOn_joinWith hnil fun c hc => (h.plain c hc).slashless]
    exact h.plain

end Location.Footed

namespace Store

variable {store : Store} {world : World} {name : String}

/-- Whether a name with its extension is a clean relative path, and not that of a staging file. -/
structure Orderly (store : Store) (name : String) : Prop where
  relative : Relative (store.naming.withExtension name)
  unstaged : store.backend = .files →
    Files.isStaging ((Files.parts store name).getLastD "") = false

def Keeps (store : Store) (world : World) (name : String) : Prop :=
  store.Orderly name ∧ ∃ raw, store.Has world name raw

theorem keeps_calm (store : Store) (world : World) (name : String) :
    store.Keeps world.calm name ↔ store.Keeps world name := by
  unfold Keeps
  simp only [has_calm]

theorem Orderly.key_ne (h : store.Orderly name) : store.key name ≠ "" := by
  intro hempty
  have hsettled := Files.settled_pieces h.relative
  have hsplit := Files.splitOn_storeKey h.relative
  rw [hempty] at hsplit
  have hmem : [] ∈ Files.pieces store name := by
    rw [← hsplit]
    exact List.mem_singleton_self _
  exact (hsettled.ne [] hmem).1 rfl

def Blank (store : Store) (world : World) : Prop :=
  match store.backend with
  | .files => ∀ place bytes, Files.isWithin (Files.basePlace store world.tree) place = true →
      world.tree.get? place ≠ some (.file bytes)
  | .gcs | .s3 => ∀ key, Text.startsWith (store.query "") key = true →
      world.bucket.has key = false

/-- Whether all there is below the base of a store are the objects of its names. -/
structure Owned (store : Store) (world : World) : Prop where
  sound : world.tree.Sound
  of_file : store.backend = .files → ∀ place raw,
    Files.isWithin (Files.basePlace store world.tree) place = true →
    world.tree.get? place = some (.file raw) →
    ∃ name, store.Keeps world name ∧ place = Files.objectPlace store name
  of_key : store.backend ≠ .files → ∀ key, Text.startsWith (store.query "") key = true →
    world.bucket.has key = true → ∃ name, store.Keeps world name ∧ key = store.key name

theorem Owned.calm (h : store.Owned world) : store.Owned world.calm := by
  refine ⟨h.sound, ?_, ?_⟩
  · intro hfiles place raw hwithin hfile
    simp only [keeps_calm]
    exact h.of_file hfiles place raw hwithin hfile
  · intro hbackend key hbelow hhas
    simp only [keeps_calm]
    exact h.of_key hbackend key hbelow hhas

end Store

namespace Session

variable {root store : Store} {origin : World} {session session' : Session}

/-- What a session keeps, whatever there was at the start. -/
structure Traced (origin : World) (session : Session) : Prop where
  sourced : Sourced origin session.entries session.world
  fits : ∀ entry ∈ session.entries, entry.store.backend = .files →
    Store.Files.Within entry.store origin.tree entry.name
      ∧ (Store.Files.objectPathname entry.store entry.name).Fits

namespace Traced

theorem start (hsound : origin.tree.Sound) (root : Store) : Traced origin ⟨[root], [], origin⟩ :=
  ⟨⟨hsound, rfl, fun _ _ hget => .inl hget, fun _ _ hget => .inl hget⟩, List.forall_mem_nil _⟩

theorem step (h : Traced origin session) (hstep : Step origin session session') :
    Traced origin session' := by
  cases hstep with
  | write hstore name source overwrite fault hhonest hperform =>
    obtain ⟨hsourced, hwrote⟩ := h.sourced.write hhonest hperform
    refine ⟨hsourced, ?_⟩
    intro entry hentry hfiles
    rcases mem_recorded hentry with ⟨hstored, rfl⟩ | hold
    · have hhas := (Store.has_files_iff_get? hsourced.sound hfiles).1 (hwrote hstored).2
      exact ⟨hhas.1.congr hsourced.current_eq.symm, hhas.2.1⟩
    · exact h.fits entry hold hfiles
  | delete hstore name fault hperform => exact ⟨h.sourced.delete hperform, h.fits⟩
  | subStore hstore segment fault hperform hclear => exact ⟨h.sourced.subStore hperform, h.fits⟩

end Traced

theorem Reached.traced (hsound : origin.tree.Sound) (h : Reached root origin session) :
    Traced origin session := by
  induction h with
  | start => exact .start hsound root
  | step _ hstep ih => exact ih.step hstep

theorem Reached.owned (hsound : origin.tree.Sound) (hblank : store.Blank origin)
    (h : Reached root origin session)
    (hentries : ∀ entry ∈ session.entries, entry.store = store ∧ store.Orderly entry.name) :
    store.Owned session.world := by
  obtain ⟨hsourced, hfits⟩ := h.traced hsound
  refine ⟨hsourced.sound, ?_, ?_⟩
  · intro hfiles place raw hwithin hfile
    rcases hsourced.file_of place raw hfile with horigin | ⟨entry, hentry, rfl, rfl⟩
    · have hnone := hblank
      unfold Store.Blank at hnone
      rw [hfiles] at hnone
      refine absurd horigin (hnone place raw ?_)
      unfold Store.Files.basePlace at hwithin ⊢
      rw [← Files.Tree.startOf_congr hsourced.current_eq]
      exact hwithin
    · obtain ⟨hstore, horderly⟩ := hentries entry hentry
      have hplaced := hfits entry hentry
      rw [hstore] at hfile hplaced ⊢
      obtain ⟨hinside, hshort⟩ := hplaced hfiles
      have hhas : store.Has session.world entry.name (store.raw entry.source) :=
        (Store.has_files_iff_get? hsourced.sound hfiles).2
          ⟨hinside.congr hsourced.current_eq, hshort, hfile⟩
      exact ⟨entry.name, ⟨horderly, _, hhas⟩, rfl⟩
  · intro hbackend key hbelow hhas
    have hsome := hhas
    unfold Cloud.Bucket.has at hsome
    obtain ⟨bytes, hget⟩ := Option.isSome_iff_exists.1 hsome
    rcases hsourced.body_of key bytes hget with horigin | ⟨entry, hentry, rfl, -⟩
    · have hnone : origin.bucket.has key = false := by
        unfold Store.Blank at hblank
        split at hblank
        next hfiles => exact absurd hfiles hbackend
        · exact hblank key hbelow
        · exact hblank key hbelow
      unfold Cloud.Bucket.has at hnone
      rw [horigin] at hnone
      cases hnone
    · obtain ⟨hstore, horderly⟩ := hentries entry hentry
      rw [hstore] at hhas ⊢
      exact ⟨entry.name, ⟨horderly, (Store.exists_has_bucket_iff hbackend).2 hhas⟩, rfl⟩

end Session

namespace Store

variable {store : Store} {world : World} {name : String} {keys : List String}

/--
Whether a store lists the keys of some names in ascending order, the names of all its objects; and
from an offset on at least the keys that are not before it.
-/
structure Lists (store : Store) (world : World) (names : List String) : Prop where
  sorted : (names.map store.key).Pairwise (· < ·)
  mem_iff : ∀ name, name ∈ names ↔ store.Keeps world name
  listing_eq : ∀ offset, ∃ shown : String → Bool,
    (store.listing world (store.query "") offset).quiet
        = Listing.ofKeys ((names.map store.key).filter shown)
      ∧ ∀ key, Walk.isBefore offset key = false → shown key = true

theorem Lists.of_keys (hbase : store.location.Clean) (hsorted : keys.Pairwise (· ≤ ·))
    (hnodup : keys.Nodup)
    (hmem : ∀ key, key ∈ keys ↔ ∃ name, store.Keeps world name ∧ key = store.key name)
    (hlisting : ∀ offset, ∃ shown : String → Bool,
      (store.listing world (store.query "") offset).quiet = Listing.ofKeys (keys.filter shown)
        ∧ ∀ key, Walk.isBefore offset key = false → shown key = true) :
    store.Lists world (keys.map store.naming.name) := by
  have hname : ∀ {name}, store.Keeps world name → store.naming.name (store.key name) = name :=
    fun hkept => Naming.name_key hbase hkept.1.relative
  have hkeys : (keys.map store.naming.name).map store.key = keys := by
    rw [List.map_map]
    have hid : ∀ key ∈ keys, (store.key ∘ store.naming.name) key = id key := by
      intro key hkey
      obtain ⟨name, hkept, rfl⟩ := (hmem key).1 hkey
      rw [Function.comp_apply, hname hkept, id_eq]
    rw [List.map_congr_left hid, List.map_id]
  refine ⟨?_, ?_, ?_⟩
  · rw [hkeys]
    apply (hsorted.and hnodup).imp
    rintro key key' ⟨hle, hne⟩
    exact Classical.byContradiction fun hnot => hne (String.le_antisymm hle (String.not_lt.1 hnot))
  · intro name
    rw [List.mem_map]
    constructor
    · rintro ⟨key, hkey, rfl⟩
      obtain ⟨name, hkept, rfl⟩ := (hmem key).1 hkey
      rw [hname hkept]
      exact hkept
    · intro hkept
      exact ⟨store.key name, (hmem _).2 ⟨name, hkept, rfl⟩, hname hkept⟩
  · rw [hkeys]
    exact hlisting

namespace Files

open Depot.Files Depot.Files.Tree

variable {outer : List Component} {tree : Tree}

theorem eq_mk {p : Pathname} {start : Start} {names : List String} (hstart : p.start = start)
    (hnames : p.names = names) : p = ⟨start, names⟩ := by
  rw [← hstart, ← hnames]

theorem scanned_query (store : Store) : scanned (store.query "") = store.query "" := by
  have hquery : store.query "" = queryBase store.location.keyPrefix := queryPrefix_empty _
  rw [hquery]
  unfold queryBase
  split
  · rfl
  · unfold scanned
    rw [Text.endsWith_append, if_pos rfl]

theorem start_scanned_query (store : Store) : (keyPath (scanned (store.query ""))).start = .root := by
  have hquery : store.query "" = queryBase store.location.keyPrefix := queryPrefix_empty _
  rw [scanned_query, hquery]
  exact start_keyPath_of_head (head?_queryBase store.location.head?_keyPrefix)

section Footed

variable (h : store.location.Footed outer)

include h

theorem names_scanned_query :
    (keyPath (scanned (store.query ""))).names = outer.map String.ofList := by
  have hquery : store.query "" = queryBase store.location.keyPrefix := queryPrefix_empty _
  have hkey : store.location.keyPrefix = "/".intercalate (outer.map String.ofList) := by
    rw [h.keyPrefix_eq, ← String.toList_inj, Text.toList_intercalate, toList_ofList_map,
      String.toList_ofList]
  rw [hquery]
  unfold queryBase
  by_cases hnil : outer = []
  · rw [hkey, hnil]
    rfl
  · have hne : outer.map String.ofList ≠ [] := mt List.map_eq_nil_iff.1 hnil
    have hplain := plain_ofList_map h.plain
    rw [hkey, if_neg (intercalate_ne hne hplain), names_scanned_slash hne hplain]

theorem basePlace_of_footed (tree : Tree) :
    basePlace store tree = (outer.map String.ofList).reverse := by
  unfold basePlace
  rw [startOf_base_of_footed h, names_base_of_footed h, foldl_enter_plain, List.append_nil]
  exact fun part hpart => isDots_eq_of_plain (plain_ofList_map h.plain part hpart)

variable (hname : Relative (store.naming.withExtension name))

include hname

theorem objectPlace_of_footed :
    objectPlace store name = (outer.map String.ofList ++ parts store name).reverse := by
  rw [objectPlace_named hname]
  unfold pieces parts
  rw [named_append, h.outline_eq, named_plain h.plain, named_plain hname, List.map_append]

theorem key_of_footed :
    store.key name = "/".intercalate (outer.map String.ofList ++ parts store name) := by
  have hkey := Naming.toList_key hname
  have houtline : store.naming.location.outline = outer := h.outline_eq
  rw [← String.toList_inj, Text.toList_intercalate, List.map_append, toList_ofList_map]
  unfold parts
  rw [toList_ofList_map]
  unfold Store.key
  rw [hkey, houtline]

theorem objectPathname_of_footed :
    objectPathname store name = ⟨.root, outer.map String.ofList ++ parts store name⟩ := by
  have hhead : (store.key name).toList.head? ≠ some '/' := by
    have hkey := Naming.toList_key hname
    unfold Store.key
    rw [hkey]
    exact (settled_pieces hname).head?_ne
  have hstart : (objectPathname store name).start = .root := by
    rw [objectPathname]
    exact start_keyPath_of_head hhead
  have hnames := names_object_of_footed h hname
  rw [names_base_of_footed h] at hnames
  exact eq_mk hstart hnames

theorem scannable_of_has (hsound : world.tree.Sound) (hfiles : store.backend = .files)
    {raw : ByteArray} (hhas : store.Has world name raw) :
    Scannable (store.query "") ∧ (keyPath (scanned (store.query ""))).holdsZero = false
      ∧ world.tree.hasDirectory (keyPath (scanned (store.query ""))).names.reverse = true := by
  obtain ⟨hwithin, hfits, hget⟩ := (has_files_iff_get? hsound hfiles).1 hhas
  have hzero := hwithin.key_zero
  rw [objectPathname_of_footed h hname] at hfits hzero
  have hdirectory : keyPath (scanned (store.query "")) = ⟨.root, outer.map String.ofList⟩ :=
    eq_mk (start_scanned_query store) (names_scanned_query h)
  refine ⟨⟨?_, ?_⟩, ?_, ?_⟩
  · rw [hdirectory]
    exact fun part hpart => isDots_eq_of_plain (plain_ofList_map h.plain part hpart)
  · rw [hdirectory]
    exact Fits.of_isPrefix hfits (List.prefix_append _ _)
  · rw [hdirectory]
    unfold Pathname.holdsZero at hzero ⊢
    rw [List.any_append, Bool.or_eq_false_iff] at hzero
    exact hzero.1
  · have hne : (parts store name).reverse ≠ [] := mt List.reverse_eq_nil_iff.1 (parts_ne_nil store name)
    rw [objectPlace_of_footed h hname, List.reverse_append] at hget
    rw [hdirectory]
    apply hsound.hasDirectory_of_below hne
    rw [hget]
    simp

theorem has_of_objectPlace {name' : String} {raw : ByteArray} (hsound : world.tree.Sound)
    (hfiles : store.backend = .files) (hplace : objectPlace store name' = objectPlace store name)
    (hhas : store.Has world name' raw) : store.Has world name raw := by
  obtain ⟨hwithin, hfits, hget⟩ := (has_files_iff_get? hsound hfiles).1 hhas
  obtain ⟨cs, ⟨ups, plains, rfl, hplain⟩, hnames, hplace'⟩ :=
    exists_names_objectPathname store name'
  have hends : outer.map String.ofList ++ parts store name
      <:+ (objectPathname store name').names := by
    rw [hplace', objectPlace_of_footed h hname, List.reverse_inj, named_append, named_ups,
      List.nil_append, named_plain hplain] at hplace
    rw [hnames, List.map_append, hplace]
    exact List.suffix_append _ _
  have hstart : Start.root.render.utf8ByteSize
      ≤ (objectPathname store name').start.render.utf8ByteSize := by
    have hslash := start_objectPathname store name'
    cases hkind : (objectPathname store name').start with
    | current => exact absurd hkind hslash
    | root => exact Nat.le_refl _
    | doubleRoot => decide
  have hzero : (objectPathname store name).holdsZero = false := by
    have hzero' := hwithin.key_zero
    rw [objectPathname_of_footed h hname]
    unfold Pathname.holdsZero at hzero' ⊢
    rw [List.any_eq_false] at hzero' ⊢
    exact fun part hpart => hzero' part (hends.subset hpart)
  refine (has_files_iff_get? hsound hfiles).2
    ⟨within_of_footed h hname hzero world.tree, ?_, hplace ▸ hget⟩
  rw [objectPathname_of_footed h hname]
  exact Fits.of_isSuffix hfits hstart hends

end Footed

structure Spelled (store : Store) (world : World) : Prop where
  sound : world.tree.Sound
  of_file : ∀ place raw, isWithin (basePlace store world.tree) place = true →
    place ≠ basePlace store world.tree → world.tree.get? place = some (.file raw) →
    ∃ name, Relative (store.naming.withExtension name) ∧ store.Has world name raw
      ∧ place = objectPlace store name

theorem spelled_of_owned (howned : store.Owned world) (hfiles : store.backend = .files) :
    Spelled store world := by
  refine ⟨howned.sound, ?_⟩
  intro place raw hwithin _ hfile
  obtain ⟨name, ⟨horderly, raw', hhas⟩, rfl⟩ := howned.of_file hfiles place raw hwithin hfile
  have hget := ((has_files_iff_get? howned.sound hfiles).1 hhas).2.2
  rw [hfile] at hget
  cases hget
  exact ⟨name, horderly.relative, hhas, rfl⟩

section Spelled

variable (h : store.location.Footed outer) (hspelled : Spelled store world)
  (hdir : world.tree.hasDirectory (keyPath (scanned (store.query ""))).names.reverse = true)

include h hspelled hdir

theorem exists_of_below {place : Place} {raw : ByteArray}
    (hbelow : (keyPath (scanned (store.query ""))).names.reverse <:+ place)
    (hfile : world.tree.get? place = some (.file raw)) :
    ∃ name, Relative (store.naming.withExtension name) ∧ store.Has world name raw
      ∧ place = objectPlace store name := by
  rw [names_scanned_query h] at hbelow hdir
  apply hspelled.of_file place raw _ _ hfile
  · unfold isWithin
    rw [basePlace_of_footed h, List.isSuffixOf_iff_suffix]
    exact hbelow
  · rintro rfl
    rw [basePlace_of_footed h] at hfile
    rw [hasDirectory_iff, hfile] at hdir
    cases hdir

theorem legible_base : Legible world.tree (keyPath (scanned (store.query ""))).names.reverse := by
  intro place raw hbelow hfile
  obtain ⟨name, -, -, rfl⟩ := exists_of_below h hspelled hdir hbelow hfile
  exact plain_objectPlace store name

variable (hfiles : store.backend = .files)

include hfiles

theorem mem_keysBelow_base_iff {key : String} :
    key ∈ keysBelow world.tree (keyPath (scanned (store.query "")))
        (keyPath (scanned (store.query ""))).names.reverse (store.query "")
      ↔ ∃ name, store.Keeps world name ∧ key = store.key name := by
  have hhead : ∀ {name}, Relative (store.naming.withExtension name) →
      (objectPlace store name).headD "" = (parts store name).getLastD "" := by
    intro name hname
    rw [objectPlace_of_footed h hname, headD_reverse_append (parts_ne_nil store name)]
  rw [mem_keysBelow_iff hspelled.sound hdir]
  constructor
  · rintro ⟨-, place, raw, hbelow, hfile, -, hunstaged, rfl⟩
    obtain ⟨name, hname, hhas, rfl⟩ := exists_of_below h hspelled hdir hbelow hfile
    rw [hhead hname] at hunstaged
    refine ⟨name, ⟨⟨hname, fun _ => hunstaged⟩, raw, hhas⟩, ?_⟩
    rw [objectPlace_of_footed h hname, List.reverse_reverse, key_of_footed h hname]
  · rintro ⟨name, ⟨⟨hname, hunstaged⟩, raw, hhas⟩, rfl⟩
    obtain ⟨-, hfits, hget⟩ := (has_files_iff_get? hspelled.sound hfiles).1 hhas
    have hplace := objectPlace_of_footed h hname
    refine ⟨(Naming.startsWith_query_iff hname).2 h.tidy, _, raw, ?_, hget,
      entered_objectPlace hfits _, ?_, ?_⟩
    · rw [hplace, List.reverse_append, names_scanned_query h]
      exact List.suffix_append _ _
    · rw [hhead hname]
      exact hunstaged hfiles
    · rw [hplace, List.reverse_reverse, key_of_footed h hname]

theorem lists_of_directory (hscannable : Scannable (store.query ""))
    (hzero : (keyPath (scanned (store.query ""))).holdsZero = false) :
    ∃ names, store.Lists world names := by
  have hlegible := legible_base h hspelled hdir
  have hsorted : (keysBelow world.tree (keyPath (scanned (store.query "")))
      (keyPath (scanned (store.query ""))).names.reverse (store.query "")).Pairwise (· ≤ ·) :=
    sorted_keysBelow hspelled.sound
  refine ⟨_, .of_keys h.clean hsorted (hlegible.nodup_keysBelow hspelled.sound)
    (fun _ => mem_keysBelow_base_iff h hspelled hdir hfiles) ?_⟩
  intro offset
  refine ⟨fun _ => true, ?_, fun _ _ => rfl⟩
  unfold Store.listing
  rw [hfiles]
  dsimp only
  rw [listing_of_directory hscannable hspelled.sound hzero hdir, Listing.quiet_ofKeys,
    List.filter_eq_self.2 fun _ _ => rfl]

end Spelled

theorem lists (h : store.location.Footed outer) (howned : store.Owned world)
    (hfiles : store.backend = .files) (hkept : store.Keeps world name) :
    ∃ names, store.Lists world names := by
  obtain ⟨horderly, raw, hhas⟩ := hkept
  obtain ⟨hscannable, hzero, hdir⟩ :=
    scannable_of_has h horderly.relative howned.sound hfiles hhas
  exact lists_of_directory h (spelled_of_owned howned hfiles) hdir hfiles hscannable hzero

end Files

section Buckets

theorem lists_bucket (hbackend : store.backend ≠ .files) (hclean : store.location.Clean)
    (htidy : store.location.Tidy) (howned : store.Owned world) (hcalm : world.fault = none)
    (hpages : world.bucket.fixedPages = none) : ∃ names, store.Lists world names := by
  have hmem : ∀ key, key ∈ world.bucket.keysFrom (store.query "") none
      ↔ ∃ name, store.Keeps world name ∧ key = store.key name := by
    intro key
    unfold Cloud.Bucket.keysFrom
    rw [List.mem_filter, Cloud.Bucket.mem_sortedKeys, Option.all_none, Bool.and_true]
    constructor
    · rintro ⟨hhas, hbelow⟩
      exact howned.of_key hbackend key hbelow hhas
    · rintro ⟨name, ⟨horderly, hhas⟩, rfl⟩
      exact ⟨(exists_has_bucket_iff hbackend).1 hhas,
        (Naming.startsWith_query_iff horderly.relative).2 htidy⟩
  have hsorted : (world.bucket.keysFrom (store.query "") none).Pairwise (· ≤ ·) :=
    List.Pairwise.filter _ (Keys.sorted_mergeSort _)
  have hnodup : (world.bucket.keysFrom (store.query "") none).Nodup :=
    List.Pairwise.filter _ world.bucket.nodup_sortedKeys
  refine ⟨_, .of_keys hclean hsorted hnodup hmem ?_⟩
  intro offset
  unfold Store.listing
  cases hkind : store.backend with
  | files => exact absurd hkind hbackend
  | gcs =>
    refine ⟨fun key => offset.all (· ≤ key), ?_, fun key => Walk.isBefore_eq_false_iff.1⟩
    dsimp only
    rw [Cloud.Gcs.quiet_listing hcalm hpages, ← Cloud.Bucket.filter_startsWith_and]
    rfl
  | s3 =>
    refine ⟨fun key => (startAfter? offset).all (· < key), ?_, ?_⟩
    · have hafter : world.bucket.keysAfter (store.query "") (startAfter? offset)
          = (world.bucket.keysFrom (store.query "") none).filter fun key =>
            (startAfter? offset).all (· < key) := Cloud.Bucket.filter_startsWith_and _ _ _
      have hempty : "" ∉ world.bucket.keysAfter (store.query "") (startAfter? offset) := by
        rw [hafter]
        intro hkey
        obtain ⟨name, hkept, hname⟩ := (hmem "").1 (List.mem_filter.1 hkey).1
        exact hkept.1.key_ne hname.symm
      dsimp only
      rw [Cloud.S3.quiet_listing hcalm hpages _ hempty, hafter]
    · intro key hkey
      exact startAfter?_lt (Walk.isBefore_eq_false_iff.1 hkey)

end Buckets

theorem Owned.exists_lists (howned : store.Owned world) (hbase : store.Grounded)
    (hcalm : world.fault = none) (hpages : world.bucket.fixedPages = none)
    (hkept : store.Keeps world name) : ∃ names, store.Lists world names := by
  obtain ⟨outer, hfooted⟩ := hbase.footed
  by_cases hfiles : store.backend = .files
  · exact Files.lists hfooted howned hfiles hkept
  · exact lists_bucket hfiles hfooted.clean hfooted.tidy howned
      hcalm hpages

end Store

end Depot
