import Depot.Proofs.Store.Bounds
import Depot.Proofs.Store.Refinement

/-!
This module contains the proof that the scan of the one directory that a query is in lists all that a
scan of the whole tree does.
-/

namespace Depot

theorem Path.Asks.exists_names {query : String} (h : Asks query) :
    ∃ names : List String, (∀ part ∈ names, Plain part.toList)
      ∧ (query = "/".intercalate names ∨ names ≠ [] ∧ query = "/".intercalate names ++ "/") := by
  have hrelative : ∀ way, Relative way →
      ∃ names : List String, names ≠ [] ∧ (∀ part ∈ names, Plain part.toList)
        ∧ way = "/".intercalate names := by
    intro way hway
    refine ⟨(Text.splitOn '/' way.toList).map String.ofList, ?_, Files.plain_ofList_map hway, ?_⟩
    · rw [ne_eq, List.map_eq_nil_iff]
      exact Text.splitOn_ne_nil _ _
    · rw [← String.toList_inj, Text.toList_intercalate, Files.toList_ofList_map,
        Text.joinWith_splitOn]
  rcases h with rfl | hquery | ⟨way, hway, rfl⟩
  · exact ⟨[], List.forall_mem_nil _, .inl rfl⟩
  · obtain ⟨names, -, hplain, hnames⟩ := hrelative query hquery
    exact ⟨names, hplain, .inl hnames⟩
  · obtain ⟨names, hne, hplain, rfl⟩ := hrelative way hway
    exact ⟨names, hplain, .inr ⟨hne, rfl⟩⟩

namespace Store.Files

open Depot.Files Depot.Files.Tree

variable {tree : Tree} {query key : String} {place : Place} {raw : ByteArray}

def fullScan (tree : Tree) (query : String) : List String :=
  keysBelow tree ⟨.root, []⟩ [] query

/-- Whether all that is in a tree has a file name, as have the directories above it. -/
def Named (tree : Tree) : Prop :=
  ∀ place, tree.get? place ≠ none → ∀ part ∈ place, Proper part

theorem Named.insert (h : Named tree) (hplace : ∀ part ∈ place, Proper part) (node : Node) :
    Named (tree.insert place node) := by
  intro other hother
  by_cases hsame : other = place
  · rw [hsame]
    exact hplace
  · rw [get?_insert_of_ne tree node hsame] at hother
    exact h other hother

theorem Named.legible (h : Named tree) (directory : Place) : Legible tree directory := by
  intro place raw _ hfile part hpart
  exact (h place (by rw [hfile]; simp) part hpart).plain

theorem reverse_ne_nil_of_file (hfile : tree.get? place = some (.file raw)) : place.reverse ≠ [] := by
  rw [ne_eq, List.reverse_eq_nil_iff]
  rintro rfl
  cases hfile

theorem Named.below_scanned (h : Named tree) (hfile : tree.get? place = some (.file raw))
    (hkey : Text.startsWith query ("/".intercalate place.reverse) = true) :
    ∃ inner, inner ≠ [] ∧ place = inner ++ (keyPath (scanned query)).names.reverse := by
  have hplain : ∀ part ∈ place.reverse, Path.Plain part.toList := by
    intro part hpart
    exact h.legible [] place raw List.nil_suffix hfile part (List.mem_reverse.1 hpart)
  obtain ⟨inner, hinner, hnames⟩ := names_scanned (reverse_ne_nil_of_file hfile) hplain hkey
  refine ⟨inner.reverse, ?_, ?_⟩
  · rw [ne_eq, List.reverse_eq_nil_iff]
    exact hinner
  · rw [← List.reverse_append, ← hnames, List.reverse_reverse]

theorem start_scanned (hquery : Path.Asks query) : (keyPath (scanned query)).start = .root := by
  apply start_keyPath_of_head
  have hbegins : (scanned query).toList <+: query.toList := by
    rcases toList_scanned query with htext | htext
    · rw [htext]
      exact head_isPrefix _
    · rw [htext]
      exact (Text.dropWhileEnd_isPrefix _ _).trans (head_isPrefix _)
  obtain ⟨rest, hrest⟩ := hbegins
  have hhead := hquery.head?_ne
  rw [← hrest] at hhead
  cases hlist : (scanned query).toList with
  | nil => simp
  | cons c cs =>
    rw [hlist] at hhead
    exact hhead

def Refused (tree : Tree) (query : String) : Prop :=
  (keyPath (scanned query)).holdsZero = false ∧ tree.Overlong (keyPath (scanned query))

section FullScan

variable (hsound : tree.Sound)

include hsound

theorem mem_fullScan_iff :
    key ∈ fullScan tree query
      ↔ Text.startsWith query key = true
        ∧ ∃ place raw, tree.get? place = some (.file raw) ∧ Entered .root place
          ∧ isStaging (place.headD "") = false ∧ key = "/".intercalate place.reverse := by
  have hroot : tree.hasDirectory (Pathname.mk .root []).names.reverse = true := rfl
  have hbelow : ∀ place : Place, (Pathname.mk .root []).names.reverse <:+ place :=
    fun _ => List.nil_suffix
  have hmem : key ∈ fullScan tree query ↔ _ := mem_keysBelow_iff hsound hroot
  simp only [hbelow, true_and] at hmem
  exact hmem

theorem fullScan_eq_nil
    (h : ∀ place raw, tree.get? place = some (.file raw) →
      ¬Text.startsWith query ("/".intercalate place.reverse) = true) :
    fullScan tree query = [] := by
  rw [List.eq_nil_iff_forall_not_mem]
  intro key hkey
  obtain ⟨hstarts, place, raw, hfile, -, -, rfl⟩ := (mem_fullScan_iff hsound).1 hkey
  exact h place raw hfile hstarts

variable (hnamed : Named tree)

include hnamed

theorem sorted_fullScan (query : String) : (fullScan tree query).Pairwise (· < ·) := by
  have hle : (fullScan tree query).Pairwise (· ≤ ·) := sorted_keysBelow hsound
  have hne : (fullScan tree query).Nodup :=
    (hnamed.legible (Pathname.mk .root []).names.reverse).nodup_keysBelow hsound
  exact hle.imp₂ (fun _ _ => Std.lt_of_le_of_ne) hne

theorem keysBelow_eq_fullScan (hstart : (keyPath (scanned query)).start = .root)
    (hdir : tree.hasDirectory (keyPath (scanned query)).names.reverse = true) :
    keysBelow tree (keyPath (scanned query)) (keyPath (scanned query)).names.reverse query
      =
    fullScan tree query := by
  have hlegible := hnamed.legible (keyPath (scanned query)).names.reverse
  have hfull := sorted_fullScan hsound hnamed query
  -- Both are sorted without repetition, so it is enough that they have the same keys.
  apply Keys.eq_of_sorted (sorted_keysBelow hsound) (hfull.imp Std.le_of_lt)
  rw [List.perm_ext_iff_of_nodup (hlegible.nodup_keysBelow hsound) (hfull.imp String.ne_of_lt)]
  intro key
  rw [mem_keysBelow_iff hsound hdir, mem_fullScan_iff hsound, hstart]
  apply and_congr_right
  intro hkey
  constructor
  · rintro ⟨place, raw, -, hfile, hentered, hunstaged, rfl⟩
    exact ⟨place, raw, hfile, hentered, hunstaged, rfl⟩
  · rintro ⟨place, raw, hfile, hentered, hunstaged, rfl⟩
    obtain ⟨inner, -, hplace⟩ := hnamed.below_scanned hfile hkey
    have hbelow : (keyPath (scanned query)).names.reverse <:+ place := by
      rw [hplace]
      exact List.suffix_append _ _
    exact ⟨place, raw, hbelow, hfile, hentered, hunstaged, rfl⟩

theorem fullScan_of_not_directory
    (hdir : tree.hasDirectory (keyPath (scanned query)).names.reverse = false) :
    fullScan tree query = [] := by
  apply fullScan_eq_nil hsound
  intro place raw hfile hkey
  obtain ⟨inner, hinner, rfl⟩ := hnamed.below_scanned hfile hkey
  rw [hsound.get?_of_not_hasDirectory hdir hinner] at hfile
  cases hfile

theorem fullScan_of_zero (hzero : (keyPath (scanned query)).holdsZero = true) :
    fullScan tree query = [] := by
  apply fullScan_eq_nil hsound
  intro place raw hfile hkey
  obtain ⟨inner, hinner, rfl⟩ := hnamed.below_scanned hfile hkey
  have hfree : (keyPath (scanned query)).holdsZero = false := by
    apply holdsZero_eq_false
    intro part hpart
    have hmem := List.mem_append_right inner (List.mem_reverse.2 hpart)
    exact (hnamed _ (by rw [hfile]; simp) part hmem).zeroless
  rw [hfree] at hzero
  cases hzero

end FullScan

theorem dotless_scanned (hquery : Path.Asks query) :
    ∀ part ∈ (keyPath (scanned query)).names, isDots part = false := by
  obtain ⟨names, hnames, htext⟩ := hquery.exists_names
  intro part hpart
  exact isDots_eq_of_plain (hnames part ((names_scanned_isPrefix hnames htext).subset hpart))

theorem listing_of_not_refused (hsound : tree.Sound) (hnamed : Named tree)
    (hquery : Path.Asks query) (h : ¬Refused tree query) :
    listing tree query = Listing.ofKeys (fullScan tree query) := by
  have hroot := startOf_scanned tree query
  have hplain := dotless_scanned hquery
  unfold listing
  dsimp only
  cases hzero : (keyPath (scanned query)).holdsZero with
  | true =>
    rw [if_pos rfl, fullScan_of_zero hsound hnamed hzero]
    rfl
  | false =>
    have hfits : ¬tree.Overlong (keyPath (scanned query)) := fun hlong => h ⟨hzero, hlong⟩
    rw [if_neg Bool.false_ne_true, isDirectory_of_not_overlong hsound hroot hplain hfits]
    cases hdir : tree.hasDirectory (keyPath (scanned query)).names.reverse with
    | true =>
      rw [locate_of_hasDirectory hsound hroot hplain hfits hdir]
      exact congrArg Listing.ofKeys (keysBelow_eq_fullScan hsound hnamed (start_scanned hquery) hdir)
    | false =>
      rw [fullScan_of_not_directory hsound hnamed hdir]
      cases tree.locate (keyPath (scanned query)) with
      | error code => rfl
      | ok place => rfl

theorem listing_of_refused (hsound : tree.Sound) (hquery : Path.Asks query)
    (h : Refused tree query) :
    listing tree query
      = [.failed (.ofSystem (errorAt (keyPath (scanned query)) .nameTooLong))] :=
  listing_of_error h.1
    (isDirectory_of_overlong hsound (startOf_scanned tree query) (dotless_scanned hquery) h.2)

/--
The scan of the directory of a query is a scan of the whole tree: it lists in strictly ascending order
the paths of all files that start with the query, but for staging files and for the files of those
directories whose own pathname is too long to be scanned. Only a directory whose pathname is too long
to be looked up makes it fail.
-/
theorem listing_eq_fullScan (hsound : tree.Sound) (hnamed : Named tree) (hquery : Path.Asks query) :
    (fullScan tree query).Pairwise (· < ·)
      ∧ (∀ key, key ∈ fullScan tree query
          ↔ Text.startsWith query key = true
            ∧ ∃ place raw, tree.get? place = some (.file raw) ∧ Entered .root place
              ∧ isStaging (place.headD "") = false ∧ key = "/".intercalate place.reverse)
      ∧ (tree.hasDirectory (keyPath (scanned query)).names.reverse = false → fullScan tree query = [])
      ∧ (¬Refused tree query → listing tree query = Listing.ofKeys (fullScan tree query))
      ∧ (Refused tree query →
          listing tree query
            = [.failed (.ofSystem (errorAt (keyPath (scanned query)) .nameTooLong))]) :=
  ⟨sorted_fullScan hsound hnamed query, fun _ => mem_fullScan_iff hsound,
    fullScan_of_not_directory hsound hnamed, listing_of_not_refused hsound hnamed hquery,
    listing_of_refused hsound hquery⟩

section Sample

theorem named_bare : Named bare.tree := by
  intro place hplace
  rw [eq_nil_of_bare hplace]
  exact List.forall_mem_nil _

def mixed : Tree :=
  (((bare.tree.insert ["d"] .directory).insert ["x", "d"] (.file .empty)).insert ["d-x"]
    (.file .empty)).insert [".objstore-1.tmp", "d"] (.file .empty)

theorem sound_mixed : mixed.Sound := by
  have hnode : ∀ target, Node.file .empty ≠ .link target := by simp
  apply Sound.insert ?_ (by decide) hnode (.inr rfl)
  apply Sound.insert ?_ (by decide) hnode (.inr rfl)
  apply Sound.insert ?_ (by decide) hnode (.inr rfl)
  exact sound_bare.insert rfl (by simp) (.inl rfl)

theorem named_mixed : Named mixed :=
  (((named_bare.insert (by decide) _).insert (by decide) _).insert (by decide) _).insert
    (by decide) _

theorem listing_eq_fullScan_mixed :
    mixed.Sound ∧ Named mixed ∧ Path.Asks "d" ∧ ¬Refused mixed "d"
      ∧ listing mixed "d" = Listing.ofKeys (fullScan mixed "d")
      ∧ "d-x" ∈ fullScan mixed "d" ∧ "d/x" ∈ fullScan mixed "d"
      ∧ "d/.objstore-1.tmp" ∉ fullScan mixed "d" := by
  have hquery : Path.Asks "d" := .inr (.inl (by decide))
  have hfits : ¬Refused mixed "d" := fun h => not_overlong_of_fits ⟨by decide, by decide⟩ h.2
  obtain ⟨-, hmem, -, hlists, -⟩ := listing_eq_fullScan sound_mixed named_mixed hquery
  refine ⟨sound_mixed, named_mixed, hquery, hfits, hlists hfits, ?_, ?_, ?_⟩
  · exact (hmem "d-x").2 ⟨by decide, ["d-x"], .empty, rfl, by decide, rfl, rfl⟩
  · exact (hmem "d/x").2 ⟨by decide, ["x", "d"], .empty, rfl, by decide, rfl, rfl⟩
  · intro hstaging
    obtain ⟨-, place, raw, hfile, -, hunstaged, hkey⟩ := (hmem "d/.objstore-1.tmp").1 hstaging
    have hplain := named_mixed.legible [] place raw List.nil_suffix hfile
    have hnames : ["d", ".objstore-1.tmp"] = place.reverse :=
      intercalate_inj (by simp) (reverse_ne_nil_of_file hfile) (by decide)
        (fun part hpart => hplain part (List.mem_reverse.1 hpart)) hkey
    rw [← List.reverse_reverse place, ← hnames] at hunstaged
    cases hunstaged

def burrow (depth : Nat) : Tree :=
  match depth with
  | 0 => bare.tree
  | depth + 1 => (burrow depth).insert (List.replicate (depth + 1) (letters 208)) .directory

theorem burrow_spec (depth : Nat) :
    (burrow depth).Sound
      ∧ (∀ place, (burrow depth).get? place ≠ none → ∀ part ∈ place, part = letters 208)
      ∧ (burrow depth).hasDirectory (List.replicate depth (letters 208)) = true := by
  induction depth with
  | zero =>
    refine ⟨sound_bare, ?_, rfl⟩
    intro place hplace
    rw [eq_nil_of_bare hplace]
    exact List.forall_mem_nil _
  | succ depth ih =>
    obtain ⟨hsound, hparts, hdir⟩ := ih
    refine ⟨hsound.insert hdir (by simp) (.inl rfl), ?_, ?_⟩
    · intro place hplace
      by_cases hsame : place = List.replicate (depth + 1) (letters 208)
      · rw [hsame]
        exact fun part hpart => List.eq_of_mem_replicate hpart
      · unfold burrow at hplace
        rw [get?_insert_of_ne _ _ hsame] at hplace
        exact hparts place hplace
    · rw [hasDirectory_iff]
      exact get?_insert_self _ _ (List.cons_ne_nil _ _)

def buried : Tree :=
  (burrow 20).insert ("x" :: List.replicate 20 (letters 208)) (.file .empty)

theorem not_entered_buried : ¬Entered .root ("x" :: List.replicate 20 (letters 208)) := by
  have hwidth := Pathname.width_replicate (letters 208) 19
  simp only [utf8ByteSize_letters, Nat.reduceAdd] at hwidth
  unfold Entered takes
  rw [decide_eq_true_eq, List.tail_cons, List.reverse_replicate, Pathname.utf8ByteSize_render]
  unfold maxPathname
  dsimp only
  omega

theorem asks_letters : Path.Asks (letters 256 ++ "/") := by
  have hrelative : Path.Relative (letters 256) := by
    intro c hc
    rw [Text.splitOn_of_not_mem (plain_letters 253).slashless, List.mem_singleton] at hc
    rw [hc]
    exact plain_letters 253
  exact .inr (.inr ⟨letters 256, hrelative, rfl⟩)

theorem names_letters : (keyPath (scanned (letters 256 ++ "/"))).names = [letters 256] := by
  have hplain : ∀ part ∈ [letters 256], Path.Plain part.toList := by
    rw [List.forall_mem_singleton]
    exact plain_letters 253
  have hslash := names_scanned_slash (List.cons_ne_nil _ _) hplain
  rw [String.intercalate_singleton] at hslash
  exact hslash

theorem overlong_letters : bare.tree.Overlong (keyPath (scanned (letters 256 ++ "/"))) := by
  have hlong : isTooLong (letters 256) = true := by
    rw [isTooLong_letters]
    rfl
  right
  rw [names_letters]
  exact ⟨[], letters 256, [], rfl, rfl, hlong⟩

theorem listing_letters :
    bare.tree.Sound ∧ Named bare.tree ∧ Path.Asks (letters 256 ++ "/")
      ∧ (∀ place raw, bare.tree.get? place ≠ some (.file raw))
      ∧ ∀ keys, listing bare.tree (letters 256 ++ "/") ≠ Listing.ofKeys keys := by
  have hzero : (keyPath (scanned (letters 256 ++ "/"))).holdsZero = false := by
    apply holdsZero_eq_false
    rw [names_letters, List.forall_mem_singleton]
    exact zeroless_letters 256
  refine ⟨sound_bare, named_bare, asks_letters, fileless_bare, ?_⟩
  intro keys hlisting
  rw [listing_of_refused sound_bare asks_letters ⟨hzero, overlong_letters⟩] at hlisting
  cases keys with
  | nil => cases hlisting
  | cons key keys => cases hlisting

theorem proper_buried : ∀ part ∈ "x" :: List.replicate 20 (letters 208), Proper part :=
  List.forall_mem_cons.2
    ⟨by decide, fun part hpart => List.eq_of_mem_replicate hpart ▸ proper_letters⟩

theorem sound_buried : buried.Sound := by
  obtain ⟨hsound, hparts, hdir⟩ := burrow_spec 20
  have hfree : (burrow 20).get? ("x" :: List.replicate 20 (letters 208)) = none := by
    by_contra hthere
    have hsize := congrArg String.utf8ByteSize (hparts _ hthere "x" List.mem_cons_self)
    rw [utf8ByteSize_letters] at hsize
    exact absurd hsize (by decide)
  refine hsound.insert hdir (by simp) (.inr ?_)
  unfold hasDirectory
  rw [hfree]

theorem named_buried : Named buried := by
  obtain ⟨-, hparts, -⟩ := burrow_spec 20
  have hnamed : Named (burrow 20) :=
    fun place hplace part hpart => hparts place hplace part hpart ▸ proper_letters
  exact hnamed.insert proper_buried _

theorem listing_buried :
    buried.Sound ∧ Named buried
      ∧ buried.get? ("x" :: List.replicate 20 (letters 208)) = some (.file .empty)
      ∧ Item.key ("/".intercalate ("x" :: List.replicate 20 (letters 208)).reverse)
          ∉ listing buried "" := by
  refine ⟨sound_buried, named_buried, get?_insert_self _ _ (List.cons_ne_nil _ _), ?_⟩
  have hscannable : ¬Refused buried "" := fun h => not_overlong_of_fits ⟨by decide, by decide⟩ h.2
  rw [listing_of_not_refused sound_buried named_buried (.inl rfl) hscannable,
    Listing.key_mem_ofKeys, mem_fullScan_iff sound_buried]
  rintro ⟨-, place, raw, hfile, hentered, -, hkey⟩
  have hsame := intercalate_inj (by simp) (reverse_ne_nil_of_file hfile)
    (fun part hpart => (proper_buried part (List.mem_reverse.1 hpart)).plain)
    (fun part hpart => named_buried.legible [] place raw List.nil_suffix hfile part
      (List.mem_reverse.1 hpart)) hkey
  rw [← List.reverse_inj.1 hsame] at hentered
  exact not_entered_buried hentered

theorem listing_ne_fullScan :
    (bare.tree.Sound ∧ Named bare.tree ∧ Path.Asks (letters 256 ++ "/")
      ∧ (∀ place raw, bare.tree.get? place ≠ some (.file raw))
      ∧ ∀ keys, listing bare.tree (letters 256 ++ "/") ≠ Listing.ofKeys keys)
    ∧ buried.Sound ∧ Named buried ∧ Path.Asks ""
      ∧ ∃ place, buried.get? place = some (.file .empty) ∧ isStaging (place.headD "") = false
        ∧ Text.startsWith "" ("/".intercalate place.reverse) = true
        ∧ Item.key ("/".intercalate place.reverse) ∉ listing buried "" := by
  obtain ⟨hsound, hnamed, hfile, hmissing⟩ := listing_buried
  exact ⟨listing_letters, hsound, hnamed, .inl rfl, _, hfile, by decide, rfl, hmissing⟩

end Sample

end Store.Files

end Depot
