import Depot.Proofs.Files.Growth
import Depot.Proofs.Store.Names
import Depot.Proofs.Walk

/-!
This module contains the theory of listings in directories: the keys that are listed are the paths of
the files there, and if the files of a tree are the objects of some names, they are those of the names.
-/

namespace Depot.Store.Files

open Depot.Files Depot.Files.Tree

variable {store : Store} {outer : List String} {name : String} {tree : Tree} {query : String}
  {place : Place} {names : List String}

section Head

def head (cs : List Char) : List Char :=
  (cs.reverse.dropWhile (· ≠ '/')).reverse

theorem head_cases (cs : List Char) : head cs = [] ∨ ∃ front, head cs = front ++ ['/'] := by
  unfold head
  have hfirst := List.head?_dropWhile_not (· ≠ '/') cs.reverse
  cases hdrop : cs.reverse.dropWhile (· ≠ '/') with
  | nil => exact .inl rfl
  | cons c rest =>
    rw [hdrop, List.head?_cons] at hfirst
    simp only [decide_eq_false_iff_not, ne_eq, Decidable.not_not] at hfirst
    right
    exact ⟨rest.reverse, by rw [hfirst, List.reverse_cons]⟩

theorem head_isPrefix (cs : List Char) : head cs <+: cs :=
  Text.dropWhileEnd_isPrefix _ cs

theorem head_append_slash (front : List Char) : head (front ++ ['/']) = front ++ ['/'] := by
  unfold head
  rw [List.reverse_append, List.reverse_singleton, List.singleton_append,
    List.dropWhile_cons_of_neg (by simp), List.reverse_cons, List.reverse_reverse]

theorem toList_scanned (query : String) :
    (scanned query).toList = head query.toList
      ∨ (scanned query).toList = Text.dropWhileEnd (· = '/') (head query.toList) := by
  unfold scanned
  split
  next hends =>
    left
    unfold Text.endsWith at hends
    rw [List.isSuffixOf_iff_suffix] at hends
    obtain ⟨front, hfront⟩ := hends
    rw [← hfront]
    exact (head_append_slash front).symm
  · dsimp only
    split
    · exact .inl String.toList_ofList
    · exact .inr String.toList_ofList

end Head

section Query

theorem names_scanned (hne : names ≠ []) (hnames : ∀ part ∈ names, Path.Plain part.toList)
    (h : Text.startsWith query ("/".intercalate names) = true) :
    ∃ inner, inner ≠ [] ∧ names = (keyPath (scanned query)).names ++ inner := by
  have hplain := plain_map hnames
  have hcomps : names.map String.toList ≠ [] := by
    rw [ne_eq, List.map_eq_nil_iff]
    exact hne
  unfold Text.startsWith at h
  rw [List.isPrefixOf_iff_prefix, Text.toList_intercalate] at h
  rw [names_keyPath]
  rcases head_cases query.toList with hnil | ⟨front, hfront⟩
  · have hempty : (scanned query).toList = [] := by
      rcases toList_scanned query with htext | htext
      · rw [htext, hnil]
      · rw [htext, hnil]
        rfl
    rw [hempty]
    exact ⟨names, hne, rfl⟩
  · -- The directory ends at a slash, so its components are whole ones.
    have hbegins := (head_isPrefix query.toList).trans h
    rw [hfront] at hbegins
    obtain ⟨inner, hinner, hsplit⟩ :=
      (Text.isPrefix_joinWith_iff hcomps fun c hc => (hplain c hc).slashless).1 hbegins
    have hsettled : Path.Settled (Text.splitOn '/' front) := by
      apply Path.settled_of_plain
      intro c hc
      apply hplain
      rw [hsplit]
      exact List.mem_append_left _ hc
    have hkept := Pathname.keptNames_settled hsettled
    have hnames : names = (Text.splitOn '/' front).map String.ofList ++ inner.map String.ofList := by
      rw [← List.map_append, ← hsplit, ofList_toList_map]
    have hlast : front.getLast? ≠ some '/' := by
      rw [← Text.joinWith_splitOn '/' front]
      apply Text.getLast?_joinWith
      · exact fun c hc => (hsettled.ne c hc).1
      · exact fun c hc => hsettled.slashless c hc
    refine ⟨inner.map String.ofList, ?_, ?_⟩
    · rw [ne_eq, List.map_eq_nil_iff]
      exact hinner
    · rcases toList_scanned query with htext | htext
      · rw [htext, hfront, Text.splitOn_append_sep, Pathname.keptNames_append, hkept]
        rw [Text.splitOn_nil]
        change _ = _ ++ [] ++ _
        rw [List.append_nil]
        exact hnames
      · rw [htext, hfront, Text.dropWhileEnd_append_sep hlast, hkept]
        exact hnames

theorem names_scanned_isPrefix (hnames : ∀ part ∈ names, Path.Plain part.toList)
    (hquery : query = "/".intercalate names ∨ names ≠ [] ∧ query = "/".intercalate names ++ "/") :
    (keyPath (scanned query)).names <+: names := by
  have hbelow : ∀ part ∈ names ++ ["x"], Path.Plain part.toList := by
    intro part hpart
    rcases List.mem_append.1 hpart with hpart | hpart
    · exact hnames part hpart
    · rw [List.mem_singleton] at hpart
      rw [hpart]
      decide
  -- The query starts the key of anything that is right below its components.
  have hstarts : Text.startsWith query ("/".intercalate (names ++ ["x"])) = true := by
    unfold Text.startsWith
    rw [List.isPrefixOf_iff_prefix]
    rcases hquery with rfl | ⟨hne, rfl⟩
    · by_cases hnil : names = []
      · rw [hnil, String.intercalate_nil]
        exact List.nil_prefix
      · rw [String.intercalate_append_of_ne_nil hnil (by simp), String.toList_append,
          String.toList_append, List.append_assoc]
        exact List.prefix_append _ _
    · rw [String.intercalate_append_of_ne_nil hne (by simp), String.toList_append,
        String.toList_append, String.toList_append]
      exact List.prefix_append _ _
  obtain ⟨last, hlast, hsplit⟩ := names_scanned (by simp) hbelow hstarts
  rcases List.prefix_concat_iff.1 ⟨last, hsplit.symm⟩ with hsame | hbegins
  · rw [hsame] at hsplit
    exact absurd (List.append_right_eq_self.1 hsplit.symm) hlast
  · exact hbegins

theorem filter_splitOn_slash {comps : List Path.Component} (hplain : ∀ c ∈ comps, Path.Plain c)
    (hne : comps ≠ []) {text : List Char}
    (htext : text = Text.joinWith '/' comps ∨ text = Text.joinWith '/' comps ++ ['/']) :
    (Text.splitOn '/' text).head? ≠ some [] ∧ (Text.splitOn '/' text).filter (· ≠ []) = comps := by
  have hsplit := Text.splitOn_joinWith hne fun c hc => (hplain c hc).slashless
  have hhead := Path.head?_plain hplain
  rcases htext with rfl | rfl
  · rw [hsplit]
    exact ⟨hhead, Path.filter_plain hplain⟩
  · rw [Text.splitOn_append_sep, hsplit, List.head?_append, List.filter_append,
      Path.filter_plain hplain, Text.splitOn_nil]
    obtain ⟨c, rest, rfl⟩ := List.exists_cons_of_ne_nil hne
    exact ⟨hhead, by simp⟩

theorem intercalate_ne (hne : names ≠ []) (hplain : ∀ part ∈ names, Path.Plain part.toList) :
    "/".intercalate names ≠ "" := by
  have hcomps : names.map String.toList ≠ [] := by
    rw [ne_eq, List.map_eq_nil_iff]
    exact hne
  have htext := Path.ofList_joinWith_ne hcomps (plain_map hplain)
  rw [← Text.toList_intercalate, String.ofList_toList] at htext
  exact htext

theorem pieces_of_plain (hne : names ≠ []) (hplain : ∀ part ∈ names, Path.Plain part.toList)
    {text : String}
    (htext : text = "/".intercalate names ∨ text = "/".intercalate names ++ "/") :
    text ≠ "" ∧ (Text.splitOn '/' text.toList).head? ≠ some []
      ∧ (Text.splitOn '/' text.toList).filter (· ≠ []) = names.map String.toList := by
  have hcomps : names.map String.toList ≠ [] := by
    rw [ne_eq, List.map_eq_nil_iff]
    exact hne
  have hchars : text.toList = Text.joinWith '/' (names.map String.toList)
      ∨ text.toList = Text.joinWith '/' (names.map String.toList) ++ ['/'] := by
    rw [← Text.toList_intercalate]
    rcases htext with rfl | rfl
    · exact .inl rfl
    · right
      rw [String.toList_append]
      rfl
  have hsplit := filter_splitOn_slash (plain_map hplain) hcomps hchars
  refine ⟨?_, hsplit⟩
  rintro rfl
  exact hsplit.1 rfl

theorem cleanJoin_base {inner : List String} (houter : ∀ part ∈ outer, Path.Plain part.toList)
    (hinner : ∀ part ∈ inner, Path.Plain part.toList) (hne : inner ≠ []) {under : String}
    (hunder : under = "/".intercalate inner ∨ under = "/".intercalate inner ++ "/") :
    Path.cleanJoin [if "/".intercalate outer = "" then "" else "/".intercalate outer ++ "/", under]
      =
    "/".intercalate (outer ++ inner) := by
  obtain ⟨hsome, hhead, hfilter⟩ := pieces_of_plain hne hinner hunder
  have hplain : ∀ c ∈ (outer ++ inner).map String.toList, Path.Plain c := by
    apply plain_map
    intro part hpart
    rcases List.mem_append.1 hpart with hpart | hpart
    · exact houter part hpart
    · exact hinner part hpart
  have hcomps : (outer ++ inner).map String.toList ≠ [] := by simp [hne]
  rw [← String.toList_inj, Text.toList_intercalate]
  by_cases hnil : outer = []
  · subst hnil
    rw [if_pos (by rfl), Path.cleanJoin_empty hsome, String.toList_ofList,
      Path.cleanChars_eq hhead hfilter hcomps hplain]
    rfl
  · have htext : "/".intercalate outer ++ "/" = "/".intercalate outer
        ∨ "/".intercalate outer ++ "/" = "/".intercalate outer ++ "/" := .inr rfl
    obtain ⟨hbase, hhead', hfilter'⟩ := pieces_of_plain hnil houter htext
    rw [if_neg (intercalate_ne hnil houter), Path.cleanJoin_of_ne hbase hsome, String.toList_ofList]
    apply Path.cleanChars_eq _ _ hcomps hplain
    · rw [Text.splitOn_append_sep, List.head?_append]
      obtain ⟨c, rest, hsplit⟩ := List.exists_cons_of_ne_nil
        (Text.splitOn_ne_nil '/' ("/".intercalate outer ++ "/").toList)
      rw [hsplit] at hhead' ⊢
      exact hhead'
    · rw [Text.splitOn_append_sep, List.filter_append, hfilter', hfilter, List.map_append]

section Below

variable {inner : List String} (hrooted : Rooted store outer)
  (hinner : ∀ part ∈ inner, Path.Plain part.toList)

include hrooted hinner

theorem query_slash (hne : inner ≠ []) :
    store.query ("/".intercalate inner ++ "/") = "/".intercalate (outer ++ inner) ++ "/" := by
  have houter : ∀ part ∈ outer, Path.Plain part.toList :=
    fun part hpart => (hrooted.proper part hpart).plain
  unfold Store.query Path.queryPrefix
  rw [hrooted.keyPrefix_eq]
  dsimp only
  rw [if_neg (pieces_of_plain hne hinner (.inr rfl)).1,
    cleanJoin_base houter hinner hne (.inr rfl), Text.endsWith_append, if_pos rfl]

theorem query_cases :
    store.query ("/".intercalate inner) = "/".intercalate (outer ++ inner)
      ∨ outer ++ inner ≠ []
        ∧ store.query ("/".intercalate inner) = "/".intercalate (outer ++ inner) ++ "/" := by
  have houter : ∀ part ∈ outer, Path.Plain part.toList :=
    fun part hpart => (hrooted.proper part hpart).plain
  unfold Store.query Path.queryPrefix
  rw [hrooted.keyPrefix_eq]
  dsimp only
  by_cases hnil : inner = []
  · subst hnil
    rw [if_pos (by rfl), List.append_nil]
    split
    next hbase => exact .inl hbase.symm
    next hbase =>
      refine .inr ⟨?_, rfl⟩
      rintro rfl
      exact hbase rfl
  · rw [if_neg (pieces_of_plain hnil hinner (.inl rfl)).1,
      cleanJoin_base houter hinner hnil (.inl rfl)]
    split
    · exact .inr ⟨by simp [hnil], rfl⟩
    · exact .inl rfl

end Below

end Query

section Below

theorem intercalate_inj {names' : List String} (hne : names ≠ []) (hne' : names' ≠ [])
    (hplain : ∀ part ∈ names, Path.Plain part.toList)
    (hplain' : ∀ part ∈ names', Path.Plain part.toList)
    (h : "/".intercalate names = "/".intercalate names') : names = names' := by
  have hmap := plain_map hplain
  have hmap' := plain_map hplain'
  have hsplit := Text.splitOn_joinWith (mt List.map_eq_nil_iff.1 hne) fun c hc => (hmap c hc).slashless
  have hsplit' :=
    Text.splitOn_joinWith (mt List.map_eq_nil_iff.1 hne') fun c hc => (hmap' c hc).slashless
  rw [← Text.toList_intercalate] at hsplit hsplit'
  rw [← ofList_toList_map names, ← ofList_toList_map names', ← hsplit, ← hsplit', h]

/-- Whether a scan from the root looks into the directory that a place is in. -/
def Entered (start : Start) (place : Place) : Prop :=
  takes ⟨start, place.tail.reverse⟩ = true

instance (start : Start) (place : Place) : Decidable (Entered start place) :=
  inferInstanceAs (Decidable (_ = _))

theorem entered_of_fits {start start' : Start} (hstart : start' ≠ .current)
    (hfits : Pathname.Fits ⟨start', place.reverse⟩) : Entered start place := by
  have hshort := of_decide_eq_false hfits.short
  have hle : start.render.utf8ByteSize ≤ 2 := by
    cases start <;> decide
  have hge : 1 ≤ start'.render.utf8ByteSize := by
    cases start' with
    | current => exact absurd rfl hstart
    | root => decide
    | doubleRoot => decide
  unfold Entered takes
  rw [decide_eq_true_eq, Pathname.utf8ByteSize_render]
  rw [Pathname.utf8ByteSize_render] at hshort
  dsimp only at hshort ⊢
  by_cases hnil : place.tail.reverse = []
  · rw [hnil, Pathname.width_nil]
    unfold maxPathname
    omega
  · cases place with
    | nil => exact absurd rfl hnil
    | cons last outer =>
      -- The name of the file and the slash before it make room for a second slash at the root.
      rw [List.tail_cons] at hnil ⊢
      rw [List.reverse_cons, Pathname.width_append hnil (List.cons_ne_nil _ _)] at hshort
      omega

theorem entered_objectPlace (hfits : (objectPathname store name).Fits) (start : Start) :
    Entered start (objectPlace store name) := by
  obtain ⟨ups, plains, hnames, hplain⟩ := settled_objectPathname store name
  have hplace : objectPlace store name = plains.reverse := by
    unfold objectPlace
    rw [hnames, List.foldl_append, foldl_enter_ups, foldl_enter_plain hplain, List.append_nil]
  have hends : plains <:+ (objectPathname store name).names := by
    rw [hnames]
    exact List.suffix_append _ _
  apply entered_of_fits (start_objectPathname store name)
  rw [hplace, List.reverse_reverse]
  exact Fits.of_isSuffix hfits le_rfl hends

theorem namesFrom_append (inner directory : Place) :
    namesFrom directory (inner ++ directory) = inner.reverse := by
  unfold namesFrom
  rw [List.length_append, Nat.add_sub_cancel, List.take_left]

theorem parent_descend (directory : Pathname) (inner : Place) :
    (directory.descend inner.reverse).parent
      =
    ⟨directory.start, (inner ++ directory.names.reverse).tail.reverse⟩ := by
  unfold Pathname.descend Pathname.parent
  dsimp only
  rw [← List.dropLast_reverse, List.reverse_append, List.reverse_reverse]

def filesIn (tree : Tree) (directory : Pathname) : List (Place × Node) :=
  tree.nodes.entries.filter fun (place, found) =>
    let full := directory.descend (namesFrom directory.names.reverse place)
    directory.names.reverse.isSuffixOf place && place ≠ directory.names.reverse
      && takes full.parent && tree.isListed full found

theorem filesBelow_eq (tree : Tree) (directory : Pathname) :
    tree.filesBelow directory directory.names.reverse
      =
    (filesIn tree directory).map fun entry => namesFrom directory.names.reverse entry.1 := rfl

theorem of_mem_filesIn (hsound : tree.Sound) {directory : Pathname} {entry : Place × Node}
    (h : entry ∈ filesIn tree directory) :
    (∃ raw, tree.get? entry.1 = some (.file raw)) ∧ Entered directory.start entry.1
      ∧ ∃ inner, inner ≠ [] ∧ entry.1 = inner ++ directory.names.reverse := by
  obtain ⟨place, node⟩ := entry
  obtain ⟨hmem, hlisted⟩ := List.mem_filter.1 h
  simp only [Bool.and_eq_true, List.isSuffixOf_iff_suffix, decide_eq_true_eq] at hlisted
  obtain ⟨⟨⟨⟨inner, rfl⟩, hne⟩, hentered⟩, hnode⟩ := hlisted
  have hinner : inner ≠ [] := by
    rintro rfl
    exact hne rfl
  rw [namesFrom_append, parent_descend] at hentered
  have hget : tree.get? (inner ++ directory.names.reverse) = some node := by
    unfold get?
    rw [if_neg]
    · exact (Table.get?_eq_some_iff _ _ _).2 hmem
    · rw [List.append_eq_nil_iff]
      exact fun hnil => hinner hnil.1
  cases node with
  | file raw => exact ⟨⟨raw, hget⟩, hentered, inner, hinner, rfl⟩
  | directory => cases hnode
  | link target => exact absurd hget (hsound.linkless _ target)

theorem mem_filesIn {directory : Pathname} {raw : ByteArray}
    (hfile : tree.get? place = some (.file raw)) (hbelow : directory.names.reverse <:+ place)
    (hentered : Entered directory.start place)
    (hdir : tree.hasDirectory directory.names.reverse = true) :
    (place, .file raw) ∈ filesIn tree directory := by
  refine List.mem_filter.2 ⟨?_, ?_⟩
  · apply (Table.get?_eq_some_iff _ _ _).1
    unfold get? at hfile
    split at hfile
    · cases hfile
    · exact hfile
  · obtain ⟨inner, rfl⟩ := hbelow
    simp only [Bool.and_eq_true, List.isSuffixOf_iff_suffix, decide_eq_true_eq]
    refine ⟨⟨⟨List.suffix_append _ _, ?_⟩, ?_⟩, rfl⟩
    · intro hsame
      rw [hsame] at hfile
      rw [hasDirectory_iff, hfile] at hdir
      cases hdir
    · rw [namesFrom_append, parent_descend]
      exact hentered

theorem headD_reverse_append {inner : List String} (hne : inner ≠ []) (outer : List String) :
    (outer ++ inner).reverse.headD "" = inner.getLastD "" := by
  rw [List.headD_eq_head?_getD, List.head?_reverse, List.getLast?_append,
    List.getLast?_eq_some_getLast hne, Option.some_or, List.getLastD_eq_getLast?,
    List.getLast?_eq_some_getLast hne]

theorem keysBelow_eq (hsound : tree.Sound) (directory : Pathname) (query : String) :
    keysBelow tree directory directory.names.reverse query
      =
    ((((filesIn tree directory).filter fun entry => !isStaging (entry.1.headD "")).map
      fun entry => "/".intercalate entry.1.reverse).filter (Text.startsWith query)).mergeSort := by
  have hfiles : (tree.filesBelow directory directory.names.reverse).filter (fun inner =>
        !isStaging (inner.getLastD ""))
      = ((filesIn tree directory).filter fun entry => !isStaging (entry.1.headD "")).map
          fun entry => namesFrom directory.names.reverse entry.1 := by
    rw [filesBelow_eq, List.filter_map]
    apply congrArg
    apply List.filter_congr
    intro entry hentry
    obtain ⟨-, -, inner, hinner, hplace⟩ := of_mem_filesIn hsound hentry
    obtain ⟨last, rest, rfl⟩ := List.exists_cons_of_ne_nil hinner
    rw [Function.comp_apply, hplace, namesFrom_append, List.getLastD_eq_getLast?,
      List.getLast?_reverse]
    rfl
  have hkeys : (((filesIn tree directory).filter fun entry => !isStaging (entry.1.headD "")).map
        fun entry => namesFrom directory.names.reverse entry.1).map (keyBelow directory)
      = ((filesIn tree directory).filter fun entry => !isStaging (entry.1.headD "")).map
          fun entry => "/".intercalate entry.1.reverse := by
    rw [List.map_map]
    apply List.map_congr_left
    intro entry hentry
    obtain ⟨-, -, inner, -, hplace⟩ := of_mem_filesIn hsound (List.mem_filter.1 hentry).1
    rw [Function.comp_apply, hplace, namesFrom_append, List.reverse_append, List.reverse_reverse]
    rfl
  unfold keysBelow
  dsimp only
  rw [hfiles, hkeys]

section Scan

variable {directory : Pathname} (hsound : tree.Sound)

include hsound

theorem sorted_keysBelow :
    (keysBelow tree directory directory.names.reverse query).Pairwise (· ≤ ·) := by
  rw [keysBelow_eq hsound]
  exact Keys.sorted_mergeSort _

theorem mem_keysBelow_iff (hdir : tree.hasDirectory directory.names.reverse = true) {key : String} :
    key ∈ keysBelow tree directory directory.names.reverse query
      ↔ Text.startsWith query key = true
        ∧ ∃ place raw, directory.names.reverse <:+ place ∧ tree.get? place = some (.file raw)
          ∧ Entered directory.start place ∧ isStaging (place.headD "") = false
          ∧ key = "/".intercalate place.reverse := by
  rw [keysBelow_eq hsound, List.mem_mergeSort, List.mem_filter, and_comm]
  apply and_congr_right
  intro _
  rw [List.mem_map]
  constructor
  · rintro ⟨entry, hentry, rfl⟩
    obtain ⟨hfile, hunstaged⟩ := List.mem_filter.1 hentry
    obtain ⟨⟨raw, hget⟩, hentered, inner, -, hplace⟩ := of_mem_filesIn hsound hfile
    rw [Bool.not_eq_true'] at hunstaged
    exact ⟨entry.1, raw, hplace ▸ List.suffix_append _ _, hget, hentered, hunstaged, rfl⟩
  · rintro ⟨place, raw, hbelow, hfile, hentered, hunstaged, rfl⟩
    refine ⟨(place, .file raw), List.mem_filter.2 ⟨mem_filesIn hfile hbelow hentered hdir, ?_⟩, rfl⟩
    rw [hunstaged]
    rfl

end Scan

def Legible (tree : Tree) (directory : Place) : Prop :=
  ∀ place raw, directory <:+ place → tree.get? place = some (.file raw) →
    ∀ part ∈ place, Path.Plain part.toList

theorem Legible.nodup_keysBelow {directory : Pathname}
    (h : Legible tree directory.names.reverse) (hsound : tree.Sound) :
    (keysBelow tree directory directory.names.reverse query).Nodup := by
  have hplain : ∀ entry ∈ filesIn tree directory,
      entry.1.reverse ≠ [] ∧ ∀ part ∈ entry.1.reverse, Path.Plain part.toList := by
    intro entry hentry
    obtain ⟨⟨raw, hfile⟩, -, inner, hinner, hplace⟩ := of_mem_filesIn hsound hentry
    have hparts := h entry.1 raw (hplace ▸ List.suffix_append _ _) hfile
    refine ⟨?_, fun part hpart => hparts part (List.mem_reverse.1 hpart)⟩
    rw [hplace, ne_eq, List.reverse_eq_nil_iff, List.append_eq_nil_iff]
    exact fun hnil => hinner hnil.1
  rw [keysBelow_eq hsound, (List.mergeSort_perm _ _).nodup_iff]
  refine List.Pairwise.filter _ ?_
  have hentries := tree.nodes.nodup_keys
  rw [List.Nodup, List.pairwise_map] at hentries
  rw [List.pairwise_map]
  refine List.Pairwise.filter _ ((hentries.filter _).imp_of_mem ?_)
  intro entry entry' hentry hentry' hne hsame
  obtain ⟨hnil, hparts⟩ := hplain entry hentry
  obtain ⟨hnil', hparts'⟩ := hplain entry' hentry'
  exact hne (List.reverse_inj.1 (intercalate_inj hnil hnil' hparts hparts' hsame))

/--
Whether all files below a directory have clean paths, none is a staging file, and all are in
directories that are looked into.
-/
def Neat (tree : Tree) (directory : Pathname) : Prop :=
  ∀ place raw, directory.names.reverse <:+ place → tree.get? place = some (.file raw) →
    (∀ part ∈ place, Path.Plain part.toList) ∧ isStaging (place.headD "") = false
      ∧ Entered directory.start place

namespace Neat

variable {directory : Pathname} (h : Neat tree directory) (hsound : tree.Sound)

include h

theorem legible : Legible tree directory.names.reverse :=
  fun place raw hbelow hfile => (h place raw hbelow hfile).1

include hsound

theorem mem_keysBelow_iff (hdir : tree.hasDirectory directory.names.reverse = true) {key : String} :
    key ∈ keysBelow tree directory directory.names.reverse query
      ↔ Text.startsWith query key = true
        ∧ ∃ place raw, directory.names.reverse <:+ place ∧ tree.get? place = some (.file raw)
          ∧ key = "/".intercalate place.reverse := by
  rw [Files.mem_keysBelow_iff hsound hdir]
  apply and_congr_right
  intro _
  constructor
  · rintro ⟨place, raw, hbelow, hfile, -, -, hkey⟩
    exact ⟨place, raw, hbelow, hfile, hkey⟩
  · rintro ⟨place, raw, hbelow, hfile, hkey⟩
    obtain ⟨-, hunstaged, hentered⟩ := h place raw hbelow hfile
    exact ⟨place, raw, hbelow, hfile, hentered, hunstaged, hkey⟩

end Neat

end Below

section Listing

structure Stocked (store : Store) (names : List String) (tree : Tree) : Prop where
  sound : tree.Sound
  nodup : names.Nodup
  clean : ∀ name ∈ names, Clean store name
  fits : ∀ name ∈ names, (objectPathname store name).Fits
  there : ∀ name ∈ names, ∃ raw, tree.get? (objectPlace store name) = some (.file raw)
  of_file : ∀ place raw, tree.get? place = some (.file raw) →
    ∃ name ∈ names, place = objectPlace store name

structure Scannable (query : String) : Prop where
  plain : ∀ part ∈ (keyPath (scanned query)).names, isDots part = false
  fits : (keyPath (scanned query)).Fits

theorem scannable_query (hrooted : Rooted store outer) {inner : List String}
    (hinner : ∀ part ∈ inner, Proper part) {under : String}
    (hunder : under = "/".intercalate inner ∨ inner ≠ [] ∧ under = "/".intercalate inner ++ "/")
    (hshort : ("/".intercalate (outer ++ inner)).utf8ByteSize + 2 < maxPathname) :
    Scannable (store.query under) := by
  have hplain : ∀ part ∈ inner, Path.Plain part.toList :=
    fun part hpart => (hinner part hpart).plain
  have hproper : ∀ part ∈ outer ++ inner, Proper part := by
    intro part hpart
    rcases List.mem_append.1 hpart with hpart | hpart
    · exact hrooted.proper part hpart
    · exact hinner part hpart
  have hquery : store.query under = "/".intercalate (outer ++ inner)
      ∨ outer ++ inner ≠ [] ∧ store.query under = "/".intercalate (outer ++ inner) ++ "/" := by
    rcases hunder with rfl | ⟨hne, rfl⟩
    · exact query_cases hrooted hplain
    · exact .inr ⟨by simp [hne], query_slash hrooted hplain hne⟩
  have hbegins : (keyPath (scanned (store.query under))).names <+: outer ++ inner :=
    names_scanned_isPrefix (fun part hpart => (hproper part hpart).plain) hquery
  refine ⟨fun part hpart => (hproper part (hbegins.subset hpart)).isDots_eq, ?_,
    fun part hpart => (hproper part (hbegins.subset hpart)).short⟩
  apply decide_eq_false
  rw [Pathname.utf8ByteSize_render]
  have hstart : ∀ start : Start, start.render.utf8ByteSize ≤ 2 := by
    intro start
    cases start <;> decide
  have hwidth : Pathname.width (keyPath (scanned (store.query under))).names
      ≤ ("/".intercalate (outer ++ inner)).utf8ByteSize := by
    obtain ⟨more, hmore⟩ := hbegins
    rw [← hmore]
    exact Pathname.width_le_append _ _
  have hroot := hstart (keyPath (scanned (store.query under))).start
  omega

theorem names_scanned_slash (hne : names ≠ []) (hplain : ∀ part ∈ names, Path.Plain part.toList) :
    (keyPath (scanned ("/".intercalate names ++ "/"))).names = names := by
  have hscanned : scanned ("/".intercalate names ++ "/") = "/".intercalate names ++ "/" := by
    unfold scanned
    rw [Text.endsWith_append, if_pos rfl]
  have hcomps : names.map String.toList ≠ [] := by
    rw [ne_eq, List.map_eq_nil_iff]
    exact hne
  have hmap := plain_map hplain
  have hlist : ("/".intercalate names ++ "/").toList
      = Text.joinWith '/' (names.map String.toList) ++ ['/'] := by
    rw [String.toList_append, Text.toList_intercalate]
    rfl
  rw [hscanned, names_keyPath, hlist, Text.splitOn_append_sep,
    Text.splitOn_joinWith hcomps fun c hc => (hmap c hc).slashless, Pathname.keptNames_append,
    Pathname.keptNames_settled (Path.settled_of_plain hmap), ofList_toList_map]
  exact List.append_nil names

theorem listing_of_error {code : SystemErrorCode}
    (hzero : (keyPath (scanned query)).holdsZero = false)
    (h : tree.isDirectory (keyPath (scanned query)) = .error code) :
    listing tree query = [.failed (.ofSystem (errorAt (keyPath (scanned query)) code))] := by
  unfold listing
  dsimp only
  rw [hzero, if_neg Bool.false_ne_true, h]

def keysOf (store : Store) (names : List String) (query : String) : List String :=
  ((names.map store.key).filter (Text.startsWith query)).mergeSort

theorem keysOf_eq_nil (h : ∀ name ∈ names, ¬Text.startsWith query (store.key name) = true) :
    keysOf store names query = [] := by
  have hfilter : (names.map store.key).filter (Text.startsWith query) = [] := by
    rw [List.filter_eq_nil_iff]
    intro key hmem
    obtain ⟨name, hname, rfl⟩ := List.mem_map.1 hmem
    exact h name hname
  unfold keysOf
  rw [hfilter, List.mergeSort_nil]

namespace Stocked

theorem names_eq (h : Stocked store names tree) (hrooted : Rooted store outer) (hname : name ∈ names)
    (hkey : Text.startsWith query (store.key name) = true) :
    ∃ inner, inner ≠ []
      ∧ outer ++ parts store name = (keyPath (scanned query)).names ++ inner := by
  have hclean := h.clean name hname
  rw [hrooted.key_eq hclean] at hkey
  refine names_scanned ?_ (fun part hpart => (hrooted.proper_append hclean part hpart).plain) hkey
  rw [ne_eq, List.append_eq_nil_iff]
  exact fun hnil => parts_ne_nil store name hnil.2

theorem hasDirectory (h : Stocked store names tree) (hrooted : Rooted store outer)
    (hname : name ∈ names) (hkey : Text.startsWith query (store.key name) = true) :
    tree.hasDirectory (keyPath (scanned query)).names.reverse = true := by
  obtain ⟨inner, hinner, hnames⟩ := h.names_eq hrooted hname hkey
  obtain ⟨raw, hfile⟩ := h.there name hname
  have hne : inner.reverse ≠ [] := by
    rw [ne_eq, List.reverse_eq_nil_iff]
    exact hinner
  apply h.sound.hasDirectory_of_below hne
  rw [hrooted.objectPlace_eq (h.clean name hname), hnames, List.reverse_append] at hfile
  rw [hfile]
  simp

theorem nodup_keys (h : Stocked store names tree) (hrooted : Rooted store outer) :
    (names.map store.key).Nodup := by
  rw [List.Nodup, List.pairwise_map]
  apply h.nodup.imp_of_mem
  intro name name' hname hname' hne hkey
  exact hne (hrooted.key_injective (h.clean name hname) (h.clean name' hname') hkey)

theorem neat (h : Stocked store names tree) (hrooted : Rooted store outer)
    (directory : Pathname) : Neat tree directory := by
  intro place raw _ hfile
  obtain ⟨name, hname, rfl⟩ := h.of_file place raw hfile
  have hclean := h.clean name hname
  have hentered := entered_objectPlace (h.fits name hname) directory.start
  rw [hrooted.objectPlace_eq hclean] at hentered ⊢
  rw [headD_reverse_append (parts_ne_nil store name)]
  refine ⟨?_, hclean.unstaged, hentered⟩
  intro part hpart
  exact (hrooted.proper_append hclean part (List.mem_reverse.1 hpart)).plain

theorem keysBelow_eq (h : Stocked store names tree) (hrooted : Rooted store outer)
    (hdir : tree.hasDirectory (keyPath (scanned query)).names.reverse = true) :
    keysBelow tree (keyPath (scanned query)) (keyPath (scanned query)).names.reverse query
      =
    keysOf store names query := by
  have hneat := h.neat hrooted (keyPath (scanned query))
  -- Both are sorted without repetition, so it is enough that they have the same keys.
  apply Keys.eq_of_sorted (sorted_keysBelow h.sound) (Keys.sorted_mergeSort _)
  rw [List.perm_ext_iff_of_nodup (hneat.legible.nodup_keysBelow h.sound)
    ((List.mergeSort_perm _ _).nodup_iff.2 ((h.nodup_keys hrooted).filter _))]
  intro key
  rw [hneat.mem_keysBelow_iff h.sound hdir, List.mem_mergeSort, List.mem_filter, and_comm]
  apply and_congr_left
  intro hkey
  constructor
  · rintro ⟨place, raw, -, hfile, rfl⟩
    obtain ⟨name, hname, rfl⟩ := h.of_file place raw hfile
    have hclean := h.clean name hname
    rw [hrooted.objectPlace_eq hclean, List.reverse_reverse, ← hrooted.key_eq hclean]
    exact List.mem_map_of_mem hname
  · intro hmem
    obtain ⟨name, hname, rfl⟩ := List.mem_map.1 hmem
    have hclean := h.clean name hname
    obtain ⟨raw, hfile⟩ := h.there name hname
    obtain ⟨inner, -, hnames⟩ := h.names_eq hrooted hname hkey
    refine ⟨_, raw, ?_, hfile, ?_⟩
    · rw [hrooted.objectPlace_eq hclean, hnames, List.reverse_append]
      exact List.suffix_append _ _
    · rw [hrooted.objectPlace_eq hclean, List.reverse_reverse, hrooted.key_eq hclean]

theorem holdsZero_scanned (h : Stocked store names tree) (hrooted : Rooted store outer)
    (hname : name ∈ names) (hkey : Text.startsWith query (store.key name) = true) :
    (keyPath (scanned query)).holdsZero = false := by
  obtain ⟨inner, -, hnames⟩ := h.names_eq hrooted hname hkey
  have hproper := hrooted.proper_append (h.clean name hname)
  rw [hnames] at hproper
  apply holdsZero_eq_false
  exact fun part hpart => (hproper part (List.mem_append_left _ hpart)).zeroless

end Stocked

theorem startOf_scanned (tree : Tree) (query : String) :
    tree.startOf (keyPath (scanned query)) = [] :=
  startOf_of_ne_current tree (start_keyPath _)

theorem stat_scanned_iff (hsound : tree.Sound)
    (hplain : ∀ part ∈ (keyPath (scanned query)).names, isDots part = false) {node : Node} :
    tree.stat (keyPath (scanned query)) = .ok node
      ↔ (keyPath (scanned query)).Fits
        ∧ tree.get? (keyPath (scanned query)).names.reverse = some node := by
  have hsettled : Pathname.Settled (keyPath (scanned query)).names := .of_plain hplain
  rw [stat_eq_ok_iff_of_settled hsound (startOf_scanned tree query) hsettled,
    foldl_enter_plain hplain, List.append_nil]

namespace Scannable

theorem locate_eq (h : Scannable query) (hsound : tree.Sound)
    (hdir : tree.hasDirectory (keyPath (scanned query)).names.reverse = true) :
    tree.locate (keyPath (scanned query)) = .ok (keyPath (scanned query)).names.reverse := by
  exact locate_of_hasDirectory hsound (startOf_scanned tree query) h.plain
    (not_overlong_of_fits h.fits) hdir

theorem isDirectory_eq (h : Scannable query) (hsound : tree.Sound) :
    tree.isDirectory (keyPath (scanned query))
      =
    .ok (tree.hasDirectory (keyPath (scanned query)).names.reverse) := by
  exact isDirectory_of_not_overlong hsound (startOf_scanned tree query) h.plain
    (not_overlong_of_fits h.fits)

end Scannable

theorem listing_of_directory (hquery : Scannable query) (hsound : tree.Sound)
    (hzero : (keyPath (scanned query)).holdsZero = false)
    (hdir : tree.hasDirectory (keyPath (scanned query)).names.reverse = true) :
    listing tree query
      =
    Listing.ofKeys
      (keysBelow tree (keyPath (scanned query)) (keyPath (scanned query)).names.reverse query) := by
  unfold listing
  dsimp only
  rw [hzero, if_neg Bool.false_ne_true, hquery.isDirectory_eq hsound, hdir,
    hquery.locate_eq hsound hdir]

theorem listing_eq (h : Stocked store names tree) (hrooted : Rooted store outer)
    (hquery : Scannable query) :
    listing tree query = Listing.ofKeys (keysOf store names query) := by
  cases hzero : (keyPath (scanned query)).holdsZero with
  | true =>
    unfold listing
    dsimp only
    rw [hzero, if_pos rfl, keysOf_eq_nil]
    · rfl
    · intro name hname hkey
      rw [h.holdsZero_scanned hrooted hname hkey] at hzero
      cases hzero
  | false =>
    cases hdir : tree.hasDirectory (keyPath (scanned query)).names.reverse with
    | true =>
      rw [listing_of_directory hquery h.sound hzero hdir, h.keysBelow_eq hrooted hdir]
    | false =>
      unfold listing
      dsimp only
      rw [hzero, if_neg Bool.false_ne_true, hquery.isDirectory_eq h.sound, hdir, keysOf_eq_nil]
      · cases tree.locate (keyPath (scanned query)) with
        | error code => rfl
        | ok place => rfl
      · intro name hname hkey
        rw [h.hasDirectory hrooted hname hkey] at hdir
        cases hdir

end Listing

end Depot.Store.Files
