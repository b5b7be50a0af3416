import Depot.Naming
import Depot.Path.Query
import Depot.Proofs.Location.Join
import Depot.Proofs.Text

/-!
This module contains the theory of a base below another one: keys, listings and names there are
those of the other base with the way from the one to the other before them.
-/

namespace Depot

namespace Text

theorem fields_append_sep_append (sep : Char) (cs ds : List Char) :
    fields sep (cs ++ sep :: ds) = fields sep cs ++ fields sep ds := by
  unfold fields
  rw [splitOn_append_sep, List.filter_append]

end Text

namespace Path

theorem cleanChars_congr {cs ds : List Char} (hrooted : isRooted cs = isRooted ds)
    (hfields : Text.fields '/' cs = Text.fields '/' ds) : cleanChars cs = cleanChars ds := by
  unfold Text.fields at hfields
  unfold cleanChars
  rw [hrooted, ← normalize_filter, hfields, normalize_filter]

theorem isRooted_append {cs : List Char} (hne : cs ≠ []) (more : List Char) :
    isRooted (cs ++ more) = isRooted cs := by
  obtain ⟨c, rest, rfl⟩ := List.exists_cons_of_ne_nil hne
  rfl

theorem cleanJoin_right_empty {a : String} (ha : a ≠ "") :
    cleanJoin [a, ""] = String.ofList (cleanChars a.toList) := by
  have hfilter : [a, ""].filter (· ≠ "") = [a] := by
    rw [List.filter_cons_of_pos (by simpa using ha), List.filter_cons_of_neg (by simp),
      List.filter_nil]
  unfold cleanJoin
  rw [hfilter]
  rfl

theorem fields_append_slash (a b : String) :
    Text.fields '/' (a ++ "/" ++ b).toList
      =
    Text.fields '/' a.toList ++ Text.fields '/' b.toList := by
  have hlist : (a ++ "/" ++ b).toList = a.toList ++ '/' :: b.toList := by simp
  rw [hlist, Text.fields_append_sep_append]

theorem cleanJoin_fields {a b : String} (ha : a.toList.head? ≠ some '/')
    (hb : a = "" → b.toList.head? ≠ some '/') (hne : a ≠ "" ∨ b ≠ "") :
    ∃ text, cleanJoin [a, b] = String.ofList (cleanChars text) ∧ isRooted text = false
      ∧ Text.fields '/' text = Text.fields '/' a.toList ++ Text.fields '/' b.toList := by
  by_cases hempty : a = ""
  · subst hempty
    have hnonempty : b ≠ "" := hne.resolve_left (by simp)
    exact ⟨b.toList, cleanJoin_empty hnonempty, isRooted_eq_false (hb rfl), rfl⟩
  · by_cases hlast : b = ""
    · subst hlast
      refine ⟨a.toList, cleanJoin_right_empty hempty, isRooted_eq_false ha, ?_⟩
      exact (List.append_nil _).symm
    · refine ⟨a.toList ++ '/' :: b.toList, cleanJoin_of_ne hempty hlast, ?_, ?_⟩
      · rw [isRooted_append (toList_ne_nil hempty)]
        exact isRooted_eq_false ha
      · exact Text.fields_append_sep_append '/' _ _

theorem cleanJoin_congr {a b a' b' : String} (ha : a.toList.head? ≠ some '/')
    (hb : a = "" → b.toList.head? ≠ some '/') (hne : a ≠ "" ∨ b ≠ "")
    (ha' : a'.toList.head? ≠ some '/') (hb' : a' = "" → b'.toList.head? ≠ some '/')
    (hne' : a' ≠ "" ∨ b' ≠ "")
    (hfields : Text.fields '/' a.toList ++ Text.fields '/' b.toList
      = Text.fields '/' a'.toList ++ Text.fields '/' b'.toList) :
    cleanJoin [a, b] = cleanJoin [a', b'] := by
  obtain ⟨text, hjoin, hrooted, htext⟩ := cleanJoin_fields ha hb hne
  obtain ⟨text', hjoin', hrooted', htext'⟩ := cleanJoin_fields ha' hb' hne'
  rw [hjoin, hjoin', cleanChars_congr (hrooted.trans hrooted'.symm)]
  rw [htext, htext', hfields]

theorem head?_append_slash_toList {a : String} (ha : a.toList.head? ≠ some '/') (hne : a ≠ "")
    (b : String) : (a ++ "/" ++ b).toList.head? ≠ some '/' := by
  have hlist : (a ++ "/" ++ b).toList = a.toList ++ '/' :: b.toList := by simp
  rw [hlist]
  exact head?_append_slash (toList_ne_nil hne) ha _

theorem append_slash_ne (a b : String) : a ++ "/" ++ b ≠ "" := by
  intro hempty
  have hnil := congrArg String.toList hempty
  simp at hnil

theorem endsWith_slash (text : String) :
    Text.endsWith "/" text = decide (text.toList.getLast? = some '/') := by
  have hslash : "/".toList = ['/'] := rfl
  unfold Text.endsWith
  rw [hslash, Bool.eq_iff_iff, List.isSuffixOf_iff_suffix, decide_eq_true_eq,
    List.getLast?_eq_some_iff]
  constructor
  · rintro ⟨front, hfront⟩
    exact ⟨front, hfront.symm⟩
  · rintro ⟨front, hfront⟩
    exact ⟨front, hfront.symm⟩

theorem endsWith_slash_append {under : String} (way : String) (h : under ≠ "") :
    Text.endsWith "/" (way ++ "/" ++ under) = Text.endsWith "/" under := by
  have hlast : (way ++ "/" ++ under).toList.getLast? = under.toList.getLast? := by
    rw [String.toList_append, List.getLast?_append,
      List.getLast?_eq_some_getLast (toList_ne_nil h), Option.some_or]
  rw [endsWith_slash, endsWith_slash, hlast]

def queryBase (base : String) : String :=
  if base = "" then "" else base ++ "/"

theorem queryBase_ne {base : String} (h : base ≠ "") : queryBase base ≠ "" := by
  unfold queryBase
  rw [if_neg h]
  intro hempty
  have hnil := congrArg String.toList hempty
  simp at hnil

theorem fields_queryBase (base : String) :
    Text.fields '/' (queryBase base).toList = Text.fields '/' base.toList := by
  unfold queryBase
  split
  next hempty => rw [hempty]
  · rw [String.toList_append]
    exact Text.fields_append_sep '/' base.toList

theorem head?_queryBase {base : String} (h : base.toList.head? ≠ some '/') :
    (queryBase base).toList.head? ≠ some '/' := by
  unfold queryBase
  split
  · simp
  next hne =>
    rw [String.toList_append]
    exact head?_append_slash (toList_ne_nil hne) h []

theorem queryPrefix_empty (base : String) : queryPrefix base "" = queryBase base := by
  unfold queryPrefix
  exact if_pos rfl

theorem queryPrefix_of_ne {under : String} (base : String) (h : under ≠ "") :
    queryPrefix base under
      =
    if Text.endsWith "/" under then cleanJoin [queryBase base, under] ++ "/"
    else cleanJoin [queryBase base, under] :=
  if_neg h

end Path

namespace Location

open Depot.Path

variable {location below : Location} {segment : String} {outer : List Component}

/-- Whether a base is the absolute path of some components; below a host it may be empty. -/
structure Footed (location : Location) (outer : List Component) : Prop where
  plain : ∀ c ∈ outer, Plain c
  path_eq : location.path = String.ofList (Path.render true outer)
    ∨ outer = [] ∧ location.path = "" ∧ location.host ≠ ""

namespace Footed

theorem of_clean (hslash : Text.startsWith "/" location.path = true)
    (hclean : cleanJoin [location.path] = location.path) : ∃ outer, location.Footed outer := by
  have hne : location.path ≠ "" := by
    intro hempty
    rw [hempty] at hslash
    cases hslash
  have hslashless := slashless_splitOn location.path.toList
  rw [startsWith_slash] at hslash
  refine ⟨normalize true (Text.splitOn '/' location.path.toList), ?_, .inl ?_⟩
  · rw [normalize_true hslashless]
    exact (settled_normalize false hslashless).plain_named
  · have hfilter : [location.path].filter (· ≠ "") = [location.path] :=
      List.filter_cons_of_pos (by simpa using hne)
    unfold cleanJoin at hclean
    rw [hfilter] at hclean
    have hchars : String.ofList (cleanChars location.path.toList) = location.path := hclean
    unfold cleanChars at hchars
    rw [hslash] at hchars
    exact hchars.symm

theorem isRooted_or (h : location.Footed outer) : location.hangs = true := by
  unfold hangs
  rcases h.path_eq with hpath | ⟨-, -, hhost⟩
  · unfold isRooted
    rw [hpath, String.toList_ofList]
    rfl
  · rw [decide_eq_true hhost, Bool.or_true]

theorem keyPrefix_eq (h : location.Footed outer) :
    location.keyPrefix = String.ofList (Text.joinWith '/' outer) := by
  have hsettled := settled_of_plain h.plain
  unfold keyPrefix Text.stripBoth
  rcases h.path_eq with hpath | ⟨rfl, hpath, -⟩
  · rw [hpath, String.toList_ofList]
    exact congrArg String.ofList (Text.trim_sep hsettled.head?_ne hsettled.getLast?_ne)
  · rw [hpath]
    rfl

theorem outline_eq (h : location.Footed outer) : location.outline = outer := by
  unfold outline Path.outline
  rw [h.keyPrefix_eq, String.toList_ofList]
  by_cases hne : outer = []
  · rw [hne]
    rfl
  · rw [Text.splitOn_joinWith hne fun c hc => (h.plain c hc).slashless,
      (settled_of_plain h.plain).normalize_eq]

theorem kept_eq (h : location.Footed outer) : location.kept = outer := by
  unfold kept
  rw [h.outline_eq, named_plain h.plain]
  split
  · rfl
  · rfl

theorem join (h : location.Footed outer) (hsegment : Relative segment) :
    (location.join segment).Footed (outer ++ Text.splitOn '/' segment.toList) := by
  have hpath := path_join location hsegment
  rw [h.isRooted_or, h.kept_eq] at hpath
  refine ⟨?_, .inl hpath⟩
  intro c hc
  rcases List.mem_append.1 hc with hc | hc
  · exact h.plain c hc
  · exact hsegment c hc

end Footed

/-- Whether a base is the one at the end of a way from another one. -/
structure Under (location below : Location) (way : String) : Prop where
  relative : Relative way
  keyPrefix_eq : below.keyPrefix
    = if location.keyPrefix = "" then way else location.keyPrefix ++ "/" ++ way
  clean : cleanChars below.keyPrefix.toList = below.keyPrefix.toList

namespace Under

variable {way : String}

theorem of_footed (h : location.Footed outer) (hway : Relative way)
    (hbelow : below.Footed (outer ++ Text.splitOn '/' way.toList)) : location.Under below way := by
  have hne : outer ++ Text.splitOn '/' way.toList ≠ [] := by
    rw [ne_eq, List.append_eq_nil_iff, not_and]
    exact fun _ => Text.splitOn_ne_nil _ _
  refine ⟨hway, ?_, ?_⟩
  · rw [hbelow.keyPrefix_eq, h.keyPrefix_eq]
    by_cases houter : outer = []
    · rw [houter, List.nil_append, Text.joinWith_splitOn, String.ofList_toList]
      rfl
    · rw [if_neg (ofList_joinWith_ne houter h.plain), ← String.toList_inj, String.toList_append,
        String.toList_append, String.toList_ofList, String.toList_ofList,
        Text.joinWith_append houter (Text.splitOn_ne_nil _ _), Text.joinWith_splitOn,
        List.append_assoc]
      rfl
  · rw [hbelow.keyPrefix_eq, String.toList_ofList]
    exact cleanChars_joinWith hne hbelow.plain

variable (h : location.Under below way)

include h

theorem keyPrefix_ne : below.keyPrefix ≠ "" := by
  rw [h.keyPrefix_eq]
  split
  · exact h.relative.ne_empty
  · exact append_slash_ne _ _

theorem fields_keyPrefix :
    Text.fields '/' below.keyPrefix.toList
      =
    Text.fields '/' location.keyPrefix.toList ++ Text.fields '/' way.toList := by
  rw [h.keyPrefix_eq]
  split
  next hempty =>
    rw [hempty]
    rfl
  · exact fields_append_slash _ _

theorem cleanJoin_eq (text : String) :
    cleanJoin [below.keyPrefix, text] = cleanJoin [location.keyPrefix, way ++ "/" ++ text] := by
  have hway := head?_append_slash_toList h.relative.head?_ne h.relative.ne_empty text
  apply cleanJoin_congr below.head?_keyPrefix (fun hempty => absurd hempty h.keyPrefix_ne)
    (.inl h.keyPrefix_ne) location.head?_keyPrefix (fun _ => hway) (.inr (append_slash_ne _ _))
  rw [h.fields_keyPrefix, fields_append_slash, List.append_assoc]

theorem keyPrefix_eq_cleanJoin :
    cleanJoin [queryBase location.keyPrefix, way ++ "/" ++ ""] = below.keyPrefix := by
  have hway := head?_append_slash_toList h.relative.head?_ne h.relative.ne_empty ""
  have hjoin := cleanJoin_right_empty h.keyPrefix_ne
  rw [h.clean, String.ofList_toList] at hjoin
  refine Eq.trans ?_ hjoin
  apply cleanJoin_congr (head?_queryBase location.head?_keyPrefix) (fun _ => hway)
    (.inr (append_slash_ne _ _)) below.head?_keyPrefix
    (fun hempty => absurd hempty h.keyPrefix_ne) (.inl h.keyPrefix_ne)
  rw [fields_queryBase, h.fields_keyPrefix, fields_append_slash, List.append_assoc]

theorem queryPrefix_eq (under : String) :
    queryPrefix below.keyPrefix under
      =
    queryPrefix location.keyPrefix (way ++ "/" ++ under) := by
  rw [queryPrefix_of_ne _ (append_slash_ne _ _)]
  by_cases hunder : under = ""
  · subst hunder
    have hends : Text.endsWith "/" (way ++ "/" ++ "") = true := by
      rw [endsWith_slash, String.toList_append, String.toList_append]
      simp
    rw [queryPrefix_empty, hends, if_pos rfl, h.keyPrefix_eq_cleanJoin]
    exact if_neg h.keyPrefix_ne
  · have hway := head?_append_slash_toList h.relative.head?_ne h.relative.ne_empty under
    have hbase := queryBase_ne h.keyPrefix_ne
    have hjoin : cleanJoin [queryBase below.keyPrefix, under]
        = cleanJoin [queryBase location.keyPrefix, way ++ "/" ++ under] := by
      apply cleanJoin_congr (head?_queryBase below.head?_keyPrefix)
        (fun hempty => absurd hempty hbase) (.inl hbase)
        (head?_queryBase location.head?_keyPrefix) (fun _ => hway) (.inr (append_slash_ne _ _))
      rw [fields_queryBase, fields_queryBase, h.fields_keyPrefix, fields_append_slash,
        List.append_assoc]
    rw [queryPrefix_of_ne _ hunder, endsWith_slash_append way hunder, hjoin]

end Under

end Location

namespace Naming

variable {naming : Naming} {location below : Location} {way rest extension : String}

/-- Whether the extension that a key below the base ends with takes in some of the base. -/
def Overlaps (naming : Naming) (rest : String) : Prop :=
  Text.endsWith naming.extension (naming.location.keyPrefix ++ "/" ++ rest) = true
    ∧ Text.endsWith naming.extension rest = false

theorem Overlaps.split (h : naming.Overlaps rest) :
    ∃ front more, naming.location.keyPrefix.toList ++ ['/'] = front ++ more ∧ more ≠ []
      ∧ naming.extension.toList = more ++ rest.toList := by
  obtain ⟨hkey, hrest⟩ := h
  unfold Text.endsWith at hkey hrest
  rw [List.isSuffixOf_iff_suffix] at hkey
  obtain ⟨front, hfront⟩ := hkey
  rw [String.toList_append, String.toList_append] at hfront
  have hnot : ∀ more, rest.toList ≠ more ++ naming.extension.toList := by
    intro more hends
    rw [hends, List.isSuffixOf_iff_suffix.2 (List.suffix_append _ _)] at hrest
    cases hrest
  rcases List.append_eq_append_iff.1 hfront with ⟨more, hbase, hextension⟩ | ⟨more, -, hends⟩
  · refine ⟨front, more, hbase, ?_, hextension⟩
    rintro rfl
    exact hnot [] hextension.symm
  · exact absurd hends (hnot more)

theorem not_overlaps (h : '/' ∉ naming.extension.toList) (rest : String) :
    ¬naming.Overlaps rest := by
  intro hoverlaps
  obtain ⟨front, more, hbase, hne, hextension⟩ := hoverlaps.split
  -- What the extension takes in of the base ends with the slash behind it.
  have hlast := congrArg List.getLast? hbase
  rw [List.getLast?_concat, List.getLast?_append, List.getLast?_eq_some_getLast hne,
    Option.some_or] at hlast
  apply h
  rw [hextension, Option.some.inj hlast]
  exact List.mem_append_left _ (List.getLast_mem hne)

theorem exists_stripped (h : ¬naming.Overlaps rest) :
    ∃ v, (if naming.extension = "" then naming.location.keyPrefix ++ "/" ++ rest
      else Text.dropSuffix naming.extension (naming.location.keyPrefix ++ "/" ++ rest))
        = naming.location.keyPrefix ++ "/" ++ v := by
  split
  · exact ⟨rest, rfl⟩
  · cases hends : Text.endsWith naming.extension (naming.location.keyPrefix ++ "/" ++ rest) with
    | false => exact ⟨rest, Text.dropSuffix_of_not hends⟩
    | true =>
      have hrest : Text.endsWith naming.extension rest = true :=
        eq_true_of_ne_false fun hnot => h ⟨hends, hnot⟩
      obtain ⟨front, hfront⟩ := Text.exists_of_endsWith hrest
      refine ⟨front, ?_⟩
      rw [hfront, ← String.append_assoc, Text.dropSuffix_append]

theorem name_under (h : location.Under below way)
    (hfree : ¬Overlaps ⟨below, extension⟩ rest) :
    name ⟨location, extension⟩ (below.keyPrefix ++ "/" ++ rest)
      =
    way ++ "/" ++ name ⟨below, extension⟩ (below.keyPrefix ++ "/" ++ rest) := by
  obtain ⟨v, hv⟩ := exists_stripped hfree
  dsimp only at hv
  unfold name
  dsimp only
  rw [hv, Text.dropPrefix_append]
  -- The base is before the way, unless it is empty.
  by_cases hempty : location.keyPrefix = ""
  · have hkey : below.keyPrefix = way := by
      rw [h.keyPrefix_eq, if_pos hempty]
    have hhead := Path.head?_append_slash_toList h.relative.head?_ne h.relative.ne_empty v
    rw [hempty, hkey]
    exact Text.dropPrefix_of_head hhead []
  · have hkey : below.keyPrefix ++ "/" ++ v = location.keyPrefix ++ "/" ++ (way ++ "/" ++ v) := by
      rw [h.keyPrefix_eq, if_neg hempty]
      simp only [String.append_assoc]
    rw [hkey, Text.dropPrefix_append]

theorem name_of_overlaps (h : naming.Overlaps rest) :
    ∃ front, front.length ≤ naming.location.keyPrefix.length
      ∧ ∀ location, name ⟨location, naming.extension⟩ (naming.location.keyPrefix ++ "/" ++ rest)
          = Text.dropPrefix (location.keyPrefix ++ "/") front := by
  obtain ⟨front, more, hbase, hne, hextension⟩ := h.split
  have hkey : naming.location.keyPrefix ++ "/" ++ rest
      = String.ofList front ++ naming.extension := by
    have hfront : (String.ofList front).toList = front := String.toList_ofList
    rw [← String.toList_inj, String.toList_append, String.toList_append, String.toList_append,
      hfront, hextension, ← List.append_assoc]
    exact congrArg (· ++ rest.toList) hbase
  have hextended : naming.extension ≠ "" := by
    intro hempty
    rw [hempty] at hextension
    exact hne (List.append_eq_nil_iff.1 hextension.symm).1
  refine ⟨String.ofList front, ?_, fun location => ?_⟩
  · have hlength := congrArg List.length hbase
    have hpos := List.length_pos_iff.2 hne
    simp only [List.length_append, String.length_toList, List.length_singleton] at hlength
    rw [String.length_ofList]
    omega
  · unfold name
    dsimp only
    rw [if_neg hextended, hkey, Text.dropSuffix_append]

theorem name_under_iff (h : location.Under below way) :
    name ⟨location, extension⟩ (below.keyPrefix ++ "/" ++ rest)
        = way ++ "/" ++ name ⟨below, extension⟩ (below.keyPrefix ++ "/" ++ rest)
      ↔ ¬Overlaps ⟨below, extension⟩ rest := by
  refine ⟨fun hname hoverlaps => ?_, name_under h⟩
  obtain ⟨front, hshort, hnames⟩ := name_of_overlaps hoverlaps
  have hbelow : Text.dropPrefix (below.keyPrefix ++ "/") front = front := by
    rcases Text.dropPrefix_cases (below.keyPrefix ++ "/") front with hsame | ⟨rest, hfront, -⟩
    · exact hsame
    · rw [hfront, String.length_append, String.length_append] at hshort
      have hslash : "/".length = 1 := rfl
      dsimp only at hshort
      omega
  dsimp only at hnames
  rw [hnames, hnames, hbelow] at hname
  -- A name with the way before it is longer than all of the key that is left.
  have hlength : (Text.dropPrefix (location.keyPrefix ++ "/") front).length ≤ front.length := by
    rcases Text.dropPrefix_cases (location.keyPrefix ++ "/") front with
      hsame | ⟨rest, hfront, hrest⟩
    · exact Nat.le_of_eq (congrArg String.length hsame)
    · rw [hrest, hfront, String.length_append]
      exact Nat.le_add_left _ _
  have hslash : "/".length = 1 := rfl
  rw [hname, String.length_append, String.length_append] at hlength
  omega

end Naming

end Depot
