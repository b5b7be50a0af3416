import Depot.Location.Basic
import Depot.Proofs.Path.Normal

/-!
This module contains the theory of base locations: what the base below another one is, whatever the
spelling of the other one.
-/

namespace Depot

namespace Text

variable {sep : Char} {cs : List Char}

theorem head?_dropWhile (sep : Char) (cs : List Char) :
    (cs.dropWhile (· = sep)).head? ≠ some sep := by
  intro hhead
  have hnot := List.head?_dropWhile_not (· = sep) cs
  rw [hhead] at hnot
  simp at hnot

theorem prefix_dropWhileEnd (p : Char → Bool) (cs : List Char) : dropWhileEnd p cs <+: cs := by
  have hsuffix := List.dropWhile_suffix p (l := cs.reverse)
  rw [← List.reverse_prefix, List.reverse_reverse] at hsuffix
  exact hsuffix

theorem head?_trim (sep : Char) (cs : List Char) : (trim (· = sep) cs).head? ≠ some sep := by
  intro hhead
  obtain ⟨rest, hrest⟩ := prefix_dropWhileEnd (· = sep) (cs.dropWhile (· = sep))
  apply head?_dropWhile sep cs
  unfold trim at hhead
  rw [← hrest, List.head?_append, hhead]
  rfl

def fields (sep : Char) (cs : List Char) : List (List Char) :=
  (splitOn sep cs).filter (· ≠ [])

theorem fields_sep (sep : Char) (cs : List Char) : fields sep (sep :: cs) = fields sep cs := by
  unfold fields
  rw [splitOn_sep, List.filter_cons_of_neg (by simp)]

theorem fields_append_sep (sep : Char) (cs : List Char) :
    fields sep (cs ++ [sep]) = fields sep cs := by
  unfold fields
  rw [splitOn_append_sep, splitOn_nil, List.filter_append]
  simp

theorem fields_dropWhile (sep : Char) (cs : List Char) :
    fields sep (cs.dropWhile (· = sep)) = fields sep cs := by
  induction cs with
  | nil => rfl
  | cons c cs ih =>
    by_cases hc : c = sep
    · rw [hc, List.dropWhile_cons_of_pos (by simp), fields_sep]
      exact ih
    · rw [List.dropWhile_cons_of_neg (by simpa using hc)]

theorem fields_dropWhileEnd (sep : Char) (cs : List Char) :
    fields sep (dropWhileEnd (· = sep) cs) = fields sep cs := by
  have hreverse : ∀ cs : List Char,
      fields sep (cs.dropWhile (· = sep)).reverse = fields sep cs.reverse := by
    intro cs
    induction cs with
    | nil => rfl
    | cons c cs ih =>
      by_cases hc : c = sep
      · rw [hc, List.dropWhile_cons_of_pos (by simp), List.reverse_cons, fields_append_sep]
        exact ih
      · rw [List.dropWhile_cons_of_neg (by simpa using hc)]
  have hcs := hreverse cs.reverse
  rw [List.reverse_reverse] at hcs
  exact hcs

theorem fields_trim (sep : Char) (cs : List Char) :
    fields sep (trim (· = sep) cs) = fields sep cs := by
  unfold trim
  rw [fields_dropWhileEnd, fields_dropWhile]

end Text

namespace Location

open Depot.Path

variable {location : Location} {segment : String} {cs : List Component}

theorem head?_keyPrefix (location : Location) : location.keyPrefix.toList.head? ≠ some '/' := by
  unfold keyPrefix Text.stripBoth
  rw [String.toList_ofList]
  exact Text.head?_trim '/' _

def outline (location : Location) : List Component :=
  Path.outline location.keyPrefix

theorem normalize_path (rooted : Bool) (location : Location) :
    normalize rooted (Text.splitOn '/' location.path.toList)
      =
    normalize rooted (Text.splitOn '/' location.keyPrefix.toList) := by
  have hfields := Text.fields_trim '/' location.path.toList
  unfold Text.fields at hfields
  unfold keyPrefix Text.stripBoth
  rw [String.toList_ofList, ← normalize_filter, ← hfields, normalize_filter]

def isRooted (location : Location) : Bool :=
  Path.isRooted location.path.toList

/-- The components of the base that one below it keeps. -/
def kept (location : Location) : List Component :=
  if location.isRooted then named location.outline else location.outline

theorem settled_outline (location : Location) : Settled location.outline :=
  Path.settled_outline _

theorem settled_kept (location : Location) : Settled location.kept := by
  unfold kept
  split
  · exact settled_of_plain location.settled_outline.plain_named
  · exact location.settled_outline

theorem join_ne_nil (location : Location) (segment : String) :
    location.kept ++ Text.splitOn '/' segment.toList ≠ [] := by
  rw [ne_eq, List.append_eq_nil_iff, not_and]
  exact fun _ => Text.splitOn_ne_nil _ _

theorem cleanJoin_path (location : Location) (h : Relative segment) :
    cleanJoin [location.path, segment]
      =
    String.ofList (Path.render location.isRooted (location.kept ++ Text.splitOn '/' segment.toList)) := by
  have hne := join_ne_nil location segment
  cases hrooted : location.isRooted with
  | true =>
    obtain ⟨rest, hpath⟩ := List.head?_eq_some_iff.1 (of_decide_eq_true hrooted)
    have hnonempty : location.path ≠ "" := by
      intro hempty
      rw [hempty] at hpath
      cases hpath
    have htext : Path.isRooted (location.path.toList ++ '/' :: segment.toList) = true := by
      rw [hpath]
      rfl
    have hkept : location.kept = normalize true (Text.splitOn '/' location.path.toList) := by
      unfold kept
      rw [hrooted, if_pos rfl, normalize_path, normalize_true (slashless_splitOn _)]
      rfl
    rw [cleanJoin_of_ne hnonempty h.ne_empty, hkept]
    unfold cleanChars
    rw [htext, Text.splitOn_append_sep, normalize_append_plain h]
  | false =>
    have hkept : location.kept = Path.outline location.path := by
      unfold kept
      rw [hrooted, if_neg Bool.false_ne_true]
      exact (normalize_path false location).symm
    rw [cleanJoin_relative (of_decide_eq_false hrooted) h, render_false hne, hkept]

def hangs (location : Location) : Bool :=
  location.isRooted || location.host ≠ ""

theorem startsWith_slash (text : String) :
    Text.startsWith "/" text = Path.isRooted text.toList := by
  have hslash : "/".toList = ['/'] := rfl
  unfold Text.startsWith Path.isRooted
  rw [hslash]
  cases text.toList with
  | nil => rfl
  | cons c cs =>
    rw [List.head?_cons, List.isPrefixOf_cons_cons, List.isPrefixOf_nil_left, Bool.and_true,
      Bool.eq_iff_iff, beq_iff_eq, decide_eq_true_eq, Option.some_inj]
    exact eq_comm

section Join

variable (location) (h : Relative segment)

include h

theorem settled_join : Settled (location.kept ++ Text.splitOn '/' segment.toList) :=
  location.settled_kept.append_plain h

theorem path_join :
    (location.join segment).path
      =
    String.ofList
      (Path.render location.hangs (location.kept ++ Text.splitOn '/' segment.toList)) := by
  have hne := join_ne_nil location segment
  have hsettled := settled_join location h
  have hrooted := isRooted_render hsettled hne location.isRooted
  unfold join hangs
  dsimp only
  rw [cleanJoin_path location h]
  generalize location.kept ++ Text.splitOn '/' segment.toList = cs at hne hsettled hrooted ⊢
  rw [startsWith_slash, String.toList_ofList, hrooted]
  cases location.isRooted with
  | true =>
    rw [if_neg (by simp), Bool.true_or]
  | false =>
    have htext : String.ofList (Path.render false cs) ≠ "" := by
      intro hempty
      have hnil := congrArg String.toList hempty
      rw [String.toList_ofList, render_false hne] at hnil
      exact Text.joinWith_ne_nil hne (fun c hc => (hsettled.ne c hc).1) hnil
    by_cases hhost : location.host = ""
    · rw [if_neg (by simp [hhost]), hhost]
      rfl
    · have hslash : String.ofList (Path.render true cs)
          = "/" ++ String.ofList (Text.joinWith '/' cs) := by
        rw [← String.toList_inj]
        simp [Path.render]
      rw [if_pos ⟨hhost, htext, rfl⟩, decide_eq_true hhost, Bool.or_true, render_false hne, hslash]

theorem keyPrefix_join :
    (location.join segment).keyPrefix
      =
    String.ofList (Text.joinWith '/' (location.kept ++ Text.splitOn '/' segment.toList)) := by
  have hne := join_ne_nil location segment
  unfold keyPrefix Text.stripBoth
  rw [path_join location h, String.toList_ofList, trim_render (settled_join location h) hne]

theorem outline_join :
    (location.join segment).outline = location.kept ++ Text.splitOn '/' segment.toList := by
  have hsettled := settled_join location h
  have hne := join_ne_nil location segment
  unfold outline Path.outline
  rw [keyPrefix_join location h, String.toList_ofList,
    Text.splitOn_joinWith hne hsettled.slashless, hsettled.normalize_eq]

theorem isRooted_join : (location.join segment).isRooted = location.hangs := by
  have hne := join_ne_nil location segment
  unfold isRooted
  rw [path_join location h, String.toList_ofList, isRooted_render (settled_join location h) hne]

end Join

end Location

end Depot
