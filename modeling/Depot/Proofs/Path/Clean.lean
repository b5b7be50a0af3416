import Depot.Path.Clean

/-!
This module contains the theory of clean paths: their components name something, but for those at
the start that leave a directory, and components that all name something are clean already.
-/

namespace Depot

namespace Text

variable {sep : Char} {piece : List Char} {pieces : List (List Char)} {cs : List Char}

theorem splitOn_nil (sep : Char) : splitOn sep [] = [[]] := rfl

theorem splitOn_sep (sep : Char) (cs : List Char) : splitOn sep (sep :: cs) = [] :: splitOn sep cs := by
  rw [splitOn, if_pos rfl]

theorem splitOn_of_ne {c : Char} (h : c ≠ sep) (cs : List Char) :
    ∃ piece pieces, splitOn sep cs = piece :: pieces
      ∧ splitOn sep (c :: cs) = (c :: piece) :: pieces := by
  rw [splitOn, if_neg h]
  cases hsplit : splitOn sep cs with
  | nil => exact absurd hsplit (splitOn_ne_nil sep cs)
  | cons piece pieces => exact ⟨piece, pieces, rfl, rfl⟩

theorem not_mem_of_mem_splitOn (h : piece ∈ splitOn sep cs) : sep ∉ piece := by
  induction cs generalizing piece with
  | nil =>
    rw [splitOn_nil, List.mem_singleton] at h
    rw [h]
    simp
  | cons c cs ih =>
    by_cases hc : c = sep
    · rw [hc, splitOn_sep, List.mem_cons] at h
      rcases h with rfl | h
      · simp
      · exact ih h
    · obtain ⟨first, rest, hsplit, hcons⟩ := splitOn_of_ne hc cs
      rw [hcons, List.mem_cons] at h
      rcases h with rfl | h
      · have hfirst : sep ∉ first := by
          apply ih
          rw [hsplit]
          exact List.mem_cons_self
        rw [List.mem_cons, not_or]
        exact ⟨Ne.symm hc, hfirst⟩
      · apply ih
        rw [hsplit]
        exact List.mem_cons_of_mem _ h

theorem splitOn_append_sep (cs more : List Char) :
    splitOn sep (cs ++ sep :: more) = splitOn sep cs ++ splitOn sep more := by
  induction cs with
  | nil => rw [List.nil_append, splitOn_sep, splitOn_nil, List.singleton_append]
  | cons c cs ih =>
    rw [List.cons_append]
    by_cases hc : c = sep
    · rw [hc, splitOn_sep, splitOn_sep, ih, List.cons_append]
    · obtain ⟨first, rest, hsplit, hcons⟩ := splitOn_of_ne hc cs
      obtain ⟨first', rest', hsplit', hcons'⟩ := splitOn_of_ne hc (cs ++ sep :: more)
      rw [ih, hsplit, List.cons_append] at hsplit'
      cases hsplit'
      rw [hcons', hcons, List.cons_append]

theorem splitOn_of_not_mem (h : sep ∉ cs) : splitOn sep cs = [cs] := by
  induction cs with
  | nil => rfl
  | cons c cs ih =>
    rw [List.mem_cons, not_or] at h
    obtain ⟨first, rest, hsplit, hcons⟩ := splitOn_of_ne (Ne.symm h.1) cs
    rw [ih h.2] at hsplit
    cases hsplit
    exact hcons

theorem exists_splitOn_append (h : sep ∉ cs) (front : List Char) :
    ∃ pieces last, splitOn sep front = pieces ++ [last]
      ∧ splitOn sep (front ++ cs) = pieces ++ [last ++ cs] := by
  induction front with
  | nil => exact ⟨[], [], rfl, splitOn_of_not_mem h⟩
  | cons c front ih =>
    obtain ⟨pieces, last, hfront, happend⟩ := ih
    rw [List.cons_append]
    by_cases hc : c = sep
    · exact ⟨[] :: pieces, last, by rw [hc, splitOn_sep, hfront]; rfl,
        by rw [hc, splitOn_sep, happend]; rfl⟩
    · obtain ⟨first, rest, hsplit, hcons⟩ := splitOn_of_ne hc front
      obtain ⟨first', rest', hsplit', hcons'⟩ := splitOn_of_ne hc (front ++ cs)
      rw [hfront] at hsplit
      rw [happend] at hsplit'
      rw [hcons, hcons']
      cases pieces with
      | nil =>
        cases hsplit
        cases hsplit'
        exact ⟨[], c :: last, rfl, rfl⟩
      | cons piece pieces =>
        cases hsplit
        cases hsplit'
        exact ⟨(c :: first) :: pieces, last, rfl, rfl⟩

theorem joinWith_cons {next : List Char} (piece : List Char) :
    joinWith sep (piece :: next :: pieces) = piece ++ sep :: joinWith sep (next :: pieces) := rfl

theorem splitOn_joinWith (hne : pieces ≠ []) (h : ∀ piece ∈ pieces, sep ∉ piece) :
    splitOn sep (joinWith sep pieces) = pieces := by
  induction pieces with
  | nil => exact absurd rfl hne
  | cons piece pieces ih =>
    rw [List.forall_mem_cons] at h
    cases pieces with
    | nil => exact splitOn_of_not_mem h.1
    | cons next pieces =>
      rw [joinWith_cons, splitOn_append_sep, splitOn_of_not_mem h.1, ih (by simp) h.2,
        List.singleton_append]

theorem joinWith_append {more : List (List Char)} (hne : pieces ≠ []) (hmore : more ≠ []) :
    joinWith sep (pieces ++ more) = joinWith sep pieces ++ sep :: joinWith sep more := by
  induction pieces with
  | nil => exact absurd rfl hne
  | cons piece pieces ih =>
    cases pieces with
    | nil =>
      obtain ⟨next, rest, rfl⟩ := List.exists_cons_of_ne_nil hmore
      rfl
    | cons next pieces =>
      rw [List.cons_append, List.cons_append, joinWith_cons, joinWith_cons, ← List.cons_append,
        ih (by simp), List.append_assoc, List.cons_append]

theorem isPrefix_joinWith_iff (hne : pieces ≠ []) (h : ∀ piece ∈ pieces, sep ∉ piece) :
    cs ++ [sep] <+: joinWith sep pieces
      ↔ ∃ inner, inner ≠ [] ∧ pieces = splitOn sep cs ++ inner := by
  constructor
  · rintro ⟨more, hmore⟩
    have hsplit := splitOn_joinWith hne h
    rw [← hmore, List.append_assoc, List.singleton_append, splitOn_append_sep] at hsplit
    exact ⟨_, splitOn_ne_nil _ _, hsplit.symm⟩
  · rintro ⟨inner, hinner, rfl⟩
    rw [joinWith_append (splitOn_ne_nil _ _) hinner, joinWith_splitOn]
    exact ⟨joinWith sep inner, List.append_assoc _ _ _⟩

theorem exists_mem_splitOn {c : Char} (hc : c ∈ cs) (hne : c ≠ sep) :
    ∃ piece ∈ splitOn sep cs, c ∈ piece := by
  have hjoin := joinWith_splitOn sep cs
  rw [← hjoin] at hc
  generalize splitOn sep cs = pieces at hc
  clear hjoin
  induction pieces with
  | nil => cases hc
  | cons piece pieces ih =>
    cases pieces with
    | nil => exact ⟨piece, List.mem_cons_self, hc⟩
    | cons next pieces =>
      rw [joinWith_cons, List.mem_append, List.mem_cons] at hc
      rcases hc with hc | rfl | hc
      · exact ⟨piece, List.mem_cons_self, hc⟩
      · exact absurd rfl hne
      · obtain ⟨other, hother, hmem⟩ := ih hc
        exact ⟨other, List.mem_cons_of_mem _ hother, hmem⟩

theorem joinWith_ne_nil (hne : pieces ≠ []) (h : ∀ piece ∈ pieces, piece ≠ []) :
    joinWith sep pieces ≠ [] := by
  obtain ⟨piece, rest, rfl⟩ := List.exists_cons_of_ne_nil hne
  rw [List.forall_mem_cons] at h
  cases rest with
  | nil => exact h.1
  | cons next rest =>
    rw [joinWith_cons]
    simp

theorem head?_joinWith (h : ∀ piece ∈ pieces, piece ≠ []) (hsep : ∀ piece ∈ pieces, sep ∉ piece) :
    (joinWith sep pieces).head? ≠ some sep := by
  cases pieces with
  | nil => simp [joinWith]
  | cons piece rest =>
    rw [List.forall_mem_cons] at h hsep
    obtain ⟨c, cs, rfl⟩ := List.exists_cons_of_ne_nil h.1
    have hne : c ≠ sep := by
      rintro rfl
      exact hsep.1 List.mem_cons_self
    cases rest with
    | nil => simpa [joinWith] using hne
    | cons next rest => simpa [joinWith] using hne

theorem getLast?_joinWith (h : ∀ piece ∈ pieces, piece ≠ [])
    (hsep : ∀ piece ∈ pieces, sep ∉ piece) : (joinWith sep pieces).getLast? ≠ some sep := by
  induction pieces with
  | nil => simp [joinWith]
  | cons piece rest ih =>
    rw [List.forall_mem_cons] at h hsep
    cases rest with
    | nil =>
      intro hlast
      exact hsep.1 (List.mem_of_getLast? hlast)
    | cons next rest =>
      have hne : joinWith sep (next :: rest) ≠ [] := joinWith_ne_nil (List.cons_ne_nil next rest) h.2
      obtain ⟨c, cs, hcs⟩ := List.exists_cons_of_ne_nil hne
      have hrest := ih h.2 hsep.2
      rw [joinWith_cons, List.getLast?_append, List.getLast?_cons]
      rw [hcs] at hrest ⊢
      rw [List.getLast?_cons, Option.getD_some]
      rw [List.getLast?_cons] at hrest
      exact hrest

theorem dropWhile_of_head (h : cs.head? ≠ some sep) : cs.dropWhile (· = sep) = cs := by
  cases cs with
  | nil => rfl
  | cons c cs =>
    rw [List.dropWhile_cons_of_neg]
    simpa using h

theorem dropWhileEnd_isPrefix (p : Char → Bool) (cs : List Char) : dropWhileEnd p cs <+: cs := by
  unfold dropWhileEnd
  rw [← List.reverse_suffix, List.reverse_reverse]
  exact List.dropWhile_suffix _

theorem dropWhileEnd_of_last (h : cs.getLast? ≠ some sep) : dropWhileEnd (· = sep) cs = cs := by
  rw [← List.head?_reverse] at h
  unfold dropWhileEnd
  rw [dropWhile_of_head h, List.reverse_reverse]

theorem dropWhileEnd_append_sep (h : cs.getLast? ≠ some sep) :
    dropWhileEnd (· = sep) (cs ++ [sep]) = cs := by
  have hcs := dropWhileEnd_of_last h
  unfold dropWhileEnd at hcs ⊢
  rw [List.reverse_append, List.reverse_singleton, List.singleton_append,
    List.dropWhile_cons_of_pos (by simp), hcs]

theorem trim_sep (hhead : cs.head? ≠ some sep) (hlast : cs.getLast? ≠ some sep) :
    trim (· = sep) (sep :: cs) = cs := by
  unfold trim
  rw [List.dropWhile_cons_of_pos (by simp), dropWhile_of_head hhead, dropWhileEnd_of_last hlast]

theorem toList_intercalate (names : List String) :
    ("/".intercalate names).toList = joinWith '/' (names.map String.toList) := by
  induction names with
  | nil => rw [String.intercalate_nil]; rfl
  | cons name rest ih =>
    cases rest with
    | nil => rw [String.intercalate_singleton]; rfl
    | cons next rest =>
      rw [String.intercalate_cons_cons, String.toList_append, String.toList_append, ih,
        List.append_assoc]
      rfl

end Text

namespace Path

variable {rooted : Bool} {c : Component} {cs kept plains : List Component}

structure Plain (c : Component) : Prop where
  nonempty : c ≠ []
  ne_here : c ≠ here
  ne_up : c ≠ up
  slashless : '/' ∉ c

instance (c : Component) : Decidable (Plain c) :=
  decidable_of_iff (c ≠ [] ∧ c ≠ here ∧ c ≠ up ∧ '/' ∉ c)
    ⟨fun ⟨hnonempty, hhere, hup, hslash⟩ => ⟨hnonempty, hhere, hup, hslash⟩,
      fun h => ⟨h.nonempty, h.ne_here, h.ne_up, h.slashless⟩⟩

theorem step_settled {ups : Nat} (hplain : ∀ c ∈ plains, Plain c) (hrooted : rooted = true → ups = 0)
    (hc : '/' ∉ c) :
    ∃ plains' ups', step rooted (plains ++ List.replicate ups up) c
        = plains' ++ List.replicate ups' up
      ∧ (∀ c ∈ plains', Plain c) ∧ (rooted = true → ups' = 0) := by
  unfold step
  by_cases hskip : c = [] ∨ c = here
  · rw [if_pos hskip]
    exact ⟨plains, ups, rfl, hplain, hrooted⟩
  · rw [if_neg hskip]
    rw [not_or] at hskip
    by_cases hup : c = up
    · rw [if_pos hup]
      -- A step up leaves the nearest component, if there is one to leave.
      cases plains with
      | nil =>
        cases ups with
        | zero =>
          cases rooted with
          | true => exact ⟨[], 0, rfl, hplain, fun _ => rfl⟩
          | false => exact ⟨[], 1, rfl, hplain, fun h => absurd h Bool.false_ne_true⟩
        | succ ups => exact ⟨[], ups + 2, rfl, hplain, fun h => absurd (hrooted h) (by simp)⟩
      | cons first rest =>
        rw [List.forall_mem_cons] at hplain
        refine ⟨rest, ups, ?_, hplain.2, hrooted⟩
        rw [List.cons_append]
        exact if_neg hplain.1.ne_up
    · rw [if_neg hup]
      refine ⟨c :: plains, ups, rfl, ?_, hrooted⟩
      rw [List.forall_mem_cons]
      exact ⟨⟨hskip.1, hskip.2, hup, hc⟩, hplain⟩

theorem foldl_step_settled {ups : Nat} (hplain : ∀ c ∈ plains, Plain c)
    (hrooted : rooted = true → ups = 0) (h : ∀ c ∈ cs, '/' ∉ c) :
    ∃ plains' ups', cs.foldl (step rooted) (plains ++ List.replicate ups up)
        = plains' ++ List.replicate ups' up
      ∧ (∀ c ∈ plains', Plain c) ∧ (rooted = true → ups' = 0) := by
  induction cs generalizing plains ups with
  | nil => exact ⟨plains, ups, rfl, hplain, hrooted⟩
  | cons c cs ih =>
    rw [List.forall_mem_cons] at h
    obtain ⟨plains', ups', hstep, hplain', hrooted'⟩ := step_settled hplain hrooted h.1
    rw [List.foldl_cons, hstep]
    exact ih hplain' hrooted' h.2

/-- Whether components are those of a clean path: only at the start do they leave a directory. -/
def Settled (cs : List Component) : Prop :=
  ∃ ups plains, cs = List.replicate ups up ++ plains ∧ ∀ c ∈ plains, Plain c

theorem settled_normalize (rooted : Bool) (h : ∀ c ∈ cs, '/' ∉ c) : Settled (normalize rooted cs) := by
  obtain ⟨plains, ups, hfold, hplain, -⟩ :=
    foldl_step_settled (List.forall_mem_nil Plain) (fun _ => rfl) h
  unfold normalize
  rw [List.replicate_zero, List.append_nil] at hfold
  rw [hfold]
  refine ⟨ups, plains.reverse, ?_, ?_⟩
  · rw [List.reverse_append, List.reverse_replicate]
  · intro c hc
    exact hplain c (List.mem_reverse.1 hc)

theorem Settled.slashless (h : Settled cs) : ∀ c ∈ cs, '/' ∉ c := by
  obtain ⟨ups, plains, rfl, hplain⟩ := h
  intro c hc
  rcases List.mem_append.1 hc with hc | hc
  · rw [List.eq_of_mem_replicate hc]
    decide
  · exact (hplain c hc).slashless

theorem Settled.ne (h : Settled cs) : ∀ c ∈ cs, c ≠ [] ∧ c ≠ here := by
  obtain ⟨ups, plains, rfl, hplain⟩ := h
  intro c hc
  rcases List.mem_append.1 hc with hc | hc
  · rw [List.eq_of_mem_replicate hc]
    decide
  · exact ⟨(hplain c hc).nonempty, (hplain c hc).ne_here⟩

theorem settled_of_plain (h : ∀ c ∈ cs, Plain c) : Settled cs :=
  ⟨0, cs, rfl, h⟩

theorem step_plain (h : Plain c) (rooted : Bool) (kept : List Component) :
    step rooted kept c = c :: kept := by
  unfold step
  rw [if_neg (not_or.2 ⟨h.nonempty, h.ne_here⟩), if_neg h.ne_up]

theorem step_nil (rooted : Bool) (kept : List Component) : step rooted kept [] = kept :=
  if_pos (.inl rfl)

theorem normalize_plain (h : ∀ c ∈ cs, c = [] ∨ Plain c) (rooted : Bool) :
    normalize rooted cs = cs.filter (· ≠ []) := by
  have hfold : ∀ kept, cs.foldl (step rooted) kept = (cs.filter (· ≠ [])).reverse ++ kept := by
    -- The fold keeps the components in reverse.
    induction cs with
    | nil => exact fun kept => rfl
    | cons c cs ih =>
      rw [List.forall_mem_cons] at h
      intro kept
      rw [List.foldl_cons]
      rcases h.1 with rfl | hc
      · rw [step_nil, ih h.2, List.filter_cons_of_neg (by simp)]
      · rw [step_plain hc, ih h.2, List.filter_cons_of_pos (by simpa using hc.nonempty),
          List.reverse_cons, List.append_assoc, List.singleton_append]
  unfold normalize
  rw [hfold, List.append_nil, List.reverse_reverse]

theorem cleanChars_eq {text : List Char} (hfirst : (Text.splitOn '/' text).head? ≠ some [])
    (hsplit : (Text.splitOn '/' text).filter (· ≠ []) = cs) (hne : cs ≠ [])
    (h : ∀ c ∈ cs, Plain c) : cleanChars text = Text.joinWith '/' cs := by
  have hrooted : isRooted text = false := by
    apply decide_eq_false
    intro hhead
    obtain ⟨rest, rfl⟩ := List.head?_eq_some_iff.1 hhead
    rw [Text.splitOn_sep, List.head?_cons] at hfirst
    exact hfirst rfl
  have hpieces : ∀ c ∈ Text.splitOn '/' text, c = [] ∨ Plain c := by
    intro c hc
    by_cases hnil : c = []
    · exact .inl hnil
    · right
      apply h
      rw [← hsplit, List.mem_filter]
      exact ⟨hc, decide_eq_true hnil⟩
  unfold cleanChars
  rw [hrooted, normalize_plain hpieces, hsplit]
  obtain ⟨c, rest, rfl⟩ := List.exists_cons_of_ne_nil hne
  rfl

theorem filter_plain (h : ∀ c ∈ cs, Plain c) : cs.filter (· ≠ []) = cs := by
  rw [List.filter_eq_self]
  intro c hc
  exact decide_eq_true (h c hc).nonempty

theorem head?_plain (h : ∀ c ∈ cs, Plain c) : cs.head? ≠ some [] := by
  intro hhead
  exact (h [] (List.mem_of_head? hhead)).nonempty rfl

theorem cleanChars_joinWith (hne : cs ≠ []) (h : ∀ c ∈ cs, Plain c) :
    cleanChars (Text.joinWith '/' cs) = Text.joinWith '/' cs := by
  have hsplit := Text.splitOn_joinWith hne fun c hc => (h c hc).slashless
  apply cleanChars_eq
  · rw [hsplit]
    exact head?_plain h
  · rw [hsplit, filter_plain h]
  · exact hne
  · exact h

theorem cleanJoin_of_ne {a b : String} (ha : a ≠ "") (hb : b ≠ "") :
    cleanJoin [a, b] = String.ofList (cleanChars (a.toList ++ '/' :: b.toList)) := by
  have hfilter : [a, b].filter (· ≠ "") = [a, b] := by
    rw [List.filter_cons_of_pos (by simpa using ha), List.filter_cons_of_pos (by simpa using hb),
      List.filter_nil]
  unfold cleanJoin
  rw [hfilter]
  rfl

theorem cleanJoin_empty {b : String} (hb : b ≠ "") :
    cleanJoin ["", b] = String.ofList (cleanChars b.toList) := by
  have hfilter : ["", b].filter (· ≠ "") = [b] := by
    rw [List.filter_cons_of_neg (by simp), List.filter_cons_of_pos (by simpa using hb),
      List.filter_nil]
  unfold cleanJoin
  rw [hfilter]
  rfl

theorem ofList_joinWith_ne (hne : cs ≠ []) (h : ∀ c ∈ cs, Plain c) :
    String.ofList (Text.joinWith '/' cs) ≠ "" := by
  intro htext
  have hnil := congrArg String.toList htext
  rw [String.toList_ofList] at hnil
  exact Text.joinWith_ne_nil hne (fun c hc => (h c hc).nonempty) hnil

theorem cleanJoin_joinWith {outer : List Component} (houter : ∀ c ∈ outer, Plain c) (hne : cs ≠ [])
    (h : ∀ c ∈ cs, Plain c) :
    cleanJoin [String.ofList (Text.joinWith '/' outer), String.ofList (Text.joinWith '/' cs)]
      =
    String.ofList (Text.joinWith '/' (outer ++ cs)) := by
  have htext := ofList_joinWith_ne hne h
  by_cases hnil : outer = []
  · rw [hnil]
    change cleanJoin ["", _] = _
    rw [cleanJoin_empty htext, String.toList_ofList, cleanChars_joinWith hne h, List.nil_append]
  · rw [cleanJoin_of_ne (ofList_joinWith_ne hnil houter) htext, String.toList_ofList,
      String.toList_ofList, ← Text.joinWith_append hnil hne, cleanChars_joinWith]
    · simp [hne]
    · intro c hc
      rcases List.mem_append.1 hc with hc | hc
      · exact houter c hc
      · exact h c hc

theorem cleanJoin_cases (parts : List String) :
    cleanJoin parts = "" ∨ ∃ rooted cs, Settled cs ∧ cleanJoin parts = String.ofList (render rooted cs) := by
  unfold cleanJoin
  split
  · exact .inl rfl
  next parts =>
    refine .inr ⟨_, _, settled_normalize _ ?_, rfl⟩
    intro c hc
    exact Text.not_mem_of_mem_splitOn hc

end Path

end Depot
