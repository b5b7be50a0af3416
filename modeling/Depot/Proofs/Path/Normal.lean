import Depot.Proofs.Path.Clean

/-!
This module contains the theory of normal forms: a normal form is its own one, what comes behind it
is kept if it names something, and at the root nothing is left to climb out of.
-/

namespace Depot

namespace Text

variable {sep : Char} {cs : List Char}

theorem trim_of_ends (hhead : cs.head? ≠ some sep) (hlast : cs.getLast? ≠ some sep) :
    trim (· = sep) cs = cs := by
  unfold trim
  rw [dropWhile_of_head hhead, dropWhileEnd_of_last hlast]

end Text

namespace Path

variable {rooted : Bool} {c : Component} {cs ds kept plains : List Component} {ups : Nat}
  {base name : String}

section Normalize

theorem foldl_step_plain (h : ∀ c ∈ plains, Plain c) (rooted : Bool) (kept : List Component) :
    plains.foldl (step rooted) kept = plains.reverse ++ kept := by
  induction plains generalizing kept with
  | nil => rfl
  | cons c plains ih =>
    rw [List.forall_mem_cons] at h
    rw [List.foldl_cons, step_plain h.1, ih h.2, List.reverse_cons, List.append_assoc,
      List.singleton_append]

theorem normalize_append_plain (h : ∀ c ∈ plains, Plain c) (rooted : Bool) (cs : List Component) :
    normalize rooted (cs ++ plains) = normalize rooted cs ++ plains := by
  unfold normalize
  rw [List.foldl_append, foldl_step_plain h, List.reverse_append, List.reverse_reverse]

theorem step_up_ups (ups : Nat) :
    step false (List.replicate ups up) up = List.replicate (ups + 1) up := by
  cases ups with
  | zero => rfl
  | succ ups => rfl

theorem normalize_ups (ups : Nat) :
    normalize false (List.replicate ups up) = List.replicate ups up := by
  have hfold : (List.replicate ups up).foldl (step false) [] = List.replicate ups up := by
    induction ups with
    | zero => rfl
    | succ ups ih =>
      rw [List.replicate_succ', List.foldl_append, ih, List.foldl_cons, List.foldl_nil, step_up_ups,
        List.replicate_succ']
  unfold normalize
  rw [hfold, List.reverse_replicate]

theorem Settled.normalize_eq (h : Settled cs) : normalize false cs = cs := by
  obtain ⟨ups, plains, rfl, hplain⟩ := h
  rw [normalize_append_plain hplain, normalize_ups]

theorem Settled.of_append (h : Settled (cs ++ ds)) : Settled cs := by
  obtain ⟨ups, plains, happend, hplain⟩ := h
  -- The components end among those that leave a directory, or behind them.
  rcases List.append_eq_append_iff.1 happend with ⟨more, hups, -⟩ | ⟨more, hcs, hplains⟩
  · obtain ⟨hall, -⟩ := List.append_eq_replicate_iff.1 hups.symm |>.2
    exact ⟨cs.length, [], by rw [List.append_nil]; exact hall, List.forall_mem_nil _⟩
  · refine ⟨ups, more, hcs, ?_⟩
    intro c hc
    apply hplain
    rw [hplains]
    exact List.mem_append_left _ hc

theorem Settled.append_plain (h : Settled cs) {plains : List Component}
    (hplain : ∀ c ∈ plains, Plain c) : Settled (cs ++ plains) := by
  obtain ⟨ups, before, rfl, hbefore⟩ := h
  refine ⟨ups, before ++ plains, List.append_assoc _ _ _, ?_⟩
  intro c hc
  rcases List.mem_append.1 hc with hc | hc
  · exact hbefore c hc
  · exact hplain c hc

theorem normalize_filter (rooted : Bool) (cs : List Component) :
    normalize rooted (cs.filter (· ≠ [])) = normalize rooted cs := by
  have hfold : ∀ kept, (cs.filter (· ≠ [])).foldl (step rooted) kept
      = cs.foldl (step rooted) kept := by
    induction cs with
    | nil => exact fun kept => rfl
    | cons c cs ih =>
      intro kept
      by_cases hc : c = []
      · rw [hc, List.filter_cons_of_neg (by simp), List.foldl_cons, step_nil, ih]
      · rw [List.filter_cons_of_pos (by simpa using hc), List.foldl_cons, List.foldl_cons, ih]
  unfold normalize
  rw [hfold]

theorem step_rooted (hplain : ∀ c ∈ plains, Plain c) (hc : '/' ∉ c) (ups : Nat) :
    ∃ plains' ups', (∀ c ∈ plains', Plain c) ∧ step true plains c = plains'
      ∧ step false (plains ++ List.replicate ups up) c = plains' ++ List.replicate ups' up := by
  unfold step
  by_cases hskip : c = [] ∨ c = here
  · rw [if_pos hskip, if_pos hskip]
    exact ⟨plains, ups, hplain, rfl, rfl⟩
  · rw [if_neg hskip, if_neg hskip]
    rw [not_or] at hskip
    by_cases hup : c = up
    · rw [if_pos hup, if_pos hup]
      cases plains with
      | nil => exact ⟨[], ups + 1, hplain, rfl, (step_up_ups ups).trans rfl⟩
      | cons first rest =>
        rw [List.forall_mem_cons] at hplain
        exact ⟨rest, ups, hplain.2, if_neg hplain.1.ne_up, if_neg hplain.1.ne_up⟩
    · rw [if_neg hup, if_neg hup]
      refine ⟨c :: plains, ups, ?_, rfl, rfl⟩
      rw [List.forall_mem_cons]
      exact ⟨⟨hskip.1, hskip.2, hup, hc⟩, hplain⟩

theorem foldl_step_rooted (hplain : ∀ c ∈ plains, Plain c) (h : ∀ c ∈ cs, '/' ∉ c) (ups : Nat) :
    ∃ plains' ups', (∀ c ∈ plains', Plain c) ∧ cs.foldl (step true) plains = plains'
      ∧ cs.foldl (step false) (plains ++ List.replicate ups up)
          = plains' ++ List.replicate ups' up := by
  induction cs generalizing plains ups with
  | nil => exact ⟨plains, ups, hplain, rfl, rfl⟩
  | cons c cs ih =>
    rw [List.forall_mem_cons] at h
    obtain ⟨plains', ups', hplain', htrue, hfalse⟩ := step_rooted hplain h.1 ups
    rw [List.foldl_cons, List.foldl_cons, htrue, hfalse]
    exact ih hplain' h.2 ups'

def named (cs : List Component) : List Component :=
  cs.filter (· ≠ up)

theorem named_append (cs ds : List Component) : named (cs ++ ds) = named cs ++ named ds :=
  List.filter_append cs ds

theorem named_plain (h : ∀ c ∈ cs, Plain c) : named cs = cs := by
  unfold named
  rw [List.filter_eq_self]
  intro c hc
  exact decide_eq_true (h c hc).ne_up

theorem named_ups (ups : Nat) : named (List.replicate ups up) = [] := by
  unfold named
  rw [List.filter_eq_nil_iff]
  intro c hc
  rw [List.eq_of_mem_replicate hc]
  decide

theorem Settled.plain_named (h : Settled cs) : ∀ c ∈ named cs, Plain c := by
  obtain ⟨ups, plains, rfl, hplain⟩ := h
  rw [named_append, named_ups, List.nil_append, named_plain hplain]
  exact hplain

theorem normalize_true (h : ∀ c ∈ cs, '/' ∉ c) :
    normalize true cs = named (normalize false cs) := by
  obtain ⟨plains, ups, hplain, htrue, hfalse⟩ := foldl_step_rooted (List.forall_mem_nil Plain) h 0
  rw [List.nil_append, List.replicate_zero] at hfalse
  have hreverse : ∀ c ∈ plains.reverse, Plain c := by
    intro c hc
    exact hplain c (List.mem_reverse.1 hc)
  unfold normalize
  rw [htrue, hfalse, List.reverse_append, named_append, List.reverse_replicate, named_ups,
    List.nil_append, named_plain hreverse]

end Normalize

section Texts

def outline (text : String) : List Component :=
  normalize false (Text.splitOn '/' text.toList)

theorem slashless_splitOn (cs : List Char) : ∀ c ∈ Text.splitOn '/' cs, '/' ∉ c :=
  fun _ hc => Text.not_mem_of_mem_splitOn hc

theorem settled_outline (text : String) : Settled (outline text) :=
  settled_normalize false (slashless_splitOn _)

theorem outline_empty : outline "" = [] := rfl

/-- Whether all components of a text name something. -/
def Relative (text : String) : Prop :=
  ∀ c ∈ Text.splitOn '/' text.toList, Plain c

instance (text : String) : Decidable (Relative text) :=
  inferInstanceAs (Decidable (∀ c ∈ Text.splitOn '/' text.toList, Plain c))

namespace Relative

theorem ne_empty (h : Relative name) : name ≠ "" := by
  rintro rfl
  exact (h [] List.mem_cons_self).nonempty rfl

theorem head?_ne (h : Relative name) : name.toList.head? ≠ some '/' := by
  rw [← Text.joinWith_splitOn '/' name.toList]
  exact Text.head?_joinWith (fun c hc => (h c hc).nonempty) (fun c hc => (h c hc).slashless)

theorem splitOn_intercalate {names : List String} (hne : names ≠ []) :
    Text.splitOn '/' ("/".intercalate names).toList
      =
    names.flatMap fun name => Text.splitOn '/' name.toList := by
  induction names with
  | nil => exact absurd rfl hne
  | cons name rest ih =>
    cases rest with
    | nil => rw [String.intercalate_singleton, List.flatMap_singleton]
    | cons next rest =>
      have hlist : ("/".intercalate (name :: next :: rest)).toList
          = name.toList ++ '/' :: ("/".intercalate (next :: rest)).toList := by
        rw [String.intercalate_cons_cons, String.toList_append, String.toList_append,
          List.append_assoc]
        rfl
      rw [hlist, Text.splitOn_append_sep, ih (by simp)]
      rfl

theorem intercalate {names : List String} (hne : names ≠ []) (h : ∀ name ∈ names, Relative name) :
    Relative ("/".intercalate names) := by
  unfold Relative
  rw [splitOn_intercalate hne]
  intro c hc
  obtain ⟨name, hname, hmem⟩ := List.mem_flatMap.1 hc
  exact h name hname c hmem

theorem append_slash {way : String} (hway : Relative way) (h : Relative name) :
    Relative (way ++ "/" ++ name) := by
  have hlist : (way ++ "/" ++ name).toList = way.toList ++ '/' :: name.toList := by simp
  unfold Relative
  rw [hlist, Text.splitOn_append_sep]
  intro c hc
  rcases List.mem_append.1 hc with hc | hc
  · exact hway c hc
  · exact h c hc

end Relative

theorem isRooted_eq_false {cs : List Char} (h : cs.head? ≠ some '/') : isRooted cs = false :=
  decide_eq_false h

theorem render_false (h : cs ≠ []) : render false cs = Text.joinWith '/' cs := by
  obtain ⟨c, rest, rfl⟩ := List.exists_cons_of_ne_nil h
  rfl

theorem Settled.head?_ne (h : Settled cs) : (Text.joinWith '/' cs).head? ≠ some '/' :=
  Text.head?_joinWith (fun c hc => (h.ne c hc).1) h.slashless

theorem Settled.getLast?_ne (h : Settled cs) : (Text.joinWith '/' cs).getLast? ≠ some '/' :=
  Text.getLast?_joinWith (fun c hc => (h.ne c hc).1) h.slashless

theorem trim_render (h : Settled cs) (hne : cs ≠ []) (rooted : Bool) :
    Text.trim (· = '/') (render rooted cs) = Text.joinWith '/' cs := by
  cases rooted with
  | true => exact Text.trim_sep h.head?_ne h.getLast?_ne
  | false =>
    rw [render_false hne]
    exact Text.trim_of_ends h.head?_ne h.getLast?_ne

theorem isRooted_render (h : Settled cs) (hne : cs ≠ []) (rooted : Bool) :
    isRooted (render rooted cs) = rooted := by
  cases rooted with
  | true => rfl
  | false =>
    rw [render_false hne]
    exact isRooted_eq_false h.head?_ne

theorem head?_append_slash {cs : List Char} (hne : cs ≠ []) (hhead : cs.head? ≠ some '/')
    (more : List Char) : (cs ++ '/' :: more).head? ≠ some '/' := by
  obtain ⟨c, rest, rfl⟩ := List.exists_cons_of_ne_nil hne
  exact hhead

theorem toList_ne_nil (h : base ≠ "") : base.toList ≠ [] := by
  intro hnil
  apply h
  rw [← String.toList_inj, hnil]
  rfl

theorem cleanJoin_relative (hhead : base.toList.head? ≠ some '/') (h : Relative name) :
    cleanJoin [base, name]
      =
    String.ofList (Text.joinWith '/' (outline base ++ Text.splitOn '/' name.toList)) := by
  have hne : outline base ++ Text.splitOn '/' name.toList ≠ [] := by
    rw [ne_eq, List.append_eq_nil_iff, not_and]
    exact fun _ => Text.splitOn_ne_nil _ _
  by_cases hempty : base = ""
  · rw [hempty, cleanJoin_empty h.ne_empty, outline_empty, List.nil_append]
    unfold cleanChars
    rw [isRooted_eq_false h.head?_ne, normalize_plain fun c hc => .inr (h c hc), filter_plain h,
      render_false (Text.splitOn_ne_nil _ _)]
  · rw [cleanJoin_of_ne hempty h.ne_empty]
    unfold cleanChars
    rw [isRooted_eq_false (head?_append_slash (toList_ne_nil hempty) hhead _),
      Text.splitOn_append_sep, normalize_append_plain h]
    exact congrArg String.ofList (render_false hne)

end Texts

end Path

end Depot
