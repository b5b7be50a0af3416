import Depot.Proofs.Files.Change
import Depot.Proofs.Files.Pathname
import Depot.Proofs.Path.Clean

/-!
This module contains the theory of pathnames that only go up at their start, as those of clean paths
do: what they lead to is told by the place at their end alone.
-/

namespace Depot.Files

namespace Pathname

variable {names : List String}

/-- Whether the components only go up at the start. -/
def Settled (names : List String) : Prop :=
  ∃ ups plains, names = List.replicate ups ".." ++ plains
    ∧ ∀ name ∈ plains, Tree.isDots name = false

theorem Settled.of_plain (h : ∀ name ∈ names, Tree.isDots name = false) : Settled names :=
  ⟨0, names, rfl, h⟩

theorem isDots_of_plain {c : Path.Component} (h : Path.Plain c) :
    Tree.isDots (String.ofList c) = false := by
  unfold Tree.isDots
  rw [Bool.or_eq_false_iff, decide_eq_false_iff_not, decide_eq_false_iff_not]
  constructor
  · intro hdot
    apply h.ne_here
    rw [← String.toList_ofList (l := c), hdot]
    rfl
  · intro hdots
    apply h.ne_up
    rw [← String.toList_ofList (l := c), hdots]
    rfl

def keptNames (pieces : List (List Char)) : List String :=
  ((pieces.filter (!·.isEmpty)).map String.ofList).filter (· ≠ ".")

theorem names_parse_eq (text : String) :
    (parse text).names = keptNames (Text.splitOn '/' text.toList) := rfl

theorem keptNames_append (pieces more : List (List Char)) :
    keptNames (pieces ++ more) = keptNames pieces ++ keptNames more := by
  unfold keptNames
  rw [List.filter_append, List.map_append, List.filter_append]

theorem keptNames_settled {cs : List Path.Component} (h : Path.Settled cs) :
    keptNames cs = cs.map String.ofList := by
  have hne := h.ne
  have hfilter : cs.filter (!·.isEmpty) = cs := by
    rw [List.filter_eq_self]
    intro c hc
    simpa using (hne c hc).1
  unfold keptNames
  rw [hfilter, List.filter_eq_self]
  intro name hname
  obtain ⟨c, hc, rfl⟩ := List.mem_map.1 hname
  rw [decide_eq_true_eq]
  intro hdot
  apply (hne c hc).2
  rw [← String.toList_ofList (l := c), hdot]
  rfl

theorem keptNames_render {cs : List Path.Component} (h : Path.Settled cs) (rooted : Bool) :
    keptNames (Text.splitOn '/' (Path.render rooted cs)) = cs.map String.ofList := by
  cases cs with
  | nil =>
    cases rooted with
    | true => rfl
    | false => rfl
  | cons c cs =>
    have hsplit : Text.splitOn '/' (Text.joinWith '/' (c :: cs)) = c :: cs :=
      Text.splitOn_joinWith (by simp) h.slashless
    cases rooted with
    | true =>
      change keptNames (Text.splitOn '/' ('/' :: Text.joinWith '/' (c :: cs))) = _
      rw [Text.splitOn_sep, hsplit]
      exact keptNames_settled h
    | false =>
      change keptNames (Text.splitOn '/' (Text.joinWith '/' (c :: cs))) = _
      rw [hsplit]
      exact keptNames_settled h

theorem settled_map {cs : List Path.Component} (h : Path.Settled cs) :
    Settled (cs.map String.ofList) := by
  obtain ⟨ups, plains, rfl, hplain⟩ := h
  refine ⟨ups, plains.map String.ofList, ?_, ?_⟩
  · rw [List.map_append, List.map_replicate]
    rfl
  · intro name hname
    obtain ⟨c, hc, rfl⟩ := List.mem_map.1 hname
    exact isDots_of_plain (hplain c hc)

theorem settled_parse (parts : List String) : Settled (parse ("/" ++ Path.cleanJoin parts)).names := by
  have hlist : ∀ text : String, ("/" ++ text).toList = '/' :: text.toList := by
    intro text
    simp
  rw [names_parse_eq, hlist, Text.splitOn_sep]
  change Settled (keptNames (Text.splitOn '/' (Path.cleanJoin parts).toList))
  rcases Path.cleanJoin_cases parts with hempty | ⟨rooted, cs, hsettled, htext⟩
  · rw [hempty]
    exact ⟨0, [], rfl, List.forall_mem_nil _⟩
  · rw [htext, String.toList_ofList, keptNames_render hsettled]
    exact settled_map hsettled

structure Fits (p : Pathname) : Prop where
  short : Tree.pathTooLong p = false
  names_short : ∀ name ∈ p.names, Tree.isTooLong name = false

end Pathname

namespace Tree

variable {tree : Tree} {place : Place} {names plains : List String} {name : String}
  {mayLack : Bool} {links ups : Nat} {node : Node} {p : Pathname}

theorem foldl_enter_plain (h : ∀ name ∈ names, isDots name = false) (place : Place) :
    names.foldl enter place = names.reverse ++ place := by
  induction names generalizing place with
  | nil => rfl
  | cons name names ih =>
    rw [List.forall_mem_cons] at h
    rw [List.foldl_cons, enter_of_plain h.1, ih h.2, List.reverse_cons, List.append_assoc,
      List.singleton_append]

theorem foldl_enter_ups (ups : Nat) : (List.replicate ups "..").foldl enter [] = [] := by
  induction ups with
  | zero => rfl
  | succ ups ih =>
    rw [List.replicate_succ, List.foldl_cons]
    exact ih

theorem follow_ups (tree : Tree) (mayLack : Bool) (links ups : Nat) (names : List String) :
    tree.follow mayLack links [] (List.replicate ups ".." ++ names)
      =
    tree.follow mayLack links [] names := by
  induction ups with
  | zero => rfl
  | succ ups ih =>
    rw [List.replicate_succ, List.cons_append, follow_dots rfl rfl]
    exact ih

theorem Sound.hasDirectory_of_below (hsound : tree.Sound) {inner : List String} (hne : inner ≠ [])
    (h : tree.get? (inner ++ place) ≠ none) : tree.hasDirectory place = true := by
  induction inner with
  | nil => exact absurd rfl hne
  | cons name inner ih =>
    have houter := hsound.closed name (inner ++ place) h
    by_cases hinner : inner = []
    · rw [hinner, List.nil_append] at houter
      exact hasDirectory_iff.2 houter
    · apply ih hinner
      rw [houter]
      simp

theorem Sound.get?_of_not_hasDirectory (hsound : tree.Sound) {inner : List String}
    (hdir : tree.hasDirectory place = false) (hne : inner ≠ []) : tree.get? (inner ++ place) = none := by
  cases hget : tree.get? (inner ++ place) with
  | none => rfl
  | some node =>
    have houter : tree.hasDirectory place = true := by
      apply hsound.hasDirectory_of_below hne
      rw [hget]
      simp
    rw [hdir] at houter
    cases houter

theorem follow_of_get? (hsound : tree.Sound) (hplain : ∀ name ∈ names, isDots name = false)
    (hshort : ∀ name ∈ names, isTooLong name = false)
    (h : tree.get? (names.reverse ++ place) ≠ none) :
    tree.follow mayLack links place names = .ok (names.reverse ++ place) := by
  induction names generalizing place with
  | nil => exact follow_nil tree mayLack links place
  | cons name names ih =>
    rw [List.forall_mem_cons] at hplain hshort
    rw [List.reverse_cons, List.append_assoc, List.singleton_append] at h ⊢
    have hdir : tree.hasDirectory place = true := by
      apply hsound.hasDirectory_of_below (show names.reverse ++ [name] ≠ [] by simp)
      rw [List.append_assoc, List.singleton_append]
      exact h
    have hnext : tree.get? (name :: place) ≠ none := by
      by_cases hnames : names = []
      · rw [hnames] at h
        exact h
      · rw [hasDirectory_iff.1 (hsound.hasDirectory_of_below (by simpa using hnames) h)]
        simp
    rw [follow_plain (hsound.linkless _) hdir hplain.1, hshort.1, if_neg Bool.false_ne_true, if_neg hnext]
    exact ih hplain.2 hshort.2 h

theorem stat_eq_ok_iff_of_settled (hsound : tree.Sound) (hroot : tree.startOf p = [])
    (hsettled : Pathname.Settled p.names) :
    tree.stat p = .ok node ↔ p.Fits ∧ tree.get? (p.names.foldl enter []) = some node := by
  constructor
  · intro h
    obtain ⟨place, hlocate, -⟩ := stat_eq_ok_iff.1 h
    obtain ⟨hfits, hfollow⟩ := locate_eq_ok_iff.1 hlocate
    have hget := get?_of_stat hsound h
    rw [hroot] at hget
    exact ⟨⟨decide_eq_false hfits, isTooLong_of_follow hsound hfollow⟩, hget⟩
  · rintro ⟨hfits, hget⟩
    obtain ⟨ups, plains, hnames, hplain⟩ := hsettled
    have hshort := hfits.names_short
    rw [hnames] at hget hshort
    rw [List.foldl_append, foldl_enter_ups, foldl_enter_plain hplain] at hget
    refine stat_eq_ok_iff.2 ⟨plains.reverse ++ [], locate_eq_ok_iff.2 ⟨?_, ?_⟩, hget⟩
    · exact of_decide_eq_false hfits.short
    · rw [hroot, hnames, follow_ups]
      apply follow_of_get? hsound hplain
      · intro name hname
        exact hshort name (List.mem_append_right _ hname)
      · rw [hget]
        simp

/-- Whether a way comes, in a directory, to a component that is too long. -/
def Blocked (tree : Tree) (place : Place) (names : List String) : Prop :=
  ∃ outer name rest, names = outer ++ name :: rest
    ∧ tree.hasDirectory (outer.reverse ++ place) = true ∧ isTooLong name = true

theorem not_blocked_nil (tree : Tree) (place : Place) : ¬tree.Blocked place [] := by
  rintro ⟨outer, name, rest, hnames, -⟩
  simp at hnames

theorem not_blocked_of_short (hshort : ∀ name ∈ names, isTooLong name = false) :
    ¬tree.Blocked place names := by
  rintro ⟨outer, name, rest, rfl, -, hlong⟩
  rw [hshort name (by simp)] at hlong
  cases hlong

theorem blocked_cons (hsound : tree.Sound) :
    tree.Blocked place (name :: names)
      ↔ tree.hasDirectory place = true ∧ (isTooLong name = true ∨ tree.Blocked (name :: place) names) := by
  constructor
  · rintro ⟨outer, last, rest, hnames, hdir, hlong⟩
    cases outer with
    | nil =>
      cases hnames
      exact ⟨hdir, .inl hlong⟩
    | cons first outer =>
      cases hnames
      rw [List.reverse_cons, List.append_assoc, List.singleton_append] at hdir
      refine ⟨?_, .inr ⟨outer, last, rest, rfl, hdir, hlong⟩⟩
      apply hsound.hasDirectory_of_below (show outer.reverse ++ [name] ≠ [] by simp)
      rw [List.append_assoc, List.singleton_append, hasDirectory_iff.1 hdir]
      simp
  · rintro ⟨hdir, hlong | ⟨outer, last, rest, rfl, hbelow, hlong⟩⟩
    · exact ⟨[], name, names, rfl, hdir, hlong⟩
    · refine ⟨name :: outer, last, rest, rfl, ?_, hlong⟩
      rw [List.reverse_cons, List.append_assoc, List.singleton_append]
      exact hbelow

theorem Blocked.hasDirectory (hsound : tree.Sound) (h : tree.Blocked place names) :
    tree.hasDirectory place = true := by
  cases names with
  | nil => exact absurd h (not_blocked_nil tree place)
  | cons name names => exact ((blocked_cons hsound).1 h).1

theorem follow_plain_cases (hsound : tree.Sound) (hplain : ∀ name ∈ names, isDots name = false) :
    (tree.Blocked place names ∧ tree.follow false links place names = .error .nameTooLong)
      ∨ ¬tree.Blocked place names
        ∧ (tree.follow false links place names = .ok (names.reverse ++ place)
          ∨ tree.get? (names.reverse ++ place) = none
            ∧ (tree.follow false links place names = .error .noEntry
              ∨ tree.follow false links place names = .error .notDirectory)) := by
  induction names generalizing place with
  | nil => exact .inr ⟨not_blocked_nil tree place, .inl (follow_nil tree false links place)⟩
  | cons name names ih =>
    rw [List.forall_mem_cons] at hplain
    rw [List.reverse_cons, List.append_assoc, List.singleton_append, blocked_cons hsound]
    cases hdir : tree.hasDirectory place with
    | false =>
      refine .inr ⟨by simp, .inr ⟨?_, .inr (follow_of_not_directory hdir names)⟩⟩
      have hbelow := hsound.get?_of_not_hasDirectory hdir (show names.reverse ++ [name] ≠ [] by simp)
      rwa [List.append_assoc, List.singleton_append] at hbelow
    | true =>
      rw [follow_plain (hsound.linkless _) hdir hplain.1]
      cases hlong : isTooLong name with
      | true => exact .inl ⟨⟨rfl, .inl rfl⟩, rfl⟩
      | false =>
        by_cases hget : tree.get? (name :: place) = none
        · have houter : ¬tree.hasDirectory (name :: place) = true := by
            rw [hasDirectory_iff, hget]
            simp
          rw [if_neg Bool.false_ne_true, if_pos hget]
          refine .inr ⟨?_, .inr ⟨?_, .inl rfl⟩⟩
          · rintro ⟨-, hlong' | hblocked⟩
            · cases hlong'
            · exact houter (hblocked.hasDirectory hsound)
          · by_cases hnil : names = []
            · rw [hnil]
              exact hget
            · rw [Bool.not_eq_true] at houter
              exact hsound.get?_of_not_hasDirectory houter (by simpa using hnil)
        · rw [if_neg Bool.false_ne_true, if_neg hget]
          simp only [true_and, Bool.false_eq_true, false_or]
          exact ih hplain.2

theorem follow_settled_cases (hsound : tree.Sound) (hsettled : Pathname.Settled names)
    (hshort : ∀ name ∈ names, isTooLong name = false) :
    tree.follow false links [] names = .ok (names.foldl enter [])
      ∨ tree.follow false links [] names = .error .noEntry
      ∨ tree.follow false links [] names = .error .notDirectory := by
  obtain ⟨ups, plains, rfl, hplain⟩ := hsettled
  have hfree : ¬tree.Blocked [] plains :=
    not_blocked_of_short fun name hname => hshort name (List.mem_append_right _ hname)
  rw [follow_ups, List.foldl_append, foldl_enter_ups, foldl_enter_plain hplain]
  rcases follow_plain_cases hsound hplain with ⟨hblocked, -⟩ | ⟨-, hok | ⟨-, hnone⟩⟩
  · exact absurd hblocked hfree
  · exact .inl hok
  · exact .inr hnone

theorem stat_of_none (hsound : tree.Sound) (hroot : tree.startOf p = [])
    (hsettled : Pathname.Settled p.names) (hfits : p.Fits)
    (hnone : tree.get? (p.names.foldl enter []) = none) :
    tree.stat p = .error .noEntry ∨ tree.stat p = .error .notDirectory := by
  have hshort := of_decide_eq_false hfits.short
  unfold stat locate followFrom
  rw [if_neg hshort, hroot]
  rcases follow_settled_cases hsound hsettled hfits.names_short with hok | herror | herror
  · rw [hok]
    simp only [bind, Except.bind]
    rw [hnone]
    exact .inl rfl
  · rw [herror]
    exact .inl rfl
  · rw [herror]
    exact .inr rfl

section Overlong

/-- Whether a pathname cannot be looked up: it is too long, or a component in a directory is. -/
def Overlong (tree : Tree) (p : Pathname) : Prop :=
  pathTooLong p = true ∨ tree.Blocked [] p.names

theorem not_overlong_of_fits (hfits : p.Fits) : ¬tree.Overlong p := by
  rintro (hlong | hblocked)
  · rw [hfits.short] at hlong
    cases hlong
  · exact not_blocked_of_short hfits.names_short hblocked

variable (hsound : tree.Sound) (hroot : tree.startOf p = [])
  (hplain : ∀ name ∈ p.names, isDots name = false)

include hsound hroot hplain

theorem locate_plain_cases :
    (tree.Overlong p ∧ tree.locate p = .error .nameTooLong)
      ∨ ¬tree.Overlong p
        ∧ (tree.locate p = .ok p.names.reverse
          ∨ tree.get? p.names.reverse = none
            ∧ (tree.locate p = .error .noEntry ∨ tree.locate p = .error .notDirectory)) := by
  unfold locate followFrom Overlong
  rw [hroot]
  by_cases hlong : maxPathname ≤ p.render.utf8ByteSize
  · rw [if_pos hlong]
    exact .inl ⟨.inl (decide_eq_true hlong), rfl⟩
  · have hshort : pathTooLong p = false := decide_eq_false hlong
    rw [if_neg hlong, hshort, ← List.append_nil p.names.reverse]
    simpa only [Bool.false_eq_true, false_or] using follow_plain_cases hsound hplain

theorem isDirectory_of_overlong (h : tree.Overlong p) :
    tree.isDirectory p = .error .nameTooLong := by
  rcases locate_plain_cases hsound hroot hplain with ⟨-, hlocate⟩ | ⟨hnot, -⟩
  · unfold isDirectory stat
    rw [hlocate]
    rfl
  · exact absurd h hnot

theorem isDirectory_of_not_overlong (h : ¬tree.Overlong p) :
    tree.isDirectory p = .ok (tree.hasDirectory p.names.reverse) := by
  unfold isDirectory stat hasDirectory
  rcases locate_plain_cases hsound hroot hplain with ⟨hlong, -⟩ | ⟨-, hlocate | ⟨hnone, hlocate⟩⟩
  · exact absurd hlong h
  · rw [hlocate]
    simp only [bind, Except.bind]
    cases tree.get? p.names.reverse with
    | none => rfl
    | some node => cases node <;> rfl
  · rw [hnone]
    rcases hlocate with hlocate | hlocate
    · rw [hlocate]
      rfl
    · rw [hlocate]
      rfl

theorem locate_of_hasDirectory (h : ¬tree.Overlong p)
    (hdir : tree.hasDirectory p.names.reverse = true) : tree.locate p = .ok p.names.reverse := by
  rcases locate_plain_cases hsound hroot hplain with ⟨hlong, -⟩ | ⟨-, hlocate | ⟨hnone, -⟩⟩
  · exact absurd hlong h
  · exact hlocate
  · rw [hasDirectory_iff, hnone] at hdir
    cases hdir

end Overlong

theorem render_dropLast_le (p : Pathname) (names : List String) (hbegins : names <+: p.names) :
    (Pathname.render ⟨p.start, names⟩).utf8ByteSize ≤ p.render.utf8ByteSize := by
  obtain ⟨more, hmore⟩ := hbegins
  rw [Pathname.utf8ByteSize_render, Pathname.utf8ByteSize_render, ← hmore]
  have hwidth := Pathname.width_le_append names more
  dsimp only
  omega

theorem settled_concat_cases {outer : List String} (h : Pathname.Settled (outer ++ [name])) :
    Pathname.Settled outer
      ∧ (isDots name = false ∨ (outer ++ [name]).foldl enter [] = []) := by
  obtain ⟨ups, plains, hnames, hplain⟩ := h
  rcases List.eq_nil_or_concat plains with rfl | ⟨inner, last, rfl⟩
  · rw [List.append_nil] at hnames
    refine ⟨⟨ups - 1, [], ?_, List.forall_mem_nil _⟩, .inr ?_⟩
    · have houter := congrArg List.dropLast hnames
      rw [List.dropLast_concat, List.dropLast_replicate] at houter
      rw [houter, List.append_nil]
    · rw [hnames]
      exact foldl_enter_ups ups
  · rw [List.concat_eq_append] at hnames hplain
    rw [← List.append_assoc] at hnames
    obtain ⟨rfl, hlast⟩ := List.append_inj' hnames rfl
    obtain rfl := List.singleton_inj.1 hlast
    refine ⟨⟨ups, inner, rfl, ?_⟩, .inl (hplain name (by simp))⟩
    intro other hother
    exact hplain other (List.mem_append_left _ hother)

theorem unlink_of_none (hsound : tree.Sound) (hroot : tree.startOf p = [])
    (hsettled : Pathname.Settled p.names) (hfits : p.Fits)
    (hnone : tree.get? (p.names.foldl enter []) = none) :
    tree.unlink p = .error .noEntry ∨ tree.unlink p = .error .notDirectory := by
  obtain ⟨start, names⟩ := p
  rcases List.eq_nil_or_concat names with rfl | ⟨outer, name, rfl⟩
  · rw [List.foldl_nil, get?_root] at hnone
    cases hnone
  · rw [List.concat_eq_append] at *
    have hshort := of_decide_eq_false hfits.short
    have hnames := hfits.names_short
    obtain ⟨houter, hlast | hroot'⟩ := settled_concat_cases hsettled
    · have hlastShort : isTooLong name = false := hnames name (by simp)
      have houterShort : ∀ name ∈ outer, isTooLong name = false := by
        intro name hname
        exact hnames name (List.mem_append_left _ hname)
      unfold unlink
      rw [entry?_concat]
      unfold followFrom
      rw [if_neg hshort, hroot]
      -- The way to the last component may end early, or nothing is there.
      rcases follow_settled_cases hsound houter houterShort with hok | herror | herror
      · rw [hok]
        dsimp only
        split
        · exact .inr rfl
        · rw [hlast, hlastShort, if_neg Bool.false_ne_true, if_neg Bool.false_ne_true]
          simp only [bind, Except.bind]
          rw [List.foldl_append, List.foldl_cons, List.foldl_nil, enter_of_plain hlast] at hnone
          rw [hnone]
          exact .inl rfl
      · rw [herror]
        exact .inl rfl
      · rw [herror]
        exact .inr rfl
    · rw [hroot', get?_root] at hnone
      cases hnone

end Tree

end Depot.Files
