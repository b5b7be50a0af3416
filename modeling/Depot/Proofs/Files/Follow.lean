import Depot.Proofs.Files.Ways

/-!
This module contains the theory of trees without links, in which everything is in a directory: where
pathnames lead, and that it does not matter to them what else there is.
-/

namespace Depot.Files.Tree

variable {tree tree' : Tree} {place directory : Place} {name : String} {names : List String}
  {node : Node} {mayLack : Bool} {links : Nat}

/-- Whether there are no links in a tree, and everything in it is in a directory. -/
structure Sound (tree : Tree) : Prop where
  linkless : ∀ place target, tree.get? place ≠ some (.link target)
  closed : ∀ name place, tree.get? (name :: place) ≠ none → tree.get? place = some .directory

namespace Sound

theorem hasDirectory_tail (h : tree.Sound) (hdir : tree.hasDirectory place = true) :
    tree.hasDirectory place.tail = true := by
  cases place with
  | nil => exact hdir
  | cons name place =>
    rw [hasDirectory_iff] at hdir ⊢
    have hsome : tree.get? (name :: place) ≠ none := by
      rw [hdir]
      simp
    exact h.closed name place hsome

theorem hasDirectory_enter_dots (h : tree.Sound) (hdots : isDots name = true)
    (hdir : tree.hasDirectory place = true) : tree.hasDirectory (enter place name) = true := by
  unfold enter
  split
  · exact hdir
  · split
    · exact h.hasDirectory_tail hdir
    · simp_all [isDots]

end Sound

section Follow

theorem follow_cons_ok (hsound : tree.Sound) {rest : List String} {leads : Place}
    (h : tree.follow mayLack links place (name :: rest) = .ok leads) :
    tree.hasDirectory place = true ∧ isTooLong name = false
      ∧ (tree.get? (enter place name) ≠ none
          ∧ tree.follow mayLack links (enter place name) rest = .ok leads
        ∨ mayLack = true ∧ rest = [] ∧ leads = enter place name) := by
  cases hdir : tree.hasDirectory place with
  | false =>
    rw [follow_of_not_directory hdir] at h
    cases h
  | true =>
    cases hdots : isDots name with
    | true =>
      rw [follow_dots hdir hdots] at h
      have hthere := hasDirectory_iff.1 (hsound.hasDirectory_enter_dots hdots hdir)
      refine ⟨rfl, isTooLong_of_dots hdots, .inl ⟨?_, h⟩⟩
      rw [hthere]
      simp
    | false =>
      rw [follow_plain (hsound.linkless _) hdir hdots] at h
      rw [enter_of_plain hdots]
      split at h
      · cases h
      next hshort =>
        refine ⟨rfl, eq_false_of_ne_true hshort, ?_⟩
        split at h
        · split at h
          next hlast =>
            rw [Bool.and_eq_true, List.isEmpty_iff] at hlast
            cases h
            exact .inr ⟨hlast.1, hlast.2, rfl⟩
          · cases h
        next hget => exact .inl ⟨hget, h⟩

theorem follow_cons (hsound : tree.Sound) (hdir : tree.hasDirectory place = true)
    (hshort : isTooLong name = false) (hget : tree.get? (enter place name) ≠ none)
    (rest : List String) :
    tree.follow mayLack links place (name :: rest)
      =
    tree.follow mayLack links (enter place name) rest := by
  cases hdots : isDots name with
  | true => exact follow_dots hdir hdots rest
  | false =>
    rw [enter_of_plain hdots] at hget ⊢
    rw [follow_plain (hsound.linkless _) hdir hdots, hshort, if_neg Bool.false_ne_true, if_neg hget]

theorem follow_ok (hsound : tree.Sound) {leads : Place}
    (h : tree.follow mayLack links place names = .ok leads) : leads = names.foldl enter place := by
  induction names generalizing place with
  | nil =>
    rw [follow_nil] at h
    cases h
    rfl
  | cons name rest ih =>
    obtain ⟨-, -, ⟨-, hrest⟩ | ⟨-, hnil, hleads⟩⟩ := follow_cons_ok hsound h
    · exact ih hrest
    · rw [hleads, hnil]
      rfl

theorem isTooLong_of_follow (hsound : tree.Sound) {leads : Place}
    (h : tree.follow mayLack links place names = .ok leads) :
    ∀ name ∈ names, isTooLong name = false := by
  induction names generalizing place with
  | nil => exact List.forall_mem_nil _
  | cons name rest ih =>
    rw [List.forall_mem_cons]
    obtain ⟨-, hshort, ⟨-, hrest⟩ | ⟨-, hnil, -⟩⟩ := follow_cons_ok hsound h
    · exact ⟨hshort, ih hrest⟩
    · rw [hnil]
      exact ⟨hshort, List.forall_mem_nil _⟩

theorem follow_append (hsound : tree.Sound) {leads : Place}
    (h : tree.follow false links place names = .ok leads) (mayLack : Bool) (more : List String) :
    tree.follow mayLack links place (names ++ more) = tree.follow mayLack links leads more := by
  induction names generalizing place with
  | nil =>
    rw [follow_nil] at h
    cases h
    rfl
  | cons name rest ih =>
    obtain ⟨hdir, hshort, ⟨hget, hrest⟩ | ⟨hlack, -⟩⟩ := follow_cons_ok hsound h
    · rw [List.cons_append, follow_cons hsound hdir hshort hget]
      exact ih hrest
    · cases hlack

theorem follow_concat (hsound : tree.Sound) {leads : Place}
    (h : tree.follow false links place (names ++ [name]) = .ok leads) :
    ∃ directory, tree.follow false links place names = .ok directory
      ∧ tree.hasDirectory directory = true := by
  induction names generalizing place with
  | nil => exact ⟨place, follow_nil tree false links place, (follow_cons_ok hsound h).1⟩
  | cons first rest ih =>
    rw [List.cons_append] at h
    obtain ⟨hdir, hshort, ⟨hget, hrest⟩ | ⟨hlack, -⟩⟩ := follow_cons_ok hsound h
    · rw [follow_cons hsound hdir hshort hget]
      exact ih hrest
    · cases hlack

theorem follow_mono (hsound : tree.Sound) (hsound' : tree'.Sound)
    (hkept : ∀ place, tree.hasDirectory place = true → tree'.hasDirectory place = true)
    {leads : Place} (h : tree.follow false links place names = .ok leads)
    (hleads : tree'.get? leads ≠ none) :
    tree'.follow false links place names = .ok leads := by
  induction names generalizing place with
  | nil =>
    rw [follow_nil] at h ⊢
    exact h
  | cons name rest ih =>
    obtain ⟨hdir, hshort, ⟨-, hrest⟩ | ⟨hlack, -⟩⟩ := follow_cons_ok hsound h
    · -- The next place is the last, or a directory since the way goes on from there.
      have hnext : tree'.get? (enter place name) ≠ none := by
        cases rest with
        | nil =>
          rw [follow_nil] at hrest
          cases hrest
          exact hleads
        | cons next rest =>
          rw [hasDirectory_iff.1 (hkept _ (follow_cons_ok hsound hrest).1)]
          simp
      rw [follow_cons hsound' (hkept place hdir) hshort hnext]
      exact ih hrest
    · cases hlack

end Follow

def pathTooLong (p : Pathname) : Bool :=
  maxPathname ≤ p.render.utf8ByteSize

namespace Leads

variable {start : Start}

theorem eq_foldl (hsound : tree.Sound) (h : tree.Leads start names directory) :
    directory = names.foldl enter (tree.startOf ⟨start, names⟩) :=
  follow_ok hsound h.follow_eq

end Leads

section Entry

variable {start : Start}

theorem entry?_nil (tree : Tree) (start : Start) : tree.entry? ⟨start, []⟩ = .ok none := rfl

theorem entry?_concat (tree : Tree) (start : Start) (names : List String) (name : String) :
    tree.entry? ⟨start, names ++ [name]⟩
      =
    match tree.followFrom false ⟨start, names ++ [name]⟩ names with
    | .error code => .error code
    | .ok directory =>
      if tree.hasDirectory directory = false then .error .notDirectory
      else if isDots name then .ok none
      else if isTooLong name then .error .nameTooLong
      else .ok (some (name :: directory)) := by
  unfold entry? isDots
  simp only [List.getLast?_append, List.getLast?_singleton, Option.some_or, List.dropLast_concat]
  cases tree.followFrom false ⟨start, names ++ [name]⟩ names with
  | error code => rfl
  | ok directory =>
    simp only [bind, Except.bind]
    cases tree.hasDirectory directory with
    | true => rfl
    | false => rfl

def lastPlace? (directory : Place) (name : String) : Option Place :=
  if isDots name then none else some (name :: directory)

def refuses (start : Start) (names : List String) (name : String) : Bool :=
  pathTooLong ⟨start, names ++ [name]⟩ || (!isDots name && isTooLong name)

theorem Leads.followFrom_eq (h : tree.Leads start names directory)
    (hlink : ∀ target, tree.get? (name :: directory) ≠ some (.link target)) (mayLack : Bool) :
    tree.followFrom mayLack ⟨start, names ++ [name]⟩ (names ++ [name])
      =
    if refuses start names name then .error .nameTooLong
    else
      match lastPlace? directory name with
      | none => .ok (enter directory name)
      | some place =>
        if tree.get? place = none ∧ mayLack = false then .error .noEntry else .ok place := by
  obtain ⟨links, hway⟩ := h.exists_way
  have hfollow := hway.follow_append mayLack [name]
  unfold followFrom refuses pathTooLong lastPlace?
  by_cases hlong : maxPathname ≤ (Pathname.render ⟨start, names ++ [name]⟩).utf8ByteSize
  · rw [if_pos hlong, decide_eq_true hlong, Bool.true_or, if_pos rfl]
  · rw [if_neg hlong, decide_eq_false hlong, Bool.false_or]
    refine hfollow.trans ?_
    cases hdots : isDots name with
    | true =>
      rw [follow_dots h.hasDirectory hdots, follow_nil]
      rfl
    | false =>
      rw [follow_plain hlink h.hasDirectory hdots]
      cases isTooLong name with
      | true => rfl
      | false =>
        rw [if_neg Bool.false_ne_true]
        by_cases hget : tree.get? (name :: directory) = none
        · cases mayLack with
          | true => simp [hget]
          | false => simp [hget]
        · simp [hget, follow_nil]

theorem Leads.entry?_eq (h : tree.Leads start names directory) (name : String) :
    tree.entry? ⟨start, names ++ [name]⟩
      =
    if refuses start names name then .error .nameTooLong else .ok (lastPlace? directory name) := by
  have hfollow : tree.followFrom false ⟨start, names ++ [name]⟩ names
      = if pathTooLong ⟨start, names ++ [name]⟩ then .error .nameTooLong else .ok directory := by
    unfold followFrom pathTooLong
    simp only [decide_eq_true_eq]
    rw [← h.follow_eq]
    rfl
  rw [entry?_concat, hfollow]
  unfold refuses
  cases pathTooLong ⟨start, names ++ [name]⟩ with
  | true => rfl
  | false =>
    rw [if_neg Bool.false_ne_true]
    dsimp only
    rw [h.hasDirectory]
    unfold lastPlace?
    cases isDots name with
    | true => rfl
    | false =>
      cases isTooLong name with
      | true => rfl
      | false => rfl

theorem Leads.stat_eq (hsound : tree.Sound) (h : tree.Leads start names directory) (name : String) :
    tree.stat ⟨start, names ++ [name]⟩
      =
    if refuses start names name then .error .nameTooLong
    else
      match lastPlace? directory name with
      | none => .ok .directory
      | some place =>
        match tree.get? place with
        | none => .error .noEntry
        | some node => .ok node := by
  have hlocate := h.followFrom_eq (hsound.linkless (name :: directory)) false
  unfold stat locate
  rw [hlocate]
  cases refuses start names name with
  | true => rfl
  | false =>
    rw [if_neg Bool.false_ne_true, if_neg Bool.false_ne_true]
    cases hlast : lastPlace? directory name with
    | none =>
      have hdots : isDots name = true := by
        unfold lastPlace? at hlast
        split at hlast
        next hdots => exact hdots
        · cases hlast
      have hdir := hasDirectory_iff.1 (hsound.hasDirectory_enter_dots hdots h.hasDirectory)
      simp only [bind, Except.bind]
      rw [hdir]
      rfl
    | some place =>
      cases hget : tree.get? place with
      | none => simp [hget, bind, Except.bind]
      | some node =>
        have hsome : ¬(some node = none ∧ True) := by simp
        simp only [bind, Except.bind]
        rw [hget, if_neg hsome]
        simp only [hget]
        rfl

theorem Leads.isDirectory_eq (hsound : tree.Sound) (h : tree.Leads start names directory)
    (name : String) :
    tree.isDirectory ⟨start, names ++ [name]⟩
      =
    if refuses start names name then .error .nameTooLong
    else
      match lastPlace? directory name with
      | none => .ok true
      | some place => .ok (tree.hasDirectory place) := by
  unfold isDirectory
  rw [h.stat_eq hsound name]
  cases refuses start names name with
  | true => rfl
  | false =>
    cases lastPlace? directory name with
    | none => rfl
    | some place =>
      rw [if_neg Bool.false_ne_true, if_neg Bool.false_ne_true]
      dsimp only
      unfold Tree.hasDirectory
      cases tree.get? place with
      | none => rfl
      | some node => cases node <;> rfl

/-- What a pathname names in the directory that its parent leads to. -/
def entryOf? (directory : Place) (p : Pathname) : Option Place :=
  p.names.getLast?.bind (lastPlace? directory)

theorem exists_of_entryOf? {p : Pathname} (h : entryOf? directory p = some place) :
    ∃ name, p.names.dropLast ++ [name] = p.names ∧ place = name :: directory := by
  unfold entryOf? at h
  obtain ⟨name, hlast, hplace⟩ := Option.bind_eq_some_iff.1 h
  unfold lastPlace? at hplace
  split at hplace
  · cases hplace
  · cases hplace
    obtain ⟨outer, hnames⟩ := List.getLast?_eq_some_iff.1 hlast
    refine ⟨name, ?_, rfl⟩
    rw [hnames, List.dropLast_concat]

def exceeds (p : Pathname) : Bool :=
  match p.names.getLast? with
  | none => pathTooLong p
  | some name => refuses p.start p.names.dropLast name

theorem Leads.entry?_pathname {p : Pathname} (h : tree.Leads p.start p.names.dropLast directory)
    (hfits : exceeds p = false) : tree.entry? p = .ok (entryOf? directory p) := by
  obtain ⟨start, names⟩ := p
  rcases List.eq_nil_or_concat names with rfl | ⟨outer, name, rfl⟩
  · rfl
  · rw [List.concat_eq_append] at h hfits ⊢
    unfold exceeds at hfits
    unfold entryOf?
    simp only [List.dropLast_concat, List.getLast?_concat] at h hfits ⊢
    rw [h.entry?_eq name, hfits]
    rfl

theorem Leads.stat_pathname (hsound : tree.Sound) {p : Pathname}
    (h : tree.Leads p.start p.names.dropLast directory) (hfits : exceeds p = false) :
    tree.stat p
      =
    match entryOf? directory p with
    | none => .ok .directory
    | some place =>
      match tree.get? place with
      | none => .error .noEntry
      | some node => .ok node := by
  obtain ⟨start, names⟩ := p
  rcases List.eq_nil_or_concat names with rfl | ⟨outer, name, rfl⟩
  · have hfollow := h.follow_eq
    have hdir := hasDirectory_iff.1 h.hasDirectory
    unfold exceeds pathTooLong at hfits
    simp only [List.getLast?_nil, decide_eq_false_iff_not] at hfits
    unfold stat locate followFrom
    rw [if_neg hfits]
    simp only [List.dropLast_nil] at hfollow
    rw [hfollow]
    simp only [bind, Except.bind]
    rw [hdir]
    rfl
  · rw [List.concat_eq_append] at h hfits ⊢
    unfold exceeds at hfits
    unfold entryOf?
    simp only [List.dropLast_concat, List.getLast?_concat] at h hfits ⊢
    rw [h.stat_eq hsound name, hfits]
    rfl

theorem entry?_some (h : tree.entry? ⟨start, names⟩ = .ok (some place)) :
    ∃ outer name directory, names = outer ++ [name] ∧ place = name :: directory
      ∧ tree.Leads start outer directory ∧ isDots name = false
      ∧ refuses start outer name = false := by
  rcases List.eq_nil_or_concat names with rfl | ⟨outer, name, rfl⟩
  · rw [entry?_nil] at h
    cases h
  · rw [List.concat_eq_append, entry?_concat] at h
    unfold followFrom at h
    by_cases hlong : maxPathname ≤ (Pathname.render ⟨start, outer ++ [name]⟩).utf8ByteSize
    · rw [if_pos hlong] at h
      cases h
    · rw [if_neg hlong] at h
      cases hfollow : tree.follow false maxLinks (tree.startOf ⟨start, outer ++ [name]⟩) outer with
      | error code =>
        rw [hfollow] at h
        cases h
      | ok directory =>
        rw [hfollow] at h
        dsimp only at h
        split at h
        · cases h
        next hdir =>
          split at h
          · cases h
          next hdots =>
            split at h
            · cases h
            next hshort =>
              cases h
              refine ⟨outer, name, directory, List.concat_eq_append, rfl, ⟨hfollow, ?_⟩, ?_, ?_⟩
              · exact eq_true_of_ne_false hdir
              · exact eq_false_of_ne_true hdots
              · unfold refuses pathTooLong
                rw [decide_eq_false hlong, eq_false_of_ne_true hshort, Bool.and_false,
                  Bool.or_false]

theorem isTooLong_of_refuses (hdots : isDots name = false) (h : refuses start names name = false) :
    isTooLong name = false := by
  unfold refuses at h
  rw [hdots, Bool.or_eq_false_iff, Bool.not_false, Bool.true_and] at h
  exact h.2

theorem Leads.entryOf?_eq_foldl (hsound : tree.Sound) {p : Pathname}
    (h : tree.Leads p.start p.names.dropLast directory) (hentry : entryOf? directory p = some place) :
    place = p.names.foldl enter (tree.startOf p) := by
  obtain ⟨start, names⟩ := p
  unfold entryOf? at hentry
  rcases List.eq_nil_or_concat names with rfl | ⟨outer, last, rfl⟩
  · cases hentry
  · rw [List.concat_eq_append] at h hentry ⊢
    simp only [List.getLast?_concat, List.dropLast_concat, Option.bind_some] at h hentry
    unfold lastPlace? at hentry
    cases hdots : isDots last with
    | true =>
      rw [hdots] at hentry
      cases hentry
    | false =>
      rw [hdots] at hentry
      cases hentry
      rw [List.foldl_append, List.foldl_cons, List.foldl_nil, enter_of_plain hdots,
        h.eq_foldl hsound]
      rfl

theorem stat_eq_ok_iff {p : Pathname} :
    tree.stat p = .ok node ↔ ∃ place, tree.locate p = .ok place ∧ tree.get? place = some node := by
  unfold stat
  cases tree.locate p with
  | error code => simp [bind, Except.bind]
  | ok place =>
    simp only [bind, Except.bind, Except.ok.injEq, exists_eq_left']
    cases tree.get? place with
    | none => simp [throw, throwThe, MonadExceptOf.throw]
    | some found => simp [pure, Except.pure]

theorem locate_eq_ok_iff {p : Pathname} :
    tree.locate p = .ok place
      ↔ ¬maxPathname ≤ p.render.utf8ByteSize
        ∧ tree.follow false maxLinks (tree.startOf p) p.names = .ok place := by
  unfold locate followFrom
  split
  next hlong => simp [hlong]
  next hlong => simp [hlong]

theorem get?_of_stat (hsound : tree.Sound) {p : Pathname} (h : tree.stat p = .ok node) :
    tree.get? (p.names.foldl enter (tree.startOf p)) = some node := by
  obtain ⟨place, hlocate, hget⟩ := stat_eq_ok_iff.1 h
  rw [← follow_ok hsound (locate_eq_ok_iff.1 hlocate).2]
  exact hget

theorem Leads.of_stat_file (hsound : tree.Sound) {p : Pathname} (hroot : tree.startOf p = [])
    {bytes : ByteArray} (h : tree.stat p = .ok (.file bytes)) :
    ∃ directory, tree.Leads p.start p.names.dropLast directory ∧ exceeds p = false
      ∧ entryOf? directory p = some (p.names.foldl enter (tree.startOf p)) := by
  have hget := get?_of_stat hsound h
  obtain ⟨place, hlocate, -⟩ := stat_eq_ok_iff.1 h
  obtain ⟨hfits, hfollow⟩ := locate_eq_ok_iff.1 hlocate
  obtain ⟨start, names⟩ := p
  rcases List.eq_nil_or_concat names with rfl | ⟨outer, name, rfl⟩
  · rw [hroot, List.foldl_nil, get?_root] at hget
    cases hget
  · rw [List.concat_eq_append] at *
    obtain ⟨directory, houter, hdir⟩ := follow_concat hsound hfollow
    have hleads : tree.Leads start outer directory := ⟨houter, hdir⟩
    have hfoldl : (outer ++ [name]).foldl enter (tree.startOf ⟨start, outer ++ [name]⟩)
        = enter directory name := by
      rw [List.foldl_append, List.foldl_cons, List.foldl_nil, hleads.eq_foldl hsound]
      rfl
    have hdots : isDots name = false := by
      apply eq_false_of_ne_true
      intro hdots
      have hdirectory := hasDirectory_iff.1 (hsound.hasDirectory_enter_dots hdots hdir)
      rw [hfoldl, hdirectory] at hget
      cases hget
    have hshort : isTooLong name = false := by
      apply eq_false_of_ne_true
      intro hlong
      rw [follow_append hsound houter, follow_plain (hsound.linkless _) hdir hdots, if_pos hlong] at hfollow
      cases hfollow
    refine ⟨directory, ?_, ?_, ?_⟩
    · simp only [List.dropLast_concat]
      exact hleads
    · unfold exceeds refuses pathTooLong
      simp only [List.getLast?_concat, List.dropLast_concat]
      rw [decide_eq_false hfits, hshort, Bool.and_false, Bool.or_false]
    · rw [hfoldl, enter_of_plain hdots]
      unfold entryOf? lastPlace?
      simp only [List.getLast?_concat, Option.bind_some]
      rw [hdots]
      rfl

theorem stat_mono (hsound : tree.Sound) (hsound' : tree'.Sound)
    (hcurrent : tree'.current = tree.current)
    (hkept : ∀ place, tree.hasDirectory place = true → tree'.hasDirectory place = true)
    {p : Pathname} (h : tree.stat p = .ok node)
    (hget : tree'.get? (p.names.foldl enter (tree.startOf p)) = some node) :
    tree'.stat p = .ok node := by
  obtain ⟨place, hlocate, -⟩ := stat_eq_ok_iff.1 h
  obtain ⟨hfits, hfollow⟩ := locate_eq_ok_iff.1 hlocate
  rw [← follow_ok hsound hfollow] at hget
  refine stat_eq_ok_iff.2 ⟨place, locate_eq_ok_iff.2 ⟨hfits, ?_⟩, hget⟩
  rw [startOf_congr hcurrent]
  apply follow_mono hsound hsound' hkept hfollow
  rw [hget]
  simp

end Entry

section Resolve

theorem exists_of_linkAt? {target : String} (h : tree.linkAt? place = some target) :
    tree.get? place = some (.link target) ∧ takes place.pathname = true := by
  unfold linkAt? at h
  split at h
  next hget =>
    split at h
    next hfits =>
      cases h
      exact ⟨hget, hfits⟩
    · cases h
  · cases h

theorem resolveNames_eq (hsound : tree.Sound) (depth : Nat) (active : List Place) (place : Place)
    (names : List String) :
    tree.resolveNames depth active place names = .place (names.foldl enter place) := by
  -- Without links the depth never matters.
  induction names generalizing place with
  | nil => rw [resolveNames, List.foldl_nil]
  | cons name rest ih =>
    rw [resolveNames, List.foldl_cons]
    cases hdots : isDots name with
    | true => exact ih _
    | false =>
      rw [enter_of_plain hdots, if_neg Bool.false_ne_true]
      dsimp only
      split
      next target hlink => exact absurd (exists_of_linkAt? hlink).1 (hsound.linkless _ target)
      · exact ih _

theorem follow_ne_tooManyLinks (hsound : tree.Sound) (mayLack : Bool) (links : Nat) (place : Place)
    (names : List String) : tree.follow mayLack links place names ≠ .error .tooManyLinks := by
  induction names generalizing place with
  | nil =>
    rw [follow_nil]
    simp
  | cons name rest ih =>
    cases hdir : tree.hasDirectory place with
    | false =>
      rw [follow_of_not_directory hdir]
      simp
    | true =>
      cases hdots : isDots name with
      | true =>
        rw [follow_dots hdir hdots]
        exact ih _
      | false =>
        rw [follow_plain (hsound.linkless _) hdir hdots]
        split
        · simp
        · split
          · split
            · simp
            · simp
          · exact ih _

theorem resolve_eq (hsound : tree.Sound) (p : Pathname) :
    tree.resolve p
      =
    if p.holdsZero then .error { reason := .malformed .zeroByte }
    else .ok (p.names.foldl enter (tree.startOf p)) := by
  have hplace : tree.resolvedPlace p = p.names.foldl enter (tree.startOf p) := by
    unfold resolvedPlace
    rw [resolveNames_eq hsound]
  unfold resolve
  split
  · rfl
  · dsimp only
    rw [hplace]
    split
    next hlinks =>
      unfold locate followFrom at hlinks
      split at hlinks
      · cases hlinks
      · exact absurd hlinks (follow_ne_tooManyLinks hsound _ _ _ _)
    · rfl

end Resolve

end Depot.Files.Tree
