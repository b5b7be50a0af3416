import Depot.Proofs.Files.Follow

/-!
This module contains the theory of making directories: whatever comes of it, nothing but directories
on the way are new, and if it succeeds then the way leads to the directory that was asked for.
-/

namespace Depot.Files.Tree

variable {tree tree' tree'' : Tree} {place directory : Place} {name : String}
  {names : List String} {node : Node} {start : Start} {new : Place → Prop}

namespace Sound

theorem insert (hsound : tree.Sound) (hparent : tree.hasDirectory directory = true)
    (hnode : ∀ target, node ≠ .link target)
    (h : node = .directory ∨ tree.hasDirectory (name :: directory) = false) :
    (tree.insert (name :: directory) node).Sound := by
  have hne : name :: directory ≠ [] := by simp
  rw [hasDirectory_iff] at hparent
  constructor
  · intro place target
    by_cases hplace : place = name :: directory
    · rw [hplace, get?_insert_self _ _ hne]
      simp only [ne_eq, Option.some.injEq]
      exact hnode target
    · rw [get?_insert_of_ne _ _ hplace]
      exact hsound.linkless place target
  · intro inner place hinner
    -- A directory is still one, or it is what was inserted.
    have hparents : tree.get? place = some .directory →
        (tree.insert (name :: directory) node).get? place = some .directory := by
      intro hdir
      by_cases hplace : place = name :: directory
      · subst hplace
        rcases h with rfl | hno
        · exact get?_insert_self _ _ hne
        · rw [hasDirectory_iff.2 hdir] at hno
          cases hno
      · rw [get?_insert_of_ne _ _ hplace]
        exact hdir
    apply hparents
    by_cases hsame : inner :: place = name :: directory
    · cases hsame
      exact hparent
    · rw [get?_insert_of_ne _ _ hsame] at hinner
      exact hsound.closed inner place hinner

theorem erase (hsound : tree.Sound) (hne : place ≠ [])
    (h : tree.hasDirectory place = false) : (tree.erase place).Sound := by
  constructor
  · intro other target
    by_cases hother : other = place
    · rw [hother, get?_erase_self _ hne]
      simp
    · rw [get?_erase_of_ne _ hother]
      exact hsound.linkless other target
  · intro inner outer hinner
    have hkept : inner :: outer ≠ place := by
      rintro rfl
      exact hinner (get?_erase_self _ hne)
    rw [get?_erase_of_ne _ hkept] at hinner
    have hdir := hsound.closed inner outer hinner
    have houter : outer ≠ place := by
      rintro rfl
      rw [hasDirectory_iff.2 hdir] at h
      cases h
    rw [get?_erase_of_ne _ houter]
    exact hdir

end Sound

/-- Whether nothing in a tree is new but directories. -/
structure Grows (tree tree' : Tree) : Prop where
  current_eq : tree'.current = tree.current
  kept : ∀ place, tree.get? place ≠ none → tree'.get? place = tree.get? place
  added : ∀ place, tree.get? place = none → tree'.get? place ≠ none →
    tree'.get? place = some .directory

namespace Grows

theorem refl (tree : Tree) : tree.Grows tree :=
  ⟨rfl, fun _ _ => rfl, fun _ hnone hsome => absurd hnone hsome⟩

theorem trans (h : tree.Grows tree') (h' : tree'.Grows tree'') : tree.Grows tree'' := by
  refine ⟨h'.current_eq.trans h.current_eq, ?_, ?_⟩
  · intro place hsome
    have hkept := h.kept place hsome
    rw [← hkept] at hsome
    rw [h'.kept place hsome, hkept]
  · intro place hnone hsome
    cases hget : tree'.get? place with
    | none => exact h'.added place hget hsome
    | some node =>
      have hget' : tree'.get? place ≠ none := by
        rw [hget]
        simp
      rw [h'.kept place hget']
      exact h.added place hnone hget'

theorem insert (hnone : tree.get? place = none) : tree.Grows (tree.insert place .directory) := by
  have hne : place ≠ [] := by
    rintro rfl
    cases hnone
  refine ⟨rfl, ?_, ?_⟩
  · intro other hother
    apply get?_insert_of_ne
    rintro rfl
    exact hother hnone
  · intro other hother hsome
    by_cases hplace : other = place
    · rw [hplace]
      exact get?_insert_self _ _ hne
    · rw [get?_insert_of_ne _ _ hplace] at hsome
      exact absurd hother hsome

theorem get?_cases (h : tree.Grows tree') (place : Place) :
    tree'.get? place = tree.get? place
      ∨ tree.get? place = none ∧ tree'.get? place = some .directory := by
  by_cases hnone : tree.get? place = none
  · by_cases hstill : tree'.get? place = none
    · exact .inl (hstill.trans hnone.symm)
    · exact .inr ⟨hnone, h.added place hnone hstill⟩
  · exact .inl (h.kept place hnone)

theorem keeps (h : tree.Grows tree') : tree.Keeps tree' := by
  intro place node _ hget
  rw [h.kept place (by rw [hget]; simp), hget]

theorem get?_file_iff (h : tree.Grows tree') (place : Place) (bytes : ByteArray) :
    tree'.get? place = some (.file bytes) ↔ tree.get? place = some (.file bytes) := by
  constructor
  · intro hfile
    cases hget : tree.get? place with
    | none =>
      have hadded := h.added place hget (by rw [hfile]; simp)
      rw [hfile] at hadded
      cases hadded
    | some node =>
      rw [← hget, ← h.kept place (by rw [hget]; simp), hfile]
  · intro hfile
    rw [h.kept place (by rw [hfile]; simp), hfile]

end Grows

/-- Whether a tree, without links, is another one with some new directories. -/
structure Extends (tree tree' : Tree) (new : Place → Prop) : Prop where
  sound : tree'.Sound
  current_eq : tree'.current = tree.current
  kept : ∀ place, tree.get? place ≠ none → tree'.get? place = tree.get? place
  added : ∀ place, tree.get? place = none → tree'.get? place ≠ none →
    tree'.get? place = some .directory ∧ new place

namespace Extends

theorem refl (hsound : tree.Sound) (new : Place → Prop) : tree.Extends tree new :=
  ⟨hsound, rfl, fun _ _ => rfl, fun _ hnone hsome => absurd hnone hsome⟩

theorem trans (h : tree.Extends tree' new) (h' : tree'.Extends tree'' new) :
    tree.Extends tree'' new := by
  refine ⟨h'.sound, h'.current_eq.trans h.current_eq, ?_, ?_⟩
  · intro place hsome
    have hkept := h.kept place hsome
    rw [← hkept] at hsome
    rw [h'.kept place hsome, hkept]
  · intro place hnone hsome
    cases hget : tree'.get? place with
    | none => exact h'.added place hget hsome
    | some node =>
      have hget' : tree'.get? place ≠ none := by
        rw [hget]
        simp
      rw [h'.kept place hget']
      exact h.added place hnone hget'

theorem imp {new' : Place → Prop} (h : tree.Extends tree' new)
    (himp : ∀ place, new place → new' place) :
    tree.Extends tree' new' := by
  refine ⟨h.sound, h.current_eq, h.kept, ?_⟩
  intro place hnone hsome
  have hadded := h.added place hnone hsome
  exact ⟨hadded.1, himp place hadded.2⟩

theorem hasDirectory (h : tree.Extends tree' new) (hdir : tree.hasDirectory place = true) :
    tree'.hasDirectory place = true := by
  rw [hasDirectory_iff] at hdir ⊢
  rw [h.kept place (by rw [hdir]; simp)]
  exact hdir

theorem grows (h : tree.Extends tree' new) : tree.Grows tree' :=
  ⟨h.current_eq, h.kept, fun place hnone hsome => (h.added place hnone hsome).1⟩

theorem get?_file_iff (h : tree.Extends tree' new) (place : Place) (bytes : ByteArray) :
    tree'.get? place = some (.file bytes) ↔ tree.get? place = some (.file bytes) :=
  h.grows.get?_file_iff place bytes

end Extends

def OnWay (start : Place) (names : List String) (place : Place) : Prop :=
  ∃ front, front <+: names ∧ place = front.foldl enter start

theorem OnWay.append {outer : Place} (h : OnWay outer names place) (more : List String) :
    OnWay outer (names ++ more) place := by
  obtain ⟨front, hfront, hplace⟩ := h
  exact ⟨front, hfront.trans (List.prefix_append names more), hplace⟩

theorem Leads.of_isDirectory (h : tree.isDirectory ⟨start, names⟩ = .ok true) :
    ∃ directory, tree.Leads start names directory := by
  unfold isDirectory stat at h
  cases hlocate : tree.locate ⟨start, names⟩ with
  | error code =>
    rw [hlocate] at h
    cases code <;> cases h
  | ok directory =>
    rw [hlocate] at h
    refine ⟨directory, ?_, ?_⟩
    · unfold locate followFrom at hlocate
      split at hlocate
      · cases hlocate
      · exact hlocate
    · simp only [bind, Except.bind] at h
      rw [hasDirectory_iff]
      cases hget : tree.get? directory with
      | none =>
        rw [hget] at h
        cases h
      | some node =>
        rw [hget] at h
        cases node with
        | directory => rfl
        | file bytes => cases h
        | link target => cases h

theorem Leads.isDirectory_of_short (h : tree.Leads start names directory)
    (hshort : pathTooLong ⟨start, names⟩ = false) : tree.isDirectory ⟨start, names⟩ = .ok true := by
  have hlocate : tree.locate ⟨start, names⟩ = .ok directory :=
    locate_eq_ok_iff.2 ⟨of_decide_eq_false hshort, h.follow_eq⟩
  have hstat : tree.stat ⟨start, names⟩ = .ok .directory :=
    stat_eq_ok_iff.2 ⟨directory, hlocate, hasDirectory_iff.1 h.hasDirectory⟩
  unfold isDirectory
  rw [hstat]

theorem makeDirectory_eq_ok (h : tree.makeDirectory ⟨start, names⟩ = .ok tree') :
    ∃ place, tree.entry? ⟨start, names⟩ = .ok (some place) ∧ tree.get? place = none
      ∧ tree' = tree.insert place .directory := by
  unfold makeDirectory at h
  cases hentry : tree.entry? ⟨start, names⟩ with
  | error code =>
    rw [hentry] at h
    cases h
  | ok place =>
    rw [hentry] at h
    cases place with
    | none => cases h
    | some place =>
      simp only [bind, Except.bind] at h
      split at h
      · cases h
      next hnone =>
        cases h
        refine ⟨place, rfl, ?_, rfl⟩
        rw [Bool.not_eq_true, Option.isSome_eq_false_iff, Option.isNone_iff_eq_none] at hnone
        exact hnone

theorem makeDirectory_grows (h : tree.makeDirectory ⟨start, names⟩ = .ok tree') :
    tree.Grows tree' := by
  obtain ⟨place, -, hnone, rfl⟩ := makeDirectory_eq_ok h
  exact .insert hnone

theorem makeDirectory_leads (h : tree.makeDirectory ⟨start, names⟩ = .ok tree') :
    ∃ directory, tree'.Leads start names directory := by
  have hgrows := makeDirectory_grows h
  obtain ⟨place, hentry, hnone, rfl⟩ := makeDirectory_eq_ok h
  obtain ⟨outer, name, directory, rfl, rfl, hleads, hdots, hfits⟩ := entry?_some hentry
  have hnew : (tree.insert (name :: directory) .directory).get? (name :: directory)
      = some .directory := get?_insert_self _ _ (by simp)
  obtain ⟨links, hway⟩ := (hleads.keeps hgrows.keeps hgrows.current_eq).exists_way
  have hfollow := hway.follow_append false [name]
  rw [follow_plain (by rw [hnew]; simp) (hgrows.keeps.hasDirectory hleads.hasDirectory) hdots,
    isTooLong_of_refuses hdots hfits, if_neg Bool.false_ne_true, hnew, if_neg (by simp),
    follow_nil] at hfollow
  exact ⟨name :: directory, hfollow, hasDirectory_iff.2 hnew⟩

theorem makeDirectory_extends (hsound : tree.Sound)
    (h : tree.makeDirectory ⟨start, names⟩ = .ok tree') :
    tree.Extends tree' (OnWay (tree.startOf ⟨start, names⟩) names) := by
  have hgrows := makeDirectory_grows h
  obtain ⟨place, hentry, hnone, rfl⟩ := makeDirectory_eq_ok h
  obtain ⟨outer, name, directory, rfl, rfl, hleads, hdots, -⟩ := entry?_some hentry
  refine ⟨hsound.insert hleads.hasDirectory (by simp) (.inl rfl), rfl, hgrows.kept, ?_⟩
  intro other hother hsome
  refine ⟨hgrows.added other hother hsome, outer ++ [name], List.prefix_refl _, ?_⟩
  have hplace : other = name :: directory := by
    apply Classical.byContradiction
    intro hne
    exact hsome ((get?_insert_of_ne _ _ hne).trans hother)
  rw [hplace, List.foldl_append, List.foldl_cons, List.foldl_nil, enter_of_plain hdots,
    hleads.eq_foldl hsound]
  rfl

theorem acceptDirectory_ok {code : SystemErrorCode}
    (h : tree.acceptDirectory ⟨start, names⟩ code = .ok ()) :
    ∃ directory, tree.Leads start names directory := by
  apply Leads.of_isDirectory
  unfold acceptDirectory at h
  split at h
  next hdir => exact hdir
  · cases h
  · cases h

def finishDirectory (tree : Tree) (p : Pathname) : Except SystemError Unit × Tree :=
  match tree.makeDirectory p with
  | .ok tree => (.ok (), tree)
  | .error code =>
    if code = .noEntry then (.error (errorAt p .noEntry), tree)
    else (tree.acceptDirectory p code, tree)

theorem makeDirectories_nil (tree : Tree) (start : Start) :
    tree.makeDirectories start [] = tree.finishDirectory ⟨start, []⟩ := by
  unfold makeDirectories finishDirectory
  rw [List.reverse_nil]
  dsimp only
  cases tree.makeDirectory ⟨start, []⟩ with
  | ok tree' => rfl
  | error code => cases code <;> rfl

theorem makeDirectories_of_parent {outer : List String}
    (h : tree.makeDirectory ⟨start, (name :: outer).reverse⟩ ≠ .error .noEntry) :
    tree.makeDirectories start (name :: outer)
      =
    tree.finishDirectory ⟨start, (name :: outer).reverse⟩ := by
  unfold makeDirectories finishDirectory
  dsimp only
  cases hmake : tree.makeDirectory ⟨start, (name :: outer).reverse⟩ with
  | ok tree' => rfl
  | error code =>
    cases code with
    | noEntry => exact absurd hmake h
    | _ => rfl

theorem makeDirectories_of_no_parent {outer : List String}
    (h : tree.makeDirectory ⟨start, (name :: outer).reverse⟩ = .error .noEntry) :
    tree.makeDirectories start (name :: outer)
      =
    match tree.makeDirectories start outer with
    | (.error e, tree) => (.error e, tree)
    | (.ok _, tree) => tree.finishDirectory ⟨start, (name :: outer).reverse⟩ := by
  rw [makeDirectories, h]
  split
  next hok => cases hok
  next =>
    cases tree.makeDirectories start outer with
    | mk result tree' =>
      cases result with
      | error e => rfl
      | ok done =>
        unfold finishDirectory
        dsimp only
        cases tree'.makeDirectory ⟨start, (name :: outer).reverse⟩ with
        | ok tree'' => rfl
        | error code => cases code <;> rfl
  next code hcode hneed =>
    cases hneed
    exact absurd rfl hcode

theorem Leads.makeDirectory_eq {outer : List String} {inner : Place}
    (houter : tree.Leads start outer inner)
    (h : tree.Leads start (outer ++ [name]) directory) (hfits : refuses start outer name = false) :
    tree.makeDirectory ⟨start, outer ++ [name]⟩ = .error .alreadyExists := by
  unfold makeDirectory
  rw [houter.entry?_eq, hfits, if_neg Bool.false_ne_true]
  cases hlast : lastPlace? inner name with
  | none => rfl
  | some place =>
    have hthere : tree.get? place ≠ none := by
      intro hget
      have hplace : place = name :: inner := by
        unfold lastPlace? at hlast
        split at hlast
        · cases hlast
        · exact (Option.some.inj hlast).symm
      have hlinkless : ∀ target, tree.get? (name :: inner) ≠ some (.link target) := by
        rw [← hplace, hget]
        simp
      have hfollow := houter.followFrom_eq hlinkless false
      rw [hfits, if_neg Bool.false_ne_true, hlast] at hfollow
      dsimp only at hfollow
      rw [if_pos ⟨hget, rfl⟩] at hfollow
      have hshort := of_decide_eq_false (Bool.or_eq_false_iff.1 hfits).1
      cases (locate_eq_ok_iff.2 ⟨hshort, h.follow_eq⟩).symm.trans hfollow
    change (if (tree.get? place).isSome then _ else _) = _
    rw [if_pos (Option.isSome_iff_ne_none.2 hthere)]
    rfl

theorem Leads.makeDirectories_eq {outer : List String} {inner : Place}
    (houter : tree.Leads start outer inner)
    (h : tree.Leads start (outer ++ [name]) directory) (hfits : refuses start outer name = false) :
    tree.makeDirectories start (name :: outer.reverse) = (.ok (), tree) := by
  have hnames : (name :: outer.reverse).reverse = outer ++ [name] := by simp
  have hmake := houter.makeDirectory_eq h hfits
  rw [← hnames] at hmake
  rw [makeDirectories_of_parent (by rw [hmake]; simp)]
  unfold finishDirectory acceptDirectory
  rw [hmake, hnames, h.isDirectory_of_short (Bool.or_eq_false_iff.1 hfits).1]
  rfl
theorem finishDirectory_keeps {motive : Tree → Prop} {p : Pathname}
    (hmake : ∀ tree', tree.makeDirectory p = .ok tree' → motive tree') (h : motive tree) :
    motive (tree.finishDirectory p).2 := by
  unfold finishDirectory
  cases hmade : tree.makeDirectory p with
  | ok tree' => exact hmake tree' hmade
  | error code =>
    dsimp only
    split
    · exact h
    · exact h

theorem finishDirectory_leads (h : (tree.finishDirectory ⟨start, names⟩).1 = .ok ()) :
    ∃ directory, (tree.finishDirectory ⟨start, names⟩).2.Leads start names directory := by
  unfold finishDirectory at h ⊢
  cases hmake : tree.makeDirectory ⟨start, names⟩ with
  | ok tree' => exact makeDirectory_leads hmake
  | error code =>
    rw [hmake] at h
    dsimp only at h ⊢
    split at h
    · cases h
    next hother =>
      rw [if_neg hother]
      exact acceptDirectory_ok h

theorem makeDirectories_leads (h : (tree.makeDirectories start names).1 = .ok ()) :
    ∃ directory, (tree.makeDirectories start names).2.Leads start names.reverse directory := by
  cases names with
  | nil =>
    rw [makeDirectories_nil] at h ⊢
    exact finishDirectory_leads h
  | cons name outer =>
    by_cases hparent : tree.makeDirectory ⟨start, (name :: outer).reverse⟩ = .error .noEntry
    · rw [makeDirectories_of_no_parent hparent] at h ⊢
      cases hmade : tree.makeDirectories start outer with
      | mk result tree' =>
        rw [hmade] at h
        cases result with
        | error e => cases h
        | ok done => exact finishDirectory_leads h
    · rw [makeDirectories_of_parent hparent] at h ⊢
      exact finishDirectory_leads h

theorem makeDirectories_keeps {motive : Tree → Prop} (start : Start) (names : List String)
    (hmake : ∀ tree tree' front, front <+: names.reverse → motive tree →
      tree.makeDirectory ⟨start, front⟩ = .ok tree' → motive tree')
    (h : motive tree) : motive (tree.makeDirectories start names).2 := by
  induction names with
  | nil =>
    rw [makeDirectories_nil]
    exact finishDirectory_keeps (fun tree' => hmake tree tree' [] (List.prefix_refl _) h) h
  | cons name outer ih =>
    have hlast : ∀ tree, motive tree →
        motive (tree.finishDirectory ⟨start, (name :: outer).reverse⟩).2 := fun tree h =>
      finishDirectory_keeps (fun tree' => hmake tree tree' _ (List.prefix_refl _) h) h
    -- The outer directories are only made if they are missed.
    by_cases hparent : tree.makeDirectory ⟨start, (name :: outer).reverse⟩ = .error .noEntry
    · have houter : motive (tree.makeDirectories start outer).2 := by
        refine ih fun tree tree' front hfront => hmake tree tree' front ?_
        rw [List.reverse_cons]
        exact hfront.trans (List.prefix_append _ _)
      rw [makeDirectories_of_no_parent hparent]
      cases hmade : tree.makeDirectories start outer with
      | mk result tree' =>
        rw [hmade] at houter
        cases result with
        | error e => exact houter
        | ok done => exact hlast tree' houter
    · rw [makeDirectories_of_parent hparent]
      exact hlast tree h

theorem makeDirectories_grows (tree : Tree) (start : Start) (names : List String) :
    tree.Grows (tree.makeDirectories start names).2 :=
  makeDirectories_keeps start names
    (fun _ _ _ _ hgrows hmade => hgrows.trans (makeDirectory_grows hmade)) (Grows.refl tree)

theorem makeDirectories_extends (hsound : tree.Sound) (start : Start) (names : List String) :
    tree.Extends (tree.makeDirectories start names).2
      (OnWay (tree.startOf ⟨start, names.reverse⟩) names.reverse) := by
  refine makeDirectories_keeps (motive := fun grown => tree.Extends grown
    (OnWay (tree.startOf ⟨start, names.reverse⟩) names.reverse)) start names ?_ (.refl hsound _)
  intro grown tree' front hfront hextends hmade
  have hlast := makeDirectory_extends hextends.sound hmade
  rw [startOf_congr hextends.current_eq] at hlast
  refine hextends.trans (hlast.imp fun place hplace => ?_)
  obtain ⟨more, hmore⟩ := hfront
  rw [← hmore]
  exact hplace.append more

end Depot.Files.Tree
