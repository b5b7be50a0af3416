import Depot.Proofs.Files.Directories

/-!
This module contains the theory of the resolution of pathnames over links: what it comes to where no
link leads back to itself, and that the ways through a tree come to the same.
-/

namespace Depot.Files.Tree

variable {tree tree' : Tree} {place leads leads' directory : Place} {name : String}
  {names more : List String}

theorem enter_of_dots (hdots : isDots name = true) (place : Place) :
    enter place name = place ∨ enter place name = place.tail := by
  unfold isDots at hdots
  rw [Bool.or_eq_true, decide_eq_true_eq, decide_eq_true_eq] at hdots
  unfold enter
  split
  · exact .inl rfl
  next hdot =>
    rw [if_pos (hdots.resolve_left hdot)]
    exact .inr rfl

/-- What names come to from a place, if everything missing on the way is taken by name. -/
inductive Resolution (tree : Tree) : Place → List String → Place → Prop where
  | nil (place : Place) : Resolution tree place [] place
  | dots {place leads : Place} {name : String} {rest : List String} (hdots : isDots name = true)
      (hrest : Resolution tree (enter place name) rest leads) :
      Resolution tree place (name :: rest) leads
  | named {place leads : Place} {name : String} {rest : List String} (hdots : isDots name = false)
      (hlink : ∀ target, tree.get? (name :: place) ≠ some (.link target))
      (hrest : Resolution tree (name :: place) rest leads) :
      Resolution tree place (name :: rest) leads
  | link {place inner leads : Place} {name target : String} {rest : List String}
      (hdots : isDots name = false) (hget : tree.get? (name :: place) = some (.link target))
      (htarget : Resolution tree (linkStart place target) (linkNames target) inner)
      (hrest : Resolution tree inner rest leads) :
      Resolution tree place (name :: rest) leads

/-- Whether the pathnames of all links are short enough for the system to see them. -/
def Sighted (tree : Tree) : Prop :=
  ∀ place target, tree.get? place = some (.link target) → takes place.pathname = true

theorem Sighted.linkAt?_eq_some_iff (h : tree.Sighted) {target : String} :
    tree.linkAt? place = some target ↔ tree.get? place = some (.link target) := by
  constructor
  · exact fun hlink => (exists_of_linkAt? hlink).1
  · intro hget
    unfold linkAt?
    rw [hget]
    exact if_pos (h place target hget)

theorem Sighted.insert (h : tree.Sighted) {node : Node}
    (hnode : ∀ target, node = .link target → takes place.pathname = true) :
    (tree.insert place node).Sighted := by
  intro other target hget
  by_cases hsame : other = place
  · subst hsame
    unfold get? at hget
    split at hget
    · cases hget
    · rw [show (tree.insert other node).nodes.get? other = some node from
        Table.get?_insert_self _ _ _] at hget
      exact hnode target (Option.some.inj hget)
  · rw [get?_insert_of_ne _ _ hsame] at hget
    exact h other target hget

namespace Resolution

theorem of_resolveNames (hsighted : tree.Sighted) {depth : Nat} {active : List Place}
    (h : tree.resolveNames depth active place names = .place leads) :
    Resolution tree place names leads := by
  fun_induction tree.resolveNames depth active place names generalizing leads with
  | case1 depth active place =>
    cases h
    exact .nil _
  | case2 depth active place name rest hdots ih => exact .dots hdots (ih h)
  | case3 => cases h
  | case4 => cases h
  | case5 => cases h
  | case6 =>
    rename_i hdots next target hlink hactive depth inner hinner ih ihrest
    exact .link (eq_false_of_ne_true hdots) (exists_of_linkAt? hlink).1 (ih hinner) (ihrest h)
  | case7 =>
    rename_i hdots next hnone ih
    refine .named (eq_false_of_ne_true hdots) (fun target hget => ?_) (ih h)
    rw [hsighted.linkAt?_eq_some_iff.2 hget] at hnone
    cases hnone

theorem unique (h : Resolution tree place names leads) (h' : Resolution tree place names leads') :
    leads = leads' := by
  induction h generalizing leads' with
  | nil place =>
    cases h'
    rfl
  | dots hdots hrest ih =>
    cases h' with
    | dots _ hrest' => exact ih hrest'
    | named hdots' =>
      rw [hdots] at hdots'
      cases hdots'
    | link hdots' =>
      rw [hdots] at hdots'
      cases hdots'
  | named hdots hlink hrest ih =>
    cases h' with
    | dots hdots' =>
      rw [hdots] at hdots'
      cases hdots'
    | named _ _ hrest' => exact ih hrest'
    | link _ hget => exact absurd hget (hlink _)
  | link hdots hget htarget hrest ih ihrest =>
    cases h' with
    | dots hdots' =>
      rw [hdots] at hdots'
      cases hdots'
    | named _ hlink => exact absurd hget (hlink _)
    | link _ hget' htarget' hrest' =>
      rw [hget] at hget'
      cases hget'
      rw [← ih htarget'] at hrest'
      exact ihrest hrest'

theorem exists_of_append (h : Resolution tree place (names ++ more) leads) :
    ∃ inner, Resolution tree place names inner ∧ Resolution tree inner more leads := by
  induction names generalizing place with
  | nil => exact ⟨place, .nil place, h⟩
  | cons name rest ih =>
    cases h with
    | dots hdots hrest =>
      obtain ⟨inner, hfirst, hthen⟩ := ih hrest
      exact ⟨inner, .dots hdots hfirst, hthen⟩
    | named hdots hlink hrest =>
      obtain ⟨inner, hfirst, hthen⟩ := ih hrest
      exact ⟨inner, .named hdots hlink hfirst, hthen⟩
    | link hdots hget htarget hrest =>
      obtain ⟨inner, hfirst, hthen⟩ := ih hrest
      exact ⟨inner, .link hdots hget htarget hfirst, hthen⟩

theorem of_way {links links' : Nat} (h : Way tree links place names links' leads) :
    Resolution tree place names leads := by
  induction h with
  | nil links place => exact .nil place
  | dots hdir hdots hrest ih => exact .dots hdots ih
  | @named links links' place leads name rest node hdir hdots hshort hget hlink hrest ih =>
    refine .named hdots ?_ ih
    intro target htarget
    rw [hget, Option.some.injEq] at htarget
    exact hlink target htarget
  | link hdir hdots hshort hget hrest ih =>
    obtain ⟨inner, htarget, hthen⟩ := exists_of_append ih
    exact .link hdots hget htarget hthen

theorem congr (hlinks : ∀ place target,
      tree'.get? place = some (.link target) ↔ tree.get? place = some (.link target))
    (h : Resolution tree place names leads) : Resolution tree' place names leads := by
  induction h with
  | nil place => exact .nil place
  | dots hdots hrest ih => exact .dots hdots ih
  | named hdots hlink hrest ih =>
    exact .named hdots (fun target hget => hlink target ((hlinks _ target).1 hget)) ih
  | link hdots hget htarget hrest ih ihrest =>
    exact .link hdots ((hlinks _ _).2 hget) ih ihrest

theorem singleton_cases (h : Resolution tree place [name] leads) :
    isDots name = true ∧ leads = enter place name
      ∨ isDots name = false ∧ leads = name :: place
      ∨ isDots name = false ∧ ∃ target, tree.get? (name :: place) = some (.link target) := by
  cases h with
  | dots hdots hrest =>
    cases hrest
    exact .inl ⟨hdots, rfl⟩
  | named hdots hlink hrest =>
    cases hrest
    exact .inr (.inl ⟨hdots, rfl⟩)
  | link hdots hget htarget hrest => exact .inr (.inr ⟨hdots, _, hget⟩)

end Resolution

theorem Grows.get?_link_iff (h : tree.Grows tree') (place : Place) (target : String) :
    tree'.get? place = some (.link target) ↔ tree.get? place = some (.link target) := by
  rcases h.get?_cases place with hsame | ⟨hnone, hdirectory⟩
  · rw [hsame]
  · rw [hnone, hdirectory]
    simp

/-- Whether a place has no dots in it, and there is no link on the way to it from the root. -/
def Straight (tree : Tree) : Place → Prop
  | [] => True
  | name :: place =>
    isDots name = false ∧ (∀ target, tree.get? (name :: place) ≠ some (.link target))
      ∧ Straight tree place

namespace Straight

theorem tail (h : tree.Straight place) : tree.Straight place.tail := by
  cases place with
  | nil => exact h
  | cons name place => exact h.2.2

theorem of_append {inner : List String} (h : tree.Straight (inner ++ place)) :
    tree.Straight place := by
  induction inner with
  | nil => exact h
  | cons name inner ih => exact ih h.2.2

theorem enter_dots (h : tree.Straight place) (hdots : isDots name = true) :
    tree.Straight (enter place name) := by
  rcases enter_of_dots hdots place with hsame | htail
  · rw [hsame]
    exact h
  · rw [htail]
    exact h.tail

theorem linkStart {target : String} (h : tree.Straight place) :
    tree.Straight (linkStart place target) := by
  unfold Tree.linkStart
  split
  · trivial
  · exact h

theorem resolution (h : tree.Straight place) (hleads : Resolution tree place names leads) :
    tree.Straight leads := by
  induction hleads with
  | nil place => exact h
  | dots hdots hrest ih => exact ih (h.enter_dots hdots)
  | named hdots hlink hrest ih => exact ih ⟨hdots, hlink, h⟩
  | link hdots hget htarget hrest ih ihrest => exact ihrest (ih h.linkStart)

theorem follow_ne_tooManyLinks (mayLack : Bool) (links : Nat)
    (h : tree.Straight (names.reverse ++ place)) :
    tree.follow mayLack links place names ≠ .error .tooManyLinks := by
  induction names generalizing place with
  | nil =>
    rw [follow_nil]
    simp
  | cons name rest ih =>
    rw [List.reverse_cons, List.append_assoc, List.singleton_append] at h
    obtain ⟨hdots, hlink, -⟩ := h.of_append
    cases hdir : tree.hasDirectory place with
    | false =>
      rw [follow_of_not_directory hdir]
      simp
    | true =>
      rw [follow_plain hlink hdir hdots]
      split
      · simp
      · split
        · split
          · simp
          · simp
        · exact ih h

theorem locate_ne_tooManyLinks (h : tree.Straight place) :
    tree.locate place.pathname ≠ .error .tooManyLinks := by
  unfold locate followFrom
  split
  · simp
  · apply follow_ne_tooManyLinks
    have hplace : place.pathname.names.reverse ++ tree.startOf place.pathname = place := by
      unfold Place.pathname startOf
      rw [List.reverse_reverse, List.append_nil]
    rw [hplace]
    exact h

end Straight

/-- Whether no link leads back to itself on the way that a pathname describes. -/
def Resolves (tree : Tree) (p : Pathname) : Prop :=
  ∃ place, tree.resolveNames tree.nodes.entries.length [] (tree.startOf p) p.names = .place place

theorem resolvedPlace_eq {p : Pathname}
    (h : tree.resolveNames tree.nodes.entries.length [] (tree.startOf p) p.names = .place place) :
    tree.resolvedPlace p = place := by
  unfold resolvedPlace
  rw [h]

namespace Resolves

variable {p : Pathname} (hsighted : tree.Sighted) (h : tree.Resolves p)

include hsighted h

theorem resolution : Resolution tree (tree.startOf p) p.names (tree.resolvedPlace p) := by
  obtain ⟨place, hplace⟩ := h
  rw [resolvedPlace_eq hplace]
  exact .of_resolveNames hsighted hplace

theorem resolve_eq (hroot : tree.startOf p = []) :
    tree.resolve p
      =
    if p.holdsZero then .error { reason := .malformed .zeroByte }
    else .ok (tree.resolvedPlace p) := by
  have hresolution := h.resolution hsighted
  rw [hroot] at hresolution
  have hstraight : tree.Straight (tree.resolvedPlace p) := by
    apply Straight.resolution _ hresolution
    trivial
  unfold resolve
  split
  · rfl
  · dsimp only
    split
    next hlinks => exact absurd hlinks hstraight.locate_ne_tooManyLinks
    · rfl

theorem locate_eq (hlocate : tree.locate p = .ok place) :
    tree.resolvedPlace p = place := by
  obtain ⟨links, hway⟩ := Way.of_follow (locate_eq_ok_iff.1 hlocate).2
  exact (h.resolution hsighted).unique (.of_way hway)

theorem cases_of_leads (hgrows : tree.Grows tree')
    (hleads : tree'.Leads p.start p.names.dropLast directory) :
    entryOf? directory p = none
        ∧ (tree.resolvedPlace p = directory ∨ tree.resolvedPlace p = directory.tail)
      ∨ ∃ place, entryOf? directory p = some place
        ∧ (tree.resolvedPlace p = place ∨ ∃ target, tree.get? place = some (.link target)) := by
  have hstart : tree'.startOf ⟨p.start, p.names.dropLast⟩ = tree.startOf p :=
    startOf_congr hgrows.current_eq p
  obtain ⟨links, hway⟩ := hleads.exists_way
  rw [hstart] at hway
  have houter : Resolution tree (tree.startOf p) p.names.dropLast directory :=
    Resolution.congr (fun place target => (hgrows.get?_link_iff place target).symm) (.of_way hway)
  have hwhole := h.resolution hsighted
  unfold entryOf?
  rcases List.eq_nil_or_concat p.names with hnil | ⟨outer, name, hnames⟩
  · rw [hnil] at hwhole houter ⊢
    rw [List.dropLast_nil] at houter
    exact .inl ⟨rfl, .inl (hwhole.unique houter)⟩
  · rw [hnames, List.concat_eq_append] at hwhole houter ⊢
    rw [List.dropLast_concat] at houter
    obtain ⟨inner, hfirst, hlast⟩ := hwhole.exists_of_append
    rw [hfirst.unique houter] at hlast
    rw [List.getLast?_concat, Option.bind_some]
    unfold lastPlace?
    rcases hlast.singleton_cases with ⟨hdots, hplace⟩ | ⟨hdots, hplace⟩ | ⟨hdots, hlink⟩
    · rw [hdots, hplace]
      exact .inl ⟨rfl, enter_of_dots hdots directory⟩
    · rw [hdots]
      exact .inr ⟨_, rfl, .inl hplace⟩
    · rw [hdots]
      exact .inr ⟨_, rfl, .inr hlink⟩

end Resolves

end Depot.Files.Tree
