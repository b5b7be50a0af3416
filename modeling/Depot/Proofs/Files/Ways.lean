import Depot.Files.Change
import Depot.Files.Resolve

/-!
This module contains the theory of ways through a tree of files, over symbolic links: where names
lead does not depend on what else there is, as long as no directory and no link is lost.
-/

namespace Depot.Files.Tree

variable {tree tree' : Tree} {place directory : Place} {name : String} {names : List String}
  {node : Node} {mayLack : Bool} {links links' : Nat}

section Nodes

theorem get?_root (tree : Tree) : tree.get? [] = some .directory := rfl

theorem get?_insert_self (tree : Tree) (node : Node) (h : place ≠ []) :
    (tree.insert place node).get? place = some node := by
  unfold get? insert
  rw [if_neg h]
  exact Table.get?_insert_self _ _ _

theorem get?_insert_of_ne (tree : Tree) (node : Node) {other : Place} (h : other ≠ place) :
    (tree.insert place node).get? other = tree.get? other := by
  unfold get? insert
  split
  · rfl
  · exact Table.get?_insert_of_ne _ _ h

theorem get?_erase_self (tree : Tree) (h : place ≠ []) : (tree.erase place).get? place = none := by
  unfold get? erase
  rw [if_neg h]
  exact Table.get?_erase_self _ _

theorem get?_erase_of_ne (tree : Tree) {other : Place} (h : other ≠ place) :
    (tree.erase place).get? other = tree.get? other := by
  unfold get? erase
  split
  · rfl
  · exact Table.get?_erase_of_ne _ h

theorem hasDirectory_iff : tree.hasDirectory place = true ↔ tree.get? place = some .directory := by
  unfold hasDirectory
  split
  next h => simp [h]
  next h => exact ⟨fun hfalse => absurd hfalse Bool.false_ne_true, fun hdir => (h hdir).elim⟩

end Nodes

theorem enter_of_plain (h : isDots name = false) (place : Place) :
    enter place name = name :: place := by
  unfold isDots at h
  rw [Bool.or_eq_false_iff, decide_eq_false_iff_not, decide_eq_false_iff_not] at h
  unfold enter
  rw [if_neg h.1, if_neg h.2]

theorem isTooLong_of_dots (h : isDots name = true) : isTooLong name = false := by
  unfold isDots at h
  rw [Bool.or_eq_true, decide_eq_true_eq, decide_eq_true_eq] at h
  rcases h with rfl | rfl
  · decide
  · decide

section Follow

theorem follow_nil (tree : Tree) (mayLack : Bool) (links : Nat) (place : Place) :
    tree.follow mayLack links place [] = .ok place := by
  rw [follow]

theorem follow_of_not_directory (h : tree.hasDirectory place = false) (rest : List String) :
    tree.follow mayLack links place (name :: rest) = .error .notDirectory := by
  rw [follow, h]
  rfl

theorem follow_dots (hdir : tree.hasDirectory place = true) (hdots : isDots name = true)
    (rest : List String) :
    tree.follow mayLack links place (name :: rest)
      =
    tree.follow mayLack links (enter place name) rest := by
  rw [follow, hdir]
  unfold enter
  split
  next h => simp at h
  · split
    · rfl
    next hdot =>
      unfold isDots at hdots
      rw [Bool.or_eq_true, decide_eq_true_eq, decide_eq_true_eq] at hdots
      rw [if_pos (hdots.resolve_left hdot), if_pos (hdots.resolve_left hdot)]

theorem follow_named (hdir : tree.hasDirectory place = true) (hdots : isDots name = false)
    (rest : List String) :
    tree.follow mayLack links place (name :: rest)
      =
    if isTooLong name then .error .nameTooLong
    else
      match tree.get? (name :: place) with
      | none => if mayLack && rest.isEmpty then .ok (name :: place) else .error .noEntry
      | some (.link target) =>
        match links with
        | 0 => .error .tooManyLinks
        | links + 1 =>
          tree.follow mayLack links (linkStart place target) (linkNames target ++ rest)
      | some _ => tree.follow mayLack links (name :: place) rest := by
  unfold isDots at hdots
  rw [Bool.or_eq_false_iff, decide_eq_false_iff_not, decide_eq_false_iff_not] at hdots
  rewrite [follow, hdir, if_neg (by simp), if_neg hdots.1, if_neg hdots.2]
  split
  · rfl
  · cases tree.get? (name :: place) with
    | none => rfl
    | some node => cases node <;> rfl

theorem follow_plain (hlink : ∀ target, tree.get? (name :: place) ≠ some (.link target))
    (hdir : tree.hasDirectory place = true) (hdots : isDots name = false) (rest : List String) :
    tree.follow mayLack links place (name :: rest)
      =
    if isTooLong name then .error .nameTooLong
    else if tree.get? (name :: place) = none then
      if mayLack && rest.isEmpty then .ok (name :: place) else .error .noEntry
    else tree.follow mayLack links (name :: place) rest := by
  rw [follow_named hdir hdots]
  split
  · rfl
  · cases hget : tree.get? (name :: place) with
    | none => rw [if_pos rfl]
    | some node =>
      have hsome : some node ≠ none := by simp
      rw [if_neg hsome]
      cases node with
      | link target => exact absurd hget (hlink target)
      | file bytes => rfl
      | directory => rfl

theorem follow_some (hdir : tree.hasDirectory place = true) (hdots : isDots name = false)
    (hshort : isTooLong name = false) (hget : tree.get? (name :: place) = some node)
    (hlink : ∀ target, node ≠ .link target) (rest : List String) :
    tree.follow mayLack links place (name :: rest)
      =
    tree.follow mayLack links (name :: place) rest := by
  have hnot : ∀ target, tree.get? (name :: place) ≠ some (.link target) := by
    intro target
    rw [hget, ne_eq, Option.some.injEq]
    exact hlink target
  rw [follow_plain hnot hdir hdots, hshort, if_neg Bool.false_ne_true, hget, if_neg (by simp)]

theorem follow_link (hdir : tree.hasDirectory place = true) (hdots : isDots name = false)
    (hshort : isTooLong name = false) {target : String}
    (hget : tree.get? (name :: place) = some (.link target)) (rest : List String) :
    tree.follow mayLack (links + 1) place (name :: rest)
      =
    tree.follow mayLack links (linkStart place target) (linkNames target ++ rest) := by
  rw [follow_named hdir hdots, hshort, if_neg Bool.false_ne_true, hget]

end Follow

/-- A way that names lead along to something. How many links may be followed is told at both ends. -/
inductive Way (tree : Tree) : Nat → Place → List String → Nat → Place → Prop where
  | nil (links : Nat) (place : Place) : Way tree links place [] links place
  | dots {links links' : Nat} {place leads : Place} {name : String} {rest : List String}
      (hdir : tree.hasDirectory place = true) (hdots : isDots name = true)
      (hrest : Way tree links (enter place name) rest links' leads) :
      Way tree links place (name :: rest) links' leads
  | named {links links' : Nat} {place leads : Place} {name : String} {rest : List String}
      {node : Node} (hdir : tree.hasDirectory place = true) (hdots : isDots name = false)
      (hshort : isTooLong name = false) (hget : tree.get? (name :: place) = some node)
      (hlink : ∀ target, node ≠ .link target)
      (hrest : Way tree links (name :: place) rest links' leads) :
      Way tree links place (name :: rest) links' leads
  | link {links links' : Nat} {place leads : Place} {name target : String} {rest : List String}
      (hdir : tree.hasDirectory place = true) (hdots : isDots name = false)
      (hshort : isTooLong name = false) (hget : tree.get? (name :: place) = some (.link target))
      (hrest : Way tree links (linkStart place target) (linkNames target ++ rest) links' leads) :
      Way tree (links + 1) place (name :: rest) links' leads

namespace Way

variable {leads : Place}

theorem of_follow (h : tree.follow false links place names = .ok leads) :
    ∃ links', Way tree links place names links' leads := by
  fun_induction tree.follow false links place names with
  | case1 links place =>
    cases h
    exact ⟨links, .nil links _⟩
  | case2 links place name rest hdir => cases h
  | case3 links place rest hdir ih =>
    obtain ⟨links', hrest⟩ := ih h
    exact ⟨links', .dots (by simpa using hdir) rfl hrest⟩
  | case4 links place rest hdir hne ih =>
    obtain ⟨links', hrest⟩ := ih h
    exact ⟨links', .dots (by simpa using hdir) rfl hrest⟩
  | case5 links place name rest hdir hdot hup hlong => cases h
  | case6 links place name rest hdir hdot hup hshort hnone hlack => cases hlack
  | case7 links place name rest hdir hdot hup hshort hnone hlack => cases h
  | case8 place name rest hdir hdot hup hshort target hget => cases h
  | case9 place name rest hdir hdot hup hshort target hget links ih =>
    obtain ⟨links', hrest⟩ := ih h
    refine ⟨links', .link (by simpa using hdir) ?_ (eq_false_of_ne_true hshort) hget hrest⟩
    unfold isDots
    rw [decide_eq_false hdot, decide_eq_false hup, Bool.or_false]
  | case10 links place name rest hdir hdot hup hshort node hlink hget ih =>
    obtain ⟨links', hrest⟩ := ih h
    refine ⟨links', .named (by simpa using hdir) ?_ (eq_false_of_ne_true hshort) hget hlink hrest⟩
    unfold isDots
    rw [decide_eq_false hdot, decide_eq_false hup, Bool.or_false]

theorem follow_append (h : Way tree links place names links' leads) (mayLack : Bool)
    (more : List String) :
    tree.follow mayLack links place (names ++ more) = tree.follow mayLack links' leads more := by
  induction h with
  | nil links place => rfl
  | dots hdir hdots hrest ih =>
    rw [List.cons_append, follow_dots hdir hdots]
    exact ih
  | @named links links' place leads name rest node hdir hdots hshort hget hlink hrest ih =>
    rw [List.cons_append, follow_some hdir hdots hshort hget hlink]
    exact ih
  | link hdir hdots hshort hget hrest ih =>
    rw [List.cons_append, follow_link hdir hdots hshort hget, ← List.append_assoc]
    exact ih

theorem follow_eq (h : Way tree links place names links' leads) :
    tree.follow false links place names = .ok leads := by
  have hfollow := h.follow_append false []
  rw [List.append_nil, follow_nil] at hfollow
  exact hfollow

theorem hasDirectory_start (h : Way tree links place names links' leads)
    (hleads : tree.hasDirectory leads = true) : tree.hasDirectory place = true := by
  cases h with
  | nil => exact hleads
  | dots hdir => exact hdir
  | named hdir => exact hdir
  | link hdir => exact hdir

end Way

def Keeps (tree tree' : Tree) : Prop :=
  ∀ place node, (∀ bytes, node ≠ .file bytes) → tree.get? place = some node →
    tree'.get? place = some node

namespace Keeps

theorem hasDirectory (h : tree.Keeps tree') (hdir : tree.hasDirectory place = true) :
    tree'.hasDirectory place = true := by
  rw [hasDirectory_iff] at hdir ⊢
  exact h place _ (by simp) hdir

theorem of_get?_eq (h : ∀ place, tree'.get? place = tree.get? place) : tree.Keeps tree' := by
  intro place node _ hget
  rw [h place, hget]

end Keeps

theorem Way.keeps (hkeeps : tree.Keeps tree') {leads : Place}
    (h : Way tree links place names links' leads) (hleads : tree.hasDirectory leads = true) :
    Way tree' links place names links' leads := by
  induction h with
  | nil links place => exact .nil links place
  | dots hdir hdots hrest ih => exact .dots (hkeeps.hasDirectory hdir) hdots (ih hleads)
  | @named links links' place leads name rest node hdir hdots hshort hget hlink hrest ih =>
    -- The way goes on or ends there, so there is a directory.
    have hnext := hkeeps.hasDirectory (hrest.hasDirectory_start hleads)
    rw [hasDirectory_iff] at hnext
    exact .named (hkeeps.hasDirectory hdir) hdots hshort hnext (by simp) (ih hleads)
  | link hdir hdots hshort hget hrest ih =>
    exact .link (hkeeps.hasDirectory hdir) hdots hshort (hkeeps _ _ (by simp) hget) (ih hleads)

theorem startOf_congr (hcurrent : tree'.current = tree.current) (p : Pathname) :
    tree'.startOf p = tree.startOf p := by
  unfold startOf
  rw [hcurrent]

structure Leads (tree : Tree) (start : Start) (names : List String) (directory : Place) : Prop where
  follow_eq : tree.follow false maxLinks (tree.startOf ⟨start, names⟩) names = .ok directory
  hasDirectory : tree.hasDirectory directory = true

namespace Leads

variable {start : Start}

theorem exists_way (h : tree.Leads start names directory) :
    ∃ links, Way tree maxLinks (tree.startOf ⟨start, names⟩) names links directory :=
  Way.of_follow h.follow_eq

theorem keeps (h : tree.Leads start names directory) (hkeeps : tree.Keeps tree')
    (hcurrent : tree'.current = tree.current) : tree'.Leads start names directory := by
  obtain ⟨links, hway⟩ := h.exists_way
  refine ⟨?_, hkeeps.hasDirectory h.hasDirectory⟩
  rw [startOf_congr hcurrent]
  exact (hway.keeps hkeeps h.hasDirectory).follow_eq

theorem root (tree : Tree) : tree.Leads .root [] [] :=
  ⟨follow_nil tree false maxLinks [], rfl⟩

theorem concat (h : tree.Leads start names directory) (hdots : isDots name = false)
    (hshort : isTooLong name = false) (hget : tree.get? (name :: directory) = some .directory) :
    tree.Leads start (names ++ [name]) (name :: directory) := by
  obtain ⟨links, hway⟩ := h.exists_way
  have hfollow := hway.follow_append false [name]
  rw [follow_some h.hasDirectory hdots hshort hget (by simp), follow_nil] at hfollow
  exact ⟨hfollow, hasDirectory_iff.2 hget⟩

theorem dots (h : tree.Leads start names directory) (hdots : isDots name = true)
    (hdir : tree.hasDirectory (enter directory name) = true) :
    tree.Leads start (names ++ [name]) (enter directory name) := by
  obtain ⟨links, hway⟩ := h.exists_way
  have hfollow := hway.follow_append false [name]
  rw [follow_dots h.hasDirectory hdots, follow_nil] at hfollow
  exact ⟨hfollow, hdir⟩

end Leads

end Depot.Files.Tree
