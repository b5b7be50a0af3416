import Depot.Proofs.Files.Directories

/-!
This module contains the theory of changes within a directory: what each of them comes to for the
names that the directory holds.
-/

namespace Depot.Files.Tree

variable {tree : Tree} {directory place : Place} {name : String} {names : List String}
  {node : Node} {start : Start} {source : Pathname}

namespace Leads

theorem lastPlace?_plain (hdots : isDots name = false) (directory : Place) :
    lastPlace? directory name = some (name :: directory) := by
  unfold lastPlace?
  rw [hdots]
  rfl

theorem writeFile_eq (h : tree.Leads start names directory)
    (hlink : ∀ target, tree.get? (name :: directory) ≠ some (.link target))
    (hdots : isDots name = false) (bytes : ByteArray) :
    tree.writeFile ⟨start, names ++ [name]⟩ bytes
      =
    if refuses start names name then .error .nameTooLong
    else if tree.hasDirectory (name :: directory) then .error .isDirectory
    else .ok (tree.insert (name :: directory) (.file bytes)) := by
  unfold writeFile
  rw [h.followFrom_eq hlink true, lastPlace?_plain hdots]
  cases refuses start names name with
  | true => rfl
  | false =>
    have hfound : ¬(tree.get? (name :: directory) = none ∧ true = false) := by simp
    rw [if_neg Bool.false_ne_true, if_neg Bool.false_ne_true]
    simp only [bind, Except.bind]
    rw [if_neg hfound]
    dsimp only
    cases tree.hasDirectory (name :: directory) with
    | true => rfl
    | false => rfl

theorem unlink_eq (h : tree.Leads start names directory) (name : String) :
    tree.unlink ⟨start, names ++ [name]⟩
      =
    if refuses start names name then .error .nameTooLong
    else
      match lastPlace? directory name with
      | none => .error .isDirectory
      | some place =>
        match tree.get? place with
        | none => .error .noEntry
        | some .directory => .error .isDirectory
        | some _ => .ok (tree.erase place) := by
  unfold unlink
  rw [h.entry?_eq name]
  cases refuses start names name with
  | true => rfl
  | false =>
    cases lastPlace? directory name with
    | none => rfl
    | some place => rfl

theorem fileAt_eq (h : tree.Leads start names directory) (name : String) :
    tree.fileAt ⟨start, names ++ [name]⟩
      =
    if refuses start names name then .error .nameTooLong
    else
      match lastPlace? directory name with
      | none => .error .isDirectory
      | some place =>
        match tree.get? place with
        | none => .error .noEntry
        | some .directory => .error .isDirectory
        | some node => .ok (place, node) := by
  unfold fileAt
  rw [h.entry?_eq name]
  cases refuses start names name with
  | true => rfl
  | false =>
    cases lastPlace? directory name with
    | none => rfl
    | some place => rfl

end Leads

theorem exists_of_unlink {p : Pathname} {tree' : Tree} (h : tree.unlink p = .ok tree') :
    ∃ place node, tree.entry? p = .ok (some place) ∧ tree.get? place = some node
      ∧ node ≠ .directory ∧ tree' = tree.erase place := by
  unfold unlink at h
  cases hentry : tree.entry? p with
  | error code =>
    rw [hentry] at h
    cases h
  | ok entry =>
    rw [hentry] at h
    cases entry with
    | none => cases h
    | some place =>
      simp only [bind, Except.bind] at h
      cases hget : tree.get? place with
      | none =>
        rw [hget] at h
        cases h
      | some node =>
        rw [hget] at h
        cases node with
        | directory => cases h
        | file bytes =>
          cases h
          exact ⟨place, _, rfl, hget, by simp, rfl⟩
        | link target =>
          cases h
          exact ⟨place, _, rfl, hget, by simp, rfl⟩

theorem unlink_ok (hsound : tree.Sound) {p : Pathname} {tree' : Tree}
    (h : tree.unlink p = .ok tree') :
    ∃ bytes, tree.stat p = .ok (.file bytes)
      ∧ tree' = tree.erase (p.names.foldl enter (tree.startOf p)) := by
  obtain ⟨start, names⟩ := p
  obtain ⟨place, node, hentry, hget, hnode, rfl⟩ := exists_of_unlink h
  obtain ⟨outer, name, directory, rfl, rfl, hleads, hdots, hfits⟩ := entry?_some hentry
  have hplace : (outer ++ [name]).foldl enter (tree.startOf ⟨start, outer ++ [name]⟩)
      = name :: directory := by
    rw [List.foldl_append, List.foldl_cons, List.foldl_nil, enter_of_plain hdots,
      hleads.eq_foldl hsound]
    rfl
  -- Both look at the same place, which a link is not at.
  have hstat := hleads.stat_eq hsound name
  rw [hfits, Leads.lastPlace?_plain hdots, if_neg Bool.false_ne_true] at hstat
  dsimp only at hstat
  rw [hget] at hstat
  rw [hplace]
  cases node with
  | directory => exact absurd rfl hnode
  | link target => exact absurd hget (hsound.linkless _ target)
  | file bytes => exact ⟨bytes, hstat, rfl⟩

theorem unlink_of_stat_file (hsound : tree.Sound) {p : Pathname} (hroot : tree.startOf p = [])
    {bytes : ByteArray} (h : tree.stat p = .ok (.file bytes)) :
    tree.unlink p = .ok (tree.erase (p.names.foldl enter [])) := by
  obtain ⟨directory, hleads, hfits, hplace⟩ := Leads.of_stat_file hsound hroot h
  have hget := get?_of_stat hsound h
  have hentry := hleads.entry?_pathname hfits
  rw [hplace] at hentry
  rw [hroot] at hget hentry
  unfold unlink
  rw [hentry]
  simp only [bind, Except.bind]
  rw [hget]
  rfl

theorem hardLink_none {target : Pathname} (hsource : tree.fileAt source = .ok (place, node))
    (htarget : tree.entry? target = .ok none) :
    tree.hardLink source target = .error .alreadyExists := by
  unfold hardLink
  rw [hsource, htarget]
  rfl

theorem hardLink_eq {target : Pathname} {new : Place}
    (hsource : tree.fileAt source = .ok (place, node))
    (htarget : tree.entry? target = .ok (some new)) :
    tree.hardLink source target
      =
    if (tree.get? new).isSome then .error .alreadyExists else .ok (tree.insert new node) := by
  unfold hardLink
  rw [hsource, htarget]
  rfl

theorem rename_none {target : Pathname} (htarget : tree.entry? target = .ok none) :
    tree.rename source target = .error .busy := by
  unfold rename
  rw [htarget]
  rfl

theorem rename_eq {target : Pathname} {old : String}
    (hsource : tree.fileAt source = .ok (old :: directory, node))
    (htarget : tree.entry? target = .ok (some (name :: directory))) :
    tree.rename source target
      =
    if tree.hasDirectory (name :: directory) then .error .isDirectory
    else .ok ((tree.erase (old :: directory)).insert (name :: directory) node) := by
  have habove : (List.isSuffixOf (name :: directory) (old :: directory)
      && decide (name :: directory ≠ old :: directory)) = false := by
    cases hsuffix : List.isSuffixOf (name :: directory) (old :: directory) with
    | false => rfl
    | true =>
      rw [List.isSuffixOf_iff_suffix] at hsuffix
      rw [hsuffix.eq_of_length rfl]
      simp
  unfold rename
  rw [hsource, htarget]
  simp only [bind, Except.bind]
  rw [habove]
  cases tree.hasDirectory (name :: directory) with
  | true => rfl
  | false => rfl

end Depot.Files.Tree
