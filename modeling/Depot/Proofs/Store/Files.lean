import Depot.Proofs.Files.Change
import Depot.Proofs.Store.Operations
import Depot.Proofs.Store.Staging

/-!
This module contains the theory of stores in directories: what each operation gives and leaves in a
tree without links.
-/

namespace Depot

open Depot.Action

namespace Store.Files

open Depot.Files

variable {store : Store} {name : String} {source : Source} {overwrite : Bool} {world : World}
  {tree tree' : Tree} {failure : Failure}

/-- The pathname of an object. What it comes to is never computed. -/
@[irreducible]
def objectPathname (store : Store) (name : String) : Pathname :=
  keyPath (store.key name)

def basePlace (store : Store) (tree : Tree) : Place :=
  (base store).names.foldl Tree.enter (tree.startOf (base store))

structure Within (store : Store) (tree : Tree) (name : String) : Prop where
  key_zero : (objectPathname store name).holdsZero = false
  base_zero : (base store).holdsZero = false
  within : isWithin (basePlace store tree) ((objectPathname store name).names.foldl Tree.enter
    (tree.startOf (objectPathname store name))) = true

theorem Within.congr (h : Within store tree name) (hcurrent : tree'.current = tree.current) :
    Within store tree' name := by
  refine ⟨h.key_zero, h.base_zero, ?_⟩
  unfold basePlace
  rw [Tree.startOf_congr hcurrent, Tree.startOf_congr hcurrent]
  exact h.within

theorem resolveFor_eq (hsound : tree.Sound) (store : Store) (name : String) (p : Pathname) :
    resolveFor store name tree p
      =
    if p.holdsZero then .error (traversal store name (.malformed .zeroByte))
    else .ok (p.names.foldl Tree.enter (tree.startOf p)) := by
  unfold resolveFor
  rw [Tree.resolve_eq hsound]
  cases p.holdsZero with
  | true => rfl
  | false => rfl

/-- The pathname of an object in a tree, or why there is none. -/
def checkedPath (store : Store) (name : String) (tree : Tree) : Except Failure Pathname := do
  let place ← resolveFor store name tree (objectPathname store name)
  let root ← resolveFor store name tree (base store)
  if isWithin root place then .ok (objectPathname store name)
  else .error (traversal store name (.outside place.render root.render))

theorem checkedPath_cases (store : Store) (name : String) (tree : Tree) :
    checkedPath store name tree = .ok (objectPathname store name)
      ∨ ∃ failure, checkedPath store name tree = .error failure := by
  cases hpath : checkedPath store name tree with
  | error failure => exact .inr ⟨failure, rfl⟩
  | ok p =>
    left
    unfold checkedPath at hpath
    cases hplace : resolveFor store name tree (objectPathname store name) with
    | error failure =>
      rw [hplace] at hpath
      cases hpath
    | ok place =>
      cases hroot : resolveFor store name tree (base store) with
      | error failure =>
        rw [hplace, hroot] at hpath
        cases hpath
      | ok root =>
        rw [hplace, hroot] at hpath
        simp only [bind, Except.bind] at hpath
        split at hpath
        · exact hpath.symm
        · cases hpath

theorem objectPath_yields_checkedPath (store : Store) (name : String) (world : World) :
    (objectPath store name).Yields world (checkedPath store name world.tree) world := by
  unfold objectPath checkedPath
  rw [objectPathname]
  refine Yields.get_bind fun records => ?_
  simp only [World.withRecords_tree, bind, Except.bind]
  cases resolveFor store name world.tree (keyPath (store.key name)) with
  | error failure => exact (Yields.ofResult _ world).bind_error
  | ok place =>
    refine (Yields.ofResult _ world).bind ?_
    cases resolveFor store name world.tree (base store) with
    | error failure => exact (Yields.ofResult _ world).bind_error
    | ok root =>
      refine (Yields.ofResult _ world).bind ?_
      dsimp only
      split
      · exact .pure _ world
      · exact .throw _ world

theorem checkedPath_of_within (hsound : tree.Sound) (h : Within store tree name) :
    checkedPath store name tree = .ok (objectPathname store name) := by
  unfold checkedPath
  rw [resolveFor_eq hsound, resolveFor_eq hsound, h.key_zero, h.base_zero]
  exact if_pos h.within

theorem checkedPath_of_not_within (hsound : tree.Sound) (h : ¬Within store tree name) :
    ∃ cause, checkedPath store name tree = .error (traversal store name cause) := by
  unfold checkedPath
  rw [resolveFor_eq hsound, resolveFor_eq hsound]
  cases hkey : (objectPathname store name).holdsZero with
  | true => exact ⟨_, rfl⟩
  | false =>
    cases hbase : (base store).holdsZero with
    | true => exact ⟨_, rfl⟩
    | false => exact ⟨_, if_neg fun hwithin => h ⟨hkey, hbase, hwithin⟩⟩

theorem objectPath_yields (hsound : world.tree.Sound) (h : Within store world.tree name) :
    (objectPath store name).Yields world (.ok (objectPathname store name)) world := by
  have hpath := objectPath_yields_checkedPath store name world
  rw [checkedPath_of_within hsound h] at hpath
  exact hpath

theorem objectPath_yields_of_not_within (hsound : world.tree.Sound)
    (h : ¬Within store world.tree name) :
    ∃ cause, (objectPath store name).Yields world (.error (traversal store name cause)) world := by
  obtain ⟨cause, hfailure⟩ := checkedPath_of_not_within hsound h
  have hpath := objectPath_yields_checkedPath store name world
  rw [hfailure] at hpath
  exact ⟨cause, hpath⟩

section Steps

variable {p : Pathname} {act : Tree → Except SystemErrorCode Tree}
  {report : SystemErrorCode → SystemError} {code : SystemErrorCode}

theorem setTree_yields (tree : Tree) (records : Records) (world : World) :
    (set ((world.withRecords records).withTree tree) : Action PUnit).Yields world (.ok ())
      (world.withTree tree) :=
  .set ⟨records, rfl⟩

theorem change_yields_of_ok (h : act world.tree = .ok tree) :
    (change act report).Yields world (.ok ()) (world.withTree tree) := by
  unfold change
  refine Yields.get_bind fun records => ?_
  simp only [World.withRecords_tree, h]
  exact setTree_yields tree records world

theorem change_yields_of_error (h : act world.tree = .error code) :
    (change act report).Yields world (.error (.ofSystem (report code))) world := by
  unfold change
  refine Yields.get_bind fun records => ?_
  simp only [World.withRecords_tree, h]
  exact .throw _ world

theorem makeDirectories_yields (p : Pathname) (world : World) :
    (makeDirectories p).Yields world
      ((world.tree.makeDirectories p.start p.names.reverse).1.mapError .ofSystem)
      (world.withTree ((world.tree.makeDirectories p.start p.names.reverse).2)) := by
  unfold makeDirectories
  refine Yields.get_bind fun records => ?_
  simp only [World.withRecords_tree]
  refine (setTree_yields _ records world).bind ?_
  split
  next hok =>
    rw [hok]
    exact .pure _ _
  next error herror =>
    rw [herror]
    exact .throw _ _

def discarded (tree : Tree) (staging : Pathname) : Tree :=
  match tree.unlink staging with
  | .ok tree => tree
  | .error _ => tree

theorem discard_yields (staging : Pathname) (world : World) :
    (discard staging).Yields world (.ok ())
      (world.withTree (discarded world.tree staging)) := by
  unfold discard discarded
  refine Yields.get_bind fun records => ?_
  simp only [World.withRecords_tree]
  cases world.tree.unlink staging with
  | ok tree => exact setTree_yields tree records world
  | error code =>
    cases code with
    | noEntry => exact .pure _ world
    | _ => exact note_yields _ _ _ world

end Steps

end Store.Files

end Depot
