import Depot.Proofs.Store.Fences
import Depot.Proofs.Store.Holdings
import Depot.Proofs.Store.Refinement

/-!
This module contains how it is told that an object is not there: asking for it, opening it and
deleting it agree on that, whatever its name is and whatever a session has left in the tree.
-/

namespace Depot

open Depot.Action

namespace Store

variable {store : Store} {name : String} {world : World}

namespace Files

open Depot.Files Depot.Files.Tree

variable {tree : Tree} {p : Pathname}

theorem stat_of_tooLong (hlong : pathTooLong p = true) (tree : Tree) :
    tree.stat p = .error .nameTooLong := by
  unfold stat locate followFrom
  rw [if_pos (of_decide_eq_true hlong)]
  rfl

def unreachable (store : Store) (name : String) : Failure :=
  .ofSystem (errorAt (objectPathname store name) .nameTooLong)

section TooLong

variable (hsound : world.tree.Sound) (hwithin : Within store world.tree name)
  (hlong : pathTooLong (objectPathname store name) = true)

include hsound hwithin hlong

theorem contains_yields_of_tooLong :
    (contains store name).Yields world (.error (unreachable store name)) world := by
  have hexists := contains_yields_of_within hsound hwithin
  unfold existence at hexists
  rw [stat_of_tooLong hlong] at hexists
  exact hexists

theorem openRaw_yields_of_tooLong :
    (openRaw store name).Yields world (.error (unreachable store name)) world := by
  have hcontent : world.tree.content (objectPathname store name) = .error .nameTooLong := by
    unfold content
    rw [stat_of_tooLong hlong]
    rfl
  have hopen := openRaw_yields_of_path (objectPath_yields hsound hwithin)
  rw [hcontent] at hopen
  exact hopen

theorem delete_yields_of_tooLong :
    (delete store name).Yields world (.error (unreachable store name)) world := by
  have hdir : world.tree.isDirectory (objectPathname store name) = .error .nameTooLong := by
    unfold isDirectory
    rw [stat_of_tooLong hlong]
  rw [delete_eq]
  exact (objectPath_yields hsound hwithin).bind (remove_yields_of_unknown hdir store name)

end TooLong

end Files

/-- How existence, opening and deletion agree on whether there is an object at a place. -/
inductive Answers (store : Store) (name : String) (place : Depot.Files.Place) (world : World) :
    Prop where
  | present (raw : ByteArray) (reader : Reader) (tree' : Depot.Files.Tree)
      (hfile : world.tree.get? place = some (.file raw)) (hgone : tree'.get? place = none)
      (hkept : ∀ other, other ≠ place → tree'.get? other = world.tree.get? other)
      (hbody : reader.body = .ofBytes store.compression raw)
      (hexists : (store.contains name).Yields world (.ok true) world)
      (hopen : (store.openReader name).Yields world (.ok reader) world)
      (hdelete : (store.delete name).Yields world (.ok ()) (world.withTree tree'))
  | absent (why why' : Option Reason) (hfile : ∀ raw, world.tree.get? place ≠ some (.file raw))
      (hexists : (store.contains name).Yields world (.ok false) world)
      (hopen : (store.openReader name).Yields world (.error (store.notFound name why)) world)
      (hdelete : (store.delete name).Yields world (.error (store.notFound name why')) world)

inductive Verdict (store : Store) (name : String) (world : World) : Prop where
  | outside (cause : Reason)
      (hexists : (store.contains name).Yields world (.error (Files.traversal store name cause))
        world)
      (hopen : (store.openReader name).Yields world (.error (Files.traversal store name cause))
        world)
      (hdelete : (store.delete name).Yields world (.error (Files.traversal store name cause)) world)
  | unreachable (hlong : Depot.Files.Tree.pathTooLong (Files.objectPathname store name) = true)
      (hexists : (store.contains name).Yields world (.error (Files.unreachable store name)) world)
      (hopen : (store.openReader name).Yields world (.error (Files.unreachable store name)) world)
      (hdelete : (store.delete name).Yields world (.error (Files.unreachable store name)) world)
  | answered (h : store.Answers name (Files.objectPlace store name) world)

theorem Verdict.answers {answer : Bool} (h : store.Verdict name world)
    (hshort : Depot.Files.Tree.pathTooLong (Files.objectPathname store name) = false)
    (hcontains : ((store.contains name).perform world).1 = .ok answer) :
    store.Answers name (Files.objectPlace store name) world := by
  cases h with
  | outside cause hexists =>
    rw [hexists.fst_eq] at hcontains
    cases hcontains
  | unreachable hlong =>
    rw [hlong] at hshort
    cases hshort
  | answered h => exact h

theorem Verdict.refused {failure : Failure} (h : store.Verdict name world)
    (hshort : Depot.Files.Tree.pathTooLong (Files.objectPathname store name) = false)
    (hcontains : ((store.contains name).perform world).1 = .error failure) :
    ∃ cause, (store.contains name).Yields world (.error (Files.traversal store name cause)) world
      ∧ (store.openReader name).Yields world (.error (Files.traversal store name cause)) world
      ∧ (store.delete name).Yields world (.error (Files.traversal store name cause)) world := by
  cases h with
  | outside cause hexists hopen hdelete => exact ⟨cause, hexists, hopen, hdelete⟩
  | unreachable hlong =>
    rw [hlong] at hshort
    cases hshort
  | answered h =>
    cases h with
    | present _ _ _ _ _ _ _ hexists =>
      rw [hexists.fst_eq] at hcontains
      cases hcontains
    | absent _ _ _ hexists =>
      rw [hexists.fst_eq] at hcontains
      cases hcontains

section Backend

variable (hfiles : store.backend = .files)

include hfiles

open Depot.Files Depot.Store.Files Depot.Files.Tree in
theorem answers_of_fits (hsound : world.tree.Sound) (hwithin : Within store world.tree name)
    (hfits : (objectPathname store name).Fits) :
    store.Answers name (objectPlace store name) world := by
  by_cases hfile : ∃ raw, world.tree.get? (objectPlace store name) = some (.file raw)
  · obtain ⟨raw, hget⟩ := hfile
    have hstat := (stat_objectPathname_iff hsound).2 ⟨hfits, hget⟩
    have hne : objectPlace store name ≠ [] := by
      intro hroot
      rw [hroot, get?_root] at hget
      cases hget
    have hexists := contains_yields_of_within hsound hwithin
    rw [existence_eq_ok_true_iff.2 ⟨raw, hstat⟩] at hexists
    obtain ⟨reader, hopen, hbody, -⟩ := openReader_yields_of_ok
      (openRaw_yields_of_files hfiles (openRaw_yields_of_stat hsound hwithin hstat))
    exact .present raw reader (world.tree.erase (objectPlace store name)) hget
      (get?_erase_self _ hne) (fun place hplace => get?_erase_of_ne _ hplace) hbody
      (contains_yields_of_files hfiles hexists) hopen
      (delete_yields_of_files hfiles (delete_yields_of_stat hsound hwithin hstat))
  · have hnone : ∀ raw, world.tree.get? (objectPlace store name) ≠ some (.file raw) :=
      fun raw hget => hfile ⟨raw, hget⟩
    have hexists := contains_yields_of_within hsound hwithin
    rw [existence_of_not_file hsound hfits hnone] at hexists
    obtain ⟨why, hopen⟩ := openRaw_yields_of_not_file hsound hwithin hfits hnone
    obtain ⟨why', hdelete⟩ := delete_yields_of_not_file hsound hwithin hfits hnone
    exact .absent why why' hnone (contains_yields_of_files hfiles hexists)
      (openReader_yields_of_error (openRaw_yields_of_files hfiles hopen))
      (delete_yields_of_files hfiles hdelete)

open Depot.Files Depot.Store.Files Depot.Files.Tree in
theorem verdict_of_sound (hsound : world.tree.Sound)
    (hshort : ∀ part ∈ (objectPathname store name).names, isTooLong part = false) :
    store.Verdict name world := by
  by_cases hwithin : Within store world.tree name
  · cases hlong : pathTooLong (objectPathname store name) with
    | true =>
      have hopen := openRaw_yields_of_tooLong hsound hwithin hlong
      exact .unreachable hlong
        (contains_yields_of_files hfiles (contains_yields_of_tooLong hsound hwithin hlong))
        (openReader_yields_of_error (openRaw_yields_of_files hfiles hopen))
        (delete_yields_of_files hfiles (delete_yields_of_tooLong hsound hwithin hlong))
    | false => exact .answered (answers_of_fits hfiles hsound hwithin ⟨hlong, hshort⟩)
  · obtain ⟨cause, hpath⟩ := checkedPath_of_not_within hsound hwithin
    have hrefuses := refuses_of_checked hfiles hpath
    exact .outside cause hrefuses.contains hrefuses.openReader hrefuses.delete

/--
In whatever state a session has left a tree without links, existence, opening and deletion agree on
every name with short components: it leads out, its pathname is too long, an object is there, or
none is.
-/
theorem verdict_of_reached {root : Store} {origin : World} {session : Session}
    (hsound : origin.tree.Sound) (hreached : Session.Reached root origin session)
    (hshort : ∀ part ∈ (Files.objectPathname store name).names,
      Depot.Files.Tree.isTooLong part = false) :
    store.Verdict name session.world :=
  verdict_of_sound hfiles (hreached.traced hsound).sourced.sound hshort

end Backend

section Sample

open Depot.Files Depot.Store.Files Depot.Files.Tree

theorem fits_a : (objectPathname shelf "a").Fits := by
  have hp : objectPathname shelf "a" = ⟨.root, ["d", "a"]⟩ := by
    rw [objectPathname]
    decide
  rw [hp]
  exact ⟨by decide, by decide⟩

theorem objectPathname_sibling : objectPathname shelf "../x" = ⟨.root, ["x"]⟩ := by
  rw [objectPathname]
  decide

theorem fits_sibling : (objectPathname shelf "../x").Fits := by
  rw [objectPathname_sibling]
  exact ⟨by decide, by decide⟩

theorem not_within_sibling (tree : Tree) : ¬Within shelf tree "../x" := by
  intro h
  have hplaces := h.within
  unfold basePlace at hplaces
  rw [objectPathname_sibling, show base shelf = ⟨.root, ["d"]⟩ by decide] at hplaces
  cases hplaces

theorem exists_deleted :
    ∃ written deleted, Session.Reached shelf bare written ∧ Session.Reached shelf bare deleted
      ∧ ((shelf.contains "a").perform written.world).1 = .ok true
      ∧ ((shelf.contains "a").perform deleted.world).1 = .ok false
      ∧ (∃ raw, written.world.tree.get? (objectPlace shelf "a") = some (.file raw))
      ∧ deleted.world.tree.get? (objectPlace shelf "a") = none := by
  obtain ⟨world, hwrite, hsound, -, hget⟩ := Session.exists_shelved .empty
  have hwritten : Session.Reached shelf bare _ := .step .start
    (.write List.mem_cons_self "a" (.ofBytes .empty) none none (honest_of_files rfl _ _) hwrite)
  have hwithin : ∀ tree, Within shelf tree "a" := rooted_shelf.within storable_a.clean
  have hstat := (stat_objectPathname_iff hsound).2 ⟨fits_a, hget⟩
  have herase : (Files.delete shelf "a").Yields (world.meeting none) (.ok ())
      ((world.meeting none).withTree (world.tree.erase (objectPlace shelf "a"))) :=
    delete_yields_of_stat hsound (hwithin _) hstat
  obtain ⟨records, hdelete⟩ := (delete_yields_of_files rfl herase).perform_eq
  have hdeleted : Session.Reached shelf bare _ :=
    hwritten.step (.delete List.mem_cons_self "a" none hdelete)
  have hafter := (hdeleted.traced sound_bare).sourced.sound
  have hgone := get?_erase_self world.tree (storable_a.objectPlace_ne_nil rooted_shelf)
  have hthere := contains_yields_of_files rfl (contains_yields_of_within hsound (hwithin _))
  have hmissing := contains_yields_of_files rfl (contains_yields_of_within hafter (hwithin _))
  refine ⟨_, _, hwritten, hdeleted, ?_, ?_, ⟨_, hget⟩, hgone⟩
  · exact hthere.fst_eq.trans (existence_eq_ok_true_iff.2 ⟨_, hstat⟩)
  · refine hmissing.fst_eq.trans (existence_of_not_file hafter fits_a fun raw hfile => ?_)
    cases hgone.symm.trans hfile

theorem verdict_of_reached_sample :
    ∃ written deleted, Session.Reached shelf bare written ∧ Session.Reached shelf bare deleted
      ∧ (∃ reader tree', (shelf.contains "a").Yields written.world (.ok true) written.world
        ∧ (shelf.openReader "a").Yields written.world (.ok reader) written.world
        ∧ (shelf.delete "a").Yields written.world (.ok ()) (written.world.withTree tree'))
      ∧ (∃ why why', (shelf.contains "a").Yields deleted.world (.ok false) deleted.world
        ∧ (shelf.openReader "a").Yields deleted.world (.error (shelf.notFound "a" why)) deleted.world
        ∧ (shelf.delete "a").Yields deleted.world (.error (shelf.notFound "a" why')) deleted.world)
      ∧ ∃ cause, (shelf.contains "../x").Yields deleted.world
          (.error (traversal shelf "../x" cause)) deleted.world
        ∧ (shelf.openReader "../x").Yields deleted.world
          (.error (traversal shelf "../x" cause)) deleted.world
        ∧ (shelf.delete "../x").Yields deleted.world
          (.error (traversal shelf "../x" cause)) deleted.world := by
  obtain ⟨written, deleted, hwritten, hdeleted, hthere, hmissing, ⟨raw, hget⟩, hgone⟩ :=
    exists_deleted
  refine ⟨written, deleted, hwritten, hdeleted, ?_, ?_, ?_⟩
  · have hverdict := verdict_of_reached rfl sound_bare hwritten fits_a.names_short
    cases hverdict.answers fits_a.short hthere with
    | present raw reader tree' _ _ _ _ hcontains hopen hdelete =>
      exact ⟨reader, tree', hcontains, hopen, hdelete⟩
    | absent _ _ hfile => exact absurd hget (hfile raw)
  · have hverdict := verdict_of_reached rfl sound_bare hdeleted fits_a.names_short
    cases hverdict.answers fits_a.short hmissing with
    | present raw _ _ hfile => cases hgone.symm.trans hfile
    | absent why why' _ hcontains hopen hdelete => exact ⟨why, why', hcontains, hopen, hdelete⟩
  · obtain ⟨cause, hpath⟩ :=
      checkedPath_of_not_within (hdeleted.traced sound_bare).sourced.sound (not_within_sibling _)
    have hverdict := verdict_of_reached rfl sound_bare hdeleted fits_sibling.names_short
    exact hverdict.refused fits_sibling.short (refuses_of_checked rfl hpath).contains.fst_eq

/-- Below a clean name may be a pathname that is too long; then nobody tells that nothing is there. -/
theorem contains_deepName_fails :
    Session.Reached shelf bare ⟨[shelf], [], bare⟩
      ∧ (∀ part ∈ (objectPathname shelf deepName).names, isTooLong part = false)
      ∧ ((shelf.contains deepName).perform bare).1 = .error (unreachable shelf deepName)
      ∧ ∀ cause, unreachable shelf deepName ≠ traversal shelf deepName cause := by
  refine ⟨.start, ?_, ?_, ?_⟩
  · rw [rooted_shelf.names_objectPathname clean_deepName]
    exact fun part hpart => (rooted_shelf.proper_append clean_deepName part hpart).short
  · have hwithin := rooted_shelf.within clean_deepName bare.tree
    have hfails := contains_yields_of_tooLong sound_bare hwithin pathTooLong_deepName
    exact (contains_yields_of_files rfl hfails).fst_eq
  · intro cause hsame
    nomatch congrArg Failure.reason hsame

end Sample

end Store

end Depot
