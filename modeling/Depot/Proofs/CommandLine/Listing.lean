import Depot.CommandLine.Program
import Depot.Proofs.Store.Refinement
import Depot.Proofs.Tracing.Silence
import Depot.Proofs.Walk.Course

/-!
This module contains the theory of listings of at most so many names, by a store and by the program:
they give the first names that the walk over all of them visits, and take no more keys than that
needs.
-/

namespace Depot

open Depot.Action

theorem perform_note_calls (level : Level) (topic : Topic) (message : String) (world : World) :
    ((note level topic message).perform world).2.calls = world.calls := by
  obtain ⟨kept, hperform⟩ := perform_note level topic message world
  rw [hperform]
  rfl

namespace Store

variable (store : Store) (under start : String) (limit : Int) (world : World)

theorem perform_walkFrom_calls (visitor : Visitor) :
    ((store.walkFrom under start visitor).perform world).2.calls
      =
    world.calls ++ (store.walkOf world under start visitor).calls := by
  unfold walkFrom
  rw [perform_traced_calls, perform_get_bind, perform_bind_of_ok (perform_modify _ _)]
  cases (store.walkOf world under start visitor).remark? with
  | none => rfl
  | some remark =>
    have hnote := perform_note_calls .debug .walk remark
      { world with calls := world.calls ++ (store.walkOf world under start visitor).calls }
    obtain ⟨records, hperform⟩ := (note_yields .debug .walk remark
      { world with
        calls := world.calls ++ (store.walkOf world under start visitor).calls }).perform_eq
    rw [hperform] at hnote
    rw [perform_bind_of_ok hperform]
    exact hnote

/--
How a listing of at most `limit` names goes about it, and the calls it makes: it does nothing at
all, or it walks no further than to the last of the names. It may tell a span of that.
-/
inductive Frugal : Action (List String) → List Cloud.Call → Prop where
  | idle (hlimit : limit ≤ 0) : Frugal (pure []) []
  | walking (hlimit : 0 < limit)
      (hbounded : Walk.Bounded store.naming.name
        (Path.startOffset? (store.query under) start) limit
        (store.listing world (store.query under) (Path.startOffset? (store.query under) start))
        (store.walkOf world under start (Walk.collector limit))) :
    Frugal (store.walkFrom under start (Walk.collector limit) >>= namesOf)
      (store.walkOf world under start (Walk.collector limit)).calls
  | traced (told : Option String) (summarize : List String → List Tracing.Attribute)
      (act : Action (List String)) (calls : List Cloud.Call) (h : Frugal act calls) :
    Frugal (store.tracedBy .listNames told summarize act) calls

variable {store under start limit world} in
theorem Frugal.perform_calls {act : Action (List String)} {calls : List Cloud.Call}
    (h : store.Frugal under start limit world act calls) :
    (act.perform world).2.calls = world.calls ++ calls := by
  induction h with
  | idle hlimit => exact (List.append_nil _).symm
  | walking hlimit hbounded =>
    have hcalls := store.perform_walkFrom_calls under start world (Walk.collector limit)
    obtain ⟨records, hwalk⟩ :=
      (store.walkFrom_yields under start (Walk.collector limit) world).perform_eq
    rw [hwalk] at hcalls
    rw [perform_bind_of_ok hwalk, ← hcalls]
    unfold namesOf
    cases (store.walkOf world under start (Walk.collector limit)).result with
    | ok count => rfl
    | error failure => rfl
  | traced told summarize act calls h ih =>
    unfold tracedBy
    rw [perform_traced_calls]
    exact ih

theorem collectFrom_frugal :
    ∃ calls, store.Frugal under start limit world (store.collectFrom under start limit) calls := by
  unfold collectFrom Walk.first?
  by_cases hlimit : limit ≤ 0
  · rw [if_pos hlimit]
    exact ⟨[], .idle hlimit⟩
  · rw [if_neg hlimit]
    have hpositive := Int.not_le.1 hlimit
    exact ⟨_, .walking hpositive (Walk.bounded_run _ _ hpositive _)⟩

theorem list_frugal (told : Option String) :
    ∃ calls, store.Frugal under "" limit world (store.list under limit told) calls := by
  obtain ⟨calls, hfrugal⟩ := store.collectFrom_frugal under "" limit world
  exact ⟨calls, .traced told _ _ calls hfrugal⟩

theorem collectFrom_yields_upTo :
    (store.collectFrom under start limit).Yields world
      ((store.walkOf world under start {}).upTo limit) world := by
  unfold collectFrom Walk.first?
  by_cases hlimit : limit ≤ 0
  · have hnone : (store.walkOf world under start {}).upTo limit = .ok [] := by
      unfold Walk.upTo
      rw [Int.toNat_of_nonpos hlimit, if_pos (Nat.zero_le _), List.take_zero]
    rw [if_pos hlimit, hnone]
    exact .pure [] world
  · rw [if_neg hlimit]
    have hbounded := Walk.bounded_run store.naming.name
      (Path.startOffset? (store.query under) start) (Int.not_le.1 hlimit)
      (store.listing world (store.query under) (Path.startOffset? (store.query under) start))
    have hfirst : (store.walkOf world under start {}).upTo limit = _ := hbounded.upTo_eq.symm
    rw [hfirst]
    exact (store.walkFrom_yields under start _ world).bind (namesOf_yields _ world)

theorem list_yields_upTo (told : Option String) :
    (store.list under limit told).Yields world
      ((store.walkOf world under "" {}).upTo limit) world := by
  unfold list
  exact traced_yields (store.collectFrom_yields_upTo under "" limit world)

end Store

namespace CommandLine

variable (store : Store) (under start : String) (limit : Int) (world : World)

def listed : Action (List String) :=
  if start = "" then store.list under limit (some under)
  else store.collectFrom under start limit

theorem listNames_eq :
    listNames store under start limit
      =
    listed store under start limit >>= fun names => pure (.ofText (Grammar.textOf names)) := by
  unfold listNames listed
  by_cases hstart : start = ""
  · simp only [if_pos hstart]
  · simp only [if_neg hstart]

theorem listed_yields_upTo :
    (listed store under start limit).Yields world
      ((store.walkOf world under start {}).upTo limit) world := by
  unfold listed
  by_cases hstart : start = ""
  · rw [if_pos hstart, hstart]
    exact store.list_yields_upTo under limit world (some under)
  · rw [if_neg hstart]
    exact store.collectFrom_yields_upTo under start limit world

theorem listed_frugal :
    ∃ calls, store.Frugal under start limit world (listed store under start limit) calls := by
  unfold listed
  by_cases hstart : start = ""
  · rw [if_pos hstart, hstart]
    exact store.list_frugal under limit world (some under)
  · rw [if_neg hstart]
    exact store.collectFrom_frugal under start limit world

theorem listNames_yields_upTo :
    (listNames store under start limit).Yields world
      (((store.walkOf world under start {}).upTo limit).map
        fun names => .ofText (Grammar.textOf names)) world := by
  have hnames := listed_yields_upTo store under start limit world
  rw [listNames_eq]
  cases hfirst : (store.walkOf world under start {}).upTo limit with
  | ok names =>
    rw [hfirst] at hnames
    exact hnames.bind (.pure _ world)
  | error failure =>
    rw [hfirst] at hnames
    exact hnames.bind_error

/--
A listing of at most `limit` names, by a store or by the program, gives the first names that the
walk visits which nothing stops. It fails as that walk does if the walk fails before.
-/
theorem listing_eq_first_names (told : Option String) (input : ByteArray) :
    (store.list under limit told).Yields world
        ((store.walkOf world under "" {}).upTo limit) world
      ∧ ((Command.list under start limit).run store input).Yields world
        (((store.walkOf world under start {}).upTo limit).map
          fun names => .ofText (Grammar.textOf names)) world
      ∧ (∃ calls, store.Frugal under "" limit world (store.list under limit told) calls
        ∧ ((store.list under limit told).perform world).2.calls = world.calls ++ calls)
      ∧ ∃ act calls, store.Frugal under start limit world act calls
        ∧ (Command.list under start limit).run store input
          = (act >>= fun names => pure (.ofText (Grammar.textOf names)))
        ∧ (((Command.list under start limit).run store input).perform world).2.calls
          = world.calls ++ calls := by
  refine ⟨store.list_yields_upTo under limit world told,
    listNames_yields_upTo store under start limit world, ?_, ?_⟩
  · obtain ⟨calls, hfrugal⟩ := store.list_frugal under limit world told
    exact ⟨calls, hfrugal, hfrugal.perform_calls⟩
  · obtain ⟨calls, hfrugal⟩ := listed_frugal store under start limit world
    have hrun : (Command.list under start limit).run store input = _ :=
      listNames_eq store under start limit
    refine ⟨_, calls, hfrugal, hrun, ?_⟩
    rw [hrun, bind_pure_comp, perform_map]
    exact hfrugal.perform_calls

open Files Store.Files in
/--
A listing may fail though the walk has visited all the names there are: below a component that is
too long the walk visits none, and fails.
-/
theorem listing_ne_first_names :
    ((shelf.list (letters 256 ++ "/") 5 none).perform crowded).1
      ≠
    .ok ((shelf.walkOf crowded (letters 256 ++ "/") "" {}).names.take 5) := by
  obtain ⟨failure, hwalk⟩ := walkOf_crowded
  rw [(shelf.list_yields_upTo (letters 256 ++ "/") 5 crowded none).fst_eq, hwalk]
  intro hlisted
  nomatch hlisted

end CommandLine

end Depot
