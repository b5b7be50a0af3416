import Depot.Proofs.Store.Fences
import Depot.Proofs.Store.Places
import Depot.Proofs.Store.Requests
import Depot.Proofs.Store.Sessions

/-!
This module contains the lifetimes of objects: a body that is stored under a key stays as it is
until it is deleted or replaced under that key, whatever else is done through the stores below a
base.
-/

namespace Depot

open Depot.Path Depot.Action

namespace Location

variable {location : Location} {segment : String}

/-- Whether the bases below climb no other way than the base itself. -/
def Level (location : Location) : Prop :=
  location.climbs = 0 ∨ location.hangs = false

instance (location : Location) : Decidable location.Level :=
  inferInstanceAs (Decidable (_ ∨ _))

theorem Level.climbs_join_eq (h : location.Level) (hsegment : Relative segment) :
    (location.join segment).climbs = location.climbs := by
  rw [climbs_join location hsegment]
  rcases h with hnone | hloose
  · rw [hnone, ite_self]
  · unfold hangs at hloose
    rw [Bool.or_eq_false_iff] at hloose
    rw [hloose.1, if_neg Bool.false_ne_true]

theorem Level.join (h : location.Level) (hsegment : Relative segment) :
    (location.join segment).Level := by
  have hclimbs := h.climbs_join_eq hsegment
  rcases h with hnone | hloose
  · exact .inl (hclimbs.trans hnone)
  · right
    have hhost : (location.join segment).host = location.host := rfl
    have hrooted := isRooted_join location hsegment
    rw [hloose] at hrooted
    unfold hangs at hloose ⊢
    rw [Bool.or_eq_false_iff] at hloose
    rw [hrooted, hhost, hloose.2, Bool.or_false]

end Location

theorem World.body?_meeting (world : World) (fault : Option (String × Failure)) (slot : Slot) :
    (world.meeting fault).body? slot = world.body? slot := by
  cases slot with
  | file place => rfl
  | blob key => rfl

namespace Store

variable {store store' : Store} {name name' : String} {source : Source} {overwrite : Option Bool}
  {world : World}

theorem write_performs {fault : Option (String × Failure)} {result : Except Failure Bool}
    {world' : World} (hsound : store.backend = .files → world.tree.Sound)
    (h : (store.write name source overwrite).perform (world.meeting fault) = (result, world')) :
    store.Framed (slotAt store.backend (store.key name)) source (store.mayReplace overwrite) world
        result world'
      ∧ Carries store.backend world world' := by
  have hmeeting : store.backend = .files → (world.meeting fault).tree.Sound := hsound
  obtain ⟨result', after, hwrite, hframed, hcarries⟩ :=
    write_framed hmeeting name source overwrite
  obtain ⟨records, hperform⟩ := hwrite.perform_eq
  rw [h] at hperform
  cases hperform
  refine ⟨?_, hcarries.sound, hcarries.current_eq⟩
  exact hframed.congr (fun slot => (World.body?_meeting world fault slot).symm)
    fun slot => World.body?_withRecords _ _ slot

theorem delete_cleared (hsound : store.backend = .files → world.tree.Sound) (name : String) :
    ∃ result world', (store.delete name).Yields world result world'
      ∧ Cleared (slotAt store.backend (store.key name)) world result world'
      ∧ Carries store.backend world world' := by
  by_cases hfiles : store.backend = .files
  · obtain ⟨result, world', hdelete, hcleared, hfewer⟩ :=
      files_delete_cleared (hsound hfiles) store name
    rw [slotAt_files hfiles]
    exact ⟨result, world', delete_yields_of_files hfiles hdelete, hcleared,
      fun _ _ => hfewer.sound, hfewer.current_eq⟩
  · obtain ⟨result, world', hdelete, hcleared, htree⟩ := delete_cleared_of_bucket hfiles name world
    rw [slotAt_bucket hfiles]
    exact ⟨result, world', hdelete, hcleared, .of_tree htree⟩

theorem delete_performs {fault : Option (String × Failure)} {result : Except Failure Unit}
    {world' : World} (hsound : store.backend = .files → world.tree.Sound)
    (h : (store.delete name).perform (world.meeting fault) = (result, world')) :
    Cleared (slotAt store.backend (store.key name)) world result world'
      ∧ Carries store.backend world world' := by
  have hmeeting : store.backend = .files → (world.meeting fault).tree.Sound := hsound
  obtain ⟨result', after, hdelete, hcleared, hcarries⟩ := delete_cleared hmeeting name
  obtain ⟨records, hperform⟩ := hdelete.perform_eq
  rw [h] at hperform
  cases hperform
  refine ⟨?_, hcarries.sound, hcarries.current_eq⟩
  exact hcleared.congr (fun slot => (World.body?_meeting world fault slot).symm)
    fun slot => World.body?_withRecords _ _ slot

theorem slotAt_eq_iff (hbackend : store'.backend = store.backend)
    (hclimbs : store.backend = .files → store'.location.climbs = store.location.climbs)
    (h : Relative (store.naming.withExtension name))
    (h' : Relative (store'.naming.withExtension name')) :
    slotAt store'.backend (store'.key name') = slotAt store.backend (store.key name)
      ↔ store'.key name' = store.key name := by
  constructor
  · intro hslot
    by_cases hfiles : store.backend = .files
    · rw [slotAt_files hfiles, slotAt_files (hbackend.trans hfiles), Slot.file.injEq] at hslot
      exact Files.key_eq_of_objectPlace h h' (hclimbs hfiles) hslot
    · have hfiles' : store'.backend ≠ .files := fun hsame => hfiles (hbackend.symm.trans hsame)
      rw [slotAt_bucket hfiles, slotAt_bucket hfiles', Slot.blob.injEq] at hslot
      exact hslot
  · intro hkey
    rw [hbackend, hkey]

theorem has_of_body? {world' : World} {raw : ByteArray}
    (hsound : store.backend = .files → world.tree.Sound)
    (hcarries : Carries store.backend world world') (h : store.Has world name raw)
    (hbody : world'.body? (slotAt store.backend (store.key name)) = some raw) :
    store.Has world' name raw := by
  by_cases hfiles : store.backend = .files
  · rw [slotAt_files hfiles, World.body?_file_iff] at hbody
    rw [has_files_iff_get? (hsound hfiles) hfiles] at h
    rw [has_files_iff_get? (hcarries.sound hfiles (hsound hfiles)) hfiles]
    exact ⟨h.1.congr hcarries.current_eq, h.2.1, hbody⟩
  · rw [slotAt_bucket hfiles] at hbody
    rw [has_bucket_iff hfiles]
    exact hbody

theorem body?_of_has {raw : ByteArray} (hsound : store.backend = .files → world.tree.Sound)
    (h : store.Has world name raw) :
    world.body? (slotAt store.backend (store.key name)) = some raw := by
  by_cases hfiles : store.backend = .files
  · rw [slotAt_files hfiles, World.body?_file_iff]
    exact ((has_files_iff_get? (hsound hfiles) hfiles).1 h).2.2
  · rw [slotAt_bucket hfiles]
    exact (has_bucket_iff hfiles).1 h

end Store

inductive Deed where
  | wrote (key : String) (replaces : Bool) (result : Except Failure Bool)
  | deleted (key : String) (result : Except Failure Unit)
  | looked

namespace Deed

variable {key : String}

def creates (key : String) : Deed → Bool
  | .wrote key' false (.ok true) => key' = key
  | _ => false

def replaces (key : String) : Deed → Bool
  | .wrote key' true (.ok true) => key' = key
  | _ => false

def deletes (key : String) : Deed → Bool
  | .deleted key' (.ok _) => key' = key
  | _ => false

theorem creates_self (key : String) : creates key (.wrote key false (.ok true)) = true :=
  decide_eq_true rfl

theorem creates_of_failed {result : Except Failure Bool} (h : result ≠ .ok true)
    (key key' : String) (mayReplace : Bool) :
    creates key (.wrote key' mayReplace result) = false := by
  cases result with
  | error failure => cases mayReplace <;> rfl
  | ok written =>
    cases written with
    | true => exact absurd rfl h
    | false => cases mayReplace <;> rfl

theorem creates_of_ne {key' : String} (h : key' ≠ key) (mayReplace : Bool)
    (result : Except Failure Bool) : creates key (.wrote key' mayReplace result) = false := by
  unfold creates
  split
  next hwrote =>
    cases hwrote
    exact decide_eq_false h
  · rfl

inductive Turns (key : String) (before after : Option ByteArray) : Deed → Prop where
  | created (raw : ByteArray) (hnone : before = none) (hsome : after = some raw) :
      Turns key before after (.wrote key false (.ok true))
  | replaced (raw : ByteArray) (hsome : after = some raw) :
      Turns key before after (.wrote key true (.ok true))
  | removed (hnone : after = none) : Turns key before after (.deleted key (.ok ()))
  | kept (deed : Deed) (hcreates : deed.creates key = false) (hsame : after = before) :
      Turns key before after deed

theorem Turns.body_eq {before after : Option ByteArray} {deed : Deed} {raw : ByteArray}
    (h : Turns key before after deed) (hbefore : before = some raw)
    (hdeletes : deed.deletes key = false) (hreplaces : deed.replaces key = false) :
    after = some raw ∧ deed.creates key = false := by
  cases h with
  | created _ hnone _ =>
    rw [hbefore] at hnone
    cases hnone
  | replaced _ _ =>
    unfold replaces at hreplaces
    simp at hreplaces
  | removed _ =>
    unfold deletes at hdeletes
    simp at hdeletes
  | kept _ hcreates hsame => exact ⟨hsame.trans hbefore, hcreates⟩

end Deed

def Request.looks : Request → Bool
  | .write _ _ _ | .delete _ => false
  | .read _ | .contains _ | .list _ _ _ | .walk _ _ | .walkFrom _ _ _ => true

theorem Answer.after_of_keeps {α : Type} {act : Action α} {world : World} (render : α → Answer)
    (h : act.Keeps world) :
    ∃ answer records, Answer.after render act world = (answer, world.withRecords records) := by
  obtain ⟨result, hact⟩ := h
  obtain ⟨records, hafter⟩ := Answer.after_of_yields render hact
  exact ⟨_, records, hafter⟩

theorem Request.perform_of_looks {request : Request} (h : request.looks = true) (store : Store)
    (world : World) :
    ∃ answer records, request.perform store world = (answer, world.withRecords records) := by
  cases request with
  | write name source overwrite => cases h
  | delete name => cases h
  | read name => exact Answer.after_of_keeps _ (store.readBytes_keeps name world)
  | contains name => exact Answer.after_of_keeps _ (store.contains_keeps name world)
  | list under limit told =>
    exact Answer.after_of_keeps _ (.of_yields (store.list_yields under limit told world))
  | walk under visitor =>
    exact Answer.after_of_keeps _ (.of_yields (store.walkFrom_yields under "" visitor world))
  | walkFrom under start visitor =>
    exact Answer.after_of_keeps _ (.of_yields (store.walkFrom_yields under start visitor world))

structure Usage where
  stores : List Store
  world : World

namespace Usage

variable {root store : Store} {usage usage' : Usage} {deed : Deed} {deeds : List Deed}
  {name : String}

/-- A step of a usage, in which some calls may fail. Names and segments are relative. -/
inductive Step (usage : Usage) : Deed → Usage → Prop where
  | write {store : Store} (hstore : store ∈ usage.stores) {name : String}
      (hname : Relative (store.naming.withExtension name)) (source : Source)
      (overwrite : Option Bool) (fault : Option (String × Failure))
      {result : Except Failure Bool} {world' : World}
      (h : (store.write name source overwrite).perform (usage.world.meeting fault)
        = (result, world')) :
      Step usage (.wrote (store.key name) (store.mayReplace overwrite) result)
        ⟨usage.stores, world'⟩
  | delete {store : Store} (hstore : store ∈ usage.stores) {name : String}
      (hname : Relative (store.naming.withExtension name)) (fault : Option (String × Failure))
      {result : Except Failure Unit} {world' : World}
      (h : (store.delete name).perform (usage.world.meeting fault) = (result, world')) :
      Step usage (.deleted (store.key name) result) ⟨usage.stores, world'⟩
  | openReader {store : Store} (hstore : store ∈ usage.stores) (name : String)
      (fault : Option (String × Failure)) {result : Except Failure Reader} {world' : World}
      (h : (store.openReader name).perform (usage.world.meeting fault) = (result, world')) :
      Step usage .looked ⟨usage.stores, world'⟩
  | look {store : Store} (hstore : store ∈ usage.stores) {request : Request}
      (hlooks : request.looks = true) (fault : Option (String × Failure)) {answer : Answer}
      {world' : World} (h : request.perform store (usage.world.meeting fault) = (answer, world')) :
      Step usage .looked ⟨usage.stores, world'⟩
  | subStore {store : Store} (hstore : store ∈ usage.stores) {segment : String}
      (hsegment : Relative segment) (fault : Option (String × Failure))
      {result : Except Failure Store} {world' : World}
      (h : (store.subStore segment).perform (usage.world.meeting fault) = (result, world')) :
      Step usage .looked ⟨Session.opened result usage.stores, world'⟩

inductive Run : Usage → List Deed → Usage → Prop where
  | nil (usage : Usage) : Run usage [] usage
  | cons {usage usage' usage'' : Usage} {deed : Deed} {deeds : List Deed}
      (hstep : Step usage deed usage') (hrun : Run usage' deeds usage'') :
      Run usage (deed :: deeds) usage''

/-- Whether a store keeps its objects where another one does, and climbs as that one. -/
structure Akin (root store : Store) : Prop where
  backend_eq : store.backend = root.backend
  climbs_eq : root.backend = .files → store.location.climbs = root.location.climbs
  level : root.backend = .files → store.location.Level

structure Fit (root : Store) (usage : Usage) : Prop where
  akin : ∀ store ∈ usage.stores, Akin root store
  sound : root.backend = .files → usage.world.tree.Sound

theorem Akin.of_opened {result : Except Failure Store} {segment : String} {world world' : World}
    (h : Akin root store) (hsegment : Relative segment)
    (hopen : (store.subStore segment).perform world = (result, world')) :
    (∀ store', result = .ok store' → Akin root store')
      ∧ ∃ records, world' = world.withRecords records := by
  obtain ⟨result', hyields, hopened⟩ := store.subStore_opens segment world
  obtain ⟨records, hperform⟩ := hyields.perform_eq
  rw [hopen] at hperform
  cases hperform
  refine ⟨fun store' hok => ?_, records, rfl⟩
  rw [hopened store' hok]
  refine ⟨h.backend_eq, fun hfiles => ?_, fun hfiles => (h.level hfiles).join hsegment⟩
  exact ((h.level hfiles).climbs_join_eq hsegment).trans (h.climbs_eq hfiles)

theorem Step.of_looked (h : Fit root usage) (hstep : Step usage .looked usage') :
    (∃ fault records, usage'.world = (usage.world.meeting fault).withRecords records)
      ∧ (∀ store ∈ usage'.stores, Akin root store)
      ∧ ∀ store ∈ usage.stores, store ∈ usage'.stores := by
  cases hstep with
  | @openReader store hstore name fault result world' hperform =>
    obtain ⟨result', hyields⟩ := store.openReader_keeps name (usage.world.meeting fault)
    obtain ⟨records, hafter⟩ := hyields.perform_eq
    rw [hperform] at hafter
    cases hafter
    exact ⟨⟨fault, records, rfl⟩, h.akin, fun _ hstore => hstore⟩
  | @look store hstore request hlooks fault answer world' hperform =>
    obtain ⟨answer', records, hafter⟩ :=
      Request.perform_of_looks hlooks store (usage.world.meeting fault)
    rw [hperform] at hafter
    cases hafter
    exact ⟨⟨fault, records, rfl⟩, h.akin, fun _ hstore => hstore⟩
  | @subStore store hstore segment hsegment fault result world' hperform =>
    obtain ⟨hakin, records, rfl⟩ := (h.akin store hstore).of_opened hsegment hperform
    refine ⟨⟨fault, records, rfl⟩, ?_⟩
    cases result with
    | error failure => exact ⟨h.akin, fun _ hstore => hstore⟩
    | ok store' =>
      exact ⟨List.forall_mem_cons.2 ⟨hakin store' rfl, h.akin⟩,
        fun _ hstore => List.mem_cons_of_mem _ hstore⟩

theorem Step.fit (h : Fit root usage) (hstep : Step usage deed usage') :
    Fit root usage' ∧ Store.Carries root.backend usage.world usage'.world
      ∧ ∀ store ∈ usage.stores, store ∈ usage'.stores := by
  have hcarried : ∀ {world' : World}, Store.Carries root.backend usage.world world' →
      root.backend = .files → world'.tree.Sound :=
    fun hcarries hfiles => hcarries.sound hfiles (h.sound hfiles)
  cases deed with
  | wrote key mayReplace result =>
    cases hstep with
    | write hstore hname source overwrite fault hperform =>
      have hbackend := (h.akin _ hstore).backend_eq
      obtain ⟨-, hcarries⟩ :=
        Store.write_performs (fun hfiles => h.sound (hbackend ▸ hfiles)) hperform
      rw [hbackend] at hcarries
      exact ⟨⟨h.akin, hcarried hcarries⟩, hcarries, fun _ hstore => hstore⟩
  | deleted key result =>
    cases hstep with
    | delete hstore hname fault hperform =>
      have hbackend := (h.akin _ hstore).backend_eq
      obtain ⟨-, hcarries⟩ :=
        Store.delete_performs (fun hfiles => h.sound (hbackend ▸ hfiles)) hperform
      rw [hbackend] at hcarries
      exact ⟨⟨h.akin, hcarried hcarries⟩, hcarries, fun _ hstore => hstore⟩
  | looked =>
    obtain ⟨⟨fault, records, hworld⟩, hakin, hstores⟩ := hstep.of_looked h
    have hcarries : Store.Carries root.backend usage.world usage'.world := by
      apply Store.Carries.of_tree
      rw [hworld]
      rfl
    exact ⟨⟨hakin, hcarried hcarries⟩, hcarries, hstores⟩

theorem Step.turns (h : Fit root usage) (hstep : Step usage deed usage') (hakin : Akin root store)
    (hname : Relative (store.naming.withExtension name)) :
    deed.Turns (store.key name) (usage.world.body? (Store.slotAt root.backend (store.key name)))
      (usage'.world.body? (Store.slotAt root.backend (store.key name))) := by
  have hother : ∀ {store' : Store} {name' : String}, store' ∈ usage.stores →
      Relative (store'.naming.withExtension name') → store'.key name' ≠ store.key name →
      Store.slotAt root.backend (store.key name)
        ≠ Store.slotAt store'.backend (store'.key name') := by
    intro store' name' hstore' hname' hkey hslot
    have hakin' := h.akin store' hstore'
    rw [← hakin.backend_eq] at hslot
    refine hkey ((Store.slotAt_eq_iff (hakin'.backend_eq.trans hakin.backend_eq.symm) ?_ hname
      hname').1 hslot.symm)
    intro hfiles
    rw [hakin.backend_eq] at hfiles
    rw [hakin'.climbs_eq hfiles, hakin.climbs_eq hfiles]
  cases deed with
  | wrote key mayReplace result =>
    cases hstep with
    | @write store' hstore' name' hname' source overwrite fault _ world' hperform =>
      have hbackend := (h.akin store' hstore').backend_eq
      obtain ⟨hframed, -⟩ :=
        Store.write_performs (fun hfiles => h.sound (hbackend ▸ hfiles)) hperform
      cases hframed with
      | kept _ _ hresult hsame => exact .kept _ (Deed.creates_of_failed hresult _ _ _) (hsame _)
      | stored body _ hcontent hnew hbody hoff =>
        by_cases hkey : store'.key name' = store.key name
        · rw [hbackend, hkey] at hnew hbody
          rw [hkey]
          cases hreplaces : store'.mayReplace overwrite with
          | true => exact .replaced _ hbody
          | false => exact .created _ (hnew hreplaces) hbody
        · exact .kept _ (Deed.creates_of_ne hkey _ _) (hoff _ (hother hstore' hname' hkey))
  | deleted key result =>
    cases hstep with
    | @delete store' hstore' name' hname' fault _ world' hperform =>
      have hbackend := (h.akin store' hstore').backend_eq
      obtain ⟨hcleared, -⟩ :=
        Store.delete_performs (fun hfiles => h.sound (hbackend ▸ hfiles)) hperform
      cases hcleared with
      | kept failure _ hsame => exact .kept _ rfl (hsame _)
      | removed _ hbody hoff =>
        by_cases hkey : store'.key name' = store.key name
        · rw [hbackend, hkey] at hbody
          rw [hkey]
          exact .removed hbody
        · exact .kept _ rfl (hoff _ (hother hstore' hname' hkey))
  | looked =>
    obtain ⟨⟨fault, records, hworld⟩, -, -⟩ := hstep.of_looked h
    refine .kept _ rfl ?_
    rw [hworld, World.body?_withRecords, World.body?_meeting]

theorem Run.fit (h : Fit root usage) (hrun : Run usage deeds usage') :
    Fit root usage' ∧ Store.Carries root.backend usage.world usage'.world
      ∧ ∀ store ∈ usage.stores, store ∈ usage'.stores := by
  induction hrun with
  | nil usage => exact ⟨h, .of_tree rfl, fun _ hstore => hstore⟩
  | cons hstep hrun ih =>
    obtain ⟨hfit, hcarries, hstores⟩ := hstep.fit h
    obtain ⟨hfit', hcarries', hstores'⟩ := ih hfit
    exact ⟨hfit', hcarries.trans hcarries',
      fun store hstore => hstores' store (hstores store hstore)⟩

section Lifetime

variable (hakin : Akin root store) (hname : Relative (store.naming.withExtension name))

include hakin hname

theorem Run.body_eq (h : Fit root usage) (hrun : Run usage deeds usage') {raw : ByteArray}
    (hbody : usage.world.body? (Store.slotAt root.backend (store.key name)) = some raw)
    (hkept : ∀ deed ∈ deeds, deed.deletes (store.key name) = false
      ∧ deed.replaces (store.key name) = false) :
    usage'.world.body? (Store.slotAt root.backend (store.key name)) = some raw
      ∧ ∀ deed ∈ deeds, deed.creates (store.key name) = false := by
  induction hrun with
  | nil usage => exact ⟨hbody, List.forall_mem_nil _⟩
  | cons hstep hrun ih =>
    rw [List.forall_mem_cons] at hkept
    obtain ⟨hfirst, hcreates⟩ := (hstep.turns h hakin hname).body_eq hbody hkept.1.1 hkept.1.2
    obtain ⟨hlast, hrest⟩ := ih (hstep.fit h).1 hfirst hkept.2
    exact ⟨hlast, List.forall_mem_cons.2 ⟨hcreates, hrest⟩⟩

theorem Run.countP_creates (h : Fit root usage) (hrun : Run usage deeds usage')
    (hkept : ∀ deed ∈ deeds, deed.deletes (store.key name) = false) :
    deeds.countP (·.creates (store.key name))
      ≤ if (usage.world.body? (Store.slotAt root.backend (store.key name))).isSome then 0
        else 1 := by
  induction hrun with
  | nil usage => exact Nat.zero_le _
  | cons hstep hrun ih =>
    rw [List.forall_mem_cons] at hkept
    have hrest := ih (hstep.fit h).1 hkept.2
    have hturns := hstep.turns h hakin hname
    cases hturns with
    | created raw hnone hsome =>
      rw [hsome] at hrest
      rw [List.countP_cons_of_pos (Deed.creates_self _), hnone]
      exact Nat.succ_le_succ hrest
    | replaced raw hsome =>
      rw [hsome] at hrest
      rw [List.countP_cons_of_neg (by simp [Deed.creates])]
      exact Nat.le_trans hrest (Nat.zero_le _)
    | removed hnone =>
      have hdeletes := hkept.1
      unfold Deed.deletes at hdeletes
      simp at hdeletes
    | kept _ hcreates hsame =>
      rw [hsame] at hrest
      rw [List.countP_cons_of_neg (by simp [hcreates])]
      exact hrest

end Lifetime

/--
A body that is under a key stays as it is up to the first step that deletes or replaces it under
that key, no other write stores anything there before, and up to a deletion at most one write has
created it.
-/
theorem written_once {origin : World} {past : List Deed}
    (hlevel : root.backend = .files → root.location.Level)
    (hsound : root.backend = .files → origin.tree.Sound)
    (hpast : Run ⟨[root], origin⟩ past usage) (hrun : Run usage deeds usage')
    (hstore : store ∈ usage'.stores) (hname : Relative (store.naming.withExtension name)) :
    (∀ raw, usage.world.body? (Store.slotAt root.backend (store.key name)) = some raw →
        (∀ deed ∈ deeds, deed.deletes (store.key name) = false
          ∧ deed.replaces (store.key name) = false) →
        usage'.world.body? (Store.slotAt root.backend (store.key name)) = some raw
          ∧ (store.Has usage.world name raw → store.Has usage'.world name raw)
          ∧ ∀ deed ∈ deeds, deed.creates (store.key name) = false)
      ∧ ((∀ deed ∈ deeds, deed.deletes (store.key name) = false) →
          deeds.countP (·.creates (store.key name)) ≤ 1) := by
  have hstart : Fit root ⟨[root], origin⟩ := by
    refine ⟨?_, hsound⟩
    intro store hstore
    rw [List.mem_singleton.1 hstore]
    exact ⟨rfl, fun _ => rfl, hlevel⟩
  obtain ⟨hfit, -, -⟩ := hpast.fit hstart
  obtain ⟨hfit', hcarries, -⟩ := hrun.fit hfit
  have hakin := hfit'.akin store hstore
  have hbackend := hakin.backend_eq
  refine ⟨fun raw hbody hkept => ?_, fun hkept => ?_⟩
  · obtain ⟨hlast, hcreates⟩ := hrun.body_eq hakin hname hfit hbody hkept
    refine ⟨hlast, fun hhas => ?_, hcreates⟩
    rw [← hbackend] at hlast hcarries
    exact Store.has_of_body? (fun hfiles => hfit.sound (hbackend ▸ hfiles)) hcarries hhas hlast
  · have hcount := hrun.countP_creates hakin hname hfit hkept
    split at hcount
    · exact Nat.le_trans hcount (Nat.zero_le 1)
    · exact hcount

section Sample

open Store Store.Files Files Depot.Files.Tree

theorem written_once_sample :
    ∃ world world', Run ⟨[shelf], bare⟩ [.wrote (shelf.key "a") false (.ok true)] ⟨[shelf], world⟩
      ∧ shelf.Has world "a" (shelf.raw (.ofBytes "old".toUTF8))
      ∧ Run ⟨[shelf], world⟩ [.wrote (shelf.key "a") false (.ok false)] ⟨[shelf], world'⟩
      ∧ shelf.Has world' "a" (shelf.raw (.ofBytes "old".toUTF8)) := by
  obtain ⟨world, hperform, hsound, hspare, hget⟩ := Session.exists_shelved "old".toUTF8
  have hmeeting : (world.meeting none).tree.Sound := hsound
  obtain ⟨tree', hwrite, -, -⟩ := storable_a.write_yields_of_some rooted_shelf hmeeting hspare hget
    (Source.content_ofBytes "new".toUTF8)
  have hwritten : (shelf.write "a" (.ofBytes "new".toUTF8) none).Yields (world.meeting none)
      (.ok false) ((world.meeting none).withTree tree') := write_yields hwrite
  obtain ⟨records, hskipped⟩ := hwritten.perform_eq
  have hname : Relative (shelf.naming.withExtension "a") := by decide
  have hpast : Run ⟨[shelf], bare⟩ [.wrote (shelf.key "a") false (.ok true)] ⟨[shelf], world⟩ :=
    .cons (.write List.mem_cons_self hname _ none none hperform) (.nil _)
  have hrun : Run ⟨[shelf], world⟩ [.wrote (shelf.key "a") false (.ok false)] ⟨[shelf], _⟩ :=
    .cons (.write List.mem_cons_self hname _ none none hskipped) (.nil _)
  have hhas := has_of_stored (fun _ => sound_bare) hperform
  have hbody : world.body? (slotAt shelf.backend (shelf.key "a"))
      = some (shelf.raw (.ofBytes "old".toUTF8)) := body?_of_has (fun _ => hsound) hhas
  obtain ⟨hkept, -⟩ := written_once (fun _ => .inl (by decide)) (fun _ => sound_bare) hpast hrun
    List.mem_cons_self hname
  obtain ⟨-, hstill, -⟩ := hkept _ hbody (by decide)
  exact ⟨world, _, hpast, hhas, hrun, hstill hhas⟩

theorem has_of_gains {world world' : World} {directory place : Place} {bytes bytes' : ByteArray}
    (hbackend : store.backend = .files) (hwithin : Within store world.tree name)
    (hleads : world.tree.Leads (objectPathname store name).start
      (objectPathname store name).names.dropLast directory)
    (hfits : exceeds (objectPathname store name) = false)
    (hentry : entryOf? directory (objectPathname store name) = some place)
    (hget : world.tree.get? place = some (.file bytes))
    (hgains : Gains world.tree place bytes' world'.tree) :
    store.Has world name bytes ∧ store.Has world' name bytes' := by
  have hfree : world.tree.hasDirectory place = false := by
    unfold hasDirectory
    rw [hget]
  have hleads' := hleads.keeps (hgains.keeps hfree (by rw [hget]; simp)) hgains.current_eq
  rw [has_files_iff hbackend, has_files_iff hbackend]
  exact ⟨⟨hwithin, hleads.stat_eq_file hfits hentry hget⟩, hwithin.congr hgains.current_eq,
    hleads'.stat_eq_file hfits hentry hgains.at_eq⟩

def climber : Store :=
  { backend := .files, location := ⟨"file", "", "/../d"⟩ }

def climbed : Store :=
  { backend := .files, location := ⟨"file", "", "/d/x"⟩ }

def nested : World :=
  { tree := ((bare.tree.insert ["d"] .directory).insert ["x", "d"] .directory).insert
      ["n", "x", "d"] (.file "old".toUTF8) }

def linked : World :=
  nested.withTree (nested.tree.insert ["l", "d"] (.link "x"))

theorem raw_new (h : store.compression = .none) :
    store.raw (.ofBytes "new".toUTF8) = "new".toUTF8 := by
  have hdecodes : store.compression.Decodes (store.raw (.ofBytes "new".toUTF8)) "new".toUTF8 :=
    decodes_raw (Source.content_ofBytes _)
  rw [h, Codec.decodes_none_iff] at hdecodes
  exact hdecodes

theorem replaces_new {world : World} {tree : Tree} {p : Pathname} {place : Place}
    (hbackend : store.backend = .files) (hcompression : store.compression = .none)
    (h : world.tree = tree) (hp : objectPathname store name = p)
    (hpath : checkedPath store name tree = .ok p)
    (hmade : tree.makeDirectories p.start p.names.dropLast.reverse = (.ok (), tree))
    (hfits : refuses p.start p.names.dropLast (freshStaging tree p) = false)
    (hentry : tree.entry? p = .ok (some place)) (hfree : tree.hasDirectory place = false) :
    ∃ world', (store.write name (.ofBytes "new".toUTF8) (some true)).perform world
        = (.ok true, world')
      ∧ Gains tree place "new".toUTF8 world'.tree := by
  subst h
  obtain ⟨world', hperform, hgains⟩ := replace_performs hbackend hp hpath hmade hfits hentry hfree
    (Source.content_ofBytes "new".toUTF8)
  rw [raw_new hcompression] at hgains
  exact ⟨world', hperform, hgains⟩

theorem sound_nested : nested.tree.Sound :=
  ((sound_bare.insert rfl (by simp) (.inl rfl)).insert rfl (by simp) (.inl rfl)).insert rfl
    (by simp) (.inr rfl)

theorem leads_nested :
    nested.tree.Leads .root ["d"] ["d"] ∧ nested.tree.Leads .root ["d", "x"] ["x", "d"]
      ∧ nested.tree.Leads .root ["..", "d", "x"] ["x", "d"] := by
  have houter : nested.tree.Leads .root ["d"] ["d"] := (Leads.root _).concat rfl (by decide) rfl
  have hroot : nested.tree.Leads .root [".."] [] := (Leads.root nested.tree).dots rfl rfl
  have hclimbed : nested.tree.Leads .root ["..", "d"] ["d"] := hroot.concat rfl (by decide) rfl
  exact ⟨houter, houter.concat rfl (by decide) rfl, hclimbed.concat rfl (by decide) rfl⟩

theorem climbed_replaces {world : World} (h : world.tree = nested.tree) :
    ∃ world', (climbed.write "n" (.ofBytes "new".toUTF8) (some true)).perform world
        = (.ok true, world')
      ∧ Gains nested.tree ["n", "x", "d"] "new".toUTF8 world'.tree := by
  have hp : objectPathname climbed "n" = ⟨.root, ["d", "x", "n"]⟩ := by
    rw [objectPathname]
    decide
  have hpath : checkedPath climbed "n" nested.tree = .ok ⟨.root, ["d", "x", "n"]⟩ := by
    rw [← hp]
    exact checkedPath_of_within sound_nested
      ⟨by rw [hp]; decide, by decide, by rw [hp]; decide⟩
  obtain ⟨houter, hleads, -⟩ := leads_nested
  exact replaces_new rfl rfl h hp hpath (houter.makeDirectories_eq hleads (by decide)) (by decide)
    (hleads.entry?_eq "n") (by decide)

theorem linkAt?_linked :
    linked.tree.linkAt? ["d"] = none ∧ linked.tree.linkAt? ["x", "d"] = none
      ∧ linked.tree.linkAt? ["n", "x", "d"] = none
      ∧ linked.tree.linkAt? ["l", "d"] = some "x" := by
  have htakes : takes (Place.pathname ["l", "d"]) = true := by decide
  have hget : linked.tree.get? ["d"] = some .directory
      ∧ linked.tree.get? ["x", "d"] = some .directory
      ∧ linked.tree.get? ["n", "x", "d"] = some (.file "old".toUTF8)
      ∧ linked.tree.get? ["l", "d"] = some (.link "x") := ⟨rfl, rfl, rfl, rfl⟩
  simp [linkAt?, hget, htakes]

theorem resolveNames_linked :
    linked.tree.resolveNames linked.tree.nodes.entries.length [] [] ["d"] = .place ["d"]
      ∧ linked.tree.resolveNames linked.tree.nodes.entries.length [] [] ["d", "l", "n"]
        = .place ["n", "x", "d"] := by
  have hlength : linked.tree.nodes.entries.length = 4 := rfl
  have hlink : linkStart ["d"] "x" = ["d"] ∧ linkNames "x" = ["x"] := by decide
  rw [hlength]
  simp [resolveNames, isDots, linkAt?_linked, hlink]

theorem sighted_linked : linked.tree.Sighted :=
  Sighted.insert (fun place target hget => absurd hget (sound_nested.linkless place target))
    fun _ _ => by decide

theorem leads_linked :
    linked.tree.Leads .root ["d"] ["d"] ∧ linked.tree.Leads .root ["d", "x"] ["x", "d"]
      ∧ linked.tree.Leads .root ["d", "l"] ["x", "d"] := by
  have houter : linked.tree.Leads .root ["d"] ["d"] := (Leads.root _).concat rfl (by decide) rfl
  refine ⟨houter, houter.concat rfl (by decide) rfl, ?_, rfl⟩
  have hlink : linkStart ["d"] "x" = ["d"] ∧ linkNames "x" = ["x"] := by decide
  have hget : linked.tree.get? ["x", "d"] = some .directory := rfl
  change linked.tree.follow false maxLinks [] ["d", "l"] = .ok ["x", "d"]
  rw [follow_some rfl rfl (by decide) rfl (by simp), maxLinks, follow_link rfl rfl (by decide) rfl,
    hlink.1, hlink.2, List.append_nil, follow_some rfl rfl (by decide) hget (by simp), follow_nil]

theorem linked_replaces {world : World} (h : world.tree = linked.tree) :
    ∃ world', (shelf.write "l/n" (.ofBytes "new".toUTF8) (some true)).perform world
        = (.ok true, world')
      ∧ Gains linked.tree ["n", "x", "d"] "new".toUTF8 world'.tree := by
  have hp : objectPathname shelf "l/n" = ⟨.root, ["d", "l", "n"]⟩ := by
    rw [objectPathname]
    decide
  have hpath : checkedPath shelf "l/n" linked.tree = .ok ⟨.root, ["d", "l", "n"]⟩ := by
    obtain ⟨hbase, hobject⟩ := resolveNames_linked
    rw [← hp]
    exact checkedPath_of_reaches (founded_shelf sighted_linked hbase (.inr rfl) hp hobject)
      (reaches_shelf hbase hp hobject (by decide) (by decide))
  obtain ⟨houter, -, hleads⟩ := leads_linked
  exact replaces_new rfl rfl h hp hpath (houter.makeDirectories_eq hleads (by decide)) (by decide)
    (hleads.entry?_eq "n") (by decide)

theorem replaced_below :
    ∃ usage, Run ⟨[climber], nested⟩ [.looked, .wrote (climbed.key "n") true (.ok true)] usage
      ∧ climbed.key "n" ≠ climber.key "x/n"
      ∧ climber.Has nested "x/n" "old".toUTF8 ∧ climber.Has usage.world "x/n" "new".toUTF8 := by
  have hjoin : climber.location.join "x" = climbed.location := by decide
  have hopen : (climber.subStore "x").Yields (nested.meeting none) (.ok climbed)
      (nested.meeting none) := by
    rw [show climbed = { climber with location := climber.location.join "x" } by rw [hjoin]; rfl]
    exact subStore_yields climber "x" rfl (fun hbucket => absurd rfl hbucket)
      (fun hbucket => by cases hbucket)
  obtain ⟨records, hopened⟩ := hopen.perform_eq
  have hsegment : Relative "x" := by decide
  have hfirst : Step ⟨[climber], nested⟩ .looked
      ⟨Session.opened (.ok climbed) [climber], (nested.meeting none).withRecords records⟩ :=
    .subStore List.mem_cons_self hsegment none hopened
  have hsame : (((nested.meeting none).withRecords records).meeting none).tree = nested.tree := rfl
  obtain ⟨world', hperform, hgains⟩ := climbed_replaces hsame
  have hname : Relative (climbed.naming.withExtension "n") := by decide
  have hsecond : Step
      ⟨Session.opened (.ok climbed) [climber], (nested.meeting none).withRecords records⟩
      (.wrote (climbed.key "n") true (.ok true)) ⟨[climbed, climber], world'⟩ :=
    @Step.write ⟨[climbed, climber], (nested.meeting none).withRecords records⟩ climbed
      List.mem_cons_self "n" hname (.ofBytes "new".toUTF8) (some true) none _ _ hperform
  have hrun := Run.cons hfirst (Run.cons hsecond (Run.nil _))
  have hp : objectPathname climber "x/n" = ⟨.root, ["..", "d", "x", "n"]⟩ := by
    rw [objectPathname]
    decide
  have hwithin : Within climber nested.tree "x/n" := by
    constructor
    · rw [hp]
      decide
    · decide
    · rw [hp]
      decide
  have hleads : nested.tree.Leads (objectPathname climber "x/n").start
      (objectPathname climber "x/n").names.dropLast ["x", "d"] := by
    rw [hp]
    exact leads_nested.2.2
  refine ⟨_, hrun, by decide, ?_⟩
  exact has_of_gains rfl hwithin hleads (by rw [hp]; decide) (by rw [hp]; decide) rfl hgains

theorem replaced_through_link :
    ∃ usage, Run ⟨[shelf], linked⟩ [.wrote (shelf.key "l/n") true (.ok true)] usage
      ∧ shelf.key "l/n" ≠ shelf.key "x/n"
      ∧ shelf.Has linked "x/n" "old".toUTF8 ∧ shelf.Has usage.world "x/n" "new".toUTF8 := by
  have hsame : (linked.meeting none).tree = linked.tree := rfl
  obtain ⟨world', hperform, hgains⟩ := linked_replaces hsame
  have hname : Relative (shelf.naming.withExtension "l/n") := by decide
  have hrun : Run ⟨[shelf], linked⟩ [.wrote (shelf.key "l/n") true (.ok true)]
      ⟨[shelf], world'⟩ :=
    .cons (@Step.write ⟨[shelf], linked⟩ shelf List.mem_cons_self "l/n" hname
      (.ofBytes "new".toUTF8) (some true) none _ _ hperform) (.nil _)
  have hp : objectPathname shelf "x/n" = ⟨.root, ["d", "x", "n"]⟩ := by
    rw [objectPathname]
    decide
  have hwithin : Within shelf linked.tree "x/n" := by
    constructor
    · rw [hp]
      decide
    · decide
    · rw [hp]
      decide
  have hleads : linked.tree.Leads (objectPathname shelf "x/n").start
      (objectPathname shelf "x/n").names.dropLast ["x", "d"] := by
    rw [hp]
    exact leads_linked.2.1
  refine ⟨_, hrun, by decide, ?_⟩
  exact has_of_gains rfl hwithin hleads (by rw [hp]; decide) (by rw [hp]; decide) rfl hgains

/-- A body changes though nothing is deleted or replaced under its key. -/
theorem replaced_elsewhere :
    (∃ usage, Run ⟨[climber], nested⟩ [.looked, .wrote (climbed.key "n") true (.ok true)] usage
        ∧ climbed.key "n" ≠ climber.key "x/n"
        ∧ climber.Has nested "x/n" "old".toUTF8 ∧ climber.Has usage.world "x/n" "new".toUTF8)
      ∧ ∃ usage, Run ⟨[shelf], linked⟩ [.wrote (shelf.key "l/n") true (.ok true)] usage
        ∧ shelf.key "l/n" ≠ shelf.key "x/n"
        ∧ shelf.Has linked "x/n" "old".toUTF8 ∧ shelf.Has usage.world "x/n" "new".toUTF8 :=
  ⟨replaced_below, replaced_through_link⟩

end Sample

end Usage

end Depot
