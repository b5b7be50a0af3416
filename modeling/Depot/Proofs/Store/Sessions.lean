import Depot.Proofs.Store.Contents
import Depot.Proofs.Store.Opening
import Depot.Proofs.Store.Storable

/-!
This module contains sessions: writes, deletions and the opening of stores below others, in any
order, from a world in which the stores are empty. All that the stores hold comes from the writes of
the session, which tells when a write that is skipped has found an object.
-/

namespace Depot

open Depot.Action

namespace Store

variable {root store store' : Store} {name segment : String} {source : Source}
  {overwrite : Option Bool} {world world' origin : World} {raw body : ByteArray}

def Clear (store : Store) (world : World) : Prop :=
  match store.backend with
  | .files => ∀ place bytes, Files.isWithin (Files.basePlace store world.tree) place = true →
      world.tree.get? place ≠ some (.file bytes)
  | .gcs | .s3 => ∀ name, world.bucket.get? (store.key name) = none

def SameObject (store : Store) (name : String) (store' : Store) (name' : String) : Prop :=
  match store.backend with
  | .files => Files.objectPlace store' name' = Files.objectPlace store name
  | .gcs | .s3 => store'.key name' = store.key name

end Store

structure Entry where
  store : Store
  name : String
  source : Source

/-- A session: the stores that are open, what writes have stored, latest first, and the world. -/
structure Session where
  stores : List Store
  entries : List Entry
  world : World

namespace Session

variable {root store : Store} {origin : World} {session session' : Session} {entry : Entry}

def recorded (entry : Entry) (result : Except Failure Bool) (entries : List Entry) : List Entry :=
  match result with
  | .ok true => entry :: entries
  | .ok false | .error _ => entries

theorem mem_recorded {entry' : Entry} {result : Except Failure Bool} {entries : List Entry}
    (h : entry' ∈ recorded entry result entries) :
    result = .ok true ∧ entry' = entry ∨ entry' ∈ entries := by
  unfold recorded at h
  split at h
  · rcases List.mem_cons.1 h with rfl | hold
    · exact .inl ⟨rfl, rfl⟩
    · exact .inr hold
  · exact .inr h
  · exact .inr h

def opened (result : Except Failure Store) (stores : List Store) : List Store :=
  match result with
  | .ok store => store :: stores
  | .error _ => stores

/-- A step of a session, in which some calls may fail. What is opened was empty at the start. -/
inductive Step (origin : World) (session : Session) : Session → Prop where
  | write {store : Store} (hstore : store ∈ session.stores) (name : String) (source : Source)
      (overwrite : Option Bool) (fault : Option (String × Failure))
      (hhonest : store.Honest (session.world.meeting fault) name) {result : Except Failure Bool}
      {world' : World}
      (h : (store.write name source overwrite).perform (session.world.meeting fault)
        = (result, world')) :
      Step origin session
        ⟨session.stores, recorded ⟨store, name, source⟩ result session.entries, world'⟩
  | delete {store : Store} (hstore : store ∈ session.stores) (name : String)
      (fault : Option (String × Failure)) {result : Except Failure Unit} {world' : World}
      (h : (store.delete name).perform (session.world.meeting fault) = (result, world')) :
      Step origin session ⟨session.stores, session.entries, world'⟩
  | subStore {store : Store} (hstore : store ∈ session.stores) (segment : String)
      (fault : Option (String × Failure)) {result : Except Failure Store} {world' : World}
      (h : (store.subStore segment).perform (session.world.meeting fault) = (result, world'))
      (hclear : ∀ store', result = .ok store' → store'.Clear origin) :
      Step origin session ⟨opened result session.stores, session.entries, world'⟩

inductive Reached (root : Store) (origin : World) : Session → Prop where
  | start : Reached root origin ⟨[root], [], origin⟩
  | step {session session' : Session} (h : Reached root origin session)
      (hstep : Step origin session session') : Reached root origin session'

structure Sourced (origin : World) (entries : List Entry) (world : World) : Prop where
  sound : world.tree.Sound
  current_eq : world.tree.current = origin.tree.current
  file_of : ∀ place bytes, world.tree.get? place = some (.file bytes) →
    origin.tree.get? place = some (.file bytes)
      ∨ ∃ entry ∈ entries, Store.Files.objectPlace entry.store entry.name = place
        ∧ bytes = entry.store.raw entry.source
  body_of : ∀ key bytes, world.bucket.get? key = some bytes →
    origin.bucket.get? key = some bytes
      ∨ ∃ entry ∈ entries, entry.store.key entry.name = key
        ∧ bytes = entry.store.raw entry.source

namespace Sourced

variable {entries : List Entry} {world world' : World} {name : String} {source : Source}

theorem meeting (h : Sourced origin entries world) (fault : Option (String × Failure)) :
    Sourced origin entries (world.meeting fault) :=
  ⟨h.sound, h.current_eq, h.file_of, h.body_of⟩

theorem withRecords (h : Sourced origin entries world) (records : Records) :
    Sourced origin entries (world.withRecords records) :=
  ⟨h.sound, h.current_eq, h.file_of, h.body_of⟩

theorem of_fewer (h : Sourced origin entries world) (hfewer : Store.Fewer world world') :
    Sourced origin entries world' := by
  refine ⟨hfewer.sound, hfewer.current_eq.trans h.current_eq, ?_, ?_⟩
  · intro place bytes hget
    exact h.file_of place bytes (hfewer.file_of place bytes hget)
  · intro key bytes hget
    exact h.body_of key bytes (hfewer.body_of key bytes hget)

theorem of_spares (h : Sourced origin entries world) (hspares : world.Spares world') :
    Sourced origin entries world' := by
  refine ⟨hspares.sound, hspares.current_eq.trans h.current_eq, ?_, ?_⟩
  · intro place bytes hget
    exact h.file_of place bytes ((hspares.file_iff place bytes).1 hget)
  · intro key bytes hget
    rw [hspares.get?_eq] at hget
    exact h.body_of key bytes hget

theorem of_stored (h : Sourced origin entries world)
    (hstored : store.Stored name (store.raw source) world world') :
    Sourced origin (⟨store, name, source⟩ :: entries) world' := by
  refine ⟨hstored.sound, hstored.current_eq.trans h.current_eq, ?_, ?_⟩
  · intro place bytes hget
    rcases hstored.file_of place bytes hget with hold | ⟨-, rfl, rfl⟩
    · rcases h.file_of place bytes hold with horigin | ⟨entry, hentry, hplace⟩
      · exact .inl horigin
      · exact .inr ⟨entry, List.mem_cons_of_mem _ hentry, hplace⟩
    · exact .inr ⟨_, List.mem_cons_self, rfl, rfl⟩
  · intro key bytes hget
    rcases hstored.body_of key bytes hget with hold | ⟨-, rfl, rfl⟩
    · rcases h.body_of key bytes hold with horigin | ⟨entry, hentry, hkey⟩
      · exact .inl horigin
      · exact .inr ⟨entry, List.mem_cons_of_mem _ hentry, hkey⟩
    · exact .inr ⟨_, List.mem_cons_self, rfl, rfl⟩

section Steps

variable {fault : Option (String × Failure)} {overwrite : Option Bool}

theorem write (h : Sourced origin entries world)
    (hhonest : store.Honest (world.meeting fault) name) {result : Except Failure Bool}
    (hperform : (store.write name source overwrite).perform (world.meeting fault)
      = (result, world')) :
    Sourced origin (recorded ⟨store, name, source⟩ result entries) world'
      ∧ (result = .ok true →
        (∃ body, source.content = .ok body) ∧ store.Has world' name (store.raw source)) := by
  have hsourced := h.meeting fault
  obtain ⟨result', after, hwrite, hwritten⟩ :=
    Store.write_cases hsourced.sound hhonest source overwrite
  obtain ⟨records, hafter⟩ := hwrite.perform_eq
  rw [hperform] at hafter
  cases hafter
  cases hwritten with
  | failed failure _ hspares =>
    exact ⟨(hsourced.of_spares hspares).withRecords records, fun hwrote => by cases hwrote⟩
  | skipped _ hspares hkeeps hfound =>
    exact ⟨(hsourced.of_spares hspares).withRecords records, fun hwrote => by cases hwrote⟩
  | stored body _ hcontent hnew hstored =>
    refine ⟨(hsourced.of_stored hstored).withRecords records, fun _ => ⟨⟨body, hcontent⟩, ?_⟩⟩
    rw [Store.has_withRecords]
    exact hstored.has

theorem delete (h : Sourced origin entries world) {result : Except Failure Unit}
    (hperform : (store.delete name).perform (world.meeting fault) = (result, world')) :
    Sourced origin entries world' := by
  have hsourced := h.meeting fault
  obtain ⟨result', after, hdelete, hfewer⟩ := Store.delete_fewer hsourced.sound store name
  obtain ⟨records, hafter⟩ := hdelete.perform_eq
  rw [hperform] at hafter
  cases hafter
  exact (hsourced.of_fewer hfewer).withRecords records

theorem subStore (h : Sourced origin entries world) {segment : String}
    {result : Except Failure Store}
    (hperform : (store.subStore segment).perform (world.meeting fault) = (result, world')) :
    Sourced origin entries world' := by
  obtain ⟨result', hopen, -⟩ := Store.subStore_opens store segment (world.meeting fault)
  obtain ⟨records, hafter⟩ := hopen.perform_eq
  rw [hperform] at hafter
  cases hafter
  exact (h.meeting fault).withRecords records

end Steps

end Sourced

structure Valid (root : Store) (origin : World) (session : Session) : Prop where
  kin : ∀ store ∈ session.stores, store.Kin root
  clear : ∀ store ∈ session.stores, store.Clear origin
  entry_kin : ∀ entry ∈ session.entries, entry.store.Kin root
  entry_content : ∀ entry ∈ session.entries, ∃ body, entry.source.content = .ok body
  sourced : Sourced origin session.entries session.world

namespace Valid

theorem start (hsound : origin.tree.Sound) (hclear : root.Clear origin) :
    Valid root origin ⟨[root], [], origin⟩ := by
  refine ⟨?_, ?_, ?_, ?_, hsound, rfl, fun _ _ hget => .inl hget, fun _ _ hget => .inl hget⟩
  · intro store hstore
    rw [List.mem_singleton.1 hstore]
    exact .refl root
  · intro store hstore
    rw [List.mem_singleton.1 hstore]
    exact hclear
  · intro entry hentry
    cases hentry
  · intro entry hentry
    cases hentry

theorem write (h : Valid root origin session) (hstore : store ∈ session.stores) {name : String}
    {source : Source} {overwrite : Option Bool} {fault : Option (String × Failure)}
    (hhonest : store.Honest (session.world.meeting fault) name) {result : Except Failure Bool}
    {world' : World}
    (hperform : (store.write name source overwrite).perform (session.world.meeting fault)
      = (result, world')) :
    Valid root origin
      ⟨session.stores, recorded ⟨store, name, source⟩ result session.entries, world'⟩ := by
  obtain ⟨hsourced, hwrote⟩ := h.sourced.write hhonest hperform
  refine ⟨h.kin, h.clear, ?_, ?_, hsourced⟩
  · intro entry hentry
    rcases mem_recorded hentry with ⟨-, rfl⟩ | hold
    · exact h.kin store hstore
    · exact h.entry_kin entry hold
  · intro entry hentry
    rcases mem_recorded hentry with ⟨hstored, rfl⟩ | hold
    · exact (hwrote hstored).1
    · exact h.entry_content entry hold

theorem subStore (h : Valid root origin session) (hstore : store ∈ session.stores)
    {segment : String} {fault : Option (String × Failure)} {result : Except Failure Store}
    {world' : World}
    (hperform : (store.subStore segment).perform (session.world.meeting fault) = (result, world'))
    (hclear : ∀ store', result = .ok store' → store'.Clear origin) :
    Valid root origin ⟨opened result session.stores, session.entries, world'⟩ := by
  have hsourced := h.sourced.subStore hperform
  obtain ⟨result', hopen, hopened⟩ :=
    Store.subStore_opens store segment (session.world.meeting fault)
  obtain ⟨records, hafter⟩ := hopen.perform_eq
  rw [hperform] at hafter
  cases hafter
  cases result with
  | error failure => exact ⟨h.kin, h.clear, h.entry_kin, h.entry_content, hsourced⟩
  | ok store' =>
    refine ⟨?_, ?_, h.entry_kin, h.entry_content, hsourced⟩
    · refine List.forall_mem_cons.2 ⟨?_, h.kin⟩
      rw [hopened store' rfl]
      exact (h.kin store hstore).rooted _
    · exact List.forall_mem_cons.2 ⟨hclear store' rfl, h.clear⟩

theorem step (h : Valid root origin session) (hstep : Step origin session session') :
    Valid root origin session' := by
  cases hstep with
  | write hstore name source overwrite fault hhonest hperform =>
    exact h.write hstore hhonest hperform
  | delete hstore name fault hperform =>
    exact ⟨h.kin, h.clear, h.entry_kin, h.entry_content, h.sourced.delete hperform⟩
  | subStore hstore segment fault hperform hclear => exact h.subStore hstore hperform hclear

end Valid

theorem Reached.valid (hsound : origin.tree.Sound) (hclear : root.Clear origin)
    (h : Reached root origin session) : Valid root origin session := by
  induction h with
  | start => exact .start hsound hclear
  | step _ hstep ih => exact ih.step hstep

theorem Valid.exists_entry (h : Valid root origin session) (hstore : store ∈ session.stores)
    {name : String} {raw : ByteArray} (hhas : store.Has session.world name raw) :
    ∃ entry ∈ session.entries, store.SameObject name entry.store entry.name
      ∧ raw = entry.store.raw entry.source := by
  have hclear := h.clear store hstore
  unfold Store.Has at hhas
  unfold Store.Clear at hclear
  unfold Store.SameObject
  cases hbackend : store.backend with
  | files =>
    rw [hbackend] at hhas hclear
    obtain ⟨hwithin, hstat⟩ := hhas
    have hget := Store.Files.get?_objectPlace h.sourced.sound hstat
    -- What was there at the start is not in the store, which was empty.
    rcases h.sourced.file_of _ _ hget with horigin | hentry
    · have hinside := (hwithin.congr h.sourced.current_eq.symm).within
      rw [Store.Files.startOf_objectPathname] at hinside
      exact absurd horigin (hclear _ raw hinside)
    · exact hentry
  | gcs =>
    rw [hbackend] at hhas hclear
    rcases h.sourced.body_of _ _ hhas with horigin | hentry
    · rw [hclear name] at horigin
      cases horigin
    · exact hentry
  | s3 =>
    rw [hbackend] at hhas hclear
    rcases h.sourced.body_of _ _ hhas with horigin | hentry
    · rw [hclear name] at horigin
      cases horigin
    · exact hentry

/--
A write that is skipped has found an object, which reads as some write of the session has stored it,
unless there is only a directory in its place, or an upload breaks off with what the store takes for
the answer that there is one.
-/
theorem skipped_write_iff (hsound : origin.tree.Sound) (hclear : root.Clear origin)
    (hreached : Reached root origin session) (hstore : store ∈ session.stores) (name : String)
    (source : Source) (overwrite : Option Bool) (fault : Option (String × Failure))
    (hhonest : store.Honest (session.world.meeting fault) name) (world' : World)
    (hskipped : (store.write name source overwrite).perform (session.world.meeting fault)
      = (.ok false, world')) :
    (((store.contains name).perform world'.calm).1 = .ok true
        ∧ ∃ entry ∈ session.entries, store.SameObject name entry.store entry.name
          ∧ ∃ body, entry.source.content = .ok body
            ∧ ((store.readBytes name).perform world'.calm).1 = .ok body)
      ↔ ¬store.Blocked world' name source := by
  have hvalid := hreached.valid hsound hclear
  have hafter := hvalid.write hstore hhonest hskipped
  obtain ⟨result, after, hwrite, hwritten⟩ :=
    Store.write_cases (hvalid.sourced.meeting fault).sound hhonest source overwrite
  obtain ⟨records, hperform⟩ := hwrite.perform_eq
  rw [hskipped] at hperform
  cases hperform
  cases hwritten with
  | skipped _ hspares hkeeps hfound =>
    have hfinal : (after.withRecords records).tree.Sound := hspares.sound
    constructor
    · rintro ⟨hcontains, -⟩ hblocked
      obtain ⟨raw, hhas⟩ := (Store.contains_calm_iff hfinal).1 hcontains
      exact Store.not_has_of_blocked hblocked hhas
    · intro hfree
      obtain ⟨raw, hhas⟩ := hfound.resolve_right hfree
      refine ⟨(Store.contains_calm_iff hfinal).2 ⟨raw, hhas⟩, ?_⟩
      -- The object comes from an entry, whose store has the same compression.
      obtain ⟨entry, hentry, hsame, hraw⟩ := hafter.exists_entry hstore hhas
      obtain ⟨body, hbody⟩ := hafter.entry_content entry hentry
      refine ⟨entry, hentry, hsame, body, hbody, ?_⟩
      have hread := Store.readBytes_calm (fun _ => hfinal) hhas
      have hdecodes : entry.store.compression.Decodes (entry.store.raw entry.source) body :=
        Store.decodes_raw hbody
      rw [(hafter.entry_kin entry hentry).compression_eq,
        ← (hafter.kin store hstore).compression_eq, ← hraw] at hdecodes
      rw [Reader.decoded_of_decodes hdecodes] at hread
      exact hread

section Sample

open Store.Files Files Depot.Files.Tree

theorem clear_shelf : shelf.Clear bare :=
  fun place bytes _ => fileless_bare place bytes

theorem exists_shelved (body : ByteArray) :
    ∃ world, (shelf.write "a" (.ofBytes body) none).perform (bare.meeting none) = (.ok true, world)
      ∧ world.tree.Sound ∧ Spare 0 world.tree
      ∧ world.tree.get? (objectPlace shelf "a") = some (.file (shelf.raw (.ofBytes body))) := by
  have hbare : (bare.meeting none).tree.Sound := sound_bare
  obtain ⟨tree, hwrite, hplaced⟩ := storable_a.write_yields_of_none rooted_shelf hbare
    (spare_bare 0) (open_bare _) (get?_bare_object storable_a) (Source.content_ofBytes body) false
  have hwritten : (shelf.write "a" (.ofBytes body) none).Yields (bare.meeting none) (.ok true)
      ((bare.meeting none).withTree tree) := Store.write_yields hwrite
  obtain ⟨records, hperform⟩ := hwritten.perform_eq
  exact ⟨_, hperform, hplaced.sound, hplaced.spare, hplaced.at_eq⟩

theorem skipped_write_iff_sample :
    ∃ session world', Reached shelf bare session
      ∧ (shelf.write "a" (.ofBytes "new".toUTF8) none).perform (session.world.meeting none)
        = (.ok false, world')
      ∧ ((shelf.readBytes "a").perform world'.calm).1 = .ok "old".toUTF8 := by
  obtain ⟨world, hperform, hsound, hspare, hget⟩ := exists_shelved "old".toUTF8
  have hstep : Step bare ⟨[shelf], [], bare⟩
      ⟨[shelf], recorded ⟨shelf, "a", .ofBytes "old".toUTF8⟩ (.ok true) [], world⟩ :=
    .write List.mem_cons_self "a" (.ofBytes "old".toUTF8) none none (Store.honest_of_files rfl _ _) hperform
  have hreached := Reached.start.step hstep
  have hmeeting : (world.meeting none).tree.Sound := hsound
  obtain ⟨tree', hwrite, hextends, hstat⟩ := storable_a.write_yields_of_some rooted_shelf hmeeting
    hspare hget (Source.content_ofBytes "new".toUTF8)
  have hwritten : (shelf.write "a" (.ofBytes "new".toUTF8) none).Yields (world.meeting none)
      (.ok false) ((world.meeting none).withTree tree') := Store.write_yields hwrite
  obtain ⟨records, hskipped⟩ := hwritten.perform_eq
  have hfree : ¬shelf.Blocked (((world.meeting none).withTree tree').withRecords records) "a"
      (.ofBytes "new".toUTF8) := by
    intro hblocked
    have hdir : tree'.stat (objectPathname shelf "a") = .ok .directory := hblocked
    rw [hstat] at hdir
    cases hdir
  obtain ⟨-, entry, hentry, -, body, hbody, hread⟩ :=
    (skipped_write_iff sound_bare clear_shelf hreached List.mem_cons_self "a"
      (.ofBytes "new".toUTF8) none none (Store.honest_of_files rfl _ _) _ hskipped).2 hfree
  refine ⟨_, _, hreached, hskipped, ?_⟩
  cases List.mem_singleton.1 hentry
  rw [Source.content_ofBytes] at hbody
  cases hbody
  exact hread

/-- A directory that a deleted object has left is all that a skipped write has found. -/
theorem skipped_write_leftover :
    (shelf.serve [.write "a/b" (.ofBytes .empty) none, .delete "a/b",
        .write "a" (.ofBytes .empty) none, .contains "a"] bare).1
      =
    [.flag true, .done, .flag false, .flag false] := by
  have hstorable : Storable shelf ["d"] 0 "a/b" :=
    storable_shelf (by decide) (by decide) (by decide)
  have htail : (objectPlace shelf "a/b").tail = objectPlace shelf "a" := by
    rw [rooted_shelf.objectPlace_eq (by decide), rooted_shelf.objectPlace_eq (by decide)]
    decide
  obtain ⟨world', hserve, hsound, hspare, -, hdir, -⟩ := hstorable.serve_leftover rooted_shelf rfl
    sound_bare (spare_bare 0) (open_bare _) (get?_bare_object hstorable)
    (Source.content_ofBytes .empty) none
  rw [htail, hasDirectory_iff] at hdir
  obtain ⟨tree', hwrite, hextends, hstat⟩ := storable_a.write_yields_of_some rooted_shelf hsound
    hspare hdir (Source.content_ofBytes .empty)
  have hwritten : (shelf.write "a" (.ofBytes .empty) none).Yields world' (.ok false)
      (world'.withTree tree') := Store.write_yields hwrite
  obtain ⟨records, hafter⟩ := Answer.after_of_yields .flag hwritten
  have hcontains : (shelf.contains "a").Yields ((world'.withTree tree').withRecords records)
      (.ok false) ((world'.withTree tree').withRecords records) := by
    apply storable_a.contains_yields_of_not_file rooted_shelf rfl hextends.sound
    intro raw hfile
    have hthere := get?_objectPlace hextends.sound hstat
    rw [World.withRecords_tree, World.withTree_tree, hthere] at hfile
    cases hfile
  obtain ⟨records', hafter'⟩ := Answer.after_of_yields .flag hcontains
  have happend := Store.serve_append shelf [.write "a/b" (.ofBytes .empty) none, .delete "a/b"]
    [.write "a" (.ofBytes .empty) none, .contains "a"] bare
  have hrest : (shelf.serve [.write "a" (.ofBytes .empty) none, .contains "a"] world').1
      = [.flag false, .flag false] := by
    simp only [Store.serve, Request.perform]
    rw [hafter]
    simp only
    rw [hafter']
    rfl
  rw [hserve] at happend
  dsimp only at happend
  rw [hrest] at happend
  exact congrArg Prod.fst happend

end Sample

end Session

end Depot
