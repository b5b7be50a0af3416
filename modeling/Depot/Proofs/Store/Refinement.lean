import Depot.Proofs.Store.Flat
import Depot.Proofs.Store.Storable

/-!
This module contains the proof that a store in a directory is a flat map: on clean names of which
none is on the way to another, requests show what they show on a map from names to bodies.
-/

namespace Depot

open Depot.Action Files

namespace Store.Files

open Depot.Files.Tree

variable {store : Store} {outer : List String} {token : Nat} {allowed : String → Prop}
  {name name' : String} {tree tree' grown : Tree} {flat : Flat} {place : Place}
  {raw body : ByteArray}

/--
Whether names can all be files at once: there is room for each, and none is on the way to another.
-/
structure Family (store : Store) (outer : List String) (token : Nat) (allowed : String → Prop) :
    Prop where
  storable : ∀ name, allowed name → Storable store outer token name
  apart : ∀ name name', allowed name → allowed name' →
    parts store name <+: parts store name' → name = name'

/-- Whether the objects of a store are those of a flat map, and nothing else is a file. -/
structure Refines (store : Store) (token : Nat) (allowed : String → Prop) (tree : Tree)
    (flat : Flat) : Prop where
  sound : tree.Sound
  known : ∀ name body, flat.get? name = some body → allowed name
  held : ∀ name body, flat.get? name = some body →
    ∃ raw, tree.get? (objectPlace store name) = some (.file raw) ∧ store.compression.Decodes raw body
  of_file : ∀ place raw, tree.get? place = some (.file raw) →
    ∃ name body, flat.get? name = some body ∧ place = objectPlace store name
  clear : ∀ name, allowed name → tree.hasDirectory (objectPlace store name) = false
  spare : Spare token tree

namespace Family

theorem clean (h : Family store outer token allowed) (hname : allowed name) : Clean store name :=
  (h.storable name hname).clean

theorem not_isPrefix (h : Family store outer token allowed) (hname : allowed name)
    (hname' : allowed name') :
    ¬outer ++ parts store name' <+: (outer ++ parts store name).dropLast := by
  intro hbegins
  have hwhole := hbegins.trans (List.dropLast_prefix _)
  rw [List.prefix_append_right_inj] at hwhole
  have hsame := h.apart name' name hname' hname hwhole
  have hlength := hbegins.length_le
  have hne := parts_ne_nil store name
  rw [hsame, List.length_dropLast, List.length_append] at hlength
  have hpos := List.length_pos_iff.2 hne
  omega

theorem not_onWayTo (h : Family store outer token allowed) (hrooted : Rooted store outer)
    (hname : allowed name) (hname' : allowed name') :
    ¬OnWayTo store name (objectPlace store name') := by
  intro hway
  obtain ⟨front, hfront, hplace⟩ := (h.storable name hname).onWayTo hrooted hway
  rw [hrooted.objectPlace_eq (h.clean hname'), List.reverse_inj] at hplace
  rw [← hplace] at hfront
  exact h.not_isPrefix hname hname' hfront

end Family

namespace Refines

theorem get?_objectPlace (h : Refines store token allowed tree flat)
    (hfamily : Family store outer token allowed) (hrooted : Rooted store outer)
    (hname : allowed name) :
    (∃ body raw, flat.get? name = some body ∧ tree.get? (objectPlace store name) = some (.file raw)
        ∧ store.compression.Decodes raw body)
      ∨ flat.get? name = none ∧ tree.get? (objectPlace store name) = none := by
  cases hbody : flat.get? name with
  | some body =>
    obtain ⟨raw, hfile, hdecodes⟩ := h.held name body hbody
    exact .inl ⟨body, raw, rfl, hfile, hdecodes⟩
  | none =>
    refine .inr ⟨rfl, ?_⟩
    cases hget : tree.get? (objectPlace store name) with
    | none => rfl
    | some node =>
      cases node with
      | file raw =>
        obtain ⟨name', body, hbody', hplace⟩ := h.of_file _ raw hget
        have hclean' := hfamily.clean (h.known name' body hbody')
        rw [hrooted.objectPlace_injective (hfamily.clean hname) hclean' hplace, hbody'] at hbody
        cases hbody
      | directory =>
        have hclear := h.clear name hname
        rw [hasDirectory_iff.2 hget] at hclear
        cases hclear
      | link target => exact absurd hget (h.sound.linkless _ target)

theorem stocked (h : Refines store token allowed tree flat)
    (hfamily : Family store outer token allowed) (hrooted : Rooted store outer) :
    Stocked store flat.keys tree := by
  have hallowed : ∀ name ∈ flat.keys, allowed name := by
    intro name hname
    obtain ⟨body, hbody⟩ := Option.isSome_iff_exists.1 ((flat.mem_keys_iff name).1 hname)
    exact h.known name body hbody
  refine ⟨h.sound, flat.nodup_keys, ?_, ?_, ?_, ?_⟩
  · exact fun name hname => hfamily.clean (hallowed name hname)
  · exact fun name hname => (hfamily.storable name (hallowed name hname)).fits hrooted
  · intro name hname
    obtain ⟨body, hbody⟩ := Option.isSome_iff_exists.1 ((flat.mem_keys_iff name).1 hname)
    obtain ⟨raw, hraw, -⟩ := h.held name body hbody
    exact ⟨raw, hraw⟩
  · intro place raw hfile
    obtain ⟨name, body, hbody, hplace⟩ := h.of_file place raw hfile
    refine ⟨name, (flat.mem_keys_iff name).2 ?_, hplace⟩
    rw [hbody]
    rfl

theorem of_extends (h : Refines store token allowed tree flat)
    (hfamily : Family store outer token allowed) (hrooted : Rooted store outer)
    (hname : allowed name) (hextends : tree.Extends tree' (OnWayTo store name)) :
    Refines store token allowed tree' flat := by
  refine ⟨hextends.sound, h.known, ?_, ?_, ?_, ?_⟩
  · intro name body hbody
    obtain ⟨raw, hfile, hdecodes⟩ := h.held name body hbody
    exact ⟨raw, (hextends.get?_file_iff _ raw).2 hfile, hdecodes⟩
  · intro place raw hfile
    exact h.of_file place raw ((hextends.get?_file_iff _ raw).1 hfile)
  · intro name' hname'
    have hclear := h.clear name' hname'
    cases hget : tree.get? (objectPlace store name') with
    | some node =>
      unfold hasDirectory at hclear ⊢
      rw [hextends.kept _ (by rw [hget]; simp)]
      exact hclear
    | none =>
      by_cases hget' : tree'.get? (objectPlace store name') = none
      · unfold hasDirectory
        rw [hget']
      · exact absurd (hextends.added _ hget hget').2 (hfamily.not_onWayTo hrooted hname hname')
  · exact (hfamily.storable name hname).spare hrooted h.spare hextends

theorem objectPlace_ne (hfamily : Family store outer token allowed) (hrooted : Rooted store outer)
    (hname : allowed name) (hname' : allowed name') (hne : name' ≠ name) :
    objectPlace store name' ≠ objectPlace store name := by
  intro hplace
  exact hne (hrooted.objectPlace_injective (hfamily.clean hname') (hfamily.clean hname)
    hplace)

theorem stored (h : Refines store token allowed grown flat)
    (hfamily : Family store outer token allowed) (hrooted : Rooted store outer)
    (hname : allowed name) (hholds : Holds grown (objectPlace store name) raw tree')
    (hdecodes : store.compression.Decodes raw body) :
    Refines store token allowed tree' (flat.insert name body) := by
  refine ⟨hholds.sound, ?_, ?_, ?_, ?_, ?_⟩
  · intro name' body' hbody'
    by_cases hsame : name' = name
    · rw [hsame]
      exact hname
    · rw [Table.get?_insert_of_ne _ _ hsame] at hbody'
      exact h.known name' body' hbody'
  · intro name' body' hbody'
    by_cases hsame : name' = name
    · rw [hsame, Table.get?_insert_self] at hbody'
      cases hbody'
      rw [hsame]
      exact ⟨raw, hholds.at_eq, hdecodes⟩
    · rw [Table.get?_insert_of_ne _ _ hsame] at hbody'
      have hname' := h.known name' body' hbody'
      rw [hholds.off_eq _ (objectPlace_ne hfamily hrooted hname hname' hsame)]
      exact h.held name' body' hbody'
  · intro place raw' hfile
    by_cases hplace : place = objectPlace store name
    · exact ⟨name, body, Table.get?_insert_self _ _ _, hplace⟩
    · rw [hholds.off_eq place hplace] at hfile
      obtain ⟨name', body', hbody', rfl⟩ := h.of_file place raw' hfile
      refine ⟨name', body', ?_, rfl⟩
      rw [Table.get?_insert_of_ne]
      · exact hbody'
      · rintro rfl
        exact hplace rfl
  · -- A file has come, which is no directory.
    intro name' hname'
    rw [hholds.hasDirectory_eq (h.clear name hname)]
    exact h.clear name' hname'
  · exact (hfamily.storable name hname).spare_of_holds hrooted h.spare hholds

theorem erased (h : Refines store token allowed tree flat)
    (hfamily : Family store outer token allowed) (hrooted : Rooted store outer)
    (hname : allowed name) :
    Refines store token allowed (tree.erase (objectPlace store name)) (flat.erase name) := by
  have hne := (hfamily.storable name hname).objectPlace_ne_nil hrooted
  refine ⟨h.sound.erase hne (h.clear name hname), ?_, ?_, ?_, ?_, ?_⟩
  · intro name' body hbody
    by_cases hsame : name' = name
    · rw [hsame, Table.get?_erase_self] at hbody
      cases hbody
    · rw [Table.get?_erase_of_ne _ hsame] at hbody
      exact h.known name' body hbody
  · intro name' body hbody
    by_cases hsame : name' = name
    · rw [hsame, Table.get?_erase_self] at hbody
      cases hbody
    · rw [Table.get?_erase_of_ne _ hsame] at hbody
      have hname' := h.known name' body hbody
      rw [get?_erase_of_ne _ (objectPlace_ne hfamily hrooted hname hname' hsame)]
      exact h.held name' body hbody
  · intro place raw hfile
    by_cases hplace : place = objectPlace store name
    · rw [hplace, get?_erase_self _ hne] at hfile
      cases hfile
    · rw [get?_erase_of_ne _ hplace] at hfile
      obtain ⟨name', body, hbody, rfl⟩ := h.of_file place raw hfile
      refine ⟨name', body, ?_, rfl⟩
      rw [Table.get?_erase_of_ne]
      · exact hbody
      · rintro rfl
        exact hplace rfl
  · intro name' hname'
    by_cases hplace : objectPlace store name' = objectPlace store name
    · unfold hasDirectory
      rw [hplace, get?_erase_self _ hne]
    · have hclear := h.clear name' hname'
      unfold hasDirectory at hclear ⊢
      rw [get?_erase_of_ne _ hplace]
      exact hclear
  · exact h.spare.erase hne

theorem open_object (h : Refines store token allowed tree flat)
    (hfamily : Family store outer token allowed) (hrooted : Rooted store outer)
    (hname : allowed name) : tree.Open [] (outer ++ parts store name).dropLast := by
  intro front hfront raw hfile
  rw [List.append_nil] at hfile
  obtain ⟨name', body, hbody, hplace⟩ := h.of_file _ raw hfile
  have hname' := h.known name' body hbody
  rw [hrooted.objectPlace_eq (hfamily.clean hname'), List.reverse_inj] at hplace
  rw [hplace] at hfront
  exact hfamily.not_isPrefix hname hname' hfront

end Refines

end Store.Files

open Store.Files Depot.Files.Tree

variable {store : Store} {outer : List String} {token : Nat} {allowed : String → Prop}
  {name : String} {world world' : World} {flat flat' : Flat} {request : Request}

def Request.Asks (store : Store) (allowed : String → Prop) : Request → Prop
  | .write name _ _ | .read name | .contains name | .delete name => allowed name
  | .list under _ _ | .walk under _ | .walkFrom under _ _ => Scannable (store.query under)

def Matches (store : Store) (token : Nat) (allowed : String → Prop) (shown : Answer × World)
    (shown' : Answer × Flat) : Prop :=
  shown.1 = shown'.1 ∧ Refines store token allowed shown.2.tree shown'.2

theorem matches_of_yields {α : Type} {act : Action α} {render : α → Answer}
    {result : Except Failure α} {answer : Answer} (hyields : act.Yields world result world')
    (hanswer : Answer.of render result = answer)
    (hrefines : Refines store token allowed world'.tree flat) :
    Matches store token allowed (Answer.after render act world) (answer, flat) := by
  obtain ⟨records, hafter⟩ := Answer.after_of_yields render hyields
  rw [hafter]
  exact ⟨hanswer, hrefines⟩

section Steps

variable (hbackend : store.backend = .files) (hfamily : Family store outer token allowed)
  (hrooted : Rooted store outer) (h : Refines store token allowed world.tree flat)

include hfamily hrooted h

theorem stat_of_present (hname : allowed name) {raw : ByteArray}
    (hfile : world.tree.get? (objectPlace store name) = some (.file raw)) :
    world.tree.stat (objectPathname store name) = .ok (.file raw) :=
  (stat_objectPathname_iff h.sound).2 ⟨(hfamily.storable name hname).fits hrooted, hfile⟩

theorem content_of_obstacle (hname : allowed name) {source : Source} {replaces : Bool}
    {tree' : Tree} {failure : Failure}
    (hextends : world.tree.Extends tree' (OnWayTo store name))
    (hwhy : Obstacle store name source replaces world.tree tree' failure) :
    source.content = .error failure := by
  rcases (hfamily.storable name hname).obstacle_cases hrooted h.sound h.spare
    (h.open_object hfamily hrooted hname) hwhy with hcontent | ⟨-, hstat⟩
  · exact hcontent
  · have hclear := (h.of_extends hfamily hrooted hname hextends).clear name hname
    have hdir := hasDirectory_iff.2 (get?_objectPlace hextends.sound hstat)
    rw [hclear] at hdir
    cases hdir

include hbackend

theorem write_matches (hname : allowed name) (source : Source) (overwrite : Option Bool) :
    Matches store token allowed (Request.perform store (.write name source overwrite) world)
      (flat.perform store (.write name source overwrite)) := by
  obtain ⟨result, tree', hwrite, hwrote⟩ :=
    Store.Files.write_cases h.sound store name source (store.mayReplace overwrite)
  have hyields := Store.write_yields_of_files hbackend hwrite
  change Matches store token allowed (Answer.after .flag (store.write name source overwrite) world) _
  unfold Flat.perform
  dsimp only
  cases hwrote with
  | failed failure _ hextends hwhy =>
    rw [content_of_obstacle hfamily hrooted h hname hextends hwhy]
    exact matches_of_yields hyields rfl (h.of_extends hfamily hrooted hname hextends)
  | skipped body _ node hcontent hextends hwithin hkeeps hstat =>
    have hrefines := h.of_extends hfamily hrooted hname hextends
    have hget := get?_objectPlace hextends.sound hstat
    -- What was found is no directory, so the map has the name.
    have hthere : (flat.get? name).isSome = true := by
      rcases hrefines.get?_objectPlace hfamily hrooted hname with ⟨body', raw, hbody, -⟩ | ⟨-, hnone⟩
      · rw [hbody]
        rfl
      · rw [hget] at hnone
        cases hnone
    rw [hcontent, hkeeps, hthere]
    exact matches_of_yields hyields rfl hrefines
  | stored body grown _ hextends hwithin hcontent hfile hnew hholds hstat =>
    have hgrown := h.of_extends hfamily hrooted hname hextends
    have hmay : (!store.mayReplace overwrite && (flat.get? name).isSome) = false := by
      cases hreplaces : store.mayReplace overwrite with
      | true => rfl
      | false =>
        rcases hgrown.get?_objectPlace hfamily hrooted hname with
          ⟨body', raw, hbody, hthere, -⟩ | ⟨hnone, -⟩
        · rw [hnew hreplaces] at hthere
          cases hthere
        · rw [hnone]
          rfl
    rw [hcontent]
    dsimp only
    rw [hmay, if_neg Bool.false_ne_true]
    exact matches_of_yields hyields rfl
      (hgrown.stored hfamily hrooted hname hholds (Store.decodes_raw hcontent))

theorem read_matches (hname : allowed name) :
    Matches store token allowed (Request.perform store (.read name) world)
      (flat.perform store (.read name)) := by
  have hwithin := hrooted.within (hfamily.clean hname) world.tree
  change Matches store token allowed (Answer.after .body (store.readBytes name) world) _
  unfold Flat.perform
  dsimp only
  rcases h.get?_objectPlace hfamily hrooted hname with ⟨body, raw, hbody, hfile, hdecodes⟩ | ⟨hnone, habsent⟩
  · have hopen :=
      openRaw_yields_of_stat h.sound hwithin (stat_of_present hfamily hrooted h hname hfile)
    have hread := Store.readBytes_yields_of_ok (Store.openRaw_yields_of_files hbackend hopen)
    rw [Reader.decoded_of_decodes hdecodes] at hread
    rw [hbody]
    exact matches_of_yields hread rfl h
  · obtain ⟨cause, hopen⟩ := openRaw_yields_of_not_file h.sound hwithin
      ((hfamily.storable name hname).fits hrooted) (by simp [habsent])
    have hread := Store.readBytes_yields_of_error (Store.openRaw_yields_of_files hbackend hopen)
    rw [hnone]
    exact matches_of_yields hread (Answer.of_notFound _ store name cause) h

theorem contains_matches (hname : allowed name) :
    Matches store token allowed (Request.perform store (.contains name) world)
      (flat.perform store (.contains name)) := by
  have hwithin := hrooted.within (hfamily.clean hname) world.tree
  have hexists : existence world.tree (objectPathname store name) = .ok (flat.get? name).isSome := by
    rcases h.get?_objectPlace hfamily hrooted hname with ⟨body, raw, hbody, hfile, -⟩ | ⟨hnone, habsent⟩
    · unfold existence
      rw [stat_of_present hfamily hrooted h hname hfile, hbody]
      rfl
    · rw [hnone]
      exact existence_of_not_file h.sound ((hfamily.storable name hname).fits hrooted)
        (by simp [habsent])
  have hcontains : (store.contains name).Yields world (.ok (flat.get? name).isSome) world := by
    apply Store.contains_yields_of_files hbackend
    rw [← hexists]
    exact contains_yields_of_within h.sound hwithin
  exact matches_of_yields hcontains rfl h

theorem delete_matches (hname : allowed name) :
    Matches store token allowed (Request.perform store (.delete name) world)
      (flat.perform store (.delete name)) := by
  have hwithin := hrooted.within (hfamily.clean hname) world.tree
  change Matches store token allowed
    (Answer.after (fun _ => .done) (store.delete name) world) _
  unfold Flat.perform
  dsimp only
  rcases h.get?_objectPlace hfamily hrooted hname with ⟨body, raw, hbody, hfile, -⟩ | ⟨hnone, habsent⟩
  · rw [hbody, Option.isSome_some, if_pos rfl]
    have hstat := stat_of_present hfamily hrooted h hname hfile
    have hdelete := delete_yields_of_stat h.sound hwithin hstat
    exact matches_of_yields (Store.delete_yields_of_files hbackend hdelete) rfl
      (h.erased hfamily hrooted hname)
  · obtain ⟨cause, hfails⟩ := delete_yields_of_not_file h.sound hwithin
      ((hfamily.storable name hname).fits hrooted) (by simp [habsent])
    rw [hnone, if_neg (by simp)]
    exact matches_of_yields (Store.delete_yields_of_files hbackend hfails)
      (Answer.of_notFound _ store name cause) h

theorem list_matches {under : String} (hquery : Scannable (store.query under)) (limit : Int)
    (told : Option String) :
    Matches store token allowed (Request.perform store (.list under limit told) world)
      (flat.perform store (.list under limit told)) := by
  have hlisted := Flat.listed_eq hbackend hrooted (h.stocked hfamily hrooted) hquery limit
  apply matches_of_yields (Store.list_yields store under limit told world) ?_ h
  rw [hlisted]
  rfl

theorem walkFrom_matches {under : String} (hquery : Scannable (store.query under)) (start : String)
    (visitor : Visitor) :
    Matches store token allowed (Request.perform store (.walkFrom under start visitor) world)
      (flat.perform store (.walkFrom under start visitor)) := by
  have htold := Flat.told_walkOf hbackend hrooted (h.stocked hfamily hrooted) hquery start visitor
  apply matches_of_yields (Store.walkFrom_yields store under start visitor world) ?_ h
  exact Walk.ofWalk_eq_of_told htold

theorem perform_matches (hasks : request.Asks store allowed) :
    Matches store token allowed (request.perform store world) (flat.perform store request) := by
  cases request with
  | write name source overwrite =>
    exact write_matches hbackend hfamily hrooted h hasks source overwrite
  | read name => exact read_matches hbackend hfamily hrooted h hasks
  | contains name => exact contains_matches hbackend hfamily hrooted h hasks
  | delete name => exact delete_matches hbackend hfamily hrooted h hasks
  | list under limit told => exact list_matches hbackend hfamily hrooted h hasks limit told
  | walk under visitor => exact walkFrom_matches hbackend hfamily hrooted h hasks "" visitor
  | walkFrom under start visitor =>
    exact walkFrom_matches hbackend hfamily hrooted h hasks start visitor

end Steps

theorem serve_eq_of_refines (hbackend : store.backend = .files)
    (hfamily : Family store outer token allowed) (hrooted : Rooted store outer)
    (requests : List Request) (hasks : ∀ request ∈ requests, request.Asks store allowed)
    (h : Refines store token allowed world.tree flat) :
    (store.serve requests world).1 = (flat.serve store requests).1
      ∧ Refines store token allowed (store.serve requests world).2.tree
          (flat.serve store requests).2 := by
  -- The relation is kept by every request.
  induction requests generalizing world flat with
  | nil => exact ⟨rfl, h⟩
  | cons request requests ih =>
    rw [List.forall_mem_cons] at hasks
    obtain ⟨hanswer, hrefines⟩ := perform_matches hbackend hfamily hrooted h hasks.1
    obtain ⟨hanswers, hrest⟩ := ih hasks.2 hrefines
    refine ⟨?_, hrest⟩
    simp only [Store.serve, Flat.serve]
    rw [hanswer, hanswers]

namespace Store.Files

structure Vacant (store : Store) (token : Nat) (allowed : String → Prop) (tree : Tree) : Prop where
  sound : tree.Sound
  fileless : ∀ place raw, tree.get? place ≠ some (.file raw)
  clear : ∀ name, allowed name → tree.hasDirectory (objectPlace store name) = false
  spare : Spare token tree

theorem Vacant.refines {tree : Tree} (h : Vacant store token allowed tree) :
    Refines store token allowed tree .empty := by
  refine ⟨h.sound, ?_, ?_, ?_, h.clear, h.spare⟩
  · intro name body hbody
    cases hbody
  · intro name body hbody
    cases hbody
  · intro place raw hfile
    exact absurd hfile (h.fileless place raw)

end Store.Files

/--
A store in a directory is a flat map. Started where there are no files, it shows for every sequence
of requests about names that can all be files at once what a map from names to bodies shows.
-/
theorem Store.serve_eq_flat (hbackend : store.backend = .files) (hrooted : Rooted store outer)
    (hfamily : Family store outer token allowed) (hvacant : Vacant store token allowed world.tree)
    (requests : List Request) (hasks : ∀ request ∈ requests, request.Asks store allowed) :
    (store.serve requests world).1 = (Flat.serve store .empty requests).1 :=
  (serve_eq_of_refines hbackend hfamily hrooted requests hasks hvacant.refines).1

theorem Store.serve_eq_flat_sample :
    (shelf.serve [.write "a" (.ofBytes "old".toUTF8) none, .write "a" (.ofBytes "new".toUTF8) none,
        .read "a", .walkFrom "" "" {}, .delete "a", .contains "a"] bare).1
      =
    [.flag true, .flag false, .body "old".toUTF8, .walked ["a"] (.ok 1), .done, .flag false] := by
  have hfamily : Family shelf ["d"] 0 (· = "a") := by
    refine ⟨?_, ?_⟩
    · rintro name rfl
      exact storable_a
    · rintro name name' rfl rfl -
      rfl
  have hvacant : Vacant shelf 0 (· = "a") bare.tree := by
    refine ⟨sound_bare, fileless_bare, ?_, spare_bare 0⟩
    · rintro name rfl
      have hplace : objectPlace shelf "a" = ["a", "d"] := by
        rw [rooted_shelf.objectPlace_eq (by decide)]
        decide
      rw [hplace]
      rfl
  have hroot : Scannable (shelf.query "") :=
    scannable_query rooted_shelf (List.forall_mem_nil _) (.inl rfl) (by decide)
  have hunder : Flat.under shelf (Table.empty.insert "a" "old".toUTF8) (shelf.query "") = ["a"] :=
    List.mergeSort_singleton "a"
  have hwalk : Answer.ofWalk (Flat.walk shelf (Table.empty.insert "a" "old".toUTF8) "" "" {})
      = .walked ["a"] (.ok 1) := by
    unfold Flat.walk Flat.from?
    dsimp only
    rw [hunder]
    rfl
  rw [Store.serve_eq_flat rfl rooted_shelf hfamily hvacant]
  · simp only [Flat.serve, Flat.perform, Source.content_ofBytes]
    rw [← hwalk]
    rfl
  · intro request hrequest
    simp only [List.mem_cons, List.not_mem_nil, or_false] at hrequest
    rcases hrequest with rfl | rfl | rfl | rfl | rfl | rfl
    · rfl
    · rfl
    · rfl
    · exact hroot
    · rfl
    · rfl

namespace Store.Files

def letters (n : Nat) : String :=
  String.ofList (List.replicate n 'a')

theorem toList_letters (n : Nat) : (letters n).toList = List.replicate n 'a' :=
  String.toList_ofList

theorem utf8ByteSize_letters (n : Nat) : (letters n).utf8ByteSize = n := by
  have hletter : 'a'.utf8Size = 1 := by decide
  induction n with
  | zero => rfl
  | succ n ih =>
    unfold letters at ih ⊢
    rw [List.replicate_succ, String.ofList_cons, String.utf8ByteSize_append, ih,
      String.utf8ByteSize_singleton, hletter, Nat.add_comm]

theorem plain_letters (n : Nat) : Path.Plain (letters (n + 3)).toList := by
  rw [toList_letters]
  refine ⟨by simp, ?_, ?_, by simp [List.mem_replicate]⟩
  · simp [Path.here, List.replicate_succ]
  · simp [Path.up, List.replicate_succ]

theorem zeroless_letters (n : Nat) : '\x00' ∉ (letters n).toList := by
  rw [toList_letters]
  intro hzero
  exact absurd (List.eq_of_mem_replicate hzero) (by decide)

theorem isTooLong_letters (n : Nat) : isTooLong (letters n) = decide (255 < n) := by
  unfold isTooLong
  rw [utf8ByteSize_letters]
  rfl

def deepName : String :=
  "/".intercalate (List.replicate 20 (letters 208))

theorem proper_letters : Proper (letters 208) :=
  ⟨plain_letters 205, zeroless_letters 208, isTooLong_letters 208⟩

theorem parts_deepName : parts shelf deepName = List.replicate 20 (letters 208) := by
  have hplain := plain_of_proper fun part (hpart : part ∈ List.replicate 20 (letters 208)) =>
    List.eq_of_mem_replicate hpart ▸ proper_letters
  have htext : shelf.naming.withExtension deepName = deepName := String.append_empty
  unfold parts
  rw [htext]
  unfold deepName
  rw [Text.toList_intercalate, Text.splitOn_joinWith (by simp) fun c hc => (hplain c hc).slashless,
    ofList_toList_map]

theorem clean_deepName : Clean shelf deepName := by
  have hlast : (parts shelf deepName).getLastD "" = letters 208 := by
    rw [parts_deepName]
    rfl
  refine ⟨?_, ?_, ?_⟩
  · rw [parts_deepName]
    exact fun part hpart => List.eq_of_mem_replicate hpart ▸ proper_letters
  · rw [hlast, utf8ByteSize_letters]
    decide
  · rw [hlast]
    unfold isStaging Text.startsWith
    rw [toList_letters]
    rfl

theorem pathTooLong_deepName : pathTooLong (objectPathname shelf deepName) = true := by
  have hwidth := Pathname.width_replicate (letters 208) 19
  simp only [utf8ByteSize_letters, Nat.reduceAdd] at hwidth
  have hne : List.replicate 20 (letters 208) ≠ [] := List.cons_ne_nil _ _
  have hmore := Pathname.width_append (List.cons_ne_nil "d" []) hne
  apply decide_eq_true
  rw [Pathname.utf8ByteSize_render, rooted_shelf.names_objectPathname clean_deepName,
    parts_deepName, hmore]
  unfold maxPathname
  omega

theorem write_deepName :
    ∃ failure, (shelf.serve [.write deepName (.ofBytes .empty) none] bare).1
      = [Answer.of .flag (.error failure)] := by
  obtain ⟨failure, tree', hwrite⟩ := write_fails_of_tooLong sound_bare pathTooLong_deepName
    (.ofBytes .empty) (shelf.mayReplace none)
  have hyields : (shelf.write deepName (.ofBytes .empty) none).Yields bare (.error failure)
      (bare.withTree tree') := Store.write_yields hwrite
  obtain ⟨records, hafter⟩ := Answer.after_of_yields .flag hyields
  refine ⟨failure, ?_⟩
  simp only [Store.serve, Request.perform]
  rw [hafter]

def crowded : World :=
  { tree := (bare.tree.insert ["d"] .directory).insert ["a", "d"] .directory }

theorem sound_crowded : crowded.tree.Sound := by
  have houter : (bare.tree.insert ["d"] .directory).Sound :=
    sound_bare.insert rfl (by simp) (.inl rfl)
  exact houter.insert (by decide) (by simp) (.inl rfl)

theorem get?_crowded {place : Place} (h : crowded.tree.get? place ≠ none) :
    crowded.tree.get? place = some .directory ∧ place ∈ [[], ["d"], ["a", "d"]] := by
  by_cases hinner : place = ["a", "d"]
  · rw [hinner]
    exact ⟨rfl, by simp⟩
  · by_cases houter : place = ["d"]
    · rw [houter]
      exact ⟨rfl, by simp⟩
    · by_cases hroot : place = []
      · rw [hroot]
        exact ⟨rfl, by simp⟩
      · unfold crowded at h
        rw [get?_insert_of_ne _ _ hinner, get?_insert_of_ne _ _ houter, get?_bare,
          if_neg hroot] at h
        exact absurd rfl h

theorem fileless_crowded (place : Place) (raw : ByteArray) :
    crowded.tree.get? place ≠ some (.file raw) := by
  intro hfile
  have hthere := (get?_crowded (by rw [hfile]; simp)).1
  rw [hfile] at hthere
  cases hthere

theorem spare_crowded : Spare 0 crowded.tree := by
  intro part directory hsome
  have hmem := (get?_crowded hsome).2
  simp only [List.mem_cons, List.cons.injEq, reduceCtorEq, List.not_mem_nil, or_false,
    false_or] at hmem
  rcases hmem with ⟨rfl, -⟩ | ⟨rfl, -⟩
  · exact unused_of_not_staging (by decide) 0
  · exact unused_of_not_staging (by decide) 0

theorem write_crowded :
    (shelf.serve [.write "a" (.ofBytes .empty) none] crowded).1 = [.flag false] := by
  have hdir : crowded.tree.get? (objectPlace shelf "a") = some .directory := by
    rw [← hasDirectory_iff, rooted_shelf.objectPlace_eq (by decide)]
    decide
  obtain ⟨tree', hwrite, -⟩ := storable_a.write_yields_of_some rooted_shelf sound_crowded
    spare_crowded hdir (Source.content_ofBytes .empty)
  have hyields : (shelf.write "a" (.ofBytes .empty) none).Yields crowded (.ok false)
      (crowded.withTree tree') := Store.write_yields hwrite
  obtain ⟨records, hafter⟩ := Answer.after_of_yields .flag hyields
  simp only [Store.serve, Request.perform]
  rw [hafter]
  rfl

theorem isDirectory_crowded {key : String} (hnames : (keyPath key).names = ["d", letters 256]) :
    crowded.tree.isDirectory (keyPath key) = .error .nameTooLong := by
  have hdots : isDots (letters 256) = false := isDots_eq_of_plain (plain_letters 253)
  have hletters : isTooLong (letters 256) = true := by
    rw [isTooLong_letters]
    rfl
  apply isDirectory_of_overlong sound_crowded (startOf_of_ne_current _ (start_keyPath key))
  · rw [hnames]
    exact List.forall_mem_cons.2 ⟨by decide, List.forall_mem_singleton.2 hdots⟩
  · right
    rw [hnames]
    exact ⟨["d"], letters 256, [], rfl, by decide, hletters⟩

theorem listing_eq_of_error {store : Store} {world : World} {under : String}
    {code : SystemErrorCode} (hbackend : store.backend = .files)
    (hzero : (keyPath (scanned (store.query under))).holdsZero = false)
    (h : world.tree.isDirectory (keyPath (scanned (store.query under))) = .error code)
    (offset : Option String) :
    store.listing world (store.query under) offset
      =
    [.failed (.ofSystem (errorAt (keyPath (scanned (store.query under))) code))] := by
  unfold Store.listing
  rw [hbackend]
  exact listing_of_error hzero h

theorem listing_crowded :
    ∃ failure, ∀ offset,
      shelf.listing crowded (shelf.query (letters 256 ++ "/")) offset = [.failed failure] := by
  have hplain : ∀ part ∈ [letters 256], Path.Plain part.toList := by
    intro part hpart
    rw [List.mem_singleton] at hpart
    rw [hpart]
    exact plain_letters 253
  have hquery : shelf.query (letters 256 ++ "/") = "/".intercalate ["d", letters 256] ++ "/" := by
    have hslash := query_slash rooted_shelf hplain (by simp)
    rw [String.intercalate_singleton] at hslash
    exact hslash
  have hnames : (keyPath (scanned (shelf.query (letters 256 ++ "/")))).names
      = ["d", letters 256] := by
    rw [hquery]
    apply names_scanned_slash (by simp)
    exact List.forall_mem_cons.2 ⟨by decide, hplain⟩
  have hzero : (keyPath (scanned (shelf.query (letters 256 ++ "/")))).holdsZero = false := by
    apply holdsZero_eq_false
    rw [hnames]
    exact List.forall_mem_cons.2 ⟨by decide, List.forall_mem_singleton.2 (zeroless_letters 256)⟩
  exact ⟨_, listing_eq_of_error rfl hzero (isDirectory_crowded hnames)⟩

theorem walkOf_crowded :
    ∃ failure, ∀ visitor, shelf.walkOf crowded (letters 256 ++ "/") "" visitor
      = (Walk.ending (.failed failure)).afterPull := by
  obtain ⟨failure, hlisting⟩ := listing_crowded
  refine ⟨failure, ?_⟩
  intro visitor
  unfold Store.walkOf
  dsimp only
  rw [hlisting]
  rfl

theorem walk_crowded :
    ∃ failure, (shelf.serve [.walkFrom (letters 256 ++ "/") "" {}] crowded).1
      = [.walked [] (.error failure)] := by
  obtain ⟨failure, hwalk⟩ := walkOf_crowded
  obtain ⟨records, hafter⟩ := Answer.after_of_yields Answer.ofWalk
    (Store.walkFrom_yields shelf (letters 256 ++ "/") "" {} crowded)
  refine ⟨failure, ?_⟩
  simp only [Store.serve, Request.perform]
  rw [hafter, hwalk]
  rfl

end Store.Files

/--
What holds of names that can all be files at once does not hold of all clean names, not in all trees
without files, and not of all walks: a pathname may be too long, a directory may be in the place of
an object, and a walk may be below a component that is too long.
-/
theorem Store.serve_ne_flat :
    Rooted shelf ["d"]
      ∧ (bare.tree.Sound ∧ (∀ place raw, bare.tree.get? place ≠ some (.file raw))
        ∧ Clean shelf deepName
        ∧ (shelf.serve [.write deepName (.ofBytes .empty) none] bare).1
          ≠ (Flat.serve shelf .empty [.write deepName (.ofBytes .empty) none]).1)
      ∧ (crowded.tree.Sound ∧ (∀ place raw, crowded.tree.get? place ≠ some (.file raw))
        ∧ Clean shelf "a"
        ∧ (shelf.serve [.write "a" (.ofBytes .empty) none] crowded).1
          ≠ (Flat.serve shelf .empty [.write "a" (.ofBytes .empty) none]).1
        ∧ (shelf.serve [.walkFrom (letters 256 ++ "/") "" {}] crowded).1
          ≠ (Flat.serve shelf .empty [.walkFrom (letters 256 ++ "/") "" {}]).1) := by
  have hwritten : ∀ name, (Flat.serve shelf .empty [.write name (.ofBytes .empty) none]).1
      = [.flag true] := by
    intro name
    simp only [Flat.serve, Flat.perform, Source.content_ofBytes]
    rfl
  have hwalked : ∀ under, (Flat.serve shelf .empty [.walkFrom under "" {}]).1
      = [.walked [] (.ok 0)] := by
    intro under
    have hnone : Flat.under shelf .empty (shelf.query under) = [] := List.mergeSort_nil
    simp only [Flat.serve, Flat.perform, Flat.walk, Flat.from?]
    rw [hnone]
    rfl
  refine ⟨rooted_shelf, ⟨sound_bare, fileless_bare, clean_deepName, ?_⟩,
    ⟨sound_crowded, fileless_crowded, by decide, ?_, ?_⟩⟩
  · obtain ⟨failure, hfails⟩ := write_deepName
    rw [hfails, hwritten]
    unfold Answer.of
    dsimp only
    split <;> simp
  · rw [write_crowded, hwritten]
    simp
  · obtain ⟨failure, hfails⟩ := walk_crowded
    rw [hfails, hwalked]
    simp

end Depot
