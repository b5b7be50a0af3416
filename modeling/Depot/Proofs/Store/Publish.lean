import Depot.Proofs.Store.Files

/-!
This module contains the theory of writing a file next to its place and publishing it there: what a
write gives, and that it leaves nothing but what it stores and the directories on the way.
-/

namespace Depot

open Depot.Action Files

namespace Files.Tree

variable {tree tree' : Tree} {directory place : Place} {name : String} {names : List String}
  {start : Start} {bytes bytes' : ByteArray}

structure Same (tree tree' : Tree) : Prop where
  current_eq : tree'.current = tree.current
  get?_eq : ∀ place, tree'.get? place = tree.get? place

namespace Same

theorem hasDirectory_eq (h : Same tree tree') (place : Place) :
    tree'.hasDirectory place = tree.hasDirectory place := by
  unfold hasDirectory
  rw [h.get?_eq]

theorem leads (h : Same tree tree') (hleads : tree.Leads start names directory) :
    tree'.Leads start names directory :=
  hleads.keeps (.of_get?_eq h.get?_eq) h.current_eq

theorem sound (h : Same tree tree') (hsound : tree.Sound) : tree'.Sound := by
  constructor
  · intro place target
    rw [h.get?_eq]
    exact hsound.linkless place target
  · intro name place hsome
    rw [h.get?_eq] at hsome ⊢
    exact hsound.closed name place hsome

end Same

theorem Grows.of_same {tree'' : Tree} (h : tree.Grows tree') (hsame : Same tree' tree'') :
    tree.Grows tree'' := by
  refine ⟨hsame.current_eq.trans h.current_eq, ?_, ?_⟩
  · intro place hsome
    rw [hsame.get?_eq, h.kept place hsome]
  · intro place hnone hsome
    rw [hsame.get?_eq] at hsome ⊢
    exact h.added place hnone hsome

theorem Extends.of_same {tree'' : Tree} {new : Place → Prop} (h : tree.Extends tree' new)
    (hsame : Same tree' tree'') : tree.Extends tree'' new := by
  have hgrows := h.grows.of_same hsame
  refine ⟨hsame.sound h.sound, hgrows.current_eq, hgrows.kept, ?_⟩
  intro place hnone hsome
  rw [hsame.get?_eq] at hsome ⊢
  exact h.added place hnone hsome

structure Gains (tree : Tree) (place : Place) (bytes : ByteArray) (tree' : Tree) : Prop where
  current_eq : tree'.current = tree.current
  at_eq : tree'.get? place = some (.file bytes)
  off_eq : ∀ other, other ≠ place → tree'.get? other = tree.get? other

namespace Gains

theorem insert (tree : Tree) (hne : place ≠ []) (bytes : ByteArray) :
    Gains tree place bytes (tree.insert place (.file bytes)) :=
  ⟨rfl, get?_insert_self _ _ hne, fun _ hother => get?_insert_of_ne _ _ hother⟩

theorem trans {tree'' : Tree} (h : Gains tree place bytes tree')
    (h' : Gains tree' place bytes' tree'') : Gains tree place bytes' tree'' := by
  refine ⟨h'.current_eq.trans h.current_eq, h'.at_eq, ?_⟩
  intro other hother
  rw [h'.off_eq other hother, h.off_eq other hother]

theorem hasDirectory_eq (h : Gains tree place bytes tree')
    (hfree : tree.hasDirectory place = false) (other : Place) :
    tree'.hasDirectory other = tree.hasDirectory other := by
  by_cases hother : other = place
  · rw [hother, hfree]
    unfold hasDirectory
    rw [h.at_eq]
  · unfold hasDirectory
    rw [h.off_eq other hother]

theorem keeps (h : Gains tree place bytes tree') (hfree : tree.hasDirectory place = false)
    (hlink : ∀ target, tree.get? place ≠ some (.link target)) : tree.Keeps tree' := by
  intro other node hnode hget
  have hother : other ≠ place := by
    rintro rfl
    cases node with
    | file bytes => exact hnode bytes rfl
    | link target => exact hlink target hget
    | directory =>
      rw [hasDirectory_iff.2 hget] at hfree
      cases hfree
  rw [h.off_eq other hother, hget]

theorem erase (h : Gains tree place bytes tree') (hne : place ≠ [])
    (hnone : tree.get? place = none) : Same tree (tree'.erase place) := by
  refine ⟨h.current_eq, ?_⟩
  intro other
  by_cases hother : other = place
  · rw [hother, get?_erase_self _ hne, hnone]
  · rw [get?_erase_of_ne _ hother, h.off_eq other hother]

theorem of_same {tree'' : Tree} (h : Same tree tree') (h' : Gains tree' place bytes tree'') :
    Gains tree place bytes tree'' := by
  refine ⟨h'.current_eq.trans h.current_eq, h'.at_eq, ?_⟩
  intro other hother
  rw [h'.off_eq other hother, h.get?_eq]

theorem erase_of_ne {tree'' : Tree} {place' : Place} (h : Gains tree place bytes tree')
    (hne : place ≠ []) (hnone : tree.get? place = none) (h' : Gains tree' place' bytes' tree'')
    (hplace : place' ≠ place) : Gains tree place' bytes' (tree''.erase place) := by
  refine ⟨h'.current_eq.trans h.current_eq, ?_, ?_⟩
  · rw [get?_erase_of_ne _ hplace, h'.at_eq]
  · intro other hother
    by_cases hsame : other = place
    · rw [hsame, get?_erase_self _ hne, hnone]
    · rw [get?_erase_of_ne _ hsame, h'.off_eq other hother, h.off_eq other hsame]

end Gains

structure Holds (tree : Tree) (place : Place) (bytes : ByteArray) (tree' : Tree) : Prop
    extends Gains tree place bytes tree' where
  sound : tree'.Sound

theorem Gains.holds (h : Gains tree (name :: directory) bytes tree') (hsound : tree.Sound)
    (hdir : tree.hasDirectory directory = true)
    (hfree : tree.hasDirectory (name :: directory) = false) :
    Holds tree (name :: directory) bytes tree' := by
  have hinsert : (tree.insert (name :: directory) (.file bytes)).Sound :=
    hsound.insert hdir (by simp) (.inr hfree)
  have hsame : Same (tree.insert (name :: directory) (.file bytes)) tree' := by
    refine ⟨h.current_eq, fun other => ?_⟩
    by_cases hother : other = name :: directory
    · rw [hother, h.at_eq, get?_insert_self _ _ (by simp)]
    · rw [h.off_eq other hother, get?_insert_of_ne _ _ hother]
  exact ⟨h, hsame.sound hinsert⟩

theorem Holds.leads (hsound : tree.Sound) (h : Holds tree place bytes tree')
    (hfree : tree.hasDirectory place = false) (hleads : tree.Leads start names directory) :
    tree'.Leads start names directory :=
  hleads.keeps (h.keeps hfree (hsound.linkless place)) h.current_eq

end Files.Tree

namespace Store.Files

open Depot.Files.Tree

variable {store : Store} {name : String} {source : Source} {overwrite : Bool} {world : World}
  {tree tree' : Tree} {failure : Failure} {target : Pathname} {directory : Place}
  {staging : String} {body raw : ByteArray}

def beside (target : Pathname) (staging : String) : Pathname :=
  target.parent.child staging

section Publish

variable {p : Pathname} {code : SystemErrorCode}

theorem publish_yields_of_rename (h : world.tree.rename p target = .ok tree') :
    (publish p target true).Yields world (.ok ()) (world.withTree tree') := by
  unfold publish
  rw [if_pos rfl]
  apply change_yields_of_ok
  exact h

theorem publish_yields_of_rename_error (h : world.tree.rename p target = .error code) :
    (publish p target true).Yields world (.error (.ofSystem (errorBetween p target code))) world := by
  unfold publish
  rw [if_pos rfl]
  apply change_yields_of_error
  exact h

theorem publish_yields_of_link (h : world.tree.hardLink p target = .ok tree') :
    (publish p target false).Yields world (.ok ()) (world.withTree tree') := by
  unfold publish
  rw [if_neg Bool.false_ne_true]
  apply change_yields_of_ok
  exact h

theorem publish_yields_of_link_error (h : world.tree.hardLink p target = .error code) :
    (publish p target false).Yields world (.error (.ofSystem (errorBetween p target code)))
      world := by
  unfold publish
  rw [if_neg Bool.false_ne_true]
  apply change_yields_of_error
  exact h

end Publish

/-- A place for a staging file: a name in the directory that nothing in the tree has. -/
structure Room (tree : Tree) (target : Pathname) (directory : Place) (staging : String) : Prop where
  leads : tree.Leads target.start target.names.dropLast directory
  free : ∀ other, tree.get? (staging :: other) = none
  plain : isDots staging = false
  fits : refuses target.start target.names.dropLast staging = false

theorem discarded_of_free (hfree : ∀ other, tree.get? (staging :: other) = none) :
    discarded tree (beside target staging) = tree := by
  unfold discarded unlink beside Pathname.parent Pathname.child
  dsimp only
  cases hentry : tree.entry? ⟨target.start, target.names.dropLast ++ [staging]⟩ with
  | error code => rfl
  | ok place =>
    cases place with
    | none => rfl
    | some place =>
      obtain ⟨outer, name, directory, hnames, rfl, -⟩ := entry?_some hentry
      obtain ⟨-, hname⟩ := List.append_inj' hnames rfl
      cases hname
      simp only [bind, Except.bind]
      rw [hfree]
      rfl

namespace Room

theorem hasDirectory_false (h : Room tree target directory staging) :
    tree.hasDirectory (staging :: directory) = false := by
  unfold hasDirectory
  rw [h.free]

theorem linkless (h : Room tree target directory staging) (link : String) :
    tree.get? (staging :: directory) ≠ some (.link link) := by
  rw [h.free]
  simp

theorem writeFile_eq (h : Room tree target directory staging) (bytes : ByteArray) :
    tree.writeFile (beside target staging) bytes
      =
    .ok (tree.insert (staging :: directory) (.file bytes)) := by
  have hwrite := h.leads.writeFile_eq h.linkless h.plain bytes
  rw [h.fits, h.hasDirectory_false] at hwrite
  exact hwrite

theorem leads_of_gains (h : Room tree target directory staging)
    (hgains : Gains tree (staging :: directory) raw tree') :
    tree'.Leads target.start target.names.dropLast directory :=
  h.leads.keeps (hgains.keeps h.hasDirectory_false h.linkless) hgains.current_eq

theorem writeFile_again (h : Room tree target directory staging)
    (hgains : Gains tree (staging :: directory) raw tree') (bytes : ByteArray) :
    ∃ tree'', tree'.writeFile (beside target staging) bytes = .ok tree''
      ∧ Gains tree (staging :: directory) bytes tree'' := by
  have hfile : tree'.hasDirectory (staging :: directory) = false := by
    rw [hgains.hasDirectory_eq h.hasDirectory_false]
    exact h.hasDirectory_false
  have hwrite := (h.leads_of_gains hgains).writeFile_eq (by rw [hgains.at_eq]; simp) h.plain bytes
  rw [h.fits, hfile] at hwrite
  exact ⟨_, hwrite, hgains.trans (Gains.insert tree' (by simp) bytes)⟩

theorem fileAt_eq (h : Room tree target directory staging)
    (hgains : Gains tree (staging :: directory) raw tree') :
    tree'.fileAt (beside target staging) = .ok (staging :: directory, .file raw) := by
  have hfile := (h.leads_of_gains hgains).fileAt_eq staging
  rw [h.fits, Leads.lastPlace?_plain h.plain, if_neg Bool.false_ne_true] at hfile
  dsimp only at hfile
  rw [hgains.at_eq] at hfile
  exact hfile

theorem discarded_of_file (h : Room tree target directory staging)
    (hleads : tree'.Leads target.start target.names.dropLast directory)
    (hget : tree'.get? (staging :: directory) = some (.file raw)) :
    discarded tree' (beside target staging) = tree'.erase (staging :: directory) := by
  have hunlink := hleads.unlink_eq staging
  rw [h.fits, Leads.lastPlace?_plain h.plain, if_neg Bool.false_ne_true] at hunlink
  dsimp only at hunlink
  rw [hget] at hunlink
  have hgone : tree'.unlink (beside target staging) = .ok (tree'.erase (staging :: directory)) :=
    hunlink
  unfold discarded
  rw [hgone]

theorem discarded_same (h : Room tree target directory staging)
    (hgains : Gains tree (staging :: directory) raw tree') :
    Same tree (discarded tree' (beside target staging)) := by
  rw [h.discarded_of_file (h.leads_of_gains hgains) hgains.at_eq]
  exact hgains.erase (by simp) (h.free directory)

theorem fillFile_yields_of_error (h : Room world.tree target directory staging)
    (hcontent : source.content = .error failure) (scheme : Codec.Scheme) :
    (fillFile (beside target staging) source scheme).Yields world (.error failure)
      (world.withTree (world.tree.insert (staging :: directory) (.file .empty))) := by
  unfold fillFile
  refine (change_yields_of_ok (h.writeFile_eq _)).bind ?_
  dsimp only
  rw [compressedCopy_of_error scheme hcontent]
  exact .throw failure _

theorem fillFile_yields_of_ok (h : Room world.tree target directory staging) (store : Store)
    (hcontent : source.content = .ok body) :
    ∃ tree', (fillFile (beside target staging) source store.compression).Yields world (.ok ())
        (world.withTree tree')
      ∧ Gains world.tree (staging :: directory) (store.raw source) tree' := by
  obtain ⟨tree', hwrite, hgains⟩ :=
    h.writeFile_again (Gains.insert world.tree (by simp) .empty) (store.raw source)
  obtain ⟨n, houtcome⟩ := (compressedCopy_of_ok store.compression hcontent).1
  refine ⟨tree', ?_, hgains⟩
  unfold fillFile
  refine (change_yields_of_ok (h.writeFile_eq _)).bind ?_
  dsimp only
  rw [houtcome]
  exact change_yields_of_ok hwrite

theorem publish_yields_of_stored (h : Room tree target directory staging) {staged : Tree}
    (hgains : Gains tree (staging :: directory) raw staged) {name : String}
    (htarget : staged.entry? target = .ok (some (name :: directory)))
    (hname : name ≠ staging) (hfile : tree.hasDirectory (name :: directory) = false)
    (hnew : overwrite = false → tree.get? (name :: directory) = none) (world : World) :
    ∃ tree', (publish (beside target staging) target overwrite).Yields (world.withTree staged)
        (.ok ()) (world.withTree tree')
      ∧ Gains tree (name :: directory) raw (discarded tree' (beside target staging)) := by
  have hsource := h.fileAt_eq hgains
  have hplace : name :: directory ≠ staging :: directory := by
    intro hsame
    exact hname (List.head_eq_of_cons_eq hsame)
  have hfile' : staged.hasDirectory (name :: directory) = false := by
    rw [hgains.hasDirectory_eq h.hasDirectory_false]
    exact hfile
  cases overwrite with
  | true =>
    have hrename := rename_eq hsource htarget
    rw [hfile', if_neg Bool.false_ne_true] at hrename
    have hnamed := Gains.of_same (hgains.erase (by simp) (h.free directory))
      (Gains.insert (staged.erase (staging :: directory)) (List.cons_ne_nil name directory) raw)
    refine ⟨_, publish_yields_of_rename hrename, ?_⟩
    -- The new name may be that of a link before, so the way may be lost, but there is nothing left.
    rw [discarded_of_free]
    · exact hnamed
    · intro other
      rw [hnamed.off_eq _ fun hsame => hname (List.head_eq_of_cons_eq hsame).symm, h.free]
  | false =>
    have hlink := hardLink_eq hsource htarget
    have hnone := hgains.off_eq _ hplace
    rw [hnew rfl] at hnone
    rw [hnone, if_neg (by simp)] at hlink
    have hnamed := Gains.insert staged (List.cons_ne_nil name directory) raw
    have hstill := hnamed.off_eq _ hplace.symm
    rw [hgains.at_eq] at hstill
    have hleads := (h.leads_of_gains hgains).keeps (hnamed.keeps hfile' (by rw [hnone]; simp)) rfl
    refine ⟨_, publish_yields_of_link hlink, ?_⟩
    rw [h.discarded_of_file hleads hstill]
    exact hgains.erase_of_ne (by simp) (h.free directory) hnamed hplace

end Room

def stage (store : Store) (key : String) (source : Source) (overwrite : Bool)
    (staging target : Pathname) : Action Bool :=
  Action.andFinally
    (do
      fillFile staging source store.compression
      conditionalWrite (publish staging target overwrite) overwrite
        (fun failure => .ok (collides failure)) key)
    (discard staging)

/-- What comes of staging a write, where `entry` is what its target names. -/
inductive Staged (store : Store) (source : Source) (overwrite : Bool) (tree : Tree)
    (entry : Option Place) : Except Failure Bool → Tree → Prop where
  | failed (failure : Failure) (tree' : Tree) (hsame : Same tree tree')
      (hwhy : source.content = .error failure
        ∨ overwrite = true ∧ ∀ place, entry = some place → tree.hasDirectory place = true) :
      Staged store source overwrite tree entry (.error failure) tree'
  | skipped (body : ByteArray) (tree' : Tree) (hcontent : source.content = .ok body)
      (hsame : Same tree tree') (hkeeps : overwrite = false)
      (hfound : ∀ place, entry = some place → tree.get? place ≠ none) :
      Staged store source overwrite tree entry (.ok false) tree'
  | stored (body : ByteArray) (place : Place) (tree' : Tree) (hcontent : source.content = .ok body)
      (hentry : entry = some place) (hfile : tree.hasDirectory place = false)
      (hnew : overwrite = false → tree.get? place = none)
      (hgains : Gains tree place (store.raw source) tree') :
      Staged store source overwrite tree entry (.ok true) tree'

theorem stage_yields {key : String} {result : Except Failure Bool}
    (h : (do
      fillFile (beside target staging) source store.compression
      conditionalWrite (publish (beside target staging) target overwrite) overwrite
        (fun failure => .ok (collides failure)) key : Action Bool).Yields world result
      (world.withTree tree)) :
    (stage store key source overwrite (beside target staging) target).Yields world result
      (world.withTree (discarded tree (beside target staging))) :=
  h.andFinally (discard_yields _ (world.withTree tree))

theorem stage_yields_of_error (h : Room world.tree target directory staging)
    (hcontent : source.content = .error failure) (key : String) (entry : Option Place) :
    ∃ tree', (stage store key source overwrite (beside target staging) target).Yields world
        (.error failure) (world.withTree tree')
      ∧ Staged store source overwrite world.tree entry (.error failure) tree' := by
  refine ⟨_, stage_yields (h.fillFile_yields_of_error hcontent _).bind_error, ?_⟩
  exact .failed failure _ (h.discarded_same (Gains.insert world.tree (by simp) .empty))
    (.inl hcontent)

theorem stage_yields_of_publish {key : String} {result : Except Failure Bool} {staged : Tree}
    (hfill : (fillFile (beside target staging) source store.compression).Yields world (.ok ())
      (world.withTree staged))
    (hpublish : (conditionalWrite (publish (beside target staging) target overwrite) overwrite
      (fun failure => .ok (collides failure)) key).Yields (world.withTree staged) result
      (world.withTree tree')) :
    (stage store key source overwrite (beside target staging) target).Yields world result
      (world.withTree (discarded tree' (beside target staging))) :=
  stage_yields (hfill.bind hpublish)

theorem conditionalWrite_yields_of_found {p : Pathname} {key : String}
    (h : world.tree.hardLink p target = .error .alreadyExists) :
    (conditionalWrite (publish p target false) false (fun failure => .ok (collides failure))
      key).Yields world (.ok false) world :=
  conditionalWrite_yields_of_error (publish_yields_of_link_error h)

theorem conditionalWrite_yields_of_rename_error {p : Pathname} {key : String}
    {code : SystemErrorCode} (h : world.tree.rename p target = .error code) :
    (conditionalWrite (publish p target true) true (fun failure => .ok (collides failure))
      key).Yields world (.error (.ofSystem (errorBetween p target code))) world :=
  conditionalWrite_yields_of_error (publish_yields_of_rename_error h)

theorem stage_cases_of_none (h : Room world.tree target directory staging)
    (hcontent : source.content = .ok body) (store : Store) (key : String) (overwrite : Bool)
    (hfits : exceeds target = false) (hplace : entryOf? directory target = none) :
    ∃ result tree', (stage store key source overwrite (beside target staging) target).Yields world
        result (world.withTree tree')
      ∧ Staged store source overwrite world.tree none result tree' := by
  obtain ⟨staged, hfill, hgains⟩ := h.fillFile_yields_of_ok store hcontent
  have hsame := h.discarded_same hgains
  have hentry := (h.leads_of_gains hgains).entry?_pathname hfits
  rw [hplace] at hentry
  cases overwrite with
  | true =>
    have hrename : staged.rename (beside target staging) target = .error .busy := rename_none hentry
    refine ⟨_, _, stage_yields_of_publish hfill (conditionalWrite_yields_of_rename_error hrename),
      .failed _ _ hsame (.inr ⟨rfl, ?_⟩)⟩
    intro place hnone
    cases hnone
  | false =>
    have hlink := hardLink_none (h.fileAt_eq hgains) hentry
    refine ⟨_, _, stage_yields_of_publish hfill (conditionalWrite_yields_of_found hlink),
      .skipped body _ hcontent hsame rfl ?_⟩
    intro place hnone
    cases hnone

theorem stage_cases_of_some (h : Room world.tree target directory staging)
    (hcontent : source.content = .ok body) (store : Store) (key : String) (overwrite : Bool)
    (hfits : exceeds target = false)
    (hplace : entryOf? directory target = some (name :: directory)) (hname : name ≠ staging) :
    ∃ result tree', (stage store key source overwrite (beside target staging) target).Yields world
        result (world.withTree tree')
      ∧ Staged store source overwrite world.tree (some (name :: directory)) result tree' := by
  obtain ⟨staged, hfill, hgains⟩ := h.fillFile_yields_of_ok store hcontent
  have hsame := h.discarded_same hgains
  have hsource := h.fileAt_eq hgains
  have hentry := (h.leads_of_gains hgains).entry?_pathname hfits
  rw [hplace] at hentry
  have hdir := hgains.hasDirectory_eq h.hasDirectory_false (name :: directory)
  have hget : staged.get? (name :: directory) = world.tree.get? (name :: directory) := by
    apply hgains.off_eq
    intro hsame
    exact hname (List.head_eq_of_cons_eq hsame)
  -- What stands in the way of publishing: a directory if files are replaced, else anything.
  by_cases hfree : world.tree.hasDirectory (name :: directory) = false
      ∧ (overwrite = false → world.tree.get? (name :: directory) = none)
  · obtain ⟨tree', hpublish, hgains'⟩ :=
      h.publish_yields_of_stored hgains hentry hname hfree.1 hfree.2 world
    exact ⟨_, _, stage_yields_of_publish hfill (conditionalWrite_yields_of_ok hpublish),
      .stored body _ _ hcontent rfl hfree.1 hfree.2 hgains'⟩
  · cases overwrite with
    | true =>
      have htaken : world.tree.hasDirectory (name :: directory) = true := by
        apply eq_true_of_ne_false
        intro hfile
        exact hfree ⟨hfile, fun hkeeps => by cases hkeeps⟩
      have hrename := rename_eq hsource hentry
      rw [hdir, htaken, if_pos rfl] at hrename
      refine ⟨_, _, stage_yields_of_publish hfill (conditionalWrite_yields_of_rename_error hrename),
        .failed _ _ hsame (.inr ⟨rfl, ?_⟩)⟩
      intro place hplace
      cases hplace
      exact htaken
    | false =>
      have htaken : world.tree.get? (name :: directory) ≠ none := by
        intro hnone
        apply hfree
        refine ⟨?_, fun _ => hnone⟩
        unfold hasDirectory
        rw [hnone]
      have hlink := hardLink_eq hsource hentry
      rw [hget, if_pos (Option.isSome_iff_ne_none.2 htaken)] at hlink
      refine ⟨_, _, stage_yields_of_publish hfill (conditionalWrite_yields_of_found hlink),
        .skipped body _ hcontent hsame rfl ?_⟩
      intro place hplace
      cases hplace
      exact htaken

theorem stage_cases (h : Room world.tree target directory staging) (store : Store) (key : String)
    (source : Source) (overwrite : Bool) (hfits : exceeds target = false)
    (hname : target.names.getLast? ≠ some staging) :
    ∃ result tree', (stage store key source overwrite (beside target staging) target).Yields world
        result (world.withTree tree')
      ∧ Staged store source overwrite world.tree (entryOf? directory target) result tree' := by
  cases hcontent : source.content with
  | error failure =>
    obtain ⟨tree', hstage⟩ := stage_yields_of_error h hcontent key (entryOf? directory target)
    exact ⟨_, tree', hstage⟩
  | ok body =>
    -- Only a last component that is no dots can be the name of a file.
    cases hlast : target.names.getLast? with
    | none =>
      have hplace : entryOf? directory target = none := by
        unfold entryOf?
        rw [hlast]
        rfl
      rw [hplace]
      exact stage_cases_of_none h hcontent store key overwrite hfits hplace
    | some last =>
      cases hdots : isDots last with
      | true =>
        have hplace : entryOf? directory target = none := by
          unfold entryOf? lastPlace?
          rw [hlast, Option.bind_some, hdots]
          rfl
        rw [hplace]
        exact stage_cases_of_none h hcontent store key overwrite hfits hplace
      | false =>
        have hplace : entryOf? directory target = some (last :: directory) := by
          unfold entryOf?
          rw [hlast, Option.bind_some, Leads.lastPlace?_plain hdots]
        rw [hplace]
        apply stage_cases_of_some h hcontent store key overwrite hfits hplace
        intro hsame
        rw [hsame] at hlast
        exact hname hlast

end Store.Files

end Depot
