import Depot.Proofs.Path.Letters
import Depot.Proofs.Store.Absence

/-!
This module contains where names lead: a name goes through its components one by one from the base
of its store, also above the root and back, and it is refused just if that ends outside of the base.
-/

namespace Depot

open Depot.Action

namespace Path

variable {c : Component} {cs kept plains outer : List Component} {text : String} {ups : Nat}

/-- Where a component leads from a place, which is told outermost first. -/
def pass (place : List String) (part : String) : List String :=
  if part = "" ∨ part = "." then place
  else if part = ".." then place.dropLast
  else place ++ [part]

def destination (place : List String) (text : String) : List String :=
  ((Text.splitOn '/' text.toList).map String.ofList).foldl pass place

theorem mem_foldl_pass {place pieces : List String} {part : String}
    (h : part ∈ pieces.foldl pass place) : part ∈ place ∨ part ∈ pieces := by
  induction pieces generalizing place with
  | nil => exact .inl h
  | cons piece pieces ih =>
    rw [List.foldl_cons] at h
    rcases ih h with hplace | hpieces
    · unfold pass at hplace
      split at hplace
      · exact .inl hplace
      · split at hplace
        · exact .inl ((List.dropLast_prefix _).subset hplace)
        · rcases List.mem_append.1 hplace with hplace | hpiece
          · exact .inl hplace
          · exact .inr (List.mem_cons.2 (.inl (List.mem_singleton.1 hpiece)))
    · exact .inr (List.mem_cons_of_mem _ hpieces)

theorem step_true_plain (hkept : ∀ c ∈ kept, Plain c) (hc : '/' ∉ c) :
    ∀ c' ∈ step true kept c, Plain c' := by
  obtain ⟨plains, ups, hstep, hplain, hups⟩ := step_settled hkept (fun _ => rfl) hc
  rw [List.replicate_zero, List.append_nil, hups rfl, List.replicate_zero, List.append_nil] at hstep
  rw [hstep]
  exact hplain

theorem ofList_eq_iff {part : String} : String.ofList c = part ↔ c = part.toList := by
  rw [← String.toList_inj, String.toList_ofList]

theorem pass_eq_step (hkept : ∀ c ∈ kept, Plain c) (c : Component) :
    pass (kept.map String.ofList).reverse (String.ofList c)
      =
    ((step true kept c).map String.ofList).reverse := by
  have hskips : String.ofList c = "" ∨ String.ofList c = "." ↔ c = [] ∨ c = here := by
    rw [ofList_eq_iff, ofList_eq_iff]
    exact Iff.rfl
  have hclimbs : String.ofList c = ".." ↔ c = up := ofList_eq_iff
  unfold pass step
  by_cases hskip : c = [] ∨ c = here
  · rw [if_pos (hskips.2 hskip), if_pos hskip]
  · rw [if_neg (mt hskips.1 hskip), if_neg hskip]
    by_cases hclimb : c = up
    · rw [if_pos (hclimbs.2 hclimb), if_pos hclimb]
      cases kept with
      | nil => rfl
      | cons last kept =>
        rw [List.forall_mem_cons] at hkept
        dsimp only
        rw [if_neg hkept.1.ne_up, List.map_cons, List.reverse_cons, List.dropLast_concat]
    · rw [if_neg (mt hclimbs.1 hclimb), if_neg hclimb, List.map_cons, List.reverse_cons]

theorem foldl_pass_eq (hkept : ∀ c ∈ kept, Plain c) (h : ∀ c ∈ cs, '/' ∉ c) :
    (cs.map String.ofList).foldl pass (kept.map String.ofList).reverse
      =
    ((cs.foldl (step true) kept).map String.ofList).reverse := by
  induction cs generalizing kept with
  | nil => rfl
  | cons c cs ih =>
    rw [List.forall_mem_cons] at h
    rw [List.map_cons, List.foldl_cons, List.foldl_cons, pass_eq_step hkept]
    exact ih (step_true_plain hkept h.1) h.2

theorem destination_eq_normalize (houter : ∀ c ∈ outer, Plain c) (text : String) :
    destination (outer.map String.ofList) text
      =
    (normalize true (outer ++ Text.splitOn '/' text.toList)).map String.ofList := by
  have hreverse : ∀ c ∈ outer.reverse, Plain c := by
    intro c hc
    exact houter c (List.mem_reverse.1 hc)
  have hfold := foldl_pass_eq hreverse (slashless_splitOn text.toList)
  rw [List.map_reverse, List.reverse_reverse] at hfold
  unfold destination normalize
  rw [hfold, List.foldl_append, foldl_step_plain houter, List.append_nil, List.map_reverse]

end Path

namespace Store.Files

open Depot.Files Depot.Path

variable {store : Store} {name : String} {source : Source} {world : World} {tree : Tree}
  {outer : List Component} {cause : Reason}

section Places

def destination (store : Store) (outer : List Component) (name : String) : List String :=
  Path.destination (outer.map String.ofList) (store.naming.withExtension name)

theorem fields_keyPrefix_of_footed {location : Location} (h : location.Footed outer) :
    Text.fields '/' location.keyPrefix.toList = outer := by
  unfold Text.fields
  rw [h.keyPrefix_eq, String.toList_ofList]
  by_cases hnil : outer = []
  · rw [hnil]
    rfl
  · rw [Text.splitOn_joinWith hnil fun c hc => (h.plain c hc).slashless, filter_plain h.plain]

theorem key_eq_render (h : store.location.Footed outer)
    (hrelative : store.location.keyPrefix ≠ ""
      ∨ store.naming.withExtension name ≠ ""
        ∧ (store.naming.withExtension name).toList.head? ≠ some '/') :
    store.key name
      =
    String.ofList (Path.render false (normalize false
      (outer ++ Text.splitOn '/' (store.naming.withExtension name).toList))) := by
  obtain ⟨text, hjoin, hrooted, hfields⟩ := cleanJoin_fields store.location.head?_keyPrefix
    (fun hempty => (hrelative.resolve_left fun hne => hne hempty).2) (hrelative.imp_right And.left)
  have hkey : store.key name = String.ofList (cleanChars text) := hjoin
  rw [fields_keyPrefix_of_footed h] at hfields
  rw [hkey]
  unfold cleanChars
  rw [hrooted, ← normalize_filter false (Text.splitOn '/' text),
    ← normalize_filter false (outer ++ _), List.filter_append, filter_plain h.plain]
  exact congrArg (fun cs => String.ofList (Path.render false (normalize false cs))) hfields

section Root

variable (hroot : store.location.keyPrefix = "")

include hroot

theorem key_of_empty (hempty : store.naming.withExtension name = "") : store.key name = "" := by
  have hsame : store.naming.location.keyPrefix = "" := hroot
  unfold Store.key Naming.key
  rw [hempty, hsame]
  rfl

theorem key_of_rooted (hne : store.naming.withExtension name ≠ "")
    (hhead : (store.naming.withExtension name).toList.head? = some '/') :
    store.key name
      =
    String.ofList (Path.render true
      (normalize true (Text.splitOn '/' (store.naming.withExtension name).toList))) := by
  have hrooted : isRooted (store.naming.withExtension name).toList = true := decide_eq_true hhead
  have hjoin := cleanJoin_empty hne
  unfold cleanChars at hjoin
  rw [← hroot, hrooted] at hjoin
  exact hjoin

end Root

theorem exists_names_of_footed (h : store.location.Footed outer) (name : String) :
    ∃ cs, Settled cs ∧ (objectPathname store name).names = cs.map String.ofList
      ∧ named cs
        = normalize true (outer ++ Text.splitOn '/' (store.naming.withExtension name).toList) := by
  have hslashless : ∀ c ∈ outer ++ Text.splitOn '/' (store.naming.withExtension name).toList,
      '/' ∉ c := by
    intro c hc
    rcases List.mem_append.1 hc with hc | hc
    · exact (h.plain c hc).slashless
    · exact slashless_splitOn _ c hc
  by_cases hrelative : store.location.keyPrefix ≠ ""
      ∨ store.naming.withExtension name ≠ ""
        ∧ (store.naming.withExtension name).toList.head? ≠ some '/'
  · have hsettled := settled_normalize false hslashless
    exact ⟨_, hsettled, names_objectPathname_of_key hsettled (key_eq_render h hrelative),
      (normalize_true hslashless).symm⟩
  · -- The base is the root, and the name is empty or starts at the root itself.
    rw [not_or, Classical.not_not, not_and, Classical.not_not] at hrelative
    obtain ⟨hroot, hhead⟩ := hrelative
    have hnil : outer = [] := by
      rw [← fields_keyPrefix_of_footed h, hroot]
      rfl
    rw [hnil, List.nil_append] at hslashless ⊢
    by_cases hempty : store.naming.withExtension name = ""
    · refine ⟨[], settled_of_plain (List.forall_mem_nil _), ?_, ?_⟩
      · rw [objectPathname, names_keyPath, key_of_empty hroot hempty]
        rfl
      · rw [hempty]
        rfl
    · have hplain := (settled_normalize false hslashless).plain_named
      rw [← normalize_true hslashless] at hplain
      have hkey := key_of_rooted hroot hempty (hhead hempty)
      exact ⟨_, settled_of_plain hplain,
        names_objectPathname_of_key (settled_of_plain hplain) hkey, named_plain hplain⟩

theorem objectPlace_eq_destination (h : store.location.Footed outer) (name : String) :
    objectPlace store name = (destination store outer name).reverse := by
  obtain ⟨cs, hsettled, hnames, hnamed⟩ := exists_names_of_footed h name
  unfold objectPlace destination
  rw [hnames, foldl_enter_settled hsettled, hnamed, destination_eq_normalize h.plain]

theorem holdsZero_eq_false_iff {p : Pathname} :
    p.holdsZero = false ↔ ∀ part ∈ p.names, '\x00' ∉ part.toList := by
  constructor
  · intro h part hpart hzero
    unfold Pathname.holdsZero at h
    rw [List.any_eq_false] at h
    exact h part hpart (List.any_eq_true.2 ⟨_, hzero, rfl⟩)
  · exact holdsZero_eq_false

theorem zeroless_objectPathname_iff (h : store.location.Footed outer) :
    (objectPathname store name).holdsZero = false
      ↔ ∀ part ∈ destination store outer name, '\x00' ∉ part.toList := by
  obtain ⟨cs, -, hnames, hnamed⟩ := exists_names_of_footed h name
  unfold destination
  rw [holdsZero_eq_false_iff, hnames, destination_eq_normalize h.plain, ← hnamed,
    List.forall_mem_map, List.forall_mem_map]
  constructor
  · intro hzero c hc
    exact hzero c (List.mem_filter.1 hc).1
  · intro hzero c hc
    by_cases hup : c = up
    · rw [hup]
      decide
    · exact hzero c (List.mem_filter.2 ⟨hc, decide_eq_true hup⟩)

/-- Whether a name leads to something at or below the base, and nothing on the way holds a zero. -/
def Inside (store : Store) (outer : List Component) (name : String) : Prop :=
  outer.map String.ofList <+: destination store outer name
    ∧ ∀ part ∈ destination store outer name, '\x00' ∉ part.toList

theorem zeroless_destination (houter : ∀ c ∈ outer, '\x00' ∉ c)
    (hname : '\x00' ∉ (store.naming.withExtension name).toList) :
    ∀ part ∈ destination store outer name, '\x00' ∉ part.toList := by
  intro part hpart hzero
  rcases mem_foldl_pass hpart with hbase | hpiece
  · obtain ⟨c, hc, rfl⟩ := List.mem_map.1 hbase
    rw [String.toList_ofList] at hzero
    exact houter c hc hzero
  · obtain ⟨c, hc, rfl⟩ := List.mem_map.1 hpiece
    rw [String.toList_ofList] at hzero
    apply hname
    rw [← Text.joinWith_splitOn '/' (store.naming.withExtension name).toList]
    exact Text.mem_joinWith_of_mem hc hzero

theorem within_iff_inside (h : store.location.Footed outer) :
    Within store tree name ↔ Inside store outer name := by
  have hplace : (objectPathname store name).names.foldl Tree.enter
      (tree.startOf (objectPathname store name)) = (destination store outer name).reverse := by
    rw [startOf_objectPathname]
    exact objectPlace_eq_destination h name
  have hwithin : isWithin (basePlace store tree) (destination store outer name).reverse = true
      ↔ outer.map String.ofList <+: destination store outer name := by
    unfold isWithin
    rw [basePlace_of_footed h, List.isSuffixOf_iff_suffix, List.reverse_suffix]
  constructor
  · intro hname
    refine ⟨hwithin.1 (hplace ▸ hname.within), ?_⟩
    exact (zeroless_objectPathname_iff h).1 hname.key_zero
  · rintro ⟨hbegins, hzero⟩
    refine ⟨(zeroless_objectPathname_iff h).2 hzero, ?_, ?_⟩
    · apply holdsZero_eq_false
      rw [names_base_of_footed h]
      exact fun part hpart => hzero part (hbegins.subset hpart)
    · rw [hplace]
      exact hwithin.2 hbegins

end Places

section Blame

/-- Whether a failure is one of the system or of the source of a write. -/
def Blames (source : Source) (failure : Failure) : Prop :=
  (∃ error, failure = .ofSystem error) ∨ source.content = .error failure

theorem change_ends (act : Tree → Except SystemErrorCode Tree)
    (report : SystemErrorCode → SystemError) (source : Source) :
    (change act report).Ends (Blames source) fun _ => True := by
  unfold change
  refine Ends.get.bind fun world _ => ?_
  cases act world.tree with
  | ok tree => exact .set _
  | error code => exact .throw (.inl ⟨_, rfl⟩)

theorem makeDirectories_ends (p : Pathname) (source : Source) :
    (makeDirectories p).Ends (Blames source) fun _ => True := by
  unfold makeDirectories
  refine Ends.get.bind fun world _ => (Ends.set _).bind fun _ _ => ?_
  cases (world.tree.makeDirectories p.start p.names.reverse).1 with
  | ok done => exact .pure trivial
  | error error => exact .throw (.inl ⟨error, rfl⟩)

theorem fillFile_ends (p : Pathname) (source : Source) (scheme : Codec.Scheme) :
    (fillFile p source scheme).Ends (Blames source) fun _ => True := by
  unfold fillFile
  refine (change_ends _ _ source).bind fun _ _ => ?_
  dsimp only
  cases hcontent : source.content with
  | ok body =>
    obtain ⟨n, houtcome⟩ := (compressedCopy_of_ok scheme hcontent).1
    rw [houtcome]
    exact change_ends _ _ source
  | error failure =>
    rw [compressedCopy_of_error scheme hcontent]
    exact .throw (.inr hcontent)

theorem publish_ends (staging target : Pathname) (overwrite : Bool) (source : Source) :
    (publish staging target overwrite).Ends (Blames source) fun _ => True := by
  unfold publish
  split
  · exact change_ends _ _ source
  · exact change_ends _ _ source

theorem discard_ends (staging : Pathname) (fails : Failure → Prop) :
    (discard staging).Ends fails fun _ => True := by
  unfold discard
  refine Ends.get.bind fun world _ => ?_
  cases world.tree.unlink staging with
  | ok tree => exact .set _
  | error code =>
    cases code with
    | noEntry => exact .pure trivial
    | _ => exact .modify _

theorem stage_ends (store : Store) (key : String) (source : Source) (overwrite : Bool)
    (staging target : Pathname) :
    (stage store key source overwrite staging target).Ends (Blames source) fun _ => True := by
  unfold stage
  refine Ends.andFinally ?_ (discard_ends staging _)
  refine (fillFile_ends staging source store.compression).bind fun _ _ => ?_
  exact conditionalWrite_ends collides key (publish_ends staging target overwrite source)

theorem blames_of_write (hsound : world.tree.Sound) (hwithin : Within store world.tree name)
    {overwrite : Bool} {failure : Failure}
    (h : ((write store name source overwrite).perform world).1 = .error failure) :
    Blames source failure := by
  obtain ⟨records, hpath⟩ := (objectPath_yields hsound hwithin).perform_eq
  rw [write_eq, perform_bind_of_ok hpath] at h
  have hends : (do
      makeDirectories (objectPathname store name).parent
      let world ← get
      let written ← stage store (store.key name) source overwrite
        (beside (objectPathname store name) (freshStaging world.tree (objectPathname store name)))
        (objectPathname store name)
      if written then note .debug .files ("Stored object: backend=filesystem name=" ++ name)
      return written : Action Bool).Ends (Blames source) fun _ => True := by
    refine (makeDirectories_ends _ source).bind fun _ _ => Ends.get.bind fun world _ => ?_
    refine (stage_ends store _ source overwrite _ _).bind fun written _ => ?_
    cases written with
    | true => exact (Ends.modify _).bind fun _ _ => .pure trivial
    | false => exact .pure trivial
  exact hends.failure h

theorem Blames.eq_content (h : Blames source (traversal store name cause)) :
    source.content = .error (traversal store name cause) := by
  rcases h with ⟨error, hsystem⟩ | hcontent
  · nomatch congrArg Failure.reason hsystem
  · exact hcontent

end Blame

section Unfit

theorem existence_ne_traversal (p : Pathname) :
    existence tree p ≠ .error (traversal store name cause) := by
  unfold existence
  intro hsame
  split at hsame
  · nomatch hsame
  · nomatch hsame
  · nomatch hsame
  · nomatch hsame
  · nomatch congrArg Failure.reason (Except.error.inj hsame)

theorem notFound_ne_traversal (why : Option Reason) :
    store.notFound name why ≠ traversal store name cause := by
  intro hsame
  nomatch congrArg Failure.reason hsame

theorem objectFailure_ne_traversal (p : Pathname) (code : SystemErrorCode) :
    objectFailure store name p code ≠ traversal store name cause := by
  unfold objectFailure
  dsimp only
  split
  · exact notFound_ne_traversal _
  · intro hsame
    nomatch congrArg Failure.reason hsame

variable (hsound : world.tree.Sound) (hwithin : Within store world.tree name)
  (hunfit : ¬(objectPathname store name).Fits)

include hsound hwithin hunfit

theorem contains_yields_of_unfit :
    ∃ result, (contains store name).Yields world result world ∧ result ≠ .ok true
      ∧ ∀ cause, result ≠ .error (traversal store name cause) := by
  refine ⟨_, contains_yields_of_within hsound hwithin, ?_, fun _ => existence_ne_traversal _⟩
  intro hexists
  obtain ⟨raw, hstat⟩ := existence_eq_ok_true_iff.1 hexists
  exact hunfit ((stat_objectPathname_iff hsound).1 hstat).1

theorem openRaw_yields_of_unfit :
    ∃ failure, (openRaw store name).Yields world (.error failure) world
      ∧ ∀ cause, failure ≠ traversal store name cause := by
  have hopen := openRaw_yields_of_path (objectPath_yields hsound hwithin)
  cases hcontent : world.tree.content (objectPathname store name) with
  | ok raw =>
    have hstat := Tree.content_eq_ok_iff.1 hcontent
    exact absurd ((stat_objectPathname_iff hsound).1 hstat).1 hunfit
  | error code =>
    rw [hcontent] at hopen
    exact ⟨_, hopen, fun _ => objectFailure_ne_traversal _ code⟩

theorem delete_yields_of_unfit :
    ∃ failure, (delete store name).Yields world (.error failure) world
      ∧ ∀ cause, failure ≠ traversal store name cause := by
  have hpath := objectPath_yields hsound hwithin
  rw [delete_eq]
  cases hdir : world.tree.isDirectory (objectPathname store name) with
  | error code =>
    refine ⟨_, hpath.bind (remove_yields_of_unknown hdir store name), fun cause hsame => ?_⟩
    nomatch congrArg Failure.reason hsame
  | ok isDir =>
    cases isDir with
    | true =>
      exact ⟨_, hpath.bind (remove_yields_of_directory hdir store name),
        fun _ => notFound_ne_traversal _⟩
    | false =>
      cases hunlink : world.tree.unlink (objectPathname store name) with
      | error code =>
        exact ⟨_, hpath.bind (remove_yields_of_error hdir hunlink store name),
          fun _ => objectFailure_ne_traversal _ code⟩
      | ok tree' =>
        obtain ⟨raw, hstat, -⟩ := Tree.unlink_ok hsound hunlink
        exact absurd ((stat_objectPathname_iff hsound).1 hstat).1 hunfit

end Unfit

end Store.Files

namespace Store

variable {store : Store} {name : String} {world : World} {outer : List Path.Component}

structure Barred (store : Store) (name : String) (world : World) : Prop where
  contains : ∃ result, (store.contains name).Yields world result world ∧ result ≠ .ok true
    ∧ ∀ cause, result ≠ .error (Files.traversal store name cause)
  openReader : ∃ failure, (store.openReader name).Yields world (.error failure) world
    ∧ ∀ cause, failure ≠ Files.traversal store name cause
  delete : ∃ failure, (store.delete name).Yields world (.error failure) world
    ∧ ∀ cause, failure ≠ Files.traversal store name cause

/-- What a name does that leads to a place. No failure is about where it leads. -/
structure Acts (store : Store) (name : String) (place : Depot.Files.Place) (world : World) : Prop
    where
  place_eq : Files.objectPlace store name = place
  reads : (Files.objectPathname store name).Fits ∧ store.Answers name place world
    ∨ ¬(Files.objectPathname store name).Fits ∧ store.Barred name world
  write : ∀ source overwrite, ∃ result tree',
    (store.write name source overwrite).Yields world result (world.withTree tree')
      ∧ Files.Wrote store name source (store.mayReplace overwrite) world.tree result tree'
      ∧ ∀ cause, result = .error (Files.traversal store name cause) →
        source.content = .error (Files.traversal store name cause)

section Backend

variable (hfiles : store.backend = .files)

include hfiles

open Depot.Store.Files in
theorem acts_of_within (hsound : world.tree.Sound) (hwithin : Within store world.tree name) :
    store.Acts name (objectPlace store name) world := by
  refine ⟨rfl, ?_, ?_⟩
  · by_cases hfits : (objectPathname store name).Fits
    · exact .inl ⟨hfits, answers_of_fits hfiles hsound hwithin hfits⟩
    · obtain ⟨result, hcontains, hexists⟩ := contains_yields_of_unfit hsound hwithin hfits
      obtain ⟨failure, hopen, hopened⟩ := openRaw_yields_of_unfit hsound hwithin hfits
      obtain ⟨failure', hdelete, hdeleted⟩ := delete_yields_of_unfit hsound hwithin hfits
      exact .inr ⟨hfits, ⟨result, contains_yields_of_files hfiles hcontains, hexists⟩,
        ⟨failure, openReader_yields_of_error (openRaw_yields_of_files hfiles hopen), hopened⟩,
        ⟨failure', delete_yields_of_files hfiles hdelete, hdeleted⟩⟩
  · intro source overwrite
    obtain ⟨result, tree', hwrite, hwrote⟩ :=
      Files.write_cases hsound store name source (store.mayReplace overwrite)
    refine ⟨result, tree', write_yields_of_files hfiles hwrite, hwrote, ?_⟩
    rintro cause rfl
    exact (blames_of_write hsound hwithin hwrite.fst_eq).eq_content

/--
In a tree without links a name is refused just if the way through its components, from those of the
base, ends outside of the base. Else it acts at the place where that ends.
-/
theorem acts_or_refuses (hsound : world.tree.Sound) (hbase : store.location.Footed outer)
    (houter : ∀ c ∈ outer, '\x00' ∉ c)
    (hname : '\x00' ∉ (store.naming.withExtension name).toList) :
    (outer.map String.ofList <+: Files.destination store outer name →
        store.Acts name (Files.destination store outer name).reverse world)
      ∧ (¬outer.map String.ofList <+: Files.destination store outer name →
        ∃ cause, store.Refuses name world (Files.traversal store name cause)) := by
  constructor
  · intro hbegins
    have hinside : Files.Inside store outer name :=
      ⟨hbegins, Files.zeroless_destination houter hname⟩
    rw [← Files.objectPlace_eq_destination hbase]
    exact acts_of_within hfiles hsound ((Files.within_iff_inside hbase).2 hinside)
  · intro houtside
    have hnot : ¬Files.Within store world.tree name :=
      fun hwithin => houtside ((Files.within_iff_inside hbase).1 hwithin).1
    obtain ⟨cause, hpath⟩ := Files.checkedPath_of_not_within hsound hnot
    exact ⟨cause, refuses_of_checked hfiles hpath⟩

end Backend

section Sample

open Depot.Files Depot.Store.Files

theorem footed_shelf : shelf.location.Footed [['d']] :=
  ⟨by decide, .inl (by decide)⟩

theorem acts_or_refuses_sample :
    bare.tree.Sound ∧ shelf.location.Footed [['d']]
      ∧ ["d"] <+: destination shelf [['d']] "../../d/x"
      ∧ shelf.Acts "../../d/x" (destination shelf [['d']] "../../d/x").reverse bare
      ∧ ¬["d"] <+: destination shelf [['d']] "../x"
      ∧ ∃ cause, shelf.Refuses "../x" bare (traversal shelf "../x" cause) := by
  have hinside : ["d"] <+: destination shelf [['d']] "../../d/x" := by decide
  have houtside : ¬["d"] <+: destination shelf [['d']] "../x" := by decide
  have houter : ∀ c ∈ [['d']], '\x00' ∉ c := by decide
  exact ⟨sound_bare, footed_shelf, hinside,
    (acts_or_refuses rfl sound_bare footed_shelf houter (by decide)).1 hinside, houtside,
    (acts_or_refuses rfl sound_bare footed_shelf houter (by decide)).2 houtside⟩

def shelved : World :=
  { tree := (bare.tree.insert ["d"] .directory).insert ["x", "d"] (.file .empty) }

theorem sound_shelved : shelved.tree.Sound := by
  have houter : (bare.tree.insert ["d"] .directory).Sound :=
    sound_bare.insert rfl (by simp) (.inl rfl)
  exact houter.insert (by decide) (by simp) (.inr (by decide))

/-- A name that climbs so often above the root, and comes back. -/
def roundabout (ups : Nat) : String :=
  "/".intercalate (List.replicate ups ".." ++ ["d", "x"])

theorem splitOn_roundabout (ups : Nat) :
    Text.splitOn '/' (roundabout ups).toList = List.replicate ups Path.up ++ [['d'], ['x']] := by
  have hmap : (List.replicate ups ".." ++ ["d", "x"]).map String.toList
      = List.replicate ups Path.up ++ [['d'], ['x']] := by
    rw [List.map_append, List.map_replicate]
    rfl
  have hplain : ∀ c ∈ [['d'], ['x']], '/' ∉ c := by decide
  unfold roundabout
  rw [Text.toList_intercalate, hmap, Text.splitOn_joinWith (by simp)]
  intro c hc
  rcases List.mem_append.1 hc with hc | hc
  · rw [List.eq_of_mem_replicate hc]
    decide
  · exact hplain c hc

theorem withExtension_roundabout (ups : Nat) :
    shelf.naming.withExtension (roundabout ups) = roundabout ups :=
  String.append_empty

theorem zeroless_roundabout (ups : Nat) :
    '\x00' ∉ (shelf.naming.withExtension (roundabout ups)).toList := by
  have hup : '\x00' ∉ Path.up := by decide
  have hlast : ∀ c ∈ [['d'], ['x']], '\x00' ∉ c := by decide
  intro hzero
  rw [withExtension_roundabout] at hzero
  obtain ⟨c, hc, hmem⟩ := Text.exists_mem_splitOn hzero (by decide : '\x00' ≠ '/')
  rw [splitOn_roundabout] at hc
  rcases List.mem_append.1 hc with hc | hc
  · rw [List.eq_of_mem_replicate hc] at hmem
    exact hup hmem
  · exact hlast c hc hmem

theorem foldl_pass_ups (ups : Nat) : (List.replicate ups "..").foldl Path.pass [] = [] := by
  induction ups with
  | zero => rfl
  | succ ups ih =>
    rw [List.replicate_succ, List.foldl_cons]
    exact ih

theorem destination_roundabout (ups : Nat) :
    destination shelf [['d']] (roundabout (ups + 1)) = ["d", "x"] := by
  have hups : String.ofList Path.up = ".." := rfl
  have hrest : [['d'], ['x']].map String.ofList = ["d", "x"] := rfl
  have hbase : [['d']].map String.ofList = ["d"] := rfl
  have hclimb : (List.replicate (ups + 1) "..").foldl Path.pass ["d"] = [] :=
    foldl_pass_ups ups
  unfold Files.destination Path.destination
  rw [withExtension_roundabout, splitOn_roundabout, List.map_append, List.map_replicate, hups,
    hrest, hbase, List.foldl_append, hclimb]
  rfl

theorem names_roundabout (ups : Nat) :
    (objectPathname shelf (roundabout (ups + 1))).names
      =
    List.replicate ups ".." ++ ["d", "x"] := by
  have hplain : ∀ c ∈ [['d'], ['x']], Path.Plain c := by decide
  have hnormal : Path.normalize false
        ([['d']] ++ (List.replicate (ups + 1) Path.up ++ [['d'], ['x']]))
      = List.replicate ups Path.up ++ [['d'], ['x']] := by
    have hclimb : Path.normalize false ([['d']] ++ List.replicate (ups + 1) Path.up)
        = Path.normalize false (List.replicate ups Path.up) := rfl
    rw [← List.append_assoc, Path.normalize_append_plain hplain, hclimb, Path.normalize_ups]
  have hkey : shelf.key (roundabout (ups + 1)) = _ := key_eq_render footed_shelf (.inl (by decide))
  rw [withExtension_roundabout, splitOn_roundabout, hnormal] at hkey
  rw [names_objectPathname_of_key ⟨ups, _, rfl, hplain⟩ hkey, List.map_append, List.map_replicate]
  rfl

theorem pathTooLong_roundabout {ups : Nat} (h : Tree.maxPathname ≤ 3 * ups) :
    Tree.pathTooLong (objectPathname shelf (roundabout (ups + 2))) = true := by
  have hwidth := Pathname.width_replicate ".." ups
  have hsize : "..".utf8ByteSize = 2 := rfl
  have hmore : Pathname.width (List.replicate (ups + 1) ".." ++ ["d", "x"]) = _ :=
    Pathname.width_append (by simp) (by simp)
  rw [hsize] at hwidth
  apply decide_eq_true
  rw [Pathname.utf8ByteSize_render, names_roundabout, hmore]
  omega

/-- A name does not act at its place if its key climbs so often that the pathname is too long. -/
theorem roundabout_unreached :
    shelf.location.Footed [['d']] ∧ shelved.tree.Sound
      ∧ '\x00' ∉ (shelf.naming.withExtension (roundabout 1400)).toList
      ∧ destination shelf [['d']] (roundabout 1400) = ["d", "x"]
      ∧ shelved.tree.get? ["x", "d"] = some (.file .empty)
      ∧ ((shelf.contains (roundabout 1400)).perform shelved).1
        = .error (unreachable shelf (roundabout 1400)) := by
  have hwithin : Within shelf shelved.tree (roundabout 1400) := by
    rw [within_iff_inside footed_shelf]
    unfold Inside
    rw [destination_roundabout 1399]
    decide
  have hlong : Tree.pathTooLong (objectPathname shelf (roundabout 1400)) = true :=
    pathTooLong_roundabout (by decide)
  have hfails := contains_yields_of_tooLong sound_shelved hwithin hlong
  exact ⟨footed_shelf, sound_shelved, zeroless_roundabout 1400, destination_roundabout 1399, rfl,
    (contains_yields_of_files rfl hfails).fst_eq⟩

end Sample

end Store

end Depot
