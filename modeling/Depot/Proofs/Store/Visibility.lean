import Depot.Proofs.Store.Atomic
import Depot.Proofs.Store.Confinement
import Depot.Proofs.Store.Resuming

/-!
This module contains what a walk over a directory gets to see: every object that a store has written
there, once, unless it is named like a staging file.
-/

namespace Depot

open Depot.Path

namespace Path

theorem plain_of_mem {c : Component} (hslash : '/' ∉ c) (hmark : ∃ d ∈ c, d ≠ '.') : Plain c := by
  obtain ⟨d, hd, hne⟩ := hmark
  refine ⟨List.ne_nil_of_mem hd, ?_, ?_, hslash⟩
  · rintro rfl
    exact hne (List.mem_singleton.1 hd)
  · rintro rfl
    exact hne (List.eq_of_mem_replicate (n := 2) hd)

theorem cleanChars_last {text : List Char} {cs : List Component} {last : Component}
    (hsplit : Text.splitOn '/' text = cs ++ [last]) (hplain : Plain last) :
    ∃ rooted ds, Settled (ds ++ [last]) ∧ cleanChars text = render rooted (ds ++ [last]) := by
  have hlast : ∀ c ∈ [last], Plain c := List.forall_mem_singleton.2 hplain
  have hslashless : ∀ c ∈ cs, '/' ∉ c := by
    intro c hc
    apply slashless_splitOn text
    rw [hsplit]
    exact List.mem_append_left _ hc
  refine ⟨isRooted text, normalize (isRooted text) cs,
    (settled_normalize _ hslashless).append_plain hlast, ?_⟩
  unfold cleanChars
  rw [hsplit, normalize_append_plain hlast]

theorem cleanJoin_last {mark : String} (hslash : '/' ∉ mark.toList)
    (hmark : ∃ c ∈ mark.toList, c ≠ '.') (base name : String) :
    ∃ rooted cs last, Settled (cs ++ [last ++ mark.toList])
      ∧ Plain (last ++ mark.toList)
      ∧ cleanJoin [base, name ++ mark]
        = String.ofList (render rooted (cs ++ [last ++ mark.toList])) := by
  obtain ⟨pieces, last, hname, hsplit⟩ := Text.exists_splitOn_append hslash name.toList
  have hplain : Plain (last ++ mark.toList) := by
    obtain ⟨c, hc, hne⟩ := hmark
    refine plain_of_mem ?_ ⟨c, List.mem_append_right _ hc, hne⟩
    apply slashless_splitOn (name.toList ++ mark.toList)
    rw [hsplit]
    exact List.mem_append_right _ List.mem_cons_self
  have hne : name ++ mark ≠ "" := by
    obtain ⟨c, hc, -⟩ := hmark
    intro hempty
    have hnil := congrArg String.toList hempty
    rw [String.toList_append] at hnil
    exact List.ne_nil_of_mem hc (List.append_eq_nil_iff.1 hnil).2
  by_cases hbase : base = ""
  · rw [← String.toList_append] at hsplit
    obtain ⟨rooted, cs, hsettled, hclean⟩ := cleanChars_last hsplit hplain
    refine ⟨rooted, cs, last, hsettled, hplain, ?_⟩
    rw [hbase, cleanJoin_empty hne, hclean]
  · have hjoined : Text.splitOn '/' (base.toList ++ '/' :: (name ++ mark).toList)
        = (Text.splitOn '/' base.toList ++ pieces) ++ [last ++ mark.toList] := by
      rw [Text.splitOn_append_sep, String.toList_append, hsplit, List.append_assoc]
    obtain ⟨rooted, cs, hsettled, hclean⟩ := cleanChars_last hjoined hplain
    refine ⟨rooted, cs, last, hsettled, hplain, ?_⟩
    rw [cleanJoin_of_ne hbase hne, hclean]

end Path

namespace Store

variable {store : Store} {world : World} {name : String} {names : List String}

/--
Whether the extension of a store stays at the end of the last component of a key: it is empty, or it
holds no slash and something other than dots.
-/
def Lasting (store : Store) : Prop :=
  store.extension = ""
    ∨ '/' ∉ store.extension.toList ∧ ∃ c ∈ store.extension.toList, c ≠ '.'

instance (store : Store) : Decidable store.Lasting :=
  inferInstanceAs (Decidable (_ ∨ _))

theorem Lists.names_walkOf (h : store.Lists world names) (hbase : store.location.Clean) :
    (store.walkOf world "" "" {}).names = names := by
  have htold := h.told_walkOf hbase "" {} fun hcancelled => by cases hcancelled
  have hnames : (store.walkOf world "" "" {}).names = _ := congrArg Prod.fst htold
  have hall : ∀ name ∈ names,
      (!Walk.isBefore (startOffset? (store.query "") "") (store.key name)) = true :=
    fun _ _ => rfl
  rw [hnames, List.filter_eq_self.2 hall]
  exact (Walk.run_ofKeys_all names).1

theorem Lists.nodup (h : store.Lists world names) : names.Nodup := by
  apply (List.pairwise_map.1 h.sorted).imp
  rintro name other hlt rfl
  exact String.lt_irrefl _ hlt

theorem names_walkOf_eq_nil {under start : String} {visitor : Visitor}
    (h : ∀ offset key, Item.key key ∉ store.listing world (store.query under) offset) :
    (store.walkOf world under start visitor).names = [] := by
  unfold Walk.names
  rw [List.map_eq_nil_iff, List.eq_nil_iff_forall_not_mem]
  intro visit hvisit
  exact h _ visit.key (Walk.key_mem_of_mem_run [] _ visit hvisit)

namespace Files

open Depot.Files Depot.Files.Tree

variable {outer : List Component} {tree : Tree} {query : String}

theorem endsWith_objectPlace (hlasting : store.Lasting) {last : String} {directory : Place}
    (h : objectPlace store name = last :: directory) :
    Text.endsWith store.extension last = true := by
  rcases hlasting with hempty | ⟨hslash, hmark⟩
  · rw [hempty, ← String.append_empty (s := last)]
    exact Text.endsWith_append last ""
  · obtain ⟨rooted, cs, front, hsettled, hplain, hclean⟩ :=
      cleanJoin_last hslash hmark store.location.keyPrefix name
    have hkey : store.key name
        = String.ofList (Path.render rooted (cs ++ [front ++ store.extension.toList])) := hclean
    have hnames := names_objectPathname_of_key hsettled hkey
    unfold objectPlace at h
    rw [hnames, foldl_enter_settled hsettled, named_append,
      named_plain (List.forall_mem_singleton.2 hplain), List.map_append, List.reverse_append] at h
    cases h
    rw [String.ofList_append, String.ofList_toList]
    exact Text.endsWith_append _ _

theorem exists_objectPlace (h : store.location.Footed outer) {last : String} {inner : Place}
    (hplain : ∀ part ∈ last :: inner, Plain part.toList)
    (hends : Text.endsWith store.extension last = true) :
    ∃ name, Relative (store.naming.withExtension name)
      ∧ objectPlace store name = last :: inner ++ (outer.map String.ofList).reverse := by
  obtain ⟨front, hlast⟩ := Text.exists_of_endsWith hends
  have hcomps : ∀ c ∈ ((last :: inner).reverse).map String.toList, Plain c :=
    plain_map fun part hpart => hplain part (List.mem_reverse.1 hpart)
  have hne : ((last :: inner).reverse).map String.toList ≠ [] := by simp
  -- The name is the path of the file without the extension.
  obtain ⟨name, hname⟩ : ∃ name,
      store.naming.withExtension name = "/".intercalate (last :: inner).reverse := by
    have happend : ∃ name, name ++ store.extension = "/".intercalate (last :: inner).reverse := by
      rw [List.reverse_cons, hlast]
      by_cases hnil : inner.reverse = []
      · rw [hnil, List.nil_append, String.intercalate_singleton]
        exact ⟨front, rfl⟩
      · rw [String.intercalate_append_of_ne_nil hnil (by simp), String.intercalate_singleton,
          ← String.append_assoc]
        exact ⟨_, rfl⟩
    exact happend
  have hsplit : Text.splitOn '/' (store.naming.withExtension name).toList
      = ((last :: inner).reverse).map String.toList := by
    rw [hname, Text.toList_intercalate,
      Text.splitOn_joinWith hne fun c hc => (hcomps c hc).slashless]
  have hrelative : Relative (store.naming.withExtension name) := by
    unfold Relative
    rw [hsplit]
    exact hcomps
  refine ⟨name, hrelative, ?_⟩
  rw [objectPlace_of_footed h hrelative]
  unfold parts
  rw [hsplit, ofList_toList_map, List.reverse_append, List.reverse_reverse]

theorem listing_cases (hsound : tree.Sound)
    (hplain : ∀ part ∈ (keyPath (scanned query)).names, isDots part = false) :
    (∀ key, Item.key key ∉ listing tree query)
      ∨ Scannable query ∧ (keyPath (scanned query)).holdsZero = false
        ∧ tree.hasDirectory (keyPath (scanned query)).names.reverse = true := by
  cases hzero : (keyPath (scanned query)).holdsZero with
  | true =>
    left
    intro key
    unfold listing
    dsimp only
    rw [hzero, if_pos rfl]
    exact List.not_mem_nil
  | false =>
    cases hdir : tree.isDirectory (keyPath (scanned query)) with
    | error code =>
      left
      intro key
      rw [listing_of_error hzero hdir]
      simp
    | ok found =>
      cases found with
      | false =>
        left
        intro key
        unfold listing
        dsimp only
        rw [hzero, if_neg Bool.false_ne_true, hdir]
        cases tree.locate (keyPath (scanned query)) with
        | error code => exact List.not_mem_nil
        | ok place => exact List.not_mem_nil
      | true =>
        right
        have hstat : tree.stat (keyPath (scanned query)) = .ok .directory := by
          unfold isDirectory at hdir
          split at hdir
          next hstat => exact hstat
          all_goals cases hdir
        obtain ⟨hfits, hget⟩ := (stat_scanned_iff hsound hplain).1 hstat
        exact ⟨⟨hplain, hfits⟩, rfl, hasDirectory_iff.2 hget⟩

theorem names_walkOf_iff (h : store.location.Footed outer) (hspelled : Spelled store world)
    (hfiles : store.backend = .files) :
    (store.walkOf world "" "" {}).names.Nodup
      ∧ ∀ name, Relative (store.naming.withExtension name) →
        (name ∈ (store.walkOf world "" "" {}).names ↔ store.Keeps world name) := by
  have hplain : ∀ part ∈ (keyPath (scanned (store.query ""))).names, Tree.isDots part = false := by
    rw [names_scanned_query h]
    exact fun part hpart => isDots_eq_of_plain (plain_ofList_map h.plain part hpart)
  rcases listing_cases hspelled.sound hplain with hnone | ⟨hscannable, hzero, hdir⟩
  · have hnil : (store.walkOf world "" "" {}).names = [] := by
      apply names_walkOf_eq_nil
      intro offset
      unfold Store.listing
      rw [hfiles]
      exact hnone
    rw [hnil]
    refine ⟨List.nodup_nil, fun name hname => iff_of_false List.not_mem_nil ?_⟩
    rintro ⟨horderly, raw, hhas⟩
    -- An object shows that the directory is there, and then its key is listed.
    obtain ⟨hscannable, hzero, hdir⟩ :=
      scannable_of_has h hname hspelled.sound hfiles hhas
    have hkey := (mem_keysBelow_base_iff h hspelled hdir hfiles).2
      ⟨name, ⟨horderly, raw, hhas⟩, rfl⟩
    rw [listing_of_directory hscannable hspelled.sound hzero hdir] at hnone
    exact hnone _ (Listing.key_mem_ofKeys.2 hkey)
  · obtain ⟨names, hlists⟩ := lists_of_directory h hspelled hdir hfiles hscannable hzero
    rw [hlists.names_walkOf h.clean]
    exact ⟨hlists.nodup, fun name _ => hlists.mem_iff name⟩

end Files

end Store

namespace Session

open Store Store.Files Files

variable {root store : Store} {origin : World} {session : Session} {outer : List Component}

theorem Reached.spelled (hsound : origin.tree.Sound) (hfiles : store.backend = .files)
    (hfooted : store.location.Footed outer) (hlasting : store.Lasting)
    (hblank : store.Blank origin) (hreached : Reached root origin session)
    (hentries : ∀ entry ∈ session.entries, entry.store = store) :
    Spelled store session.world := by
  obtain ⟨hsourced, hfits⟩ := hreached.traced hsound
  refine ⟨hsourced.sound, ?_⟩
  intro place raw hwithin hne hfile
  rcases hsourced.file_of place raw hfile with horigin | ⟨entry, hentry, rfl, rfl⟩
  · have hnone := hblank
    unfold Store.Blank at hnone
    rw [hfiles] at hnone
    rw [basePlace_of_footed hfooted] at hwithin
    exact absurd horigin (hnone place raw (by rw [basePlace_of_footed hfooted]; exact hwithin))
  · obtain rfl := hentries entry hentry
    obtain ⟨hinside, hshort⟩ := hfits entry hentry hfiles
    have hhas : entry.store.Has session.world entry.name (entry.store.raw entry.source) :=
      (has_files_iff_get? hsourced.sound hfiles).2
        ⟨hinside.congr hsourced.current_eq, hshort, hfile⟩
    unfold isWithin at hwithin
    rw [basePlace_of_footed hfooted] at hwithin hne
    obtain ⟨inner, hplace⟩ := List.isSuffixOf_iff_suffix.1 hwithin
    cases inner with
    | nil => exact absurd hplace.symm hne
    | cons last inner =>
      have hplain := plain_objectPlace entry.store entry.name
      rw [← hplace] at hplain
      obtain ⟨name, hname, hsame⟩ := exists_objectPlace hfooted
        (fun part hpart => hplain part (List.mem_append_left _ hpart))
        (endsWith_objectPlace hlasting hplace.symm)
      rw [hplace] at hsame
      exact ⟨name, hname, has_of_objectPlace hfooted hname hsourced.sound hfiles hsame.symm hhas,
        hsame.symm⟩

/--
After any writes and deletions in a store in a directory, a walk visits a name if there is an object
and its file is not named like a staging file, and it visits none twice.
-/
theorem visited_iff (hsound : origin.tree.Sound) (hfiles : store.backend = .files)
    (hbase : store.Grounded) (hlasting : store.Lasting) (hblank : store.Blank origin)
    (hreached : Reached root origin session)
    (hentries : ∀ entry ∈ session.entries, entry.store = store) :
    ∃ walk, ((store.walk "" {}).perform session.world).1 = .ok walk ∧ walk.names.Nodup
      ∧ ∀ name, Relative (store.naming.withExtension name) →
        (name ∈ walk.names
          ↔ ((store.contains name).perform session.world).1 = .ok true
            ∧ isStaging ((parts store name).getLastD "") = false) := by
  obtain ⟨outer, hfooted⟩ := hbase.footed
  have hspelled := hreached.spelled hsound hfiles hfooted hlasting hblank hentries
  obtain ⟨hnodup, hmem⟩ := names_walkOf_iff hfooted hspelled hfiles
  refine ⟨_, (walkFrom_yields store "" "" {} session.world).fst_eq, hnodup, fun name hname => ?_⟩
  rw [hmem name hname, contains_files_iff hspelled.sound hfiles]
  constructor
  · rintro ⟨horderly, hhas⟩
    exact ⟨hhas, horderly.unstaged hfiles⟩
  · rintro ⟨hhas, hunstaged⟩
    exact ⟨⟨hname, fun _ => hunstaged⟩, hhas⟩

section Sample

theorem grounded_shelf : shelf.Grounded := by
  have hpath : Text.startsWith "/" "/d" = true ∧ cleanJoin ["/d"] = "/d" := by decide
  exact ⟨rfl, fun hbucket => absurd rfl hbucket, .inl hpath⟩

theorem reached_written {name : String} {source : Source} {overwrite : Option Bool} {world : World}
    (h : (shelf.write name source overwrite).perform (bare.meeting none) = (.ok true, world)) :
    Reached shelf bare ⟨[shelf], [⟨shelf, name, source⟩], world⟩
      ∧ shelf.Has world name (shelf.raw source) := by
  have hhonest : shelf.Honest (bare.meeting none) name := honest_of_files rfl _ _
  have hstep : Step bare ⟨[shelf], [], bare⟩
      ⟨[shelf], recorded ⟨shelf, name, source⟩ (.ok true) [], world⟩ :=
    .write List.mem_cons_self name source overwrite none hhonest h
  have hstart : Sourced bare [] bare := (Traced.start sound_bare shelf).sourced
  obtain ⟨-, hwrote⟩ := hstart.write hhonest h
  exact ⟨Reached.start.step hstep, (hwrote rfl).2⟩

theorem visited_iff_sample :
    ∃ session walk, Reached shelf bare session
      ∧ ((shelf.walk "" {}).perform session.world).1 = .ok walk ∧ "a" ∈ walk.names := by
  obtain ⟨world, hperform, hworld, -, -⟩ := exists_shelved .empty
  obtain ⟨hreached, hhas⟩ := reached_written hperform
  obtain ⟨walk, hwalk, -, hmem⟩ := visited_iff sound_bare rfl grounded_shelf (by decide)
    clear_shelf hreached (List.forall_mem_singleton.2 rfl)
  exact ⟨_, walk, hreached, hwalk, (hmem "a" (by decide)).2
    ⟨(contains_files_iff hworld rfl).2 ⟨_, hhas⟩, by decide⟩⟩

/-- An object that is named like a staging file is there, and no walk visits it. -/
theorem unvisited_object :
    ∃ session walk, Reached shelf bare session
      ∧ ((shelf.contains ".objstore-x.tmp").perform session.world).1 = .ok true
      ∧ ((shelf.walk "" {}).perform session.world).1 = .ok walk
      ∧ ".objstore-x.tmp" ∉ walk.names := by
  have hp : objectPathname shelf ".objstore-x.tmp" = ⟨.root, ["d", ".objstore-x.tmp"]⟩ := by
    rw [objectPathname]
    decide
  have hpath : checkedPath shelf ".objstore-x.tmp" (bare.meeting none).tree
      = .ok ⟨.root, ["d", ".objstore-x.tmp"]⟩ := by
    have hbare : (bare.meeting none).tree.Sound := sound_bare
    rw [checkedPath_of_within hbare ⟨by rw [hp]; decide, by decide, by rw [hp]; decide⟩, hp]
  have hmake : bare.tree.makeDirectory ⟨.root, ["d"]⟩ = .ok (bare.tree.insert ["d"] .directory) := by
    unfold Tree.makeDirectory
    rw [(Tree.Leads.root bare.tree).entry?_pathname (by decide)]
    rfl
  have hmade : (bare.meeting none).tree.makeDirectories .root ["d"]
      = (.ok (), bare.tree.insert ["d"] .directory) := by
    unfold Tree.makeDirectories
    dsimp only
    rw [show (bare.meeting none).tree.makeDirectory ⟨.root, ["d"].reverse⟩ = _ from hmake]
  have hentry : Tree.entry? (bare.tree.insert ["d"] .directory) ⟨.root, ["d", ".objstore-x.tmp"]⟩
      = .ok (some [".objstore-x.tmp", "d"]) := by
    have hleads : (bare.tree.insert ["d"] .directory).Leads .root ["d"] ["d"] :=
      (Tree.Leads.root _).concat rfl (by decide) rfl
    exact hleads.entry?_pathname (by decide)
  have hfits : Tree.refuses .root ["d"] (freshStaging (bare.tree.insert ["d"] .directory)
      ⟨.root, ["d", ".objstore-x.tmp"]⟩) = false := by decide
  obtain ⟨world, hperform, -⟩ := replace_performs rfl hp hpath hmade hfits hentry
    (by decide) (Source.content_ofBytes .empty)
  obtain ⟨hreached, hhas⟩ := reached_written hperform
  obtain ⟨outer, hfooted⟩ := grounded_shelf.footed
  have hspelled := hreached.spelled sound_bare rfl hfooted (by decide) clear_shelf
    (List.forall_mem_singleton.2 rfl)
  obtain ⟨-, hmem⟩ := names_walkOf_iff hfooted hspelled rfl
  refine ⟨_, _, hreached, (contains_files_iff hspelled.sound rfl).2 ⟨_, hhas⟩,
    (walkFrom_yields shelf "" "" {} world).fst_eq, ?_⟩
  rw [hmem _ (by decide)]
  rintro ⟨horderly, -⟩
  have hstaging := horderly.unstaged rfl
  revert hstaging
  decide

end Sample

end Session

end Depot
