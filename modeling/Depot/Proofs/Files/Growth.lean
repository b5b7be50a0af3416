import Depot.Proofs.Files.Settled

/-!
This module contains the proof that all directories on a way can be made, if the way goes nowhere up,
is short enough and leads through no file.
-/

namespace Depot.Files.Tree

variable {tree tree' : Tree} {place : Place} {name : String} {names outer : List String}
  {start : Start} {links : Nat} {new : Place → Prop}

/-- Whether there is no file on the way from a place. -/
def Open (tree : Tree) (place : Place) (names : List String) : Prop :=
  ∀ front, front <+: names → ∀ bytes, tree.get? (front.reverse ++ place) ≠ some (.file bytes)

namespace Open

theorem of_isPrefix (h : tree.Open place names) (hbegins : outer <+: names) :
    tree.Open place outer :=
  fun front hfront => h front (hfront.trans hbegins)

theorem tail (h : tree.Open place (name :: names)) : tree.Open (name :: place) names := by
  intro front hfront bytes
  have hfile := h (name :: front) (List.cons_prefix_cons.2 ⟨rfl, hfront⟩) bytes
  rw [List.reverse_cons, List.append_assoc, List.singleton_append] at hfile
  exact hfile

theorem of_extends (h : tree.Open place names) (hextends : tree.Extends tree' new) :
    tree'.Open place names := by
  intro front hfront bytes hget
  exact h front hfront bytes ((hextends.get?_file_iff _ bytes).1 hget)

theorem hasDirectory (hsound : tree.Sound) (h : tree.Open place names)
    (hget : tree.get? (names.reverse ++ place) ≠ none) :
    tree.hasDirectory (names.reverse ++ place) = true := by
  obtain ⟨node, hnode⟩ := Option.ne_none_iff_exists'.1 hget
  rw [hasDirectory_iff, hnode]
  cases node with
  | file bytes => exact absurd hnode (h names (List.prefix_refl names) bytes)
  | directory => rfl
  | link target => exact absurd hnode (hsound.linkless _ target)

end Open

theorem follow_open (hsound : tree.Sound) (hplain : ∀ name ∈ names, isDots name = false)
    (hshort : ∀ name ∈ names, isTooLong name = false) (hopen : tree.Open place names)
    (hdir : tree.hasDirectory place = true) :
    tree.follow false links place names = .ok (names.reverse ++ place)
        ∧ tree.hasDirectory (names.reverse ++ place) = true
      ∨ tree.follow false links place names = .error .noEntry := by
  induction names generalizing place with
  | nil => exact .inl ⟨follow_nil tree false links place, hdir⟩
  | cons name names ih =>
    rw [List.forall_mem_cons] at hplain hshort
    rw [List.reverse_cons, List.append_assoc, List.singleton_append,
      follow_plain (hsound.linkless _) hdir hplain.1, hshort.1, if_neg Bool.false_ne_true]
    by_cases hget : tree.get? (name :: place) = none
    · rw [if_pos hget]
      exact .inr rfl
    · rw [if_neg hget]
      have hfirst : tree.Open place [name] := hopen.of_isPrefix (List.prefix_append [name] names)
      exact ih hplain.2 hshort.2 hopen.tail (hfirst.hasDirectory hsound hget)

section Growth

variable {p : Pathname}

theorem Fits.of_isPrefix (hfits : Pathname.Fits ⟨start, names⟩) (hbegins : outer <+: names) :
    Pathname.Fits ⟨start, outer⟩ := by
  refine ⟨?_, ?_⟩
  · have hshort := of_decide_eq_false hfits.short
    have hle := render_dropLast_le ⟨start, names⟩ outer hbegins
    apply decide_eq_false
    dsimp only at hle hshort
    omega
  · intro name hname
    exact hfits.names_short name (hbegins.subset hname)

theorem Fits.of_isSuffix {start' : Start} (hfits : Pathname.Fits ⟨start, names⟩)
    (hstart : start'.render.utf8ByteSize ≤ start.render.utf8ByteSize) (hends : outer <:+ names) :
    Pathname.Fits ⟨start', outer⟩ := by
  refine ⟨?_, fun name hname => hfits.names_short name (hends.subset hname)⟩
  obtain ⟨more, rfl⟩ := hends
  have hshort := of_decide_eq_false hfits.short
  have hwidth := Pathname.le_width_append more outer
  rw [Pathname.utf8ByteSize_render] at hshort
  apply decide_eq_false
  rw [Pathname.utf8ByteSize_render]
  dsimp only at hshort ⊢
  omega

theorem leads_of_hasDirectory (hsound : tree.Sound) (hroot : tree.startOf ⟨start, names⟩ = [])
    (hplain : ∀ name ∈ names, isDots name = false) (hfits : Pathname.Fits ⟨start, names⟩)
    (hdir : tree.hasDirectory names.reverse = true) : tree.Leads start names names.reverse := by
  refine ⟨?_, hdir⟩
  have hget : tree.get? (names.reverse ++ []) ≠ none := by
    rw [List.append_nil, hasDirectory_iff.1 hdir]
    simp
  rw [hroot, follow_of_get? hsound hplain hfits.names_short hget, List.append_nil]

theorem finishDirectory_ok (hsound : tree.Sound) (hroot : tree.startOf ⟨start, outer⟩ = [])
    (hplain : ∀ inner ∈ outer ++ [name], isDots inner = false)
    (hfits : Pathname.Fits ⟨start, outer ++ [name]⟩) (hopen : tree.Open [] (outer ++ [name]))
    (hdir : tree.hasDirectory outer.reverse = true) :
    (tree.finishDirectory ⟨start, outer ++ [name]⟩).1 = .ok () := by
  have houter : ∀ name ∈ outer, isDots name = false := by
    intro inner hinner
    exact hplain inner (List.mem_append_left _ hinner)
  have hdots : isDots name = false := hplain name (by simp)
  have hleads := leads_of_hasDirectory hsound hroot houter
    (Fits.of_isPrefix hfits (List.prefix_append outer [name])) hdir
  have hrefuses : refuses start outer name = false := by
    unfold refuses
    rw [hfits.short, hfits.names_short name (by simp), Bool.and_false, Bool.or_false]
  have hentry := hleads.entry?_eq name
  have hisDir := hleads.isDirectory_eq hsound name
  rw [hrefuses, if_neg Bool.false_ne_true, Leads.lastPlace?_plain hdots] at hentry hisDir
  unfold finishDirectory makeDirectory
  rw [hentry]
  simp only [bind, Except.bind]
  cases hget : tree.get? (name :: outer.reverse) with
  | none => rfl
  | some node =>
    -- What is there is on the way, so it is a directory.
    have hthere : tree.hasDirectory ((outer ++ [name]).reverse ++ []) = true := by
      apply hopen.hasDirectory hsound
      rw [List.append_nil, List.reverse_append, List.reverse_singleton, List.singleton_append, hget]
      simp
    rw [List.append_nil, List.reverse_append, List.reverse_singleton, List.singleton_append]
      at hthere
    dsimp only at hisDir
    rw [hthere] at hisDir
    rw [Option.isSome_some, if_pos rfl]
    dsimp only [throw, throwThe, MonadExceptOf.throw]
    rw [if_neg (by simp)]
    unfold acceptDirectory
    rw [hisDir]

theorem makeDirectories_ok (hsound : tree.Sound) (hroot : ∀ names, tree.startOf ⟨start, names⟩ = [])
    (hplain : ∀ name ∈ names, isDots name = false) (hfits : Pathname.Fits ⟨start, names.reverse⟩)
    (hopen : tree.Open [] names.reverse) : (tree.makeDirectories start names).1 = .ok () := by
  induction names with
  | nil =>
    have hnil := leads_of_hasDirectory hsound (hroot []) (List.forall_mem_nil _) hfits rfl
    have hstat : tree.stat ⟨start, []⟩ = .ok .directory := hnil.stat_pathname hsound hfits.short
    rw [makeDirectories_nil]
    unfold finishDirectory makeDirectory acceptDirectory isDirectory
    rw [entry?_nil]
    dsimp only [bind, Except.bind, throw, throwThe, MonadExceptOf.throw]
    rw [if_neg (by simp), hstat]
  | cons name outer ih =>
    rw [List.reverse_cons] at hfits hopen
    have hbegins := List.prefix_append outer.reverse [name]
    have houter := (List.forall_mem_cons.1 hplain).2
    have hplain' : ∀ inner ∈ outer.reverse ++ [name], isDots inner = false := by
      intro inner hinner
      apply hplain inner
      rw [← List.mem_reverse, List.reverse_cons]
      exact hinner
    by_cases hparent : tree.makeDirectory ⟨start, (name :: outer).reverse⟩ = .error .noEntry
    · have hmade := ih houter (Fits.of_isPrefix hfits hbegins) (hopen.of_isPrefix hbegins)
      have hextends := makeDirectories_extends hsound start outer
      obtain ⟨directory, hleads⟩ := makeDirectories_leads hmade
      rw [makeDirectories_of_no_parent hparent]
      cases hgrown : tree.makeDirectories start outer with
      | mk result tree' =>
        rw [hgrown] at hmade hextends hleads
        dsimp only at hmade hextends hleads
        subst hmade
        have hstart : tree'.startOf ⟨start, outer.reverse⟩ = [] := by
          rw [startOf_congr hextends.current_eq]
          exact hroot _
        have hplace := hleads.eq_foldl hextends.sound
        rw [hstart, foldl_enter_plain (fun inner hinner =>
          houter inner (List.mem_reverse.1 hinner)), List.append_nil] at hplace
        have hdir := hleads.hasDirectory
        rw [hplace] at hdir
        dsimp only
        rw [List.reverse_cons]
        exact finishDirectory_ok hextends.sound hstart hplain' hfits (hopen.of_extends hextends) hdir
    · rw [makeDirectories_of_parent hparent, List.reverse_cons]
      rw [List.reverse_cons] at hparent
      apply finishDirectory_ok hsound (hroot _) hplain' hfits hopen
      -- Without the directory before it there would be no entry.
      rcases follow_open hsound (fun inner hinner => houter inner (List.mem_reverse.1 hinner))
        (Fits.of_isPrefix hfits hbegins).names_short (hopen.of_isPrefix hbegins) rfl with
        ⟨-, hdir⟩ | herror
      · rw [List.append_nil] at hdir
        exact hdir
      · exfalso
        apply hparent
        unfold makeDirectory
        rw [entry?_concat]
        unfold followFrom
        rw [if_neg (of_decide_eq_false hfits.short), hroot, herror]
        rfl

end Growth

end Depot.Files.Tree
