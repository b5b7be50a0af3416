import Depot.Proofs.Path.Letters

/-!
This module contains the theory of locations as URLs: a URL is read part by part, and what a
location is written as is read as that location again, also below any segments.
-/

namespace Depot

namespace Location

open Depot.Path

namespace Url

variable {text scheme : String} {url : Url} {cs host path rest : List Char}

def schemes : List String :=
  ["gs", "s3", "file"]

/-- Whether a character in a path ends it, or is dropped from it. -/
def isMark (c : Char) : Bool :=
  c = '?' || c = '#' || isSkipped c

def Bare (text : String) : Prop :=
  ∀ c ∈ text.toList, isMark c = false

instance (text : String) : Decidable (Bare text) :=
  List.decidableBAll (fun c => isMark c = false) text.toList

theorem isSkipped_of_isMark {c : Char} (h : isMark c = false) : isSkipped c = false := by
  unfold isMark at h
  exact (Bool.or_eq_false_iff.1 h).2

theorem bare_cleanJoin {parts : List String} (h : ∀ part ∈ parts, Bare part) :
    Bare (cleanJoin parts) := by
  intro c hc
  rcases mem_cleanJoin hc with rfl | rfl | ⟨part, hpart, hmem⟩
  · decide
  · decide
  · exact h part hpart c hmem

theorem splitScheme_append (h : scheme ∈ schemes) (rest : List Char) :
    splitScheme (scheme.toList ++ ':' :: rest) = (scheme.toList, rest) := by
  simp only [schemes, List.mem_cons, List.not_mem_nil, or_false] at h
  rcases h with rfl | rfl | rfl
  · rfl
  · rfl
  · rfl

theorem dropWhile_isLead (h : scheme ∈ schemes) (rest : List Char) :
    (scheme.toList ++ rest).dropWhile isLead = scheme.toList ++ rest := by
  simp only [schemes, List.mem_cons, List.not_mem_nil, or_false] at h
  rcases h with rfl | rfl | rfl
  · rfl
  · rfl
  · rfl

theorem isSkipped_scheme (h : scheme ∈ schemes) : ∀ c ∈ scheme.toList, isSkipped c = false := by
  have hbare : ∀ scheme ∈ schemes, Bare scheme := by decide
  exact fun c hc => isSkipped_of_isMark (hbare scheme h c hc)

theorem takesParameters_scheme (h : scheme ∈ schemes) : takesParameters scheme = false := by
  revert scheme
  decide

theorem length_scheme (h : scheme ∈ schemes) : 1 < scheme.length := by
  revert scheme
  decide

section Reading

theorem parse_eq_ok (hscheme : scheme ∈ schemes)
    (htext : text.toList = scheme.toList ++ ':' :: rest)
    (hskipped : ∀ c ∈ rest, isSkipped c = false) (hsplit : splitHost rest = (host, path))
    (hfault : hostFault? host = none) (hplain : host.any hidesDelimiter = false)
    (hbare : ∀ c ∈ path, isMark c = false) :
    Url.parse text = .ok ⟨scheme, String.ofList host, String.ofList path⟩ := by
  have hfilter : (scheme.toList ++ ':' :: rest).filter (!isSkipped ·)
      = scheme.toList ++ ':' :: rest := by
    rw [List.filter_eq_self]
    intro c hc
    rw [Bool.not_eq_true']
    rcases List.mem_append.1 hc with hc | hc
    · exact isSkipped_scheme hscheme c hc
    · rcases List.mem_cons.1 hc with rfl | hc
      · rfl
      · exact hskipped c hc
  have hmark : ∀ mark, isMark mark = true → mark ∉ path := by
    intro mark hmark hmem
    rw [hbare mark hmem] at hmark
    cases hmark
  unfold parse
  dsimp only
  rw [htext, dropWhile_isLead hscheme, hfilter, splitScheme_append hscheme]
  dsimp only
  rw [hsplit]
  dsimp only
  rw [hfault, hplain, Text.cut_of_not_mem (hmark '#' rfl), Text.cut_of_not_mem (hmark '?' rfl)]
  dsimp only
  rw [String.ofList_toList, takesParameters_scheme hscheme]
  rfl

theorem splitHost_slashes (hhost : ∀ c ∈ host, endsHost c = false)
    (hpath : path = [] ∨ path.head? = some '/') :
    splitHost ('/' :: '/' :: (host ++ path)) = (host, path) := by
  have hrest : path.takeWhile (!endsHost ·) = [] ∧ path.dropWhile (!endsHost ·) = path := by
    rcases hpath with rfl | hhead
    · exact ⟨rfl, rfl⟩
    · obtain ⟨rest, rfl⟩ := List.head?_eq_some_iff.1 hhead
      exact ⟨rfl, rfl⟩
  have hall : ∀ c ∈ host, (!endsHost c) = true := by
    intro c hc
    rw [hhost c hc]
    rfl
  change ((host ++ path).takeWhile (!endsHost ·), (host ++ path).dropWhile (!endsHost ·)) = _
  rw [List.takeWhile_append_of_pos hall, List.dropWhile_append_of_pos hall, hrest.1, hrest.2,
    List.append_nil]

theorem splitHost_slash (h : rest.head? ≠ some '/') :
    splitHost ('/' :: rest) = ([], '/' :: rest) := by
  unfold splitHost
  split
  next heq =>
    rw [List.cons.injEq] at heq
    rw [heq.2] at h
    exact absurd rfl h
  · rfl

end Reading

section Parts

theorem subset_splitScheme {letters : List Char} (h : splitScheme cs = (letters, rest)) :
    rest ⊆ cs := by
  unfold splitScheme at h
  split at h
  next hcut =>
    split at h
    · cases h
      apply List.IsSuffix.subset
      apply Text.suffix_cut
      rw [hcut]
    · cases h
      exact List.Subset.refl _
  · cases h
    exact List.Subset.refl _

theorem splitHost_spec (h : splitHost cs = (host, path)) :
    host ++ path ⊆ cs ∧ (∀ c ∈ host, endsHost c = false)
      ∧ (host ≠ [] → ∀ c, path.head? = some c → endsHost c = true) := by
  unfold splitHost at h
  split at h
  next rest =>
    cases h
    refine ⟨?_, ?_, ?_⟩
    · rw [List.takeWhile_append_dropWhile]
      exact fun c hc => List.mem_cons_of_mem _ (List.mem_cons_of_mem _ hc)
    · intro c hc
      have hkept := List.all_eq_true.1 List.all_takeWhile c hc
      rw [Bool.not_eq_true'] at hkept
      exact hkept
    · intro _ c hc
      have hdropped := List.head?_dropWhile_not (!endsHost ·) rest
      rw [hc] at hdropped
      simpa using hdropped
  · cases h
    exact ⟨List.Subset.refl _, List.forall_mem_nil _, fun hne => absurd rfl hne⟩

def front (path : List Char) : List Char :=
  (Text.cut '?' (Text.cut '#' path).1).1

theorem prefix_front (path : List Char) : front path <+: path :=
  (Text.prefix_cut '?' _).trans (Text.prefix_cut '#' path)

theorem ne_of_mem_front {c : Char} (h : c ∈ front path) : c ≠ '?' ∧ c ≠ '#' := by
  refine ⟨?_, ?_⟩
  · rintro rfl
    exact Text.not_mem_cut '?' _ h
  · rintro rfl
    exact Text.not_mem_cut '#' path ((Text.prefix_cut '?' _).subset h)

theorem isMark_front {c : Char} (h : c ∈ front path) (hskipped : isSkipped c = false) :
    isMark c = false := by
  obtain ⟨hquery, hfragment⟩ := ne_of_mem_front h
  unfold isMark
  simp [hquery, hfragment, hskipped]

theorem head?_front (h : ∀ c, path.head? = some c → endsHost c = true) :
    front path = [] ∨ Path.isRooted (front path) = true := by
  obtain ⟨more, hmore⟩ := prefix_front path
  cases hfront : front path with
  | nil => exact .inl rfl
  | cons c rest =>
    have hmem : c ∈ front path := by
      rw [hfront]
      exact List.mem_cons_self
    obtain ⟨hquery, hfragment⟩ := ne_of_mem_front hmem
    have hends : endsHost c = true := by
      apply h
      rw [← hmore, hfront]
      rfl
    unfold endsHost at hends
    simp only [hquery, hfragment, decide_false, Bool.or_false, decide_eq_true_eq] at hends
    rw [hends]
    exact .inr rfl

structure Hosts (host : String) : Prop where
  unended : ∀ c ∈ host.toList, endsHost c = false
  unskipped : ∀ c ∈ host.toList, isSkipped c = false
  faultless : hostFault? host.toList = none
  plain : host.toList.any hidesDelimiter = false

theorem parse_spec (h : Url.parse text = .ok url) (hscheme : takesParameters url.scheme = false) :
    Hosts url.host ∧ Bare url.path
      ∧ (url.host ≠ "" → url.path = "" ∨ Path.isRooted url.path.toList = true) := by
  unfold parse at h
  dsimp only at h
  have hunskipped : ∀ c ∈ (text.toList.dropWhile isLead).filter (!isSkipped ·),
      isSkipped c = false := by
    intro c hc
    have hkept := (List.mem_filter.1 hc).2
    rw [Bool.not_eq_true'] at hkept
    exact hkept
  generalize (text.toList.dropWhile isLead).filter (!isSkipped ·) = cs at h hunskipped
  rcases hletters : splitScheme cs with ⟨letters, rest⟩
  rcases hsplit : splitHost rest with ⟨host, path⟩
  obtain ⟨hsubset, hunended, hended⟩ := splitHost_spec hsplit
  rw [hletters] at h
  dsimp only at h
  rw [hsplit] at h
  dsimp only at h
  have hrest : ∀ c ∈ host ++ path, isSkipped c = false :=
    fun c hc => hunskipped c (subset_splitScheme hletters (hsubset hc))
  split at h
  · cases h
  next hfault =>
    split at h
    · cases h
    next hplain =>
      injection h with h
      subst h
      dsimp only at hscheme ⊢
      rw [hscheme]
      refine ⟨⟨?_, ?_, ?_, ?_⟩, ?_, ?_⟩
      · rw [String.toList_ofList]
        exact hunended
      · rw [String.toList_ofList]
        exact fun c hc => hrest c (List.mem_append_left _ hc)
      · rw [String.toList_ofList]
        exact hfault
      · rw [String.toList_ofList]
        exact eq_false_of_ne_true hplain
      · intro c hc
        change c ∈ (String.ofList (front path)).toList at hc
        rw [String.toList_ofList] at hc
        exact isMark_front hc (hrest c (List.mem_append_right _ ((prefix_front path).subset hc)))
      · intro hhost
        have hne : host ≠ [] := by
          rintro rfl
          exact hhost rfl
        change String.ofList (front path) = ""
          ∨ Path.isRooted (String.ofList (front path)).toList = true
        rw [String.toList_ofList]
        apply (head?_front (hended hne)).imp_left
        intro hfront
        rw [hfront]

end Parts

end Url

variable {resolve : String → Except Failure String} {text segment : String} {url : Url}
  {location : Location}

section Trim

variable {path : String}

theorem trimmed_of_short (h : path.length ≤ 1) : Trimmed path := by
  unfold Trimmed
  rw [← String.length_toList] at h
  rw [← String.toList_inj]
  match path.toList, h with
  | [], _ => exact .inr (by simp)
  | [c], _ =>
    by_cases hc : c = '/'
    · exact .inl (by rw [hc]; rfl)
    · exact .inr (by simpa using hc)

theorem eq_slash_of_stripEnd (h : Text.stripEnd '/' path = "") : ∀ c ∈ path.toList, c = '/' := by
  have hnil := congrArg String.toList h
  unfold Text.stripEnd Text.dropWhileEnd at hnil
  rw [String.toList_ofList, String.toList_empty, List.reverse_eq_nil_iff] at hnil
  have hall := List.takeWhile_append_dropWhile (p := (· = '/')) (l := path.toList.reverse)
  rw [hnil, List.append_nil] at hall
  intro c hc
  rw [← List.mem_reverse, ← hall] at hc
  exact of_decide_eq_true (List.all_eq_true.1 List.all_takeWhile c hc)

theorem trimPath_spec (path : String) :
    Trimmed (trimPath path) ∧ (trimPath path).toList <+: path.toList
      ∧ (trimPath path = "" → path = "") := by
  unfold trimPath
  split
  next hshort => exact ⟨trimmed_of_short hshort, List.prefix_rfl, id⟩
  next hlong =>
    dsimp only
    split
    next hempty =>
      -- All of the path is slashes, and it is not empty.
      have hne : path.toList ≠ [] := by
        intro hpath
        rw [← String.length_toList, hpath] at hlong
        exact hlong (Nat.zero_le 1)
      obtain ⟨c, rest, hpath⟩ := List.exists_cons_of_ne_nil hne
      have hslash : c = '/' := by
        apply eq_slash_of_stripEnd hempty
        rw [hpath]
        exact List.mem_cons_self
      refine ⟨.inl rfl, ⟨rest, ?_⟩, fun hroot => absurd hroot (by decide)⟩
      rw [hpath, hslash]
      rfl
    next hne =>
      unfold Text.stripEnd at hne ⊢
      rw [Trimmed, String.toList_ofList]
      exact ⟨.inr (Text.getLast?_dropWhileEnd '/' _), Text.prefix_dropWhileEnd _ _,
        fun hempty => absurd hempty hne⟩

theorem trimPath_of_trimmed (h : Trimmed path) : trimPath path = path := by
  rcases h with rfl | hlast
  · rfl
  · unfold trimPath Text.stripEnd
    rw [Text.dropWhileEnd_of_last hlast, String.ofList_toList]
    split
    · rfl
    next hlong =>
      refine if_neg ?_
      rintro rfl
      exact hlong (Nat.zero_le 1)

theorem isRooted_trimPath (path : String) :
    Path.isRooted (trimPath path).toList = Path.isRooted path.toList := by
  obtain ⟨-, hprefix, hempty⟩ := trimPath_spec path
  obtain ⟨more, hmore⟩ := hprefix
  by_cases hne : trimPath path = ""
  · rw [hne, hempty hne]
  · rw [← hmore, isRooted_append (toList_ne_nil hne)]

theorem bare_trimPath (h : Url.Bare path) : Url.Bare (trimPath path) :=
  fun c hc => h c ((trimPath_spec path).2.1.subset hc)

end Trim

structure Sited (location : Location) : Prop where
  scheme : location.scheme ∈ Url.schemes
  host : Url.Hosts location.host
  bare : Url.Bare location.path
  trimmed : Trimmed location.path
  anchored : location.isRooted = true ∨ location.path = "" ∧ location.host ≠ ""

/-- Whether a location is read from the URL of a store that has a host or a path from the root. -/
structure ReadFrom (resolve : String → Except Failure String) (text : String)
    (location : Location) : Prop where
  parse_eq : parse resolve text = .ok location
  parts : ∃ url, Url.parse text = .ok url ∧ url.scheme ∈ Url.schemes
    ∧ (url.host ≠ "" ∨ Text.startsWith "/" url.path = true)

theorem parse_of_url (hurl : Url.parse text = .ok url) (hscheme : url.scheme ∈ Url.schemes) :
    parse resolve text = .ok ⟨url.scheme, url.host, trimPath url.path⟩ := by
  have hne : text ≠ "" := by
    rintro rfl
    cases hurl
    exact absurd hscheme (by decide)
  unfold parse
  rw [if_neg hne, hurl]
  exact if_neg (Nat.not_le.2 (Url.length_scheme hscheme))

theorem ReadFrom.sited (h : location.ReadFrom resolve text) : location.Sited := by
  obtain ⟨hparse, url, hurl, hscheme, hanchored⟩ := h
  obtain ⟨hhost, hbare, hrooted⟩ := Url.parse_spec hurl (Url.takesParameters_scheme hscheme)
  rw [parse_of_url hurl hscheme] at hparse
  cases hparse
  refine ⟨hscheme, hhost, bare_trimPath hbare, (trimPath_spec _).1, ?_⟩
  unfold isRooted
  rw [isRooted_trimPath]
  rw [startsWith_slash] at hanchored
  by_cases hne : url.host = ""
  · exact .inl (hanchored.resolve_left fun hhost => hhost hne)
  · apply (hrooted hne).symm.imp_right
    intro hpath
    rw [hpath]
    exact ⟨rfl, hne⟩

theorem toList_render (location : Location) :
    location.render.toList
      =
    location.scheme.toList
      ++ ':' :: '/' :: '/' :: (location.host.toList ++ location.path.toList) := by
  unfold render
  rw [String.toList_append, String.toList_append, String.toList_append, List.append_assoc,
    List.append_assoc]
  rfl

namespace Sited

variable (h : location.Sited)

include h

theorem join (hsegment : Url.Bare segment) : (location.join segment).Sited := by
  have hbare : Url.Bare (cleanJoin [location.path, segment]) := by
    apply Url.bare_cleanJoin
    simp only [List.mem_cons, List.not_mem_nil, or_false, forall_eq_or_imp, forall_eq]
    exact ⟨h.bare, hsegment⟩
  have htrimmed := trimmed_cleanJoin [location.path, segment]
  have hrooted : Path.isRooted (cleanJoin [location.path, segment]).toList = true
      ∨ location.host ≠ "" :=
    h.anchored.imp (isRooted_cleanJoin · segment) And.right
  unfold Location.join
  generalize cleanJoin [location.path, segment] = path at hbare htrimmed hrooted ⊢
  dsimp only
  rw [startsWith_slash]
  split
  next hunrooted =>
    obtain ⟨-, hne, hslash⟩ := hunrooted
    rw [Bool.not_eq_true'] at hslash
    have hlist : ("/" ++ path).toList = '/' :: path.toList := by simp
    refine ⟨h.scheme, h.host, ?_, .inr ?_, .inl ?_⟩
    · intro c hc
      dsimp only at hc
      rw [hlist, List.mem_cons] at hc
      rcases hc with rfl | hc
      · rfl
      · exact hbare c hc
    · dsimp only
      have hlast : path.toList.getLast? ≠ some '/' := by
        apply htrimmed.resolve_left
        rintro rfl
        cases hslash
      obtain ⟨c, rest, hpath⟩ := List.exists_cons_of_ne_nil (toList_ne_nil hne)
      rw [hlist, hpath, List.getLast?_cons_cons, ← hpath]
      exact hlast
    · unfold isRooted
      dsimp only
      rw [hlist]
      rfl
  next hkept =>
    refine ⟨h.scheme, h.host, hbare, htrimmed, ?_⟩
    unfold isRooted
    dsimp only
    by_cases hslash : Path.isRooted path.toList = true
    · exact .inl hslash
    · have hhost := hrooted.resolve_left hslash
      by_cases hne : path = ""
      · exact .inr ⟨hne, hhost⟩
      · exact absurd ⟨hhost, hne, by simpa using hslash⟩ hkept

theorem foldl_join {segments : List String} (hsegments : ∀ segment ∈ segments, Url.Bare segment) :
    (segments.foldl Location.join location).Sited := by
  induction segments generalizing location with
  | nil => exact h
  | cons segment segments ih =>
    rw [List.forall_mem_cons] at hsegments
    exact ih (h.join hsegments.1) hsegments.2

theorem parse_render : parse resolve location.render = .ok location := by
  have hpath : location.path.toList = [] ∨ location.path.toList.head? = some '/' := by
    rcases h.anchored with hrooted | ⟨hempty, -⟩
    · exact .inr (of_decide_eq_true hrooted)
    · rw [hempty]
      exact .inl rfl
  have hskipped : ∀ c ∈ '/' :: '/' :: (location.host.toList ++ location.path.toList),
      Url.isSkipped c = false := by
    simp only [List.forall_mem_cons, List.forall_mem_append]
    exact ⟨rfl, rfl, h.host.unskipped, fun c hc => Url.isSkipped_of_isMark (h.bare c hc)⟩
  have hurl := Url.parse_eq_ok h.scheme (toList_render location) hskipped
    (Url.splitHost_slashes h.host.unended hpath) h.host.faultless h.host.plain h.bare
  rw [String.ofList_toList, String.ofList_toList] at hurl
  rw [parse_of_url hurl h.scheme]
  dsimp only
  rw [trimPath_of_trimmed h.trimmed]

end Sited

end Location

end Depot
