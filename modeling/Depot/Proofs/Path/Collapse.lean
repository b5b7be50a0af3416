import Depot.Proofs.Location.Stages
import Mathlib.Data.List.Induction
import Mathlib.Logic.Relation

/-!
This module contains the proof that cleaning computes a normal form: what is left of a sequence of
components once nothing in it collapses any more, in whatever order that is done. So parts may be
joined in stages.
-/

namespace Depot.Path

open Relation (ReflTransGen)

variable {rooted : Bool} {c : Component} {cs ds es kept : List Component} {parts more : List String}

/-- Whether components collapse in one place and still lead to where they led. -/
inductive Collapses (rooted : Bool) : List Component → List Component → Prop where
  | gap (front back : List Component) : Collapses rooted (front ++ [] :: back) (front ++ back)
  | dot (front back : List Component) : Collapses rooted (front ++ here :: back) (front ++ back)
  | left (front : List Component) {c : Component} (h : Plain c) (back : List Component) :
      Collapses rooted (front ++ c :: up :: back) (front ++ back)
  | top (h : rooted = true) (back : List Component) : Collapses rooted (up :: back) back

/-- Whether the second components are what is left of the first ones when nothing collapses any more. -/
structure Collapsed (rooted : Bool) (cs ds : List Component) : Prop where
  reached : ReflTransGen (Collapses rooted) cs ds
  stuck : ∀ es, ¬Collapses rooted ds es

section Collapse

theorem Collapses.append (h : Collapses rooted cs ds) (more : List Component) :
    Collapses rooted (cs ++ more) (ds ++ more) := by
  cases h with
  | gap front back =>
    rw [List.append_assoc, List.append_assoc]
    exact .gap front (back ++ more)
  | dot front back =>
    rw [List.append_assoc, List.append_assoc]
    exact .dot front (back ++ more)
  | left front hc back =>
    rw [List.append_assoc, List.append_assoc]
    exact .left front hc (back ++ more)
  | top hrooted back => exact .top hrooted (ds ++ more)

theorem Collapses.length_lt (h : Collapses rooted cs ds) : ds.length < cs.length := by
  cases h with
  | gap front back | dot front back | top hrooted back => simp
  | left front hc back =>
    simp only [List.length_append, List.length_cons]
    omega

theorem Collapses.mem (h : Collapses rooted cs ds) (hc : c ∈ ds) : c ∈ cs := by
  cases h with
  | gap front back | dot front back =>
    rcases List.mem_append.1 hc with hc | hc
    · exact List.mem_append_left _ hc
    · exact List.mem_append_right _ (List.mem_cons_of_mem _ hc)
  | left front hplain back =>
    rcases List.mem_append.1 hc with hc | hc
    · exact List.mem_append_left _ hc
    · exact List.mem_append_right _ (List.mem_cons_of_mem _ (List.mem_cons_of_mem _ hc))
  | top hrooted back => exact List.mem_cons_of_mem _ hc

theorem mem_of_reached (h : ReflTransGen (Collapses rooted) cs ds) (hc : c ∈ ds) : c ∈ cs := by
  induction h with
  | refl => exact hc
  | tail _ hlast ih => exact ih (hlast.mem hc)

theorem reached_append (h : ReflTransGen (Collapses rooted) cs ds) (more : List Component) :
    ReflTransGen (Collapses rooted) (cs ++ more) (ds ++ more) := by
  induction h with
  | refl => exact .refl
  | tail _ hlast ih => exact ih.tail (hlast.append more)

theorem step_here (rooted : Bool) (kept : List Component) : step rooted kept here = kept :=
  if_pos (.inr rfl)

theorem step_up (rooted : Bool) (c : Component) (kept : List Component) :
    step rooted (c :: kept) up = if c = up then up :: c :: kept else kept := rfl

theorem Collapses.normalize_eq (h : Collapses rooted cs ds) :
    normalize rooted cs = normalize rooted ds := by
  have hfold : cs.foldl (step rooted) [] = ds.foldl (step rooted) [] := by
    cases h with
    | gap front back => rw [List.foldl_append, List.foldl_append, List.foldl_cons, step_nil]
    | dot front back => rw [List.foldl_append, List.foldl_append, List.foldl_cons, step_here]
    | left front hc back =>
      rw [List.foldl_append, List.foldl_append, List.foldl_cons, List.foldl_cons, step_plain hc,
        step_up, if_neg hc.ne_up]
    | top hrooted back =>
      rw [hrooted]
      rfl
  unfold normalize
  rw [hfold]

theorem normalize_of_reached (h : ReflTransGen (Collapses rooted) cs ds) :
    normalize rooted cs = normalize rooted ds := by
  induction h with
  | refl => rfl
  | tail _ hlast ih => rw [ih, hlast.normalize_eq]

theorem reached_step (hkept : Settled kept.reverse) (hc : '/' ∉ c) (rooted : Bool) :
    ReflTransGen (Collapses rooted) (kept.reverse ++ [c]) (step rooted kept c).reverse := by
  by_cases hskip : c = [] ∨ c = here
  · have hone : Collapses rooted (kept.reverse ++ [c]) (kept.reverse ++ []) := by
      rcases hskip with rfl | rfl
      · exact .gap _ []
      · exact .dot _ []
    rw [List.append_nil] at hone
    unfold step
    rw [if_pos hskip]
    exact .single hone
  · rw [not_or] at hskip
    by_cases hup : c = up
    · subst hup
      cases kept with
      | nil =>
        cases rooted with
        | true => exact .single (.top rfl [])
        | false => exact .refl
      | cons k rest =>
        rw [step_up, List.reverse_cons]
        rw [List.reverse_cons] at hkept
        by_cases hk : k = up
        · rw [if_pos hk, List.reverse_cons, List.reverse_cons]
        · have hmem : k ∈ rest.reverse ++ [k] := List.mem_append_right _ List.mem_cons_self
          have hplain : Plain k :=
            ⟨(hkept.ne k hmem).1, (hkept.ne k hmem).2, hk, hkept.slashless k hmem⟩
          have hone : Collapses rooted (rest.reverse ++ [k, up]) (rest.reverse ++ []) :=
            .left _ hplain []
          rw [List.append_nil] at hone
          rw [if_neg hk, List.append_assoc]
          exact .single hone
    · rw [step_plain ⟨hskip.1, hskip.2, hup, hc⟩, List.reverse_cons]

theorem normalize_concat (rooted : Bool) (cs : List Component) (c : Component) :
    normalize rooted (cs ++ [c]) = (step rooted (normalize rooted cs).reverse c).reverse := by
  unfold normalize
  rw [List.foldl_append, List.reverse_reverse]
  rfl

theorem reached_normalize (rooted : Bool) (h : ∀ c ∈ cs, '/' ∉ c) :
    ReflTransGen (Collapses rooted) cs (normalize rooted cs) := by
  -- The last component is the last to be taken.
  induction cs using List.reverseRecOn with
  | nil => exact .refl
  | append_singleton cs c ih =>
    rw [List.forall_mem_append, List.forall_mem_singleton] at h
    have hsettled := settled_normalize rooted h.1
    rw [← List.reverse_reverse (normalize rooted cs)] at hsettled
    have hlast := reached_step hsettled h.2 rooted
    rw [List.reverse_reverse] at hlast
    rw [normalize_concat]
    exact (reached_append (ih h.1) [c]).trans hlast

theorem length_le_of_reached (h : ReflTransGen (Collapses rooted) cs ds) : ds.length ≤ cs.length := by
  induction h with
  | refl => exact Nat.le_refl _
  | tail _ hlast ih => exact Nat.le_trans (Nat.le_of_lt hlast.length_lt) ih

theorem collapsed_iff (h : ∀ c ∈ cs, '/' ∉ c) :
    Collapsed rooted cs ds ↔ ds = normalize rooted cs := by
  constructor
  · intro hcollapsed
    have hds : ∀ c ∈ ds, '/' ∉ c := fun c hc => h c (mem_of_reached hcollapsed.reached hc)
    rw [normalize_of_reached hcollapsed.reached]
    rcases (reached_normalize rooted hds).cases_head with hsame | ⟨es, hfirst, -⟩
    · exact hsame
    · exact absurd hfirst (hcollapsed.stuck es)
  · rintro rfl
    have hreached := reached_normalize rooted h
    refine ⟨hreached, fun es hone => ?_⟩
    -- A collapse would leave fewer components than the normal form has.
    have hes : ∀ c ∈ es, '/' ∉ c := fun c hc => h c (mem_of_reached (hreached.tail hone) hc)
    have hlength := length_le_of_reached (reached_normalize rooted hes)
    rw [← normalize_of_reached (hreached.tail hone)] at hlength
    exact Nat.not_lt.2 hlength hone.length_lt

end Collapse

section Normal

inductive Normal : List Char → Prop where
  | here : Normal Path.here
  | root : Normal ['/']
  | rooted {cs : List Component} (hne : cs ≠ []) (h : ∀ c ∈ cs, Plain c) :
      Normal ('/' :: Text.joinWith '/' cs)
  /-- Only at its start does a path that is not from the root leave directories. -/
  | relative {ups : Nat} {cs : List Component} (hne : List.replicate ups up ++ cs ≠ [])
      (h : ∀ c ∈ cs, Plain c) : Normal (Text.joinWith '/' (List.replicate ups up ++ cs))

variable {text : List Char}

theorem normal_render_true (h : ∀ c ∈ cs, Plain c) : Normal (render true cs) := by
  by_cases hne : cs = []
  · rw [hne]
    exact .root
  · exact .rooted hne h

theorem normal_render_false (h : Settled cs) : Normal (render false cs) := by
  obtain ⟨ups, plains, rfl, hplain⟩ := h
  by_cases hne : List.replicate ups up ++ plains = []
  · rw [hne]
    exact .here
  · rw [render_false hne]
    exact .relative hne hplain

theorem normal_cleanChars (text : List Char) : Normal (cleanChars text) := by
  have hslashless := slashless_splitOn text
  unfold cleanChars
  cases isRooted text with
  | true =>
    rw [normalize_true hslashless]
    exact normal_render_true (settled_normalize false hslashless).plain_named
  | false => exact normal_render_false (settled_normalize false hslashless)

theorem Normal.ne_nil (h : Normal text) : text ≠ [] := by
  cases h with
  | here => decide
  | root => decide
  | rooted hne hplain => exact List.cons_ne_nil _ _
  | @relative ups cs hne hplain =>
    have hsettled : Settled (List.replicate ups up ++ cs) := ⟨ups, cs, rfl, hplain⟩
    exact Text.joinWith_ne_nil hne fun c hc => (hsettled.ne c hc).1

theorem Normal.cleanChars_eq (h : Normal text) : cleanChars text = text := by
  cases h with
  | here => rfl
  | root => rfl
  | @rooted cs hne hplain =>
    have hfields : Text.fields '/' ('/' :: Text.joinWith '/' cs) = cs :=
      fields_render_true (settled_of_plain hplain)
    have hnormal : normalize true cs = cs := by
      rw [normalize_plain fun c hc => .inr (hplain c hc), filter_plain hplain]
    rw [cleanChars_eq_render, hfields]
    exact congrArg (render true) hnormal
  | @relative ups cs hne hplain =>
    have hsettled : Settled (List.replicate ups up ++ cs) := ⟨ups, cs, rfl, hplain⟩
    rw [cleanChars_eq_render, isRooted_eq_false hsettled.head?_ne, fields_joinWith hne hsettled,
      hsettled.normalize_eq, render_false hne]

end Normal

section Stages

variable {text : List Char}

def strung (parts : List String) : List Char :=
  Text.joinWith '/' ((parts.filter (· ≠ "")).map String.toList)

theorem filter_ne_eq_nil_iff : parts.filter (· ≠ "") = [] ↔ ∀ part ∈ parts, part = "" := by
  rw [List.filter_eq_nil_iff]
  simp

theorem strung_ne_nil (h : parts.filter (· ≠ "") ≠ []) : strung parts ≠ [] := by
  apply Text.joinWith_ne_nil
  · rw [ne_eq, List.map_eq_nil_iff]
    exact h
  · intro piece hpiece
    obtain ⟨part, hpart, rfl⟩ := List.mem_map.1 hpiece
    exact toList_ne_nil (of_decide_eq_true (List.mem_filter.1 hpart).2)

theorem cleanJoin_of_empty (h : ∀ part ∈ parts, part = "") : cleanJoin parts = "" := by
  unfold cleanJoin
  rw [filter_ne_eq_nil_iff.2 h]

theorem cleanJoin_of_not_empty (h : ¬∀ part ∈ parts, part = "") :
    cleanJoin parts = String.ofList (cleanChars (strung parts)) := by
  rw [← filter_ne_eq_nil_iff] at h
  unfold cleanJoin strung
  split
  next hnil => exact absurd hnil h
  · rfl

theorem cleanJoin_ne_empty (h : ¬∀ part ∈ parts, part = "") : cleanJoin parts ≠ "" := by
  rw [cleanJoin_of_not_empty h, ne_eq, String.ofList_eq_empty_iff]
  exact (normal_cleanChars _).ne_nil

theorem cleanJoin_eq_empty_iff : cleanJoin parts = "" ↔ ∀ part ∈ parts, part = "" :=
  ⟨fun hempty => Classical.byContradiction fun h => cleanJoin_ne_empty h hempty,
    cleanJoin_of_empty⟩

theorem normal_cleanJoin_iff : Normal (cleanJoin parts).toList ↔ ∃ part ∈ parts, part ≠ "" := by
  by_cases h : ∀ part ∈ parts, part = ""
  · rw [cleanJoin_of_empty h]
    refine iff_of_false (fun hnormal => hnormal.ne_nil rfl) ?_
    rintro ⟨part, hpart, hne⟩
    exact hne (h part hpart)
  · rw [cleanJoin_of_not_empty h, String.toList_ofList]
    rw [Classical.not_forall] at h
    obtain ⟨part, hpart⟩ := h
    rw [Classical.not_imp] at hpart
    exact iff_of_true (normal_cleanChars _) ⟨part, hpart⟩

theorem cleanJoin_singleton {text : String} (h : text ≠ "") :
    cleanJoin [text] = String.ofList (cleanChars text.toList) := by
  rw [cleanJoin_of_not_empty (by simpa using h)]
  unfold strung
  rw [List.filter_cons_of_pos (by simpa using h)]
  rfl

theorem normal_iff (text : String) : Normal text.toList ↔ text ≠ "" ∧ cleanJoin [text] = text := by
  constructor
  · intro h
    have hne : text ≠ "" := by
      rintro rfl
      exact h.ne_nil rfl
    rw [cleanJoin_singleton hne, h.cleanChars_eq, String.ofList_toList]
    exact ⟨hne, rfl⟩
  · rintro ⟨hne, hclean⟩
    rw [← hclean, cleanJoin_singleton hne, String.toList_ofList]
    exact normal_cleanChars _

theorem normalize_fields_append (text : List Char) (ds : List Component) :
    normalize (isRooted text) (Text.fields '/' (cleanChars text) ++ ds)
      =
    normalize (isRooted text) (Text.fields '/' text ++ ds) := by
  have hslashless := slashless_fields text
  have hsettled := settled_normalize (isRooted text) hslashless
  have hreached := reached_append (reached_normalize (isRooted text) hslashless) ds
  rw [normalize_of_reached hreached, cleanChars_eq_render]
  generalize normalize (isRooted text) (Text.fields '/' text) = cs at hsettled ⊢
  cases isRooted text with
  | true => rw [fields_render_true hsettled]
  | false =>
    by_cases hne : cs = []
    · -- The dot that stands for no components collapses.
      rw [hne]
      exact (Collapses.dot [] ds).normalize_eq
    · rw [render_false hne, fields_joinWith hne hsettled]

theorem cleanChars_cleanChars (text : List Char) : cleanChars (cleanChars text) = cleanChars text :=
  (normal_cleanChars text).cleanChars_eq

theorem cleanChars_append (hne : text ≠ []) (behind : List Char) :
    cleanChars (cleanChars text ++ '/' :: behind) = cleanChars (text ++ '/' :: behind) := by
  have hclean := (normal_cleanChars text).ne_nil
  rw [cleanChars_eq_render (cleanChars text ++ _), cleanChars_eq_render (text ++ _),
    isRooted_append hclean, isRooted_append hne, Location.isRooted_cleanChars,
    Text.fields_append_sep_append, Text.fields_append_sep_append, normalize_fields_append]

theorem strung_append (hparts : ¬∀ part ∈ parts, part = "") (hmore : ¬∀ part ∈ more, part = "") :
    strung (parts ++ more) = strung parts ++ '/' :: strung more := by
  rw [← filter_ne_eq_nil_iff] at hparts hmore
  unfold strung
  rw [List.filter_append, List.map_append, Text.joinWith_append]
  · rwa [ne_eq, List.map_eq_nil_iff]
  · rwa [ne_eq, List.map_eq_nil_iff]

theorem strung_append_empty (h : ∀ part ∈ more, part = "") : strung (parts ++ more) = strung parts := by
  unfold strung
  rw [List.filter_append, filter_ne_eq_nil_iff.2 h, List.append_nil]

theorem cleanJoin_empty_append (h : ∀ part ∈ parts, part = "") :
    cleanJoin (parts ++ more) = cleanJoin more := by
  unfold cleanJoin
  rw [List.filter_append, filter_ne_eq_nil_iff.2 h, List.nil_append]

theorem cleanJoin_cleanJoin (parts more : List String) :
    cleanJoin (cleanJoin parts :: more) = cleanJoin (parts ++ more) := by
  by_cases hparts : ∀ part ∈ parts, part = ""
  · have hone : ∀ part ∈ [cleanJoin parts], part = "" := by
      rw [List.forall_mem_singleton]
      exact cleanJoin_of_empty hparts
    rw [cleanJoin_empty_append hparts, ← List.singleton_append, cleanJoin_empty_append hone]
  · have hne := cleanJoin_ne_empty hparts
    have hone : ¬∀ part ∈ [cleanJoin parts], part = "" := by
      rw [List.forall_mem_singleton]
      exact hne
    have hstrung : strung [cleanJoin parts] = cleanChars (strung parts) := by
      unfold strung
      rw [List.filter_cons_of_pos (by simpa using hne), cleanJoin_of_not_empty hparts]
      exact String.toList_ofList
    have hleft : ¬∀ part ∈ cleanJoin parts :: more, part = "" :=
      fun h => hne (h _ List.mem_cons_self)
    have hright : ¬∀ part ∈ parts ++ more, part = "" :=
      fun h => hparts fun part hpart => h part (List.mem_append_left _ hpart)
    rw [cleanJoin_of_not_empty hleft, cleanJoin_of_not_empty hright, ← List.singleton_append]
    by_cases hmore : ∀ part ∈ more, part = ""
    · rw [strung_append_empty hmore, strung_append_empty hmore, hstrung, cleanChars_cleanChars]
    · have htext : strung parts ≠ [] := strung_ne_nil (mt filter_ne_eq_nil_iff.1 hparts)
      rw [strung_append hone hmore, strung_append hparts hmore, hstrung, cleanChars_append htext]

theorem foldl_cleanJoin (parts more : List String) :
    more.foldl (fun path part => cleanJoin [path, part]) (cleanJoin parts)
      =
    cleanJoin (parts ++ more) := by
  induction more generalizing parts with
  | nil => rw [List.append_nil, List.foldl_nil]
  | cons part more ih =>
    rw [List.foldl_cons, cleanJoin_cleanJoin, ih, List.append_assoc, List.singleton_append]

end Stages

/--
Joining comes to nothing if there is nothing to join. Otherwise it computes a normal form, the one
that the components of the parts collapse to, and may be done in stages.
-/
theorem cleanJoin_normal_form (parts more : List String) :
    (cleanJoin parts = "" ↔ ∀ part ∈ parts, part = "")
      ∧ (Normal (cleanJoin parts).toList ↔ ∃ part ∈ parts, part ≠ "")
      ∧ (∃ cs,
        (∀ ds, Collapsed (isRooted (strung parts)) (Text.splitOn '/' (strung parts)) ds ↔ ds = cs)
          ∧ (cleanJoin parts = ""
            ∨ cleanJoin parts = String.ofList (render (isRooted (strung parts)) cs)))
      ∧ (∀ text : String, Normal text.toList ↔ text ≠ "" ∧ cleanJoin [text] = text)
      ∧ cleanJoin [cleanJoin parts] = cleanJoin parts
      ∧ cleanJoin (cleanJoin parts :: more) = cleanJoin (parts ++ more)
      ∧ more.foldl (fun path part => cleanJoin [path, part]) (cleanJoin parts)
        = cleanJoin (parts ++ more) := by
  refine ⟨cleanJoin_eq_empty_iff, normal_cleanJoin_iff, ?_, normal_iff, ?_,
    cleanJoin_cleanJoin parts more, foldl_cleanJoin parts more⟩
  · refine ⟨_, fun ds => collapsed_iff (slashless_splitOn _), ?_⟩
    by_cases h : ∀ part ∈ parts, part = ""
    · exact .inl (cleanJoin_of_empty h)
    · exact .inr (cleanJoin_of_not_empty h)
  · rw [cleanJoin_cleanJoin, List.append_nil]

end Depot.Path
