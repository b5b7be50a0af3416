import Depot.Proofs.Location.Url

/-!
This module contains the theory of joining segments in stages: what is left of a base below another
one, and when joining two segments one after the other is joining them at once.
-/

namespace Depot

namespace Path

variable {cs ds : List Component} {rooted : Bool}

section Stages

theorem foldl_step_ups (ups : Nat) : (List.replicate ups up).foldl (step true) [] = [] := by
  induction ups with
  | zero => rfl
  | succ ups ih => exact ih

theorem foldl_step_normalize (h : ∀ c ∈ cs, '/' ∉ c) (rooted : Bool) :
    (normalize rooted cs).foldl (step true) [] = cs.foldl (step true) [] := by
  have htrue : cs.foldl (step true) [] = (normalize true cs).reverse :=
    (List.reverse_reverse _).symm
  rw [htrue, normalize_true h]
  cases rooted with
  | true =>
    have hplain := (settled_normalize false h).plain_named
    rw [normalize_true h, foldl_step_plain hplain, List.append_nil]
  | false =>
    obtain ⟨ups, plains, hnormal, hplain⟩ := settled_normalize false h
    rw [hnormal, List.foldl_append, foldl_step_ups, foldl_step_plain hplain, List.append_nil,
      named_append, named_ups, List.nil_append, named_plain hplain]

theorem normalize_append (h : ∀ c ∈ cs, '/' ∉ c) (rooted : Bool) (ds : List Component) :
    normalize true (normalize rooted cs ++ ds) = normalize true (cs ++ ds) := by
  unfold normalize
  rw [List.foldl_append, List.foldl_append]
  exact congrArg (fun kept => (ds.foldl (step true) kept).reverse) (foldl_step_normalize h rooted)

end Stages

section Fields

variable {text : List Char}

theorem slashless_fields (text : List Char) : ∀ c ∈ Text.fields '/' text, '/' ∉ c :=
  fun c hc => slashless_splitOn text c (List.mem_filter.1 hc).1

theorem slashless_fields_append (a b : List Char) :
    ∀ c ∈ Text.fields '/' a ++ Text.fields '/' b, '/' ∉ c := by
  rw [List.forall_mem_append]
  exact ⟨slashless_fields a, slashless_fields b⟩

theorem cleanChars_eq_render (text : List Char) :
    cleanChars text
      =
    render (isRooted text) (normalize (isRooted text) (Text.fields '/' text)) := by
  unfold cleanChars Text.fields
  rw [normalize_filter]

theorem fields_joinWith (hne : cs ≠ []) (h : Settled cs) :
    Text.fields '/' (Text.joinWith '/' cs) = cs := by
  unfold Text.fields
  rw [Text.splitOn_joinWith hne h.slashless, List.filter_eq_self]
  exact fun c hc => decide_eq_true (h.ne c hc).1

theorem fields_render_true (h : Settled cs) : Text.fields '/' (render true cs) = cs := by
  change Text.fields '/' ('/' :: Text.joinWith '/' cs) = cs
  rw [Text.fields_sep]
  by_cases hne : cs = []
  · rw [hne]
    rfl
  · exact fields_joinWith hne h

theorem normalize_fields_cleanChars (text : List Char) (ds : List Component) :
    normalize true (Text.fields '/' (cleanChars text) ++ ds)
      =
    normalize true (Text.fields '/' text ++ ds) := by
  have hslashless := slashless_fields text
  have happend := normalize_append hslashless (isRooted text) ds
  have hsettled := settled_normalize (isRooted text) hslashless
  rw [cleanChars_eq_render, ← happend]
  generalize normalize (isRooted text) (Text.fields '/' text) = cs at hsettled ⊢
  cases isRooted text with
  | true => rw [fields_render_true hsettled]
  | false =>
    by_cases hne : cs = []
    · -- The dot that nothing is written as leads nowhere.
      rw [hne]
      rfl
    · rw [render_false hne, fields_joinWith hne hsettled]

end Fields

end Path

namespace Location

open Depot.Path

variable {location : Location} {s t : String}

section Paths

theorem path_join_of_slash (h : Path.isRooted (cleanJoin [location.path, s]).toList = true) :
    (location.join s).path = cleanJoin [location.path, s] := by
  unfold join
  dsimp only
  rw [startsWith_slash, h]
  exact if_neg (by simp)

theorem path_join_of_text (hhost : location.host ≠ "") (hne : cleanJoin [location.path, s] ≠ "")
    (h : Path.isRooted (cleanJoin [location.path, s]).toList = false) :
    (location.join s).path = "/" ++ cleanJoin [location.path, s] := by
  unfold join
  dsimp only
  rw [startsWith_slash, h]
  exact if_pos ⟨hhost, hne, rfl⟩

theorem path_ne_of_isRooted (h : location.isRooted = true) : location.path ≠ "" := by
  intro hempty
  unfold isRooted at h
  rw [hempty] at h
  cases h

theorem path_join_of_rooted (h : location.isRooted = true) (hs : s ≠ "") :
    (location.join s).path
      =
    String.ofList (Path.render true
      (normalize true (Text.fields '/' location.path.toList ++ Text.fields '/' s.toList))) := by
  have hne := path_ne_of_isRooted h
  rw [path_join_of_slash (isRooted_cleanJoin h s), cleanJoin_of_ne hne hs, cleanChars_eq_render,
    isRooted_append (toList_ne_nil hne), Text.fields_append_sep_append]
  unfold isRooted at h
  rw [h]

theorem isRooted_cleanChars (text : List Char) :
    Path.isRooted (cleanChars text) = Path.isRooted text := by
  have hsettled := settled_normalize (Path.isRooted text) (slashless_fields text)
  rw [cleanChars_eq_render]
  generalize normalize (Path.isRooted text) (Text.fields '/' text) = cs at hsettled ⊢
  by_cases hne : cs = []
  · rw [hne]
    cases Path.isRooted text with
    | true => rfl
    | false => rfl
  · exact isRooted_render hsettled hne _

theorem cleanChars_ne_nil (text : List Char) : cleanChars text ≠ [] := by
  have hsettled := settled_normalize (Path.isRooted text) (slashless_fields text)
  rw [cleanChars_eq_render]
  generalize normalize (Path.isRooted text) (Text.fields '/' text) = cs at hsettled ⊢
  cases Path.isRooted text with
  | true => exact List.cons_ne_nil _ _
  | false =>
    by_cases hne : cs = []
    · rw [hne]
      exact List.cons_ne_nil _ _
    · rw [render_false hne]
      exact Text.joinWith_ne_nil hne fun c hc => (hsettled.ne c hc).1

theorem toList_path_join_of_empty (h : location.path = "") (hhost : location.host ≠ "")
    (hs : s ≠ "") :
    (location.join s).path.toList
      =
    if Path.isRooted s.toList then cleanChars s.toList else '/' :: cleanChars s.toList := by
  have hclean : cleanJoin [location.path, s] = String.ofList (cleanChars s.toList) := by
    rw [h, cleanJoin_empty hs]
  have hlist : (cleanJoin [location.path, s]).toList = cleanChars s.toList := by
    rw [hclean, String.toList_ofList]
  have hrooted : Path.isRooted (cleanJoin [location.path, s]).toList = Path.isRooted s.toList := by
    rw [hlist, isRooted_cleanChars]
  by_cases hslash : Path.isRooted s.toList = true
  · rw [if_pos hslash, path_join_of_slash (hrooted.trans hslash), hlist]
  · have hne : cleanJoin [location.path, s] ≠ "" := by
      intro hempty
      rw [hempty] at hlist
      exact cleanChars_ne_nil _ hlist.symm
    rw [if_neg hslash, path_join_of_text hhost hne (hrooted.trans (eq_false_of_ne_true hslash)),
      String.toList_append, hlist]
    rfl

end Paths

section Stages

variable (h : location.isRooted = true ∨ location.path = "" ∧ location.host ≠ "") (hs : s ≠ "")

include h hs

theorem isRooted_join_of_ne : (location.join s).isRooted = true := by
  rcases h with hrooted | ⟨hpath, hhost⟩
  · have hslash := isRooted_cleanJoin hrooted s
    unfold isRooted
    rw [path_join_of_slash hslash]
    exact hslash
  · unfold isRooted
    rw [toList_path_join_of_empty hpath hhost hs]
    split
    next hslash => rw [isRooted_cleanChars, hslash]
    · rfl

theorem normalize_fields_join (ds : List Component) :
    normalize true (Text.fields '/' (location.join s).path.toList ++ ds)
      =
    normalize true (Text.fields '/' location.path.toList ++ (Text.fields '/' s.toList ++ ds)) := by
  rcases h with hrooted | ⟨hpath, hhost⟩
  · have hslashless := slashless_fields_append location.path.toList s.toList
    rw [path_join_of_rooted hrooted hs, String.toList_ofList,
      fields_render_true (settled_normalize true hslashless), normalize_append hslashless,
      List.append_assoc]
  · have hnone : Text.fields '/' location.path.toList = [] := by
      rw [hpath]
      rfl
    have hfields : Text.fields '/' (location.join s).path.toList
        = Text.fields '/' (cleanChars s.toList) := by
      rw [toList_path_join_of_empty hpath hhost hs]
      split
      · rfl
      · exact Text.fields_sep '/' _
    rw [hfields, normalize_fields_cleanChars, hnone, List.nil_append]

theorem path_join_join {t : String} (ht : t ≠ "") :
    ((location.join s).join t).path
      =
    String.ofList (Path.render true (normalize true (Text.fields '/' location.path.toList
      ++ (Text.fields '/' s.toList ++ Text.fields '/' t.toList)))) := by
  rw [path_join_of_rooted (isRooted_join_of_ne h hs) ht, normalize_fields_join h hs]

end Stages

section Climbs

variable {cs : List Component}

theorem render_named_iff (h : Settled cs) :
    Path.render true (named cs) = '/' :: Path.render false cs ↔ cs ≠ [] ∧ ∀ c ∈ cs, Plain c := by
  constructor
  · intro hsame
    have hjoin : Text.joinWith '/' (named cs) = Path.render false cs := (List.cons.inj hsame).2
    have hne : cs ≠ [] := by
      rintro rfl
      cases hjoin
    have hplain := h.plain_named
    rw [render_false hne] at hjoin
    have hnamed : named cs ≠ [] := by
      intro hnil
      rw [hnil] at hjoin
      exact Text.joinWith_ne_nil hne (fun c hc => (h.ne c hc).1) hjoin.symm
    have hsplit := congrArg (Text.splitOn '/') hjoin
    rw [Text.splitOn_joinWith hne h.slashless,
      Text.splitOn_joinWith hnamed fun c hc => (hplain c hc).slashless] at hsplit
    rw [hsplit] at hplain
    exact ⟨hne, hplain⟩
  · rintro ⟨hne, hplain⟩
    rw [named_plain hplain, render_false hne]
    rfl

theorem relative_render_iff (h : Settled cs) :
    Relative (String.ofList (Path.render false cs)) ↔ cs ≠ [] ∧ ∀ c ∈ cs, Plain c := by
  unfold Relative
  rw [String.toList_ofList]
  by_cases hne : cs = []
  · rw [hne]
    refine ⟨fun hplain => ?_, fun hboth => absurd rfl hboth.1⟩
    exact absurd rfl (hplain here List.mem_cons_self).ne_here
  · rw [render_false hne, Text.splitOn_joinWith hne h.slashless]
    exact (and_iff_right hne).symm

end Climbs

variable {resolve : String → Except Failure String} {text t : String}

theorem path_join_slash_of_rooted (h : location.isRooted = true) :
    (location.join (s ++ "/" ++ t)).path
      =
    String.ofList (Path.render true (normalize true (Text.fields '/' location.path.toList
      ++ (Text.fields '/' s.toList ++ Text.fields '/' t.toList)))) := by
  rw [path_join_of_rooted h (append_slash_ne s t), fields_append_slash]

theorem toList_append_slash (s t : String) :
    (s ++ "/" ++ t).toList = s.toList ++ '/' :: t.toList := by
  rw [String.toList_append, String.toList_append, List.append_assoc]
  rfl

theorem toList_path_join_slash (hpath : location.path = "") (hhost : location.host ≠ "")
    (hs : s ≠ "") :
    (location.join (s ++ "/" ++ t)).path.toList
      =
    if Path.isRooted s.toList then
      Path.render true (normalize true (Text.fields '/' s.toList ++ Text.fields '/' t.toList))
    else
      '/' :: Path.render false
        (normalize false (Text.fields '/' s.toList ++ Text.fields '/' t.toList)) := by
  have hrooted : Path.isRooted (s ++ "/" ++ t).toList = Path.isRooted s.toList := by
    rw [toList_append_slash, isRooted_append (toList_ne_nil hs)]
  rw [toList_path_join_of_empty hpath hhost (append_slash_ne s t), hrooted, cleanChars_eq_render,
    hrooted, fields_append_slash]
  cases Path.isRooted s.toList with
  | true => rfl
  | false => rfl

/--
Two segments joined one after the other give the base that they give at once, unless the base is
empty and the segments lead out of it or to it.
-/
theorem join_join_iff (h : location.ReadFrom resolve text) (hs : s ≠ "") (ht : t ≠ "") :
    (location.join s).join t = location.join (s ++ "/" ++ t)
      ↔ location.path ≠ "" ∨ Text.startsWith "/" s = true ∨ Relative (cleanJoin [s, t]) := by
  have hanchored := h.sited.anchored
  have hpaths : (location.join s).join t = location.join (s ++ "/" ++ t)
      ↔ ((location.join s).join t).path = (location.join (s ++ "/" ++ t)).path :=
    ⟨fun hsame => congrArg Location.path hsame,
      fun hsame => congrArg (Location.mk location.scheme location.host) hsame⟩
  rw [hpaths, path_join_join hanchored hs ht]
  rcases hanchored with hrooted | ⟨hpath, hhost⟩
  · rw [path_join_slash_of_rooted hrooted]
    exact iff_of_true rfl (.inl (path_ne_of_isRooted hrooted))
  · have hnone : Text.fields '/' location.path.toList = [] := by
      rw [hpath]
      rfl
    rw [← String.toList_inj, String.toList_ofList, hnone, List.nil_append,
      toList_path_join_slash hpath hhost hs, startsWith_slash]
    by_cases hslash : Path.isRooted s.toList = true
    · rw [if_pos hslash]
      exact iff_of_true rfl (.inr (.inl hslash))
    · have hslashless := slashless_fields_append s.toList t.toList
      have hsettled := settled_normalize false hslashless
      have hclean : cleanJoin [s, t] = String.ofList (Path.render false
          (normalize false (Text.fields '/' s.toList ++ Text.fields '/' t.toList))) := by
        rw [cleanJoin_of_ne hs ht, cleanChars_eq_render, isRooted_append (toList_ne_nil hs),
          eq_false_of_ne_true hslash, Text.fields_append_sep_append]
      rw [if_neg hslash, normalize_true hslashless, render_named_iff hsettled, hclean,
        relative_render_iff hsettled]
      simp only [ne_eq, hpath, not_true_eq_false, hslash, Bool.false_eq_true, false_or]

theorem join_join_iff_dotted :
    ReadFrom .ok "s3://bkt" ⟨"s3", "bkt", ""⟩ ∧ "./a//.." ≠ "" ∧ "b" ≠ ""
      ∧ Relative (cleanJoin ["./a//..", "b"])
      ∧ join (join ⟨"s3", "bkt", ""⟩ "./a//..") "b" = join ⟨"s3", "bkt", ""⟩ "./a//../b" := by
  have hread : ReadFrom .ok "s3://bkt" ⟨"s3", "bkt", ""⟩ :=
    ⟨rfl, ⟨"s3", "bkt", ""⟩, rfl, by decide, by decide⟩
  have hfirst : "./a//.." ≠ "" := by decide
  have hsecond : "b" ≠ "" := by decide
  have hclean : Relative (cleanJoin ["./a//..", "b"]) := by decide
  refine ⟨hread, hfirst, hsecond, hclean, ?_⟩
  exact (join_join_iff hread hfirst hsecond).2 (.inr (.inr hclean))

/-- Below a bucket, climbing out and going on is not doing both at once. -/
theorem climbed_apart :
    ReadFrom .ok "gs://b" ⟨"gs", "b", ""⟩ ∧ ".." ≠ "" ∧ "x" ≠ ""
      ∧ join (join ⟨"gs", "b", ""⟩ "..") "x" = ⟨"gs", "b", "/x"⟩
      ∧ join (join ⟨"gs", "b", ""⟩ "..") "x" ≠ join ⟨"gs", "b", ""⟩ (".." ++ "/" ++ "x") := by
  refine ⟨⟨rfl, ⟨"gs", "b", ""⟩, rfl, by decide, by decide⟩, ?_, ?_, ?_, ?_⟩
  · decide
  · decide
  · decide
  · decide

end Location

end Depot
