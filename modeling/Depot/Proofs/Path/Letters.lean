import Depot.Proofs.Location.Below

/-!
This module contains the theory of the letters of clean paths: which ones there are, where a text is
cut, and what a path starts and ends with.
-/

namespace Depot

namespace Text

variable {sep c : Char} {cs : List Char} {pieces : List (List Char)}

theorem cut_of_not_mem (h : sep ∉ cs) : cut sep cs = (cs, none) := by
  induction cs with
  | nil => rfl
  | cons c cs ih =>
    rw [List.mem_cons, not_or] at h
    rw [cut, if_neg (Ne.symm h.1), ih h.2]

theorem cut_append (h : sep ∉ cs) (rest : List Char) : cut sep (cs ++ sep :: rest) = (cs, some rest) := by
  induction cs with
  | nil => exact if_pos rfl
  | cons c cs ih =>
    rw [List.mem_cons, not_or] at h
    rw [List.cons_append, cut, if_neg (Ne.symm h.1), ih h.2]

theorem prefix_cut (sep : Char) (cs : List Char) : (cut sep cs).1 <+: cs := by
  induction cs with
  | nil => exact List.prefix_rfl
  | cons c cs ih =>
    unfold cut
    split
    · exact List.nil_prefix
    · exact (List.prefix_cons_inj c).2 ih

theorem not_mem_cut (sep : Char) (cs : List Char) : sep ∉ (cut sep cs).1 := by
  induction cs with
  | nil => simp [cut]
  | cons c cs ih =>
    unfold cut
    split
    · simp
    next hc =>
      rw [List.mem_cons, not_or]
      exact ⟨Ne.symm hc, ih⟩

theorem suffix_cut {rest : List Char} (h : (cut sep cs).2 = some rest) : rest <:+ cs := by
  induction cs with
  | nil => cases h
  | cons c cs ih =>
    unfold cut at h
    split at h
    · rw [← Option.some.inj h]
      exact List.suffix_cons c cs
    · exact (ih h).trans (List.suffix_cons c cs)

theorem mem_joinWith (h : c ∈ joinWith sep pieces) :
    c = sep ∨ ∃ piece ∈ pieces, c ∈ piece := by
  induction pieces with
  | nil => cases h
  | cons piece pieces ih =>
    cases pieces with
    | nil => exact .inr ⟨piece, List.mem_cons_self, h⟩
    | cons next pieces =>
      rw [joinWith_cons, List.mem_append, List.mem_cons] at h
      rcases h with hpiece | hsep | hrest
      · exact .inr ⟨piece, List.mem_cons_self, hpiece⟩
      · exact .inl hsep
      · apply (ih hrest).imp_right
        rintro ⟨other, hother, hmem⟩
        exact ⟨other, List.mem_cons_of_mem _ hother, hmem⟩

theorem mem_joinWith_of_mem {piece : List Char} (hpiece : piece ∈ pieces) (h : c ∈ piece) :
    c ∈ joinWith sep pieces := by
  induction pieces with
  | nil => cases hpiece
  | cons first pieces ih =>
    cases pieces with
    | nil =>
      rw [List.mem_singleton] at hpiece
      rw [← hpiece]
      exact h
    | cons next pieces =>
      rw [joinWith_cons, List.mem_append, List.mem_cons]
      rcases List.mem_cons.1 hpiece with rfl | hrest
      · exact .inl h
      · exact .inr (.inr (ih hrest))

theorem getLast?_dropWhileEnd (sep : Char) (cs : List Char) :
    (dropWhileEnd (· = sep) cs).getLast? ≠ some sep := by
  unfold dropWhileEnd
  rw [List.getLast?_reverse]
  exact head?_dropWhile sep cs.reverse

theorem getLast?_append_of_ne {ds : List Char} (h : ds ≠ []) (cs : List Char) :
    (cs ++ ds).getLast? = ds.getLast? := by
  rw [List.getLast?_append, List.getLast?_eq_some_getLast h, Option.some_or]

theorem dropWhileEnd_append {ds : List Char} (hlast : cs.getLast? ≠ some sep)
    (h : ∀ c ∈ ds, c = sep) : dropWhileEnd (· = sep) (cs ++ ds) = cs := by
  have hreverse : ∀ c ∈ ds.reverse, decide (c = sep) = true :=
    fun c hc => decide_eq_true (h c (List.mem_reverse.1 hc))
  have hcs := dropWhileEnd_of_last hlast
  unfold dropWhileEnd at hcs ⊢
  rw [List.reverse_append, List.dropWhile_append_of_pos hreverse, hcs]

end Text

namespace Path

variable {c : Component} {cs : List Component} {parts : List String}

theorem mem_step {rooted : Bool} {kept : List Component} {next : Component}
    (h : c ∈ step rooted kept next) : c = up ∨ c = next ∨ c ∈ kept := by
  unfold step at h
  grind

theorem mem_foldl_step {rooted : Bool} {kept : List Component}
    (h : c ∈ cs.foldl (step rooted) kept) : c = up ∨ c ∈ cs ∨ c ∈ kept := by
  induction cs generalizing kept with
  | nil => exact .inr (.inr h)
  | cons next cs ih =>
    rw [List.mem_cons]
    rcases ih h with hup | hcs | hkept
    · exact .inl hup
    · exact .inr (.inl (.inr hcs))
    · rcases mem_step hkept with hup | hnext | hkept
      · exact .inl hup
      · exact .inr (.inl (.inl hnext))
      · exact .inr (.inr hkept)

theorem mem_normalize {rooted : Bool} (h : c ∈ normalize rooted cs) : c = up ∨ c ∈ cs := by
  unfold normalize at h
  rw [List.mem_reverse] at h
  apply (mem_foldl_step h).imp_right
  exact fun hmem => hmem.resolve_right List.not_mem_nil

theorem mem_cleanChars {x : Char} {text : List Char} (h : x ∈ cleanChars text) :
    x = '/' ∨ x = '.' ∨ x ∈ text := by
  have hpiece : ∀ c ∈ normalize (isRooted text) (Text.splitOn '/' text), x ∈ c →
      x = '.' ∨ x ∈ text := by
    intro c hc hx
    rcases mem_normalize hc with rfl | hsplit
    · have hdots : x ∈ ['.', '.'] := hx
      simp at hdots
      exact .inl hdots
    · right
      rw [← Text.joinWith_splitOn '/' text]
      exact Text.mem_joinWith_of_mem hsplit hx
  have hjoin : x ∈ Text.joinWith '/' (normalize (isRooted text) (Text.splitOn '/' text)) →
      x = '/' ∨ x = '.' ∨ x ∈ text := by
    intro hx
    apply (Text.mem_joinWith hx).imp_right
    rintro ⟨c, hc, hmem⟩
    exact hpiece c hc hmem
  unfold cleanChars render at h
  split at h
  · rcases List.mem_cons.1 h with rfl | h
    · exact .inl rfl
    · exact hjoin h
  · exact .inr (.inl (List.mem_singleton.1 h))
  · exact hjoin h

theorem mem_cleanJoin {x : Char} (h : x ∈ (cleanJoin parts).toList) :
    x = '/' ∨ x = '.' ∨ ∃ part ∈ parts, x ∈ part.toList := by
  unfold cleanJoin at h
  split at h
  · cases h
  next hparts =>
    rw [String.toList_ofList] at h
    rcases mem_cleanChars h with hslash | hdot | hjoin
    · exact .inl hslash
    · exact .inr (.inl hdot)
    · apply (Text.mem_joinWith hjoin).imp_right
      rintro ⟨text, htext, hmem⟩
      obtain ⟨part, hpart, rfl⟩ := List.mem_map.1 htext
      exact .inr ⟨part, (List.mem_filter.1 hpart).1, hmem⟩

/-- Whether no slash is left at the end of a path, unless it is the root. -/
def Trimmed (path : String) : Prop :=
  path = "/" ∨ path.toList.getLast? ≠ some '/'

theorem trimmed_render {rooted : Bool} (h : Settled cs) :
    Trimmed (String.ofList (render rooted cs)) := by
  unfold Trimmed
  rw [String.toList_ofList]
  by_cases hne : cs = []
  · subst hne
    cases rooted with
    | true => exact .inl rfl
    | false => exact .inr (by decide)
  · right
    have hlast := h.getLast?_ne
    have hsome : Text.joinWith '/' cs ≠ [] := Text.joinWith_ne_nil hne fun c hc => (h.ne c hc).1
    obtain ⟨c, text, hjoin⟩ := List.exists_cons_of_ne_nil hsome
    cases rooted with
    | true =>
      change ('/' :: Text.joinWith '/' cs).getLast? ≠ some '/'
      rw [hjoin, List.getLast?_cons_cons, ← hjoin]
      exact hlast
    | false =>
      rw [render_false hne]
      exact hlast

theorem isRooted_cleanJoin {a : String} (h : isRooted a.toList = true) (b : String) :
    isRooted (cleanJoin [a, b]).toList = true := by
  have hclean : ∀ more, isRooted (cleanChars (a.toList ++ more)) = true := by
    intro more
    have hne : a.toList ≠ [] := by
      intro hnil
      rw [hnil] at h
      cases h
    unfold cleanChars
    rw [isRooted_append hne, h]
    rfl
  have hne : a ≠ "" := by
    rintro rfl
    cases h
  by_cases hb : b = ""
  · rw [hb, cleanJoin_right_empty hne, String.toList_ofList, ← List.append_nil a.toList]
    exact hclean []
  · rw [cleanJoin_of_ne hne hb, String.toList_ofList]
    exact hclean _

theorem trimmed_cleanJoin (parts : List String) : Trimmed (cleanJoin parts) := by
  rcases cleanJoin_cases parts with hempty | ⟨rooted, cs, hsettled, hclean⟩
  · rw [hempty]
    exact .inr (by decide)
  · rw [hclean]
    exact trimmed_render hsettled

end Path

end Depot
