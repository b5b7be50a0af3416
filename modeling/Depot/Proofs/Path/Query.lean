import Depot.Proofs.Location.Below

/-!
This module contains the theory of the text that the keys of a listing start with. The slash behind
the base is in it exactly if what is asked for does not come to the base itself or out of it.
-/

namespace Depot.Path

variable {base under : String}

def reached (base under : String) : List Component :=
  outline (base ++ "/" ++ under)

/--
Whether what is listed under a text is below the base: nothing is asked for, or the way through the
base goes on behind it. A slash at the end is a way on.
-/
def Guarded (base under : String) : Prop :=
  under = ""
    ∨ Text.splitOn '/' base.toList <+: reached base under
      ∧ (reached base under ≠ Text.splitOn '/' base.toList ∨ Text.endsWith "/" under = true)

instance (base under : String) : Decidable (Guarded base under) :=
  inferInstanceAs (Decidable (_ ∨ _ ∧ _))

theorem splitOn_append_slash (a b : String) :
    Text.splitOn '/' (a ++ "/" ++ b).toList
      =
    Text.splitOn '/' a.toList ++ Text.splitOn '/' b.toList := by
  have hlist : (a ++ "/" ++ b).toList = a.toList ++ '/' :: b.toList := by simp
  rw [hlist, Text.splitOn_append_sep]

theorem settled_reached (base under : String) : Settled (reached base under) :=
  settled_outline _

def spelled (base under : String) : List Component :=
  (if reached base under = [] then [here] else reached base under)
    ++ if Text.endsWith "/" under then [[]] else []

theorem spelled_ne_nil (base under : String) : spelled base under ≠ [] := by
  have hcomps : (if reached base under = [] then [here] else reached base under) ≠ [] := by
    split
    · simp
    · assumption
  exact fun hnil => hcomps (List.append_eq_nil_iff.1 hnil).1

theorem slashless_spelled (base under : String) : ∀ c ∈ spelled base under, '/' ∉ c := by
  intro c hc
  unfold spelled at hc
  rcases List.mem_append.1 hc with hc | hc
  · split at hc
    · rw [List.mem_singleton.1 hc]
      decide
    · exact (settled_reached base under).slashless c hc
  · split at hc
    · rw [List.mem_singleton.1 hc]
      exact List.not_mem_nil
    · cases hc

theorem cleanJoin_queryBase (hbase : Relative base) (under : String) :
    cleanJoin [queryBase base, under] = String.ofList (render false (reached base under)) := by
  have hne := queryBase_ne hbase.ne_empty
  obtain ⟨text, hjoin, hrooted, hfields⟩ := cleanJoin_fields
    (head?_queryBase hbase.head?_ne) (fun hempty => absurd hempty hne) (.inl hne)
  rw [hjoin]
  unfold cleanChars reached outline
  rw [hrooted, ← normalize_filter false (Text.splitOn '/' text),
    ← normalize_filter false (Text.splitOn '/' (base ++ "/" ++ under).toList)]
  change String.ofList (render false (normalize false (Text.fields '/' text))) = _
  rw [hfields, fields_queryBase, ← fields_append_slash]
  rfl

theorem toList_queryPrefix (hbase : Relative base) (hunder : under ≠ "") :
    (queryPrefix base under).toList = Text.joinWith '/' (spelled base under) := by
  have hrender : render false (reached base under)
      = Text.joinWith '/' (if reached base under = [] then [here] else reached base under) := by
    split
    next hnil =>
      rw [hnil]
      rfl
    next hne => exact render_false hne
  rw [queryPrefix_of_ne base hunder, cleanJoin_queryBase hbase, hrender]
  unfold spelled
  split
  · rw [String.toList_append, String.toList_ofList, Text.joinWith_append _ (by simp)]
    · rfl
    · split
      · simp
      · assumption
  · rw [String.toList_ofList, List.append_nil]

theorem guarded_iff_spelled (hbase : Relative base) (hunder : under ≠ "") :
    Guarded base under
      ↔ ∃ inner, inner ≠ [] ∧ spelled base under = Text.splitOn '/' base.toList ++ inner := by
  have hparts := Text.splitOn_ne_nil '/' base.toList
  unfold Guarded spelled
  rw [or_iff_right hunder]
  constructor
  · rintro ⟨⟨more, hmore⟩, hbeyond⟩
    have hne : reached base under ≠ [] := by
      rw [← hmore, ne_eq, List.append_eq_nil_iff, not_and]
      exact fun hnil => absurd hnil hparts
    refine ⟨more ++ if Text.endsWith "/" under then [[]] else [], ?_, ?_⟩
    · rcases hbeyond with hmoved | hends
      · have hmore' : more ≠ [] := by
          rintro rfl
          rw [List.append_nil] at hmore
          exact hmoved hmore.symm
        simp [hmore']
      · simp [hends]
    · rw [if_neg hne, ← List.append_assoc, hmore]
  · rintro ⟨inner, hinner, hspelled⟩
    have hne : reached base under ≠ [] := by
      -- A base starts with a component that names something.
      intro hnil
      rw [if_pos hnil] at hspelled
      obtain ⟨first, rest, hsplit⟩ := List.exists_cons_of_ne_nil hparts
      rw [hsplit] at hspelled
      have hfirst : first = here := (List.cons.inj hspelled).1.symm
      have hplain : Plain first := hbase first (by rw [hsplit]; exact List.mem_cons_self)
      exact hplain.ne_here hfirst
    rw [if_neg hne] at hspelled
    cases hends : Text.endsWith "/" under with
    | false =>
      rw [hends, if_neg Bool.false_ne_true, List.append_nil] at hspelled
      refine ⟨⟨inner, hspelled.symm⟩, .inl ?_⟩
      intro hsame
      rw [hsame] at hspelled
      exact hinner (List.append_right_eq_self.1 hspelled.symm)
    | true =>
      rw [hends, if_pos rfl, ← List.dropLast_concat_getLast hinner, ← List.append_assoc] at hspelled
      exact ⟨⟨_, (List.append_inj' hspelled rfl).1.symm⟩, .inr rfl⟩

theorem startsWith_queryPrefix_iff (hbase : Relative base) (under : String) :
    Text.startsWith (base ++ "/") (queryPrefix base under) = true ↔ Guarded base under := by
  by_cases hunder : under = ""
  · subst hunder
    have hquery : queryPrefix base "" = base ++ "/" := by
      rw [queryPrefix_empty]
      exact if_neg hbase.ne_empty
    rw [hquery]
    exact ⟨fun _ => .inl rfl, fun _ => List.isPrefixOf_iff_prefix.2 (List.prefix_refl _)⟩
  · unfold Text.startsWith
    rw [List.isPrefixOf_iff_prefix, toList_queryPrefix hbase hunder, String.toList_append,
      guarded_iff_spelled hbase hunder]
    exact Text.isPrefix_joinWith_iff (spelled_ne_nil base under) (slashless_spelled base under)

theorem guarded_of_dotless (hbase : Relative base)
    (h : ∀ c ∈ Text.splitOn '/' under.toList, c ≠ here ∧ c ≠ up) : Guarded base under := by
  by_cases hunder : under = ""
  · exact .inl hunder
  · have hpieces : ∀ c ∈ Text.splitOn '/' (base ++ "/" ++ under).toList, c = [] ∨ Plain c := by
      rw [splitOn_append_slash]
      intro c hc
      rcases List.mem_append.1 hc with hc | hc
      · exact .inr (hbase c hc)
      · by_cases hnil : c = []
        · exact .inl hnil
        · exact .inr ⟨hnil, (h c hc).1, (h c hc).2, Text.not_mem_of_mem_splitOn hc⟩
    have hreached : reached base under
        = Text.splitOn '/' base.toList ++ (Text.splitOn '/' under.toList).filter (· ≠ []) := by
      unfold reached outline
      rw [normalize_plain hpieces, splitOn_append_slash, List.filter_append, filter_plain hbase]
    refine .inr ⟨⟨_, hreached.symm⟩, ?_⟩
    cases hends : Text.endsWith "/" under with
    | true => exact .inr rfl
    | false =>
      -- The last character is in a component.
      left
      intro hsame
      rw [hsame, eq_comm, List.append_right_eq_self, List.filter_eq_nil_iff] at hreached
      rw [endsWith_slash, decide_eq_false_iff_not,
        List.getLast?_eq_some_getLast (toList_ne_nil hunder), Option.some_inj] at hends
      obtain ⟨piece, hpiece, hmem⟩ :=
        Text.exists_mem_splitOn (List.getLast_mem (toList_ne_nil hunder)) hends
      have hnone := hreached piece hpiece
      rw [decide_eq_true_eq, ne_eq, Decidable.not_not] at hnone
      rw [hnone] at hmem
      cases hmem

end Depot.Path
