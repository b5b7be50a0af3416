import Depot.Walk

/-!
This module contains the theory of walks: what a walk shows depends on the keys of its listing
alone, and keys before the offset of a sorted listing only matter to a walk that is cancelled from
the start.
-/

namespace Depot

namespace Keys

theorem sorted_mergeSort (keys : List String) : keys.mergeSort.Pairwise (· ≤ ·) := by
  have htrans : ∀ a b c : String, decide (a ≤ b) = true → decide (b ≤ c) = true →
      decide (a ≤ c) = true := by
    intro a b c hab hbc
    simp only [decide_eq_true_eq] at hab hbc ⊢
    exact String.le_trans hab hbc
  have htotal : ∀ a b : String, (decide (a ≤ b) || decide (b ≤ a)) = true := by
    intro a b
    simp only [Bool.or_eq_true, decide_eq_true_eq]
    exact String.le_total a b
  apply (List.pairwise_mergeSort htrans htotal keys).imp
  intro a b hab
  exact of_decide_eq_true hab

theorem eq_of_sorted {keys keys' : List String} (h : keys.Pairwise (· ≤ ·))
    (h' : keys'.Pairwise (· ≤ ·)) (hperm : keys.Perm keys') : keys = keys' := by
  refine hperm.eq_of_pairwise ?_ h h'
  intro a b _ _ hab hba
  exact String.le_antisymm hab hba

end Keys

namespace Listing

def quiet : Listing → Listing
  | [] => []
  | .call _ :: rest => quiet rest
  | .key key :: rest => .key key :: quiet rest
  | .failed failure :: rest => .failed failure :: quiet rest

@[simp]
theorem quiet_append (listing listing' : Listing) :
    quiet (listing ++ listing') = quiet listing ++ quiet listing' := by
  induction listing with
  | nil => rfl
  | cons item rest ih => cases item <;> simp [quiet, ih]

theorem key_mem_ofKeys {key : String} {keys : List String} :
    Item.key key ∈ ofKeys keys ↔ key ∈ keys := by
  unfold ofKeys
  rw [List.mem_map]
  constructor
  · rintro ⟨other, hmem, hsame⟩
    rw [← Item.key.inj hsame]
    exact hmem
  · exact fun hmem => ⟨key, hmem, rfl⟩

@[simp]
theorem quiet_ofKeys (keys : List String) : quiet (ofKeys keys) = ofKeys keys := by
  induction keys with
  | nil => rfl
  | cons key keys ih =>
    unfold ofKeys at ih ⊢
    rw [List.map_cons, quiet, ih]

end Listing

namespace Walk

variable {toName : String → String} {offset : Option String} {visitor : Visitor}
  {seen : List String}

def shown (w : Walk) : List Visit × WalkEnd :=
  (w.visits, w.stop)

@[simp]
theorem shown_afterCall (call : Cloud.Call) (w : Walk) : (w.afterCall call).shown = w.shown := rfl

@[simp]
theorem shown_afterPull (w : Walk) : w.afterPull.shown = w.shown := rfl

theorem shown_afterVisit (visit : Visit) (w : Walk) :
    (w.afterVisit visit).shown = (visit :: w.shown.1, w.shown.2) := rfl

theorem names_eq_of_shown {w w' : Walk} (h : w.shown = w'.shown) : w.names = w'.names := by
  have hvisits : w.visits = w'.visits := congrArg Prod.fst h
  unfold names
  rw [hvisits]

theorem run_key (seen : List String) (key : String) (rest : Listing) :
    run toName offset visitor seen (.key key :: rest)
      =
    if visitor.cancelled seen then (ending (.failed cancelledFailure)).afterPull
    else if isBefore offset key then (run toName offset visitor seen rest).afterPull
    else
      match visitor.reply (toName key :: seen) with
      | some failure => (ending (.ofFailure failure)).afterVisit ⟨key, toName key⟩
      | none =>
        (run toName offset visitor (toName key :: seen) rest).afterVisit ⟨key, toName key⟩ := by
  rfl

theorem run_quiet (seen : List String) (listing : Listing) :
    (run toName offset visitor seen listing.quiet).shown
      =
    (run toName offset visitor seen listing).shown := by
  induction listing generalizing seen with
  | nil => rfl
  | cons item rest ih =>
    cases item with
    | call call =>
      rw [Listing.quiet, run, shown_afterCall]
      exact ih seen
    | failed failure => rfl
    | key key =>
      rw [Listing.quiet, run_key, run_key]
      split
      · rfl
      · split
        · rw [shown_afterPull, shown_afterPull]
          exact ih seen
        · cases visitor.reply (toName key :: seen) with
          | some failure => rfl
          | none =>
            change (Walk.shown (afterVisit _ _)) = Walk.shown (afterVisit _ _)
            rw [shown_afterVisit, shown_afterVisit, ih]

theorem run_offset_of_forall {keys : List String}
    (h : ∀ key ∈ keys, isBefore offset key = false) (seen : List String) :
    run toName offset visitor seen (Listing.ofKeys keys)
      =
    run toName none visitor seen (Listing.ofKeys keys) := by
  induction keys generalizing seen with
  | nil => rfl
  | cons key keys ih =>
    rw [List.forall_mem_cons] at h
    have hrest := ih h.2
    unfold Listing.ofKeys at hrest ⊢
    have hnone : isBefore none key = false := rfl
    rw [List.map_cons, run_key, run_key, h.1, hnone, hrest, hrest]

theorem isBefore_eq_false_iff {offset : Option String} {key : String} :
    isBefore offset key = false ↔ offset.all (· ≤ key) = true := by
  cases offset with
  | none => simp [isBefore]
  | some first =>
    simp only [isBefore, Option.any_some, Option.all_some, decide_eq_false_iff_not,
      decide_eq_true_eq]
    exact String.not_lt

theorem isBefore_eq_false_of_le {key key' : String} (h : isBefore offset key = false)
    (hle : key ≤ key') : isBefore offset key' = false := by
  cases offset with
  | none => rfl
  | some first =>
    simp only [isBefore, Option.any_some, decide_eq_false_iff_not, String.not_lt] at h ⊢
    exact String.le_trans h hle

theorem run_filter {keys : List String} (hsorted : keys.Pairwise (· ≤ ·))
    (hcancel : visitor.cancelled seen = false) :
    (run toName offset visitor seen (Listing.ofKeys keys)).shown
      =
    (run toName none visitor seen
      (Listing.ofKeys (keys.filter fun key => !isBefore offset key))).shown := by
  induction keys with
  | nil => rfl
  | cons key keys ih =>
    rw [List.pairwise_cons] at hsorted
    cases hbefore : isBefore offset key with
    | true =>
      rw [List.filter_cons_of_neg (by simp [hbefore]), ← ih hsorted.2]
      unfold Listing.ofKeys
      rw [List.map_cons, run, if_neg (by simp [hcancel]), if_pos hbefore, shown_afterPull]
    | false =>
      -- The keys are sorted, so none after this one is before the offset.
      have hall : ∀ other ∈ key :: keys, isBefore offset other = false := by
        rw [List.forall_mem_cons]
        refine ⟨hbefore, ?_⟩
        intro other hother
        exact isBefore_eq_false_of_le hbefore (hsorted.1 other hother)
      have hfilter : (key :: keys).filter (fun key => !isBefore offset key) = key :: keys := by
        rw [List.filter_eq_self]
        intro other hother
        rw [hall other hother]
        rfl
      rw [hfilter, run_offset_of_forall hall]

theorem run_cancelled (hcancel : visitor.cancelled seen = true) (key : String)
    (keys : List String) :
    (run toName offset visitor seen (Listing.ofKeys (key :: keys))).shown
      =
    ([], .failed cancelledFailure) := by
  unfold Listing.ofKeys
  rw [List.map_cons, run, if_pos hcancel]
  rfl

section Names

variable {toName' : String → String} {visitor' : Visitor}

def renamed (toName : String → String) (w : Walk) : Walk :=
  { w with visits := w.visits.map fun visit => ⟨visit.key, toName visit.key⟩ }

structure Likened (toName toName' : String → String) (visitor visitor' : Visitor) : Prop where
  reply_eq : ∀ keys : List String,
    visitor'.reply (keys.map toName') = visitor.reply (keys.map toName)
  cancelled_eq : ∀ keys : List String,
    visitor'.cancelled (keys.map toName') = visitor.cancelled (keys.map toName)

theorem run_renamed (h : Likened toName toName' visitor visitor') (keys : List String)
    (listing : Listing) :
    run toName' offset visitor' (keys.map toName') listing
      =
    (run toName offset visitor (keys.map toName) listing).renamed toName' := by
  induction listing generalizing keys with
  | nil => rfl
  | cons item rest ih =>
    cases item with
    | call call =>
      rw [run, run, ih]
      rfl
    | failed failure => rfl
    | key key =>
      have hreply := h.reply_eq (key :: keys)
      have hrest := ih (key :: keys)
      rw [List.map_cons, List.map_cons] at hreply hrest
      rw [run_key, run_key, h.cancelled_eq, hreply]
      split
      · rfl
      · split
        · rw [ih]
          rfl
        · cases visitor.reply (toName key :: keys.map toName) with
          | some failure => rfl
          | none =>
            dsimp only
            rw [hrest]
            rfl

theorem name_eq_of_mem_run (seen : List String) (listing : Listing) :
    ∀ visit ∈ (run toName offset visitor seen listing).visits, visit.name = toName visit.key := by
  induction listing generalizing seen with
  | nil => exact List.forall_mem_nil _
  | cons item rest ih =>
    cases item with
    | call call =>
      rw [run]
      exact ih seen
    | failed failure => exact List.forall_mem_nil _
    | key key =>
      rw [run_key]
      split
      · exact List.forall_mem_nil _
      · split
        · exact ih seen
        · cases visitor.reply (toName key :: seen) with
          | some failure =>
            intro visit hvisit
            rw [List.mem_singleton.1 hvisit]
          | none =>
            intro visit hvisit
            rcases List.mem_cons.1 hvisit with rfl | hvisit
            · rfl
            · exact ih _ visit hvisit

end Names

theorem key_mem_of_mem_run (seen : List String) (listing : Listing) :
    ∀ visit ∈ (run toName offset visitor seen listing).visits, Item.key visit.key ∈ listing := by
  induction listing generalizing seen with
  | nil => exact List.forall_mem_nil _
  | cons item rest ih =>
    have hlater : ∀ (seen : List String), ∀ visit ∈ (run toName offset visitor seen rest).visits,
        Item.key visit.key ∈ item :: rest :=
      fun seen visit hvisit => List.mem_cons_of_mem _ (ih seen visit hvisit)
    cases item with
    | call call =>
      rw [run]
      exact hlater seen
    | failed failure => exact List.forall_mem_nil _
    | key key =>
      rw [run_key]
      split
      · exact List.forall_mem_nil _
      · split
        · exact hlater seen
        · cases visitor.reply (toName key :: seen) with
          | some failure =>
            intro visit hvisit
            rw [List.mem_singleton.1 hvisit]
            exact List.mem_cons_self
          | none =>
            intro visit hvisit
            rcases List.mem_cons.1 hvisit with rfl | hvisit
            · exact List.mem_cons_self
            · exact hlater _ visit hvisit

end Walk

end Depot
