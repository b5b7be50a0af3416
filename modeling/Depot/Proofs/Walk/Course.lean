import Depot.Proofs.Walk

/-!
This module contains the course of walks: where in its listing a walk ends, why it ends there, and
all that it has done up to there.
-/

namespace Depot

namespace Listing

variable {toName : String → String} {offset : Option String}

def visits (toName : String → String) (offset : Option String) (listing : Listing) : List Visit :=
  listing.filterMap fun
    | .key key => if Walk.isBefore offset key then none else some ⟨key, toName key⟩
    | .call _ | .failed _ => none

def calls (listing : Listing) : List Cloud.Call :=
  listing.filterMap fun
    | .call call => some call
    | .key _ | .failed _ => none

def pulls (listing : Listing) : Nat :=
  listing.countP fun
    | .key _ | .failed _ => true
    | .call _ => false

@[simp]
theorem visits_append (front rest : Listing) :
    visits toName offset (front ++ rest)
      =
    visits toName offset front ++ visits toName offset rest := by
  exact List.filterMap_append

@[simp]
theorem calls_append (front rest : Listing) :
    calls (front ++ rest) = calls front ++ calls rest := by
  exact List.filterMap_append

@[simp]
theorem pulls_append (front rest : Listing) :
    pulls (front ++ rest) = pulls front + pulls rest := by
  exact List.countP_append

end Listing

theorem WalkEnd.ofFailure_cases (failure : Failure) :
    (∃ message, failure.reason = .stopWalk message) ∧ WalkEnd.ofFailure failure = .stopped ∨
      (∀ message, failure.reason ≠ .stopWalk message) ∧
        WalkEnd.ofFailure failure = .failed failure := by
  unfold WalkEnd.ofFailure
  split
  · next message hreason => exact .inl ⟨⟨message, hreason⟩, rfl⟩
  · next hreason => exact .inr ⟨hreason, rfl⟩

namespace Walk

variable {toName : String → String} {offset : Option String} {visitor : Visitor}
  {seen : List String} {front listing : Listing}

def visited (toName : String → String) (offset : Option String) (seen : List String)
    (front : Listing) : List String :=
  ((front.visits toName offset).map Visit.name).reverse ++ seen

@[simp]
theorem visited_nil : visited toName offset seen [] = seen := rfl

@[simp]
theorem visited_append (front rest : Listing) :
    visited toName offset seen (front ++ rest)
      =
    visited toName offset (visited toName offset seen front) rest := by
  simp [visited]

def Proceeds (toName : String → String) (offset : Option String) (visitor : Visitor)
    (seen : List String) : Item → Prop
  | .call _ => True
  | .failed _ => False
  | .key key =>
    visitor.cancelled seen = false ∧
      (isBefore offset key = false → visitor.reply (toName key :: seen) = none)

def Passes (toName : String → String) (offset : Option String) (visitor : Visitor)
    (seen : List String) (front : Listing) : Prop :=
  ∀ before item after, front = before ++ item :: after →
    Proceeds toName offset visitor (visited toName offset seen before) item

theorem passes_nil : Passes toName offset visitor seen [] := by
  intro before item after h
  simp at h

theorem passes_cons {item : Item} :
    Passes toName offset visitor seen (item :: front)
      ↔
    Proceeds toName offset visitor seen item ∧
      Passes toName offset visitor (visited toName offset seen [item]) front := by
  constructor
  · intro h
    refine ⟨h [] item front rfl, ?_⟩
    intro before other after hfront
    have hother := h (item :: before) other after (by rw [hfront]; rfl)
    rwa [← List.singleton_append, visited_append] at hother
  · rintro ⟨hitem, hfront⟩ before other after hcons
    cases before with
    | nil =>
      obtain ⟨rfl, -⟩ := List.cons.inj hcons
      exact hitem
    | cons first before =>
      obtain ⟨rfl, hafter⟩ := List.cons.inj hcons
      rw [← List.singleton_append, visited_append]
      exact hfront before other after hafter

def through (toName : String → String) (offset : Option String) (front : Listing) (w : Walk) :
    Walk where
  visits := front.visits toName offset ++ w.visits
  stop := w.stop
  pulled := front.pulls + w.pulled
  calls := front.calls ++ w.calls
  closings := w.closings

@[simp]
theorem through_nil (w : Walk) : through toName offset [] w = w := by
  simp [through, Listing.visits, Listing.calls, Listing.pulls]

theorem through_append (front rest : Listing) (w : Walk) :
    through toName offset (front ++ rest) w
      =
    through toName offset front (through toName offset rest w) := by
  simp [through, Nat.add_assoc]

theorem run_cons_of_proceeds {item : Item} (h : Proceeds toName offset visitor seen item)
    (rest : Listing) :
    run toName offset visitor seen (item :: rest)
      =
    through toName offset [item]
      (run toName offset visitor (visited toName offset seen [item]) rest) := by
  cases item with
  | call call =>
    simp [run, afterCall, through, visited, Listing.visits, Listing.calls, Listing.pulls]
  | failed failure => exact h.elim
  | key key =>
    obtain ⟨hcancel, hreply⟩ := h
    rw [run_key, if_neg (by simp [hcancel])]
    cases hbefore : isBefore offset key with
    | true =>
      simp [hbefore, afterPull, through, visited, Listing.visits, Listing.calls, Listing.pulls,
        Nat.add_comm]
    | false =>
      simp [hbefore, hreply hbefore, afterVisit, through, visited, Listing.visits, Listing.calls,
        Listing.pulls, Nat.add_comm]

theorem run_append (h : Passes toName offset visitor seen front) (rest : Listing) :
    run toName offset visitor seen (front ++ rest)
      =
    through toName offset front
      (run toName offset visitor (visited toName offset seen front) rest) := by
  induction front generalizing seen with
  | nil => simp
  | cons item front ih =>
    obtain ⟨hitem, hfront⟩ := passes_cons.1 h
    rw [List.cons_append, run_cons_of_proceeds hitem, ih hfront, ← visited_append,
      ← through_append, List.singleton_append]

theorem passes_or_exists (toName : String → String) (offset : Option String) (visitor : Visitor)
    (seen : List String) (listing : Listing) :
    Passes toName offset visitor seen listing ∨
      ∃ front item rest, listing = front ++ item :: rest ∧
        Passes toName offset visitor seen front ∧
        ¬ Proceeds toName offset visitor (visited toName offset seen front) item := by
  induction listing generalizing seen with
  | nil => exact .inl passes_nil
  | cons item rest ih =>
    by_cases hitem : Proceeds toName offset visitor seen item
    · obtain hrest | ⟨front, other, after, rfl, hfront, hother⟩ :=
        ih (visited toName offset seen [item])
      · exact .inl (passes_cons.2 ⟨hitem, hrest⟩)
      · refine .inr ⟨item :: front, other, after, rfl, passes_cons.2 ⟨hitem, hfront⟩, ?_⟩
        rwa [← List.singleton_append, visited_append]
    · exact .inr ⟨[], item, rest, rfl, passes_nil, hitem⟩

def Breaks (toName : String → String) (offset : Option String) (visitor : Visitor)
    (listing : Listing) (failure : Failure) : Prop :=
  ∃ front rest, listing = front ++ .failed failure :: rest ∧
    Passes toName offset visitor [] front

def CutOff (toName : String → String) (offset : Option String) (visitor : Visitor)
    (listing : Listing) : Prop :=
  ∃ front key rest, listing = front ++ .key key :: rest ∧
    Passes toName offset visitor [] front ∧
    visitor.cancelled (visited toName offset [] front) = true

def Raises (toName : String → String) (offset : Option String) (visitor : Visitor)
    (listing : Listing) (failure : Failure) : Prop :=
  ∃ front key rest, listing = front ++ .key key :: rest ∧
    Passes toName offset visitor [] front ∧
    visitor.cancelled (visited toName offset [] front) = false ∧
    isBefore offset key = false ∧
    visitor.reply (toName key :: visited toName offset [] front) = some failure

/-- All that a walk does, by the place in its listing where it ends. -/
inductive Course (toName : String → String) (offset : Option String) (visitor : Visitor)
    (listing : Listing) : Walk → Prop where
  | exhausted (hpasses : Passes toName offset visitor [] listing) :
    Course toName offset visitor listing
      { visits := listing.visits toName offset
        stop := .exhausted
        pulled := listing.pulls
        calls := listing.calls
        closings := 1 }
  | broken (front : Listing) (failure : Failure) (rest : Listing)
      (hlisting : listing = front ++ .failed failure :: rest)
      (hpasses : Passes toName offset visitor [] front) :
    Course toName offset visitor listing
      { visits := front.visits toName offset
        stop := .failed failure
        pulled := front.pulls + 1
        calls := front.calls
        closings := 1 }
  | cutOff (front : Listing) (key : String) (rest : Listing)
      (hlisting : listing = front ++ .key key :: rest)
      (hpasses : Passes toName offset visitor [] front)
      (hcancel : visitor.cancelled (visited toName offset [] front) = true) :
    Course toName offset visitor listing
      { visits := front.visits toName offset
        stop := .failed cancelledFailure
        pulled := front.pulls + 1
        calls := front.calls
        closings := 1 }
  | raised (front : Listing) (key : String) (rest : Listing) (failure : Failure)
      (hlisting : listing = front ++ .key key :: rest)
      (hpasses : Passes toName offset visitor [] front)
      (hcancel : visitor.cancelled (visited toName offset [] front) = false)
      (hoffset : isBefore offset key = false)
      (hreply : visitor.reply (toName key :: visited toName offset [] front) = some failure) :
    Course toName offset visitor listing
      { visits := front.visits toName offset ++ [⟨key, toName key⟩]
        stop := .ofFailure failure
        pulled := front.pulls + 1
        calls := front.calls
        closings := 1 }

namespace Course

variable {w : Walk}

theorem eq_run (h : Course toName offset visitor listing w) :
    w = run toName offset visitor [] listing := by
  cases h with
  | exhausted hpasses =>
    have hrun := run_append hpasses []
    rw [List.append_nil] at hrun
    simp [hrun, run, through, ending]
  | broken front failure rest hlisting hpasses =>
    simp [hlisting, run_append hpasses, run, through, ending, afterPull]
  | cutOff front key rest hlisting hpasses hcancel =>
    simp [hlisting, run_append hpasses, run, hcancel, through, ending, afterPull]
  | raised front key rest failure hlisting hpasses hcancel hoffset hreply =>
    simp [hlisting, run_append hpasses, run, hcancel, hoffset, hreply, through, ending, afterVisit]

theorem of_run (toName : String → String) (offset : Option String) (visitor : Visitor)
    (listing : Listing) :
    Course toName offset visitor listing (run toName offset visitor [] listing) := by
  obtain hpasses | ⟨front, item, rest, hlisting, hpasses, hitem⟩ :=
    passes_or_exists toName offset visitor [] listing
  · have h := exhausted hpasses
    rwa [h.eq_run] at h
  · cases item with
    | call call => exact absurd trivial hitem
    | failed failure =>
      have h := broken front failure rest hlisting hpasses
      rwa [h.eq_run] at h
    | key key =>
      cases hcancel : visitor.cancelled (visited toName offset [] front) with
      | true =>
        have h := cutOff front key rest hlisting hpasses hcancel
        rwa [h.eq_run] at h
      | false =>
        have hraised : isBefore offset key = false ∧
            visitor.reply (toName key :: visited toName offset [] front) ≠ none := by
          rw [Proceeds, hcancel] at hitem
          simpa using hitem
        obtain ⟨failure, hreply⟩ := Option.ne_none_iff_exists'.1 hraised.2
        have h := raised front key rest failure hlisting hpasses hcancel hraised.1 hreply
        rwa [h.eq_run] at h

end Course

theorem result_eq_ok_iff {count : Nat} :
    (run toName offset visitor [] listing).result = .ok count
      ↔
    count = (run toName offset visitor [] listing).visits.length ∧
      (Passes toName offset visitor [] listing ∨
        ∃ failure message, Raises toName offset visitor listing failure ∧
          failure.reason = .stopWalk message) := by
  constructor
  · intro h
    have hcourse := Course.of_run toName offset visitor listing
    generalize run toName offset visitor [] listing = w at h hcourse
    cases hcourse with
    | exhausted hpasses => exact ⟨(Except.ok.inj h).symm, .inl hpasses⟩
    | broken front failure rest hlisting hpasses => nomatch h
    | cutOff front key rest hlisting hpasses hcancel => nomatch h
    | raised front key rest failure hlisting hpasses hcancel hoffset hreply =>
      have hraises : Raises toName offset visitor listing failure :=
        ⟨front, key, rest, hlisting, hpasses, hcancel, hoffset, hreply⟩
      unfold result at h
      obtain ⟨⟨message, hreason⟩, hstop⟩ | ⟨-, hstop⟩ := WalkEnd.ofFailure_cases failure
      · rw [hstop] at h
        exact ⟨(Except.ok.inj h).symm, .inr ⟨failure, message, hraises, hreason⟩⟩
      · rw [hstop] at h
        nomatch h
  · rintro ⟨rfl, hpasses | ⟨failure, message, hraises, hreason⟩⟩
    · rw [← (Course.exhausted hpasses).eq_run]
      rfl
    · obtain ⟨front, key, rest, hlisting, hpasses, hcancel, hoffset, hreply⟩ := hraises
      rw [← (Course.raised front key rest failure hlisting hpasses hcancel hoffset hreply).eq_run]
      simp [result, WalkEnd.ofFailure, hreason]

theorem result_eq_error_iff {failure : Failure} :
    (run toName offset visitor [] listing).result = .error failure
      ↔
    Breaks toName offset visitor listing failure ∨
      (CutOff toName offset visitor listing ∧ failure = cancelledFailure) ∨
        (Raises toName offset visitor listing failure ∧
          ∀ message, failure.reason ≠ .stopWalk message) := by
  constructor
  · intro h
    have hcourse := Course.of_run toName offset visitor listing
    generalize run toName offset visitor [] listing = w at h hcourse
    cases hcourse with
    | exhausted hpasses => nomatch h
    | broken front raised rest hlisting hpasses =>
      obtain rfl := Except.error.inj h
      exact .inl ⟨front, rest, hlisting, hpasses⟩
    | cutOff front key rest hlisting hpasses hcancel =>
      obtain rfl := Except.error.inj h
      exact .inr (.inl ⟨⟨front, key, rest, hlisting, hpasses, hcancel⟩, rfl⟩)
    | raised front key rest raised hlisting hpasses hcancel hoffset hreply =>
      unfold result at h
      obtain ⟨-, hstop⟩ | ⟨hreason, hstop⟩ := WalkEnd.ofFailure_cases raised
      · rw [hstop] at h
        nomatch h
      · rw [hstop] at h
        obtain rfl := Except.error.inj h
        have hraises : Raises toName offset visitor listing raised :=
          ⟨front, key, rest, hlisting, hpasses, hcancel, hoffset, hreply⟩
        exact .inr (.inr ⟨hraises, hreason⟩)
  · rintro (⟨front, rest, hlisting, hpasses⟩ | ⟨hcut, rfl⟩ | ⟨hraises, hreason⟩)
    · rw [← (Course.broken front failure rest hlisting hpasses).eq_run]
      rfl
    · obtain ⟨front, key, rest, hlisting, hpasses, hcancel⟩ := hcut
      rw [← (Course.cutOff front key rest hlisting hpasses hcancel).eq_run]
      rfl
    · obtain ⟨front, key, rest, hlisting, hpasses, hcancel, hoffset, hreply⟩ := hraises
      rw [← (Course.raised front key rest failure hlisting hpasses hcancel hoffset hreply).eq_run]
      obtain ⟨⟨message, hstop⟩, -⟩ | ⟨-, hstop⟩ := WalkEnd.ofFailure_cases failure
      · exact absurd hstop (hreason message)
      · unfold result
        rw [hstop]

/--
A walk runs along the one course there is for its listing and visitor, and this says whether it
returns the number of its visits or fails.
-/
theorem run_iff_course (toName : String → String) (offset : Option String) (visitor : Visitor)
    (listing : Listing) :
    (∀ w, w = run toName offset visitor [] listing ↔ Course toName offset visitor listing w) ∧
    (∀ count,
      (run toName offset visitor [] listing).result = .ok count
        ↔
      count = (run toName offset visitor [] listing).visits.length ∧
        (Passes toName offset visitor [] listing ∨
          ∃ failure message, Raises toName offset visitor listing failure ∧
            failure.reason = .stopWalk message)) ∧
    (∀ failure,
      (run toName offset visitor [] listing).result = .error failure
        ↔
      Breaks toName offset visitor listing failure ∨
        (CutOff toName offset visitor listing ∧ failure = cancelledFailure) ∨
          (Raises toName offset visitor listing failure ∧
            ∀ message, failure.reason ≠ .stopWalk message)) := by
  refine ⟨?_, fun _ => result_eq_ok_iff, fun _ => result_eq_error_iff⟩
  intro w
  constructor
  · rintro rfl
    exact Course.of_run toName offset visitor listing
  · exact Course.eq_run

section Collector

variable {limit : Int}

theorem Passes.of_collector (h : Passes toName offset (collector limit) seen front) :
    Passes toName offset {} seen front := by
  intro before item after hfront
  have hitem := h before item after hfront
  cases item with
  | call call => trivial
  | failed failure => exact hitem.elim
  | key key => exact ⟨rfl, fun _ => rfl⟩

theorem collector_reply_eq_none {names : List String} :
    (collector limit).reply names = none ↔ (names.length : Int) < limit := by
  unfold collector
  by_cases hfull : limit ≤ names.length
  · simp [hfull]
  · simp [hfull, Int.not_le.1 hfull]

theorem Passes.length_visited_lt (h : Passes toName offset (collector limit) seen front)
    (hseen : (seen.length : Int) < limit) :
    ((visited toName offset seen front).length : Int) < limit := by
  induction front generalizing seen with
  | nil => exact hseen
  | cons item front ih =>
    obtain ⟨hitem, hfront⟩ := passes_cons.1 h
    rw [← List.singleton_append, visited_append]
    apply ih hfront
    cases item with
    | call call => exact hseen
    | failed failure => exact hitem.elim
    | key key =>
      cases hbefore : isBefore offset key with
      | true =>
        simp only [visited, Listing.visits, List.filterMap_cons, hbefore]
        exact hseen
      | false =>
        simp only [visited, Listing.visits, List.filterMap_cons, hbefore]
        exact collector_reply_eq_none.1 (hitem.2 hbefore)

/-- The walk for the first names is the whole walk, or it ends when it has visited them. -/
inductive Bounded (toName : String → String) (offset : Option String) (limit : Int)
    (listing : Listing) : Walk → Prop where
  | whole (hshort : ((run toName offset {} [] listing).names.length : Int) < limit) :
    Bounded toName offset limit listing (run toName offset {} [] listing)
  | cut (front : Listing) (key : String) (rest : Listing)
      (hlisting : listing = front ++ .key key :: rest)
      (hpasses : Passes toName offset {} [] front)
      (hoffset : isBefore offset key = false)
      (hlength : ((front.visits toName offset).length : Int) + 1 = limit) :
    Bounded toName offset limit listing
      { visits := front.visits toName offset ++ [⟨key, toName key⟩]
        stop := .stopped
        pulled := front.pulls + 1
        calls := front.calls
        closings := 1 }

theorem bounded_run (toName : String → String) (offset : Option String) (hlimit : 0 < limit)
    (listing : Listing) :
    Bounded toName offset limit listing (run toName offset (collector limit) [] listing) := by
  have hcourse := Course.of_run toName offset (collector limit) listing
  have hlength : ∀ front, Passes toName offset (collector limit) [] front →
      ((front.visits toName offset).length : Int) < limit := by
    intro front hpasses
    have hvisited := hpasses.length_visited_lt hlimit
    simpa [visited] using hvisited
  have hwhole : ∀ w : Walk, (w.visits.length : Int) < limit →
      Course toName offset {} listing w → Bounded toName offset limit listing w := by
    intro w hvisits hfull
    obtain rfl := hfull.eq_run
    refine .whole ?_
    unfold names
    rwa [List.length_map]
  generalize run toName offset (collector limit) [] listing = w at hcourse
  cases hcourse with
  | exhausted hpasses =>
    exact hwhole _ (hlength _ hpasses) (.exhausted hpasses.of_collector)
  | broken front failure rest hlisting hpasses =>
    exact hwhole _ (hlength _ hpasses) (.broken front failure rest hlisting hpasses.of_collector)
  | cutOff front key rest hlisting hpasses hcancel => nomatch hcancel
  | raised front key rest failure hlisting hpasses hcancel hoffset hreply =>
    have hfew := hlength _ hpasses
    have hfull : limit ≤ (toName key :: visited toName offset [] front).length := by
      rw [← Int.not_lt, ← collector_reply_eq_none, hreply]
      simp
    have hstop : WalkEnd.ofFailure failure = .stopped := by
      simp only [collector, if_pos hfull, Option.some.injEq] at hreply
      rw [← hreply]
      rfl
    have hexact : ((front.visits toName offset).length : Int) + 1 = limit := by
      simp only [visited, List.append_nil, List.length_cons, List.length_reverse, List.length_map]
        at hfull
      omega
    rw [hstop]
    exact .cut front key rest hlisting hpasses.of_collector hoffset hexact

def upTo (limit : Int) (w : Walk) : Except Failure (List String) :=
  if limit.toNat ≤ w.names.length then .ok (w.names.take limit.toNat)
  else w.result.map fun _ => w.names

theorem Bounded.upTo_eq {w : Walk} (h : Bounded toName offset limit listing w) :
    (w.result.map fun _ => w.names) = (run toName offset {} [] listing).upTo limit := by
  cases h with
  | whole hshort =>
    unfold upTo
    rw [if_neg (by omega)]
  | cut front key rest hlisting hpasses hoffset hlength =>
    -- The whole walk goes on after the same names.
    have hnames : ∃ more, (run toName offset {} [] listing).names
        = (front.visits toName offset).map Visit.name ++ [toName key] ++ more := by
      let seen := toName key :: visited toName offset [] front
      refine ⟨(run toName offset {} seen rest).names, ?_⟩
      unfold seen
      rw [hlisting, run_append hpasses, run_key, if_neg (by simp), hoffset]
      simp [through, names, afterVisit]
    obtain ⟨more, hnames⟩ := hnames
    have hcount : limit.toNat
        = ((front.visits toName offset).map Visit.name ++ [toName key]).length := by
      rw [List.length_append, List.length_map, List.length_singleton]
      omega
    have hle : limit.toNat ≤ (run toName offset {} [] listing).names.length := by
      rw [hnames, List.length_append, hcount]
      exact Nat.le_add_right _ _
    unfold upTo
    rw [if_pos hle, hnames, List.take_left' hcount.symm]
    simp [result, names, Except.map]

theorem Bounded.names_eq_take {w : Walk} (h : Bounded toName offset limit listing w) {count : Nat}
    (hdone : (run toName offset {} [] listing).result = .ok count) :
    w.names = (run toName offset {} [] listing).names.take limit.toNat
      ∧ ∃ count, w.result = .ok count := by
  have hfirst : (run toName offset {} [] listing).upTo limit
      = .ok ((run toName offset {} [] listing).names.take limit.toNat) := by
    unfold upTo
    rw [hdone]
    split
    · rfl
    · next hshort =>
      rw [List.take_of_length_le (Nat.le_of_not_le hshort)]
      rfl
  have hupTo := h.upTo_eq
  rw [hfirst] at hupTo
  cases hresult : w.result with
  | ok count =>
    rw [hresult] at hupTo
    exact ⟨Except.ok.inj hupTo, count, rfl⟩
  | error failure =>
    rw [hresult] at hupTo
    nomatch hupTo

end Collector

section Names

variable {limit : Int} (names : List String)

theorem passes_ofKeys : Passes toName offset {} seen (Listing.ofKeys names) := by
  intro before item after hnames
  have hitem : item ∈ Listing.ofKeys names := by
    rw [hnames]
    exact List.mem_append_right _ List.mem_cons_self
  obtain ⟨name, -, rfl⟩ := List.mem_map.1 hitem
  exact ⟨rfl, fun _ => rfl⟩

theorem run_ofKeys_all :
    (run id none {} [] (Listing.ofKeys names)).names = names
      ∧ ∃ count, (run id none {} [] (Listing.ofKeys names)).result = .ok count := by
  have hvisits : (Listing.ofKeys names).visits id none = names.map fun name => ⟨name, name⟩ := by
    unfold Listing.visits Listing.ofKeys
    rw [List.filterMap_map, ← List.filterMap_eq_map]
    rfl
  rw [← (Course.exhausted (passes_ofKeys names)).eq_run]
  refine ⟨?_, _, rfl⟩
  unfold Walk.names
  rw [hvisits, List.map_map]
  exact List.map_id names

theorem run_collector (hlimit : 0 < limit) :
    (run id none (collector limit) [] (Listing.ofKeys names)).names = names.take limit.toNat
      ∧ ∃ count, (run id none (collector limit) [] (Listing.ofKeys names)).result = .ok count := by
  obtain ⟨hnames, count, hdone⟩ := run_ofKeys_all names
  have hfirst := (bounded_run id none hlimit (Listing.ofKeys names)).names_eq_take hdone
  rw [hnames] at hfirst
  exact hfirst

end Names

end Walk

end Depot
