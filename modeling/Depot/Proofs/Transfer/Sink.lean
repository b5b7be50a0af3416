import Depot.Proofs.Codec.Gzip
import Depot.Transfer

/-!
This module contains the theory of sinks: which pieces a sink takes before it refuses one, and what it
holds then.
-/

namespace Depot

open Codec

variable {sink : Sink} {pieces : List ByteArray} {count n : Nat} {failure : Failure}

namespace Sink

/-- The failure of the write that comes after `n` more, if it fails. A closed sink takes nothing. -/
def refusal? (sink : Sink) (n : Nat) : Option Failure :=
  if sink.closed then some { reason := .closed .plain } else sink.refuses (sink.tries + n + 1)

def Takes (sink : Sink) (count : Nat) : Prop :=
  ∀ n < count, sink.refusal? n = none

structure Balks (sink : Sink) (count : Nat) (failure : Failure) : Prop where
  takes : sink.Takes count
  refuses : sink.refusal? count = some failure

def holding (sink : Sink) (pieces : List ByteArray) : Sink :=
  { sink with tries := sink.tries + pieces.length, writes := pieces.reverse ++ sink.writes }

theorem refusal?_holding (sink : Sink) (pieces : List ByteArray) (n : Nat) :
    (sink.holding pieces).refusal? n = sink.refusal? (pieces.length + n) := by
  unfold refusal? holding
  dsimp only
  rw [Nat.add_assoc sink.tries]

theorem holding_nil (sink : Sink) : sink.holding [] = sink := rfl

theorem holding_holding (sink : Sink) (pieces more : List ByteArray) :
    (sink.holding pieces).holding more = sink.holding (pieces ++ more) := by
  simp [holding, Nat.add_assoc]

theorem bytes_holding (sink : Sink) (pieces : List ByteArray) :
    (sink.holding pieces).bytes = sink.bytes ++ joined pieces := by
  induction pieces generalizing sink with
  | nil => simp [holding_nil]
  | cons piece pieces ih =>
    have hfirst : (sink.holding [piece]).bytes = sink.bytes ++ piece := by simp [holding, bytes]
    rw [← List.singleton_append, ← holding_holding, ih, hfirst, ByteArray.append_assoc]
    rfl

theorem takes_zero (sink : Sink) : sink.Takes 0 :=
  fun _ hn => absurd hn (Nat.not_lt_zero _)

theorem Takes.append (h : sink.Takes pieces.length) (hmore : (sink.holding pieces).Takes count) :
    sink.Takes (pieces.length + count) := by
  intro n hn
  by_cases hfirst : n < pieces.length
  · exact h n hfirst
  · have hlater := hmore (n - pieces.length) (by omega)
    rwa [refusal?_holding, Nat.add_sub_cancel' (Nat.not_lt.1 hfirst)] at hlater

theorem Balks.append (h : sink.Takes pieces.length) (hmore : (sink.holding pieces).Balks n failure) :
    sink.Balks (pieces.length + n) failure := by
  refine ⟨h.append hmore.takes, ?_⟩
  rw [← refusal?_holding]
  exact hmore.refuses

inductive Wrote (sink : Sink) (pieces : List ByteArray) : Except Failure Unit × Sink → Prop where
  | whole (h : sink.Takes pieces.length) : Wrote sink pieces (.ok (), sink.holding pieces)
  | cut {n : Nat} {failure : Failure} {sink' : Sink} (hn : n < pieces.length)
      (h : sink.Balks n failure) (hclosed : sink'.closed = sink.closed)
      (hbytes : sink'.bytes = sink.bytes ++ joined (pieces.take n)) :
      Wrote sink pieces (.error failure, sink')

theorem write_of_taken (h : sink.refusal? 0 = none) (piece : ByteArray) :
    sink.write piece = (.ok (), sink.holding [piece]) := by
  unfold refusal? at h
  unfold write
  split at h
  · cases h
  next hopen =>
    rw [if_neg hopen]
    rw [show sink.refuses (sink.tries + 1) = none from h]
    rfl

theorem write_of_refused (h : sink.refusal? 0 = some failure) (piece : ByteArray) :
    ∃ sink', sink.write piece = (.error failure, sink') ∧ sink'.closed = sink.closed
      ∧ sink'.bytes = sink.bytes := by
  unfold refusal? at h
  unfold write
  split at h
  next hclosed =>
    cases h
    rw [if_pos hclosed]
    exact ⟨sink, rfl, rfl, rfl⟩
  next hopen =>
    rw [if_neg hopen]
    rw [show sink.refuses (sink.tries + 1) = some failure from h]
    exact ⟨_, rfl, rfl, rfl⟩

theorem Wrote.cons {piece : ByteArray} {written : Except Failure Unit × Sink}
    (hfirst : sink.refusal? 0 = none) (h : (sink.holding [piece]).Wrote pieces written) :
    sink.Wrote (piece :: pieces) written := by
  have hone : sink.Takes [piece].length := by
    intro n hn
    rw [Nat.lt_one_iff.1 hn]
    exact hfirst
  cases h with
  | whole htakes =>
    have hall := hone.append htakes
    rw [← List.length_append] at hall
    rw [holding_holding]
    exact .whole hall
  | @cut n failure sink' hn hbalks hclosed hbytes =>
    have hbehind := hbalks.append hone
    rw [List.length_singleton, Nat.add_comm] at hbehind
    refine .cut (Nat.succ_lt_succ hn) hbehind hclosed ?_
    rw [hbytes, bytes_holding, ByteArray.append_assoc, joined_cons, joined_nil,
      ByteArray.append_empty]
    rfl

theorem wrote_writeAll (sink : Sink) (pieces : List ByteArray) :
    sink.Wrote pieces (sink.writeAll pieces) := by
  induction pieces generalizing sink with
  | nil => exact .whole sink.takes_zero
  | cons piece pieces ih =>
    unfold writeAll
    cases hfirst : sink.refusal? 0 with
    | some failure =>
      obtain ⟨sink', hwrite, hclosed, hbytes⟩ := write_of_refused hfirst piece
      rw [hwrite]
      refine .cut (Nat.zero_lt_succ _) ⟨sink.takes_zero, hfirst⟩ hclosed ?_
      rw [hbytes]
      exact ByteArray.append_empty.symm
    | none =>
      rw [write_of_taken hfirst]
      exact (ih (sink.holding [piece])).cons hfirst

end Sink

end Depot
