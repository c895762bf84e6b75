import Mathlib.Tactic
import PadScript.Partition
import PadScript.Proofs.Controller
import PadScript.Recorder

/-!
# Recordings partition the frames

The segments of a recording cover the recorded frames from one on, and hold finite input only.
-/
namespace PadScript

namespace Partition

def frameAfter (next : Nat) (segments : List Segment) : Nat :=
  (segments.getLast?.map fun s => s.last.toNat + 1).getD next

theorem frameAfter_cons (next : Nat) (s : Segment) (rest : List Segment) :
    frameAfter next (s :: rest) = frameAfter (s.last.toNat + 1) rest := by
  cases rest with
  | nil => rfl
  | cons t rest => simp [frameAfter, List.getLast?_cons]

@[simp] theorem frameAfter_snoc (next : Nat) (segments : List Segment) (s : Segment) :
    frameAfter next (segments ++ [s]) = s.last.toNat + 1 := by
  simp [frameAfter]

theorem from_snoc_iff {next : Nat} {segments : List Segment} {s : Segment} :
    From next (segments ++ [s]) ↔ From next segments ∧
      s.first.toNat = frameAfter next segments ∧ s.first.toNat ≤ s.last.toNat := by
  induction segments generalizing next with
  | nil =>
    constructor
    · intro h
      cases h with
      | cons start filled _ => exact ⟨.nil _, start, filled⟩
    · rintro ⟨-, start, filled⟩
      exact .cons start filled (.nil _)
  | cons t rest ih =>
    rw [frameAfter_cons, List.cons_append]
    constructor
    · intro h
      cases h with
      | cons start filled following =>
        obtain ⟨hrest, hs⟩ := ih.mp following
        exact ⟨.cons start filled hrest, hs⟩
    · rintro ⟨h, hs⟩
      cases h with
      | cons start filled following => exact .cons start filled (ih.mpr ⟨following, hs⟩)

theorem From.le_frameAfter {next : Nat} {segments : List Segment} (h : From next segments) :
    next ≤ frameAfter next segments := by
  induction h with
  | nil => exact le_rfl
  | cons start filled _ ih =>
    rw [frameAfter_cons]
    omega

theorem From.last_lt_frameAfter {next : Nat} {segments : List Segment} (h : From next segments)
    {s : Segment} (hs : s ∈ segments) : s.last.toNat < frameAfter next segments := by
  induction h with
  | nil => simp at hs
  | cons _ _ following ih =>
    rw [frameAfter_cons]
    rcases List.mem_cons.mp hs with rfl | hs
    · exact following.le_frameAfter
    · exact ih hs

end Partition

namespace Recorder

/-- The captured segments, the latest first, cover the frames from one to `count`. -/
structure Covers (count : Nat) (captured : List Segment) : Prop where
  partition : Partition.From 1 captured.reverse
  count : Partition.frameAfter 1 captured.reverse = count + 1
  finite : ∀ s ∈ captured, ∀ a, (s.input.axes.get a).isFinite

theorem covers_nil : Covers 0 [] := ⟨.nil _, rfl, by simp⟩

theorem Covers.last {count : Nat} {s : Segment} {earlier : List Segment}
    (h : Covers count (s :: earlier)) : s.last.toNat = count := by
  have hcount := h.count
  rw [List.reverse_cons, Partition.frameAfter_snoc] at hcount
  omega

theorem Covers.toNat_next {count : Nat} {s : Segment} {earlier : List Segment}
    (h : Covers count (s :: earlier)) (hroom : count < Frame.largest.toNat) :
    (s.last + 1).toNat = count + 1 := by
  have hword : Frame.largest.toNat + 1 = 2 ^ 64 := by decide
  rw [UInt64.toNat_add, h.last, UInt64.toNat_one, Nat.mod_eq_of_lt (by omega)]

theorem Covers.capture {count : Nat} {captured : List Segment} (h : Covers count captured)
    (hroom : count < Frame.largest.toNat) {input : Controller}
    (hinput : ∀ a, (input.axes.get a).isFinite) :
    Covers (count + 1) (capture captured input) := by
  cases captured with
  | nil =>
    obtain rfl : 0 = count := Nat.succ.inj h.count
    refine ⟨.cons rfl le_rfl (.nil _), rfl, fun t ht => ?_⟩
    rw [List.mem_singleton.mp ht]
    exact hinput
  | cons s earlier =>
    have hnext := h.toNat_next hroom
    have hfinite := h.finite
    have hpartition := h.partition
    rw [List.reverse_cons, Partition.from_snoc_iff] at hpartition
    obtain ⟨hearlier, hstart, hfilled⟩ := hpartition
    rw [h.last] at hfilled
    unfold Recorder.capture
    dsimp only
    split
    · -- the latest segment grows
      refine ⟨?_, ?_, fun t ht => ?_⟩
      · rw [List.reverse_cons, Partition.from_snoc_iff]
        refine ⟨hearlier, hstart, ?_⟩
        dsimp only
        omega
      · rw [List.reverse_cons, Partition.frameAfter_snoc, hnext]
      · rcases List.mem_cons.mp ht with rfl | ht
        · exact hfinite s List.mem_cons_self
        · exact hfinite t (List.mem_cons_of_mem _ ht)
    · -- a segment of its own begins
      refine ⟨?_, ?_, fun t ht => ?_⟩
      · rw [List.reverse_cons, Partition.from_snoc_iff]
        exact ⟨h.partition, hnext.trans h.count.symm, le_rfl⟩
      · rw [List.reverse_cons, Partition.frameAfter_snoc, hnext]
      · rcases List.mem_cons.mp ht with rfl | ht
        · exact hinput
        · exact hfinite t ht

theorem Covers.last_le {count : Nat} {captured : List Segment} (h : Covers count captured)
    {s : Segment} (hs : s ∈ captured) : s.last.toNat ≤ count := by
  have hlast := h.partition.last_lt_frameAfter (List.mem_reverse.mpr hs)
  rw [h.count] at hlast
  omega

@[simp] theorem recording_record (r : Recorder) (input : Controller) :
    (r.record input).recording = r.recording := by
  unfold record
  split <;> rfl

/-- The recorders that come about by use, each with the number of inputs that it was offered since
the latest start or stop. -/
inductive Used : Nat → Recorder → Prop
  | new : Used 0 {}
  | start {count : Nat} {r : Recorder} (used : Used count r) : Used 0 r.start
  | record {count : Nat} {r : Recorder} (used : Used count r) (input : Controller) :
      Used (count + 1) (r.record input)
  | stop {count : Nat} {r : Recorder} (used : Used count r) : Used 0 r.stop.2

theorem Used.covers {offered : Nat} {r : Recorder} (h : Used offered r)
    (hroom : offered ≤ Frame.largest.toNat) : ∃ count ≤ offered, Covers count r.captured := by
  induction h with
  | new => exact ⟨0, le_rfl, covers_nil⟩
  | start => exact ⟨0, le_rfl, covers_nil⟩
  | stop => exact ⟨0, le_rfl, covers_nil⟩
  | record _ input ih =>
    obtain ⟨count, hcount, hcovers⟩ := ih (by omega)
    unfold Recorder.record
    split
    · exact ⟨count + 1, by omega, hcovers.capture (by omega) input.finite_axes⟩
    · exact ⟨count, by omega, hcovers⟩

end Recorder
end PadScript
