import PadScript.Proofs.Cursor
import PadScript.Proofs.Recording

/-!
# Three views of the frames of a store

In a store whose segments partition the frames, the halving search, the expansion and the frame
count are about the same frames: each frame has one segment, and one place in the expansion.
-/
namespace PadScript

namespace Partition

theorem From.exists_covering {next f : Nat} {segments : List Segment} (h : From next segments)
    (hstart : next ≤ f) (hend : f < frameAfter next segments) :
    ∃ s ∈ segments, s.first.toNat ≤ f ∧ f ≤ s.last.toNat := by
  induction h with
  | nil =>
    have hnone : f < _ := hend
    exact absurd hnone (not_lt.mpr hstart)
  | @cons next s rest start filled _ ih =>
    rw [frameAfter_cons] at hend
    by_cases hs : f ≤ s.last.toNat
    · exact ⟨s, List.mem_cons_self, start.trans_le hstart, hs⟩
    · obtain ⟨t, ht, hcovers⟩ := ih (by omega) hend
      exact ⟨t, List.mem_cons_of_mem s ht, hcovers⟩

theorem From.add_sum_frameCount {next : Nat} {segments : List Segment} (h : From next segments)
    (hnext : 1 ≤ next) :
    next + (segments.map Segment.frameCount).sum = frameAfter next segments := by
  induction h with
  | nil => rfl
  | @cons next s rest start filled _ ih =>
    have hcount : s.frameCount = s.last.toNat + 1 - s.first.toNat :=
      Segment.frameCount_eq (start ▸ hnext) filled
    have hrest := ih (by omega)
    rw [List.map_cons, List.sum_cons, frameAfter_cons]
    omega

end Partition

namespace Store

variable {store : Store}

theorem frameAfter_segments (store : Store) :
    Partition.frameAfter 1 store.segments = store.frameCount.toNat + 1 := by
  unfold Partition.frameAfter frameCount
  cases store.segments.getLast? with
  | none => rfl
  | some s => rfl

theorem length_expand (store : Store) :
    store.expand.length = (store.segments.map Segment.frameCount).sum := by
  simp [expand, List.length_flatMap]

namespace IsPartition

variable (h : store.IsPartition)
include h

theorem exists_covering_iff {n : Nat} :
    (∃ s ∈ store.segments, s.first.toNat ≤ n ∧ n ≤ s.last.toNat) ↔
      1 ≤ n ∧ n ≤ store.frameCount.toNat := by
  constructor
  · rintro ⟨s, hs, hfirst, hlast⟩
    have hstart := Partition.From.next_le h hs
    have hend := Partition.From.last_lt_frameAfter h hs
    rw [frameAfter_segments] at hend
    omega
  · rintro ⟨hstart, hend⟩
    refine Partition.From.exists_covering h hstart ?_
    rw [frameAfter_segments]
    omega

theorem sum_frameCount : (store.segments.map Segment.frameCount).sum = store.frameCount.toNat := by
  have hsum := Partition.From.add_sum_frameCount h le_rfl
  rw [frameAfter_segments] at hsum
  omega

theorem indexAt?_eq_some_iff {f : Frame} {i : Nat} :
    store.indexAt? f = some i ↔ ∃ s, store.get? i = some s ∧ s.contains f :=
  ⟨contains_of_indexAt?, fun ⟨_, hs, hc⟩ => h.indexAt?_eq_some hs hc⟩

theorem exists_indexAt? {f : Frame} (hstart : 1 ≤ f.toNat)
    (hend : f.toNat ≤ store.frameCount.toNat) :
    ∃ i s, store.indexAt? f = some i ∧ store.get? i = some s ∧ s.contains f := by
  obtain ⟨s, hs, hcovers⟩ := h.exists_covering_iff.mpr ⟨hstart, hend⟩
  obtain ⟨i, hi⟩ := List.getElem?_of_mem hs
  have hcontains : s.contains f := Playback.contains_iff.mpr hcovers
  exact ⟨i, s, h.indexAt?_eq_some hi hcontains, hi, hcontains⟩

theorem indexAt?_eq_none_iff {f : Frame} :
    store.indexAt? f = none ↔ f = 0 ∨ store.frameCount < f := by
  rw [← UInt64.toNat_inj, UInt64.toNat_zero, UInt64.lt_iff_toNat_lt]
  constructor
  · intro hnone
    by_contra hinside
    obtain ⟨hzero, hbeyond⟩ := not_or.mp hinside
    obtain ⟨i, s, hindex, -⟩ := h.exists_indexAt? (f := f) (by omega) (by omega)
    rw [hnone] at hindex
    cases hindex
  · intro houtside
    rw [Option.eq_none_iff_forall_ne_some]
    intro i hindex
    obtain ⟨s, hs, hcontains⟩ := contains_of_indexAt? hindex
    have hcovers := Playback.contains_iff.mp hcontains
    have hinside := h.exists_covering_iff.mp ⟨s, List.mem_of_getElem? hs, hcovers⟩
    omega

end IsPartition

/-- In a store whose segments cover the frames from one to `n`, each once, the search finds for each
of these frames the segment that contains it, at whose place in the expansion the segment's input
stands, and for other frames nothing; the frame count, the length of the expansion and the sum of
the segments' frame counts are all `n`. -/
theorem lookup_agrees_with_expansion (store : Store) (n : Nat) (h : store.IsPartition)
    (hn : ∀ f, (∃ s ∈ store.segments, s.first.toNat ≤ f ∧ f ≤ s.last.toNat) ↔ 1 ≤ f ∧ f ≤ n) :
    (∀ f i, store.indexAt? f = some i ↔ ∃ s, store.get? i = some s ∧ s.contains f) ∧
    (∀ f, store.indexAt? f = none ↔ f = 0 ∨ n < f.toNat) ∧
    store.frameCount.toNat = n ∧ store.expand.length = n ∧
    (store.segments.map Segment.frameCount).sum = n ∧
    ∀ f : Frame, 1 ≤ f.toNat → f.toNat ≤ n →
      ∃ i s, store.indexAt? f = some i ∧ store.get? i = some s ∧
        store.expand[f.toNat - 1]? = some s.input := by
  have hcount : store.frameCount.toNat = n := by
    have hsame : ∀ f, 1 ≤ f ∧ f ≤ store.frameCount.toNat ↔ 1 ≤ f ∧ f ≤ n :=
      fun f => h.exists_covering_iff.symm.trans (hn f)
    have hlow := hsame n
    have hhigh := hsame store.frameCount.toNat
    omega
  refine ⟨fun f i => h.indexAt?_eq_some_iff, fun f => ?_, hcount, ?_, ?_, fun f hstart hend => ?_⟩
  · rw [h.indexAt?_eq_none_iff, UInt64.lt_iff_toNat_lt, hcount]
  · rw [length_expand, h.sum_frameCount, hcount]
  · rw [h.sum_frameCount, hcount]
  · obtain ⟨i, s, hindex, hs, hcontains⟩ := h.exists_indexAt? hstart (hcount ▸ hend)
    obtain ⟨hfirst, hlast⟩ := Playback.contains_iff.mp hcontains
    exact ⟨i, s, hindex, hs, Partition.From.expand_getElem? h le_rfl hs hfirst hlast⟩

/-- The first and the last frame of a segment, in a store with a segment of one frame. -/
theorem lookup_agrees_with_expansion_of_three_segments :
    let press (first last : Frame) (b : Button) : Segment :=
      { first, last, source := ⟨"main", 1⟩, input := { buttons := .ofButton b } }
    let store : Store := ⟨[press 1 3 .x, press 4 4 .up, press 5 9 .square]⟩
    store.IsPartition ∧ store.expand.length = 9 ∧ store.indexAt? 10 = none ∧
      (∃ i s, store.indexAt? 4 = some i ∧ store.get? i = some s ∧
        store.expand[3]? = some s.input) ∧ store.indexAt? 9 = some 2 := by
  intro press store
  have h : store.IsPartition :=
    .cons rfl (by decide) (.cons rfl (by decide) (.cons rfl (by decide) (.nil _)))
  have hn : ∀ f, (∃ s ∈ store.segments, s.first.toNat ≤ f ∧ f ≤ s.last.toNat) ↔
      1 ≤ f ∧ f ≤ 9 := fun f => h.exists_covering_iff
  obtain ⟨hsome, hnone, -, hlength, -, hinput⟩ := lookup_agrees_with_expansion store 9 h hn
  refine ⟨h, hlength, (hnone 10).mpr (.inr (by decide)), hinput 4 (by decide) (by decide), ?_⟩
  exact (hsome 9 2).mpr ⟨press 5 9 .square, rfl, by decide⟩

end Store
end PadScript
