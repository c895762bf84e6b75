import Mathlib.Tactic
import PadScript.Partition

/-!
# Lookup in partitions

In a store whose segments partition the frames, the halving search finds the segment that covers a
frame, and the expansion holds that segment's input at the frame's place.
-/
namespace PadScript

namespace Partition

theorem From.filled {next : Nat} {segments : List Segment} (h : From next segments) {s : Segment}
    (hs : s ∈ segments) : s.first.toNat ≤ s.last.toNat := by
  induction h with
  | nil => simp at hs
  | cons _ filled _ ih =>
    rcases List.mem_cons.mp hs with rfl | hs
    · exact filled
    · exact ih hs

theorem From.next_le {next : Nat} {segments : List Segment} (h : From next segments) {s : Segment}
    (hs : s ∈ segments) : next ≤ s.first.toNat := by
  induction h with
  | nil => simp at hs
  | cons start filled _ ih =>
    rcases List.mem_cons.mp hs with rfl | hs
    · exact start.ge
    · have := ih hs
      omega

theorem From.frameCount_eq {next : Nat} {segments : List Segment} (h : From next segments)
    (hn : 1 ≤ next) {s : Segment} (hs : s ∈ segments) :
    s.frameCount = s.last.toNat + 1 - s.first.toNat :=
  Segment.frameCount_eq (hn.trans (h.next_le hs)) (h.filled hs)

theorem From.last_lt_first {next : Nat} {segments : List Segment} (h : From next segments)
    {i j : Nat} {s t : Segment} (hij : i < j) (hi : segments[i]? = some s)
    (hj : segments[j]? = some t) : s.last.toNat < t.first.toNat := by
  induction h generalizing i j with
  | nil => simp at hi
  | cons start filled following ih =>
    cases j with
    | zero => omega
    | succ j =>
      rw [List.getElem?_cons_succ] at hj
      cases i with
      | zero =>
        simp only [List.getElem?_cons_zero, Option.some.injEq] at hi
        subst hi
        have := following.next_le (List.mem_of_getElem? hj)
        omega
      | succ i =>
        rw [List.getElem?_cons_succ] at hi
        exact ih (by omega) hi hj

theorem From.first_eq_succ {next : Nat} {segments : List Segment} (h : From next segments)
    {i : Nat} {s t : Segment} (hi : segments[i]? = some s) (hj : segments[i + 1]? = some t) :
    t.first.toNat = s.last.toNat + 1 := by
  induction h generalizing i with
  | nil => simp at hi
  | cons start filled following ih =>
    cases i with
    | zero =>
      simp only [List.getElem?_cons_zero, Option.some.injEq] at hi
      subst hi
      cases following with
      | nil => simp at hj
      | cons start' => simp_all
    | succ i => exact ih (by simpa using hi) (by simpa using hj)

theorem From.first_of_head {next : Nat} {segments : List Segment} (h : From next segments)
    {s : Segment} (hs : segments[0]? = some s) : s.first.toNat = next := by
  cases h with
  | nil => simp at hs
  | cons start => simp_all

theorem From.expand_getElem? {next : Nat} {segments : List Segment} (h : From next segments)
    (hn : 1 ≤ next) {i f : Nat} {s : Segment} (hs : segments[i]? = some s)
    (hf : s.first.toNat ≤ f) (hl : f ≤ s.last.toNat) :
    (Store.expand ⟨segments⟩)[f - next]? = some s.input := by
  induction h generalizing i with
  | nil => simp at hs
  | @cons next t rest start filled following ih =>
    have hcount : t.frameCount = t.last.toNat + 1 - t.first.toNat :=
      Segment.frameCount_eq (by omega) filled
    simp only [Store.expand, List.flatMap_cons]
    cases i with
    | zero =>
      simp only [List.getElem?_cons_zero, Option.some.injEq] at hs
      subst hs
      rw [List.getElem?_append_left (by simp only [List.length_replicate]; omega)]
      simp only [List.getElem?_replicate]
      rw [if_pos (by omega)]
    | succ i =>
      rw [List.getElem?_cons_succ] at hs
      have hfirst := following.next_le (List.mem_of_getElem? hs)
      rw [List.getElem?_append_right (by simp only [List.length_replicate]; omega)]
      have hplace : f - next - (List.replicate t.frameCount t.input).length =
          f - (t.last.toNat + 1) := by
        simp only [List.length_replicate]
        omega
      rw [hplace]
      exact ih (by omega) hs

end Partition

namespace Store

/-- The halving search finds the place up to which `p` holds. -/
theorem bisect_eq {p : Nat → Bool} {base size cut : Nat} (hlow : base ≤ cut)
    (hhigh : cut ≤ base + size)
    (hcut : ∀ i, base ≤ i → i < base + size → (p i = true ↔ i < cut)) :
    bisect p base size = cut := by
  fun_induction bisect p base size with
  | case1 base size hsize hp =>
    have := (hcut base le_rfl (by omega)).mp hp.2
    omega
  | case2 base size hsize hp =>
    by_cases hs : size = 1
    · have hb : ¬ base < cut := fun hlt => hp ⟨hs, (hcut base le_rfl (by omega)).mpr hlt⟩
      omega
    · omega
  | case3 base size hsize middle ih =>
    have hm := hcut middle (by omega) (by omega)
    -- the half that is kept still holds the cut
    by_cases hp : p middle = true
    · have := hm.mp hp
      rw [dif_pos hp] at ih
      rw [if_pos hp]
      exact ih (by omega) (by omega) fun i hi hlt => hcut i (by omega) (by omega)
    · have : ¬ middle < cut := fun hlt => hp (hm.mpr hlt)
      rw [dif_neg hp] at ih
      rw [if_neg hp]
      exact ih (by omega) (by omega) fun i hi hlt => hcut i (by omega) (by omega)

theorem IsPartition.indexAt?_eq_some {store : Store} (h : store.IsPartition) {i : Nat} {f : Frame}
    {s : Segment} (hs : store.get? i = some s) (hc : s.contains f) :
    store.indexAt? f = some i := by
  simp only [Segment.contains, Bool.and_eq_true, decide_eq_true_eq,
    UInt64.le_iff_toNat_le] at hc
  have hi : i < store.size := (List.getElem?_eq_some_iff.mp hs).1
  have hbisect : bisect (fun j => (store.get? j).any fun seg => seg.last < f) 0 store.size = i := by
    refine bisect_eq (Nat.zero_le _) (by omega) fun j _ hj => ?_
    obtain ⟨t, ht⟩ : ∃ t, store.get? j = some t :=
      ⟨_, List.getElem?_eq_getElem (by simpa [size] using hj)⟩
    simp only [ht, Option.any_some, decide_eq_true_eq, UInt64.lt_iff_toNat_lt]
    constructor
    · intro hlt
      by_contra hle
      rcases Nat.lt_or_eq_of_le (Nat.le_of_not_lt hle) with hij | rfl
      · have := h.last_lt_first hij hs ht
        have := h.filled (List.mem_of_getElem? ht)
        omega
      · have : s = t := Option.some.inj (hs.symm.trans ht)
        subst this
        omega
    · intro hji
      have := h.last_lt_first hji ht hs
      omega
  simp only [indexAt?, hbisect, hs, Option.any_some, Segment.contains, Bool.and_eq_true,
    decide_eq_true_eq, UInt64.le_iff_toNat_le, hc, and_self, if_true]

theorem IsPartition.eq_of_contains {store : Store} (h : store.IsPartition)
    {s t : Segment} {f : Frame}
    (hs : s ∈ store.segments) (hsf : s.contains f) (ht : t ∈ store.segments)
    (htf : t.contains f) : s = t := by
  obtain ⟨i, hi⟩ := List.getElem?_of_mem hs
  obtain ⟨j, hj⟩ := List.getElem?_of_mem ht
  obtain rfl : i = j := Option.some.inj
    ((h.indexAt?_eq_some hi hsf).symm.trans (h.indexAt?_eq_some hj htf))
  exact Option.some.inj (hi.symm.trans hj)

theorem frameCount_eq_last {store : Store} {i : Nat} {s : Segment} (hs : store.get? i = some s)
    (hi : i + 1 = store.size) : store.frameCount = s.last := by
  have hlast : store.segments.getLast? = some s := by
    rw [List.getLast?_eq_getElem?, ← hs]
    simp only [size] at hi
    simp only [get?, ← hi, Nat.add_sub_cancel]
  simp [frameCount, hlast]

theorem IsPartition.last_le_frameCount {store : Store} (h : store.IsPartition) {i : Nat}
    {s : Segment} (hs : store.get? i = some s) : s.last.toNat ≤ store.frameCount.toNat := by
  have hi : i < store.size := (List.getElem?_eq_some_iff.mp hs).1
  obtain ⟨t, ht⟩ : ∃ t, store.get? (store.size - 1) = some t :=
    ⟨_, List.getElem?_eq_getElem (by simp only [size] at hi ⊢; omega)⟩
  rw [frameCount_eq_last ht (by omega)]
  rcases Nat.lt_or_eq_of_le (show i ≤ store.size - 1 by omega) with hlt | rfl
  · have := h.last_lt_first hlt hs ht
    have := h.filled (List.mem_of_getElem? ht)
    omega
  · rw [Option.some.inj (hs.symm.trans ht)]

end Store
end PadScript
