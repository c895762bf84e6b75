import PadScript.Proofs.Lookup
import PadScript.Proofs.Recording

/-!
# What the partition check finds

The check of a store reports its first segment that has no frames or does not begin where the one
before it ends. The largest frame is its own successor there, so that one case escapes: behind a
segment that ends with the largest frame, segments of that frame alone are let pass.
-/
namespace PadScript.Partition

/-- The segments cover the frames from `next` on; once the largest frame is covered, segments of that
frame alone may follow. -/
def Repeating (next : Nat) (segments : List Segment) : Prop :=
  ∃ front repeats, segments = front ++ repeats ∧ From next front ∧
    (repeats ≠ [] → frameAfter next front = Frame.largest.toNat + 1) ∧
    ∀ s ∈ repeats, s.first = Frame.largest ∧ s.last = Frame.largest

/-- How the segment `s` breaks the partition that the segments `before` it make up; `follows` is the
frame that has to come after a frame. -/
inductive Breaks (follows : Nat → Nat) (before : List Segment) (s : Segment) : PartitionError → Prop
  | emptySegment (empty : s.last < s.first) : Breaks follows before s (.emptySegment s.source)
  | badStart (filled : s.first ≤ s.last) (leading : before = []) (start : s.first ≠ 1) :
      Breaks follows before s (.badStart s.first)
  | notContiguous {previous : Segment} {expected : Frame} (filled : s.first ≤ s.last)
      (following : before.getLast? = some previous)
      (next : expected.toNat = follows previous.last.toNat) (start : s.first ≠ expected) :
      Breaks follows before s (.notContiguous s.source expected s.first)

theorem Breaks.congr {follows other : Nat → Nat} {before : List Segment} {s : Segment}
    {err : PartitionError} (h : Breaks follows before s err)
    (hsame : ∀ previous, before.getLast? = some previous →
      other previous.last.toNat = follows previous.last.toNat) :
    Breaks other before s err := by
  cases h with
  | emptySegment empty => exact .emptySegment empty
  | badStart filled leading start => exact .badStart filled leading start
  | notContiguous filled following next start =>
    exact .notContiguous filled following (next.trans (hsame _ following).symm) start

/-- The segment `s` has no place where frame `expected` is next. -/
inductive Misfit (expected : Frame) (s : Segment) : PartitionError → Prop
  | emptySegment (empty : s.last < s.first) : Misfit expected s (.emptySegment s.source)
  | badStart (filled : s.first ≤ s.last) (start : s.first ≠ expected) (leading : expected = 1) :
      Misfit expected s (.badStart s.first)
  | notContiguous (filled : s.first ≤ s.last) (start : s.first ≠ expected)
      (following : expected ≠ 1) :
      Misfit expected s (.notContiguous s.source expected s.first)

variable {expected : Frame} {s : Segment} {err : PartitionError} {segments : List Segment}

theorem not_isEmpty (filled : s.first ≤ s.last) : s.isEmpty = false := by
  rw [Bool.eq_false_iff, ne_eq, Segment.isEmpty_iff, UInt64.lt_iff_toNat_lt]
  rw [UInt64.le_iff_toNat_le] at filled
  omega

theorem checkFrom_of_fit (filled : s.first ≤ s.last) (start : s.first = expected)
    (rest : List Segment) : checkFrom expected (s :: rest) = checkFrom s.last.next rest := by
  simp [checkFrom, not_isEmpty filled, start]

theorem Misfit.checkFrom_eq (h : Misfit expected s err) (rest : List Segment) :
    checkFrom expected (s :: rest) = .error err := by
  cases h with
  | emptySegment empty => simp [checkFrom, Segment.isEmpty_iff.mpr empty]
  | badStart filled start leading =>
    subst leading
    simp [checkFrom, not_isEmpty filled, start]
  | notContiguous filled start following => simp [checkFrom, not_isEmpty filled, start, following]

theorem fit_or_misfit (expected : Frame) (s : Segment) :
    (s.first ≤ s.last ∧ s.first = expected) ∨ ∃ err, Misfit expected s err := by
  by_cases filled : s.first ≤ s.last
  · by_cases start : s.first = expected
    · exact .inl ⟨filled, start⟩
    · by_cases leading : expected = 1
      · exact .inr ⟨_, .badStart filled start leading⟩
      · exact .inr ⟨_, .notContiguous filled start leading⟩
  · have empty : s.last < s.first := by
      rw [UInt64.le_iff_toNat_le] at filled
      rw [UInt64.lt_iff_toNat_lt]
      omega
    exact .inr ⟨_, .emptySegment empty⟩

theorem checkFrom_cons_eq_ok_iff {rest : List Segment} :
    checkFrom expected (s :: rest) = .ok () ↔
      s.first ≤ s.last ∧ s.first = expected ∧ checkFrom s.last.next rest = .ok () := by
  rcases fit_or_misfit expected s with ⟨filled, start⟩ | ⟨err, hmisfit⟩
  · rw [checkFrom_of_fit filled start]
    exact ⟨fun h => ⟨filled, start, h⟩, fun h => h.2.2⟩
  · rw [hmisfit.checkFrom_eq]
    constructor
    · intro h
      cases h
    · rintro ⟨filled, start, -⟩
      have hfit := checkFrom_of_fit filled start []
      rw [hmisfit.checkFrom_eq] at hfit
      cases hfit

theorem toNat_next_of_lt (h : s.last ≠ Frame.largest) : s.last.next.toNat = s.last.toNat + 1 := by
  refine Frame.toNat_next ?_
  have hle := Frame.toNat_le_largest s.last
  have hne : s.last.toNat ≠ Frame.largest.toNat := mt UInt64.toNat_inj.mp h
  omega

theorem checkFrom_largest_eq_ok_iff :
    checkFrom Frame.largest segments = .ok () ↔
      ∀ s ∈ segments, s.first = Frame.largest ∧ s.last = Frame.largest := by
  induction segments with
  | nil => simp [checkFrom]
  | cons s rest ih =>
    have hnext : Frame.next Frame.largest = Frame.largest := if_pos rfl
    rw [checkFrom_cons_eq_ok_iff, List.forall_mem_cons]
    constructor
    · rintro ⟨filled, start, h⟩
      have hlast : s.last = Frame.largest := by
        have hle := Frame.toNat_le_largest s.last
        rw [start, UInt64.le_iff_toNat_le] at filled
        exact UInt64.toNat_inj.mp (le_antisymm hle filled)
      rw [hlast, hnext] at h
      exact ⟨⟨start, hlast⟩, ih.mp h⟩
    · rintro ⟨⟨start, hlast⟩, h⟩
      rw [start, hlast, hnext]
      exact ⟨UInt64.le_refl _, rfl, ih.mpr h⟩

theorem checkFrom_eq_ok_iff :
    checkFrom expected segments = .ok () ↔ Repeating expected.toNat segments := by
  induction segments generalizing expected with
  | nil => exact ⟨fun _ => ⟨[], [], rfl, .nil _, by simp, by simp⟩, fun _ => rfl⟩
  | cons s rest ih =>
    rw [checkFrom_cons_eq_ok_iff]
    by_cases hlast : s.last = Frame.largest
    · -- all that may follow are repeats
      have hnext : s.last.next = Frame.largest := by
        rw [hlast]
        exact if_pos rfl
      rw [hnext, checkFrom_largest_eq_ok_iff]
      constructor
      · rintro ⟨filled, start, hrest⟩
        refine ⟨[s], rest, rfl, .cons (by rw [start]) ?_ (.nil _), fun _ => ?_, hrest⟩
        · rwa [← UInt64.le_iff_toNat_le]
        · rw [← hlast]
          rfl
      · rintro ⟨front, repeats, hsplit, hfront, hend, hrepeats⟩
        cases hfront with
        | nil =>
          have hne : repeats ≠ [] := by
            rintro rfl
            cases hsplit
          have hfull : expected.toNat = Frame.largest.toNat + 1 := hend hne
          have hle := Frame.toNat_le_largest expected
          omega
        | @cons _ t front start filled following =>
          obtain ⟨rfl, rfl⟩ := List.cons.inj hsplit
          have hnone : front = [] := by
            cases following with
            | nil => rfl
            | cons start' =>
              have hle := Frame.toNat_le_largest (Segment.first ‹_›)
              rw [hlast] at start'
              omega
          subst hnone
          exact ⟨UInt64.le_iff_toNat_le.mpr filled, UInt64.toNat_inj.mp start, hrepeats⟩
    · rw [ih, toNat_next_of_lt hlast]
      constructor
      · rintro ⟨filled, start, front, repeats, rfl, hfront, hend, hrepeats⟩
        refine ⟨s :: front, repeats, rfl, .cons (by rw [start]) ?_ hfront, fun hne => ?_, hrepeats⟩
        · rwa [← UInt64.le_iff_toNat_le]
        · rw [frameAfter_cons, hend hne]
      · rintro ⟨front, repeats, hsplit, hfront, hend, hrepeats⟩
        cases hfront with
        | nil =>
          have hs : s ∈ repeats := by
            rw [List.nil_append] at hsplit
            rw [← hsplit]
            exact List.mem_cons_self
          exact absurd (hrepeats s hs).2 hlast
        | @cons _ t front start filled following =>
          obtain ⟨rfl, rfl⟩ := List.cons.inj hsplit
          refine ⟨UInt64.le_iff_toNat_le.mpr filled, UInt64.toNat_inj.mp start, front, repeats, rfl,
            following, fun hne => ?_, hrepeats⟩
          rw [← hend hne, frameAfter_cons]

/-- The frame that the check expects after some segments. -/
def expectedAfter (expected : Frame) (before : List Segment) : Frame :=
  (before.getLast?.map fun s => s.last.next).getD expected

theorem expectedAfter_cons (expected : Frame) (s : Segment) (before : List Segment) :
    expectedAfter expected (s :: before) = expectedAfter s.last.next before := by
  cases before with
  | nil => rfl
  | cons t rest => simp [expectedAfter, List.getLast?_cons]

theorem checkFrom_eq_error_iff :
    checkFrom expected segments = .error err ↔ ∃ before s after, segments = before ++ s :: after ∧
      checkFrom expected before = .ok () ∧ Misfit (expectedAfter expected before) s err := by
  induction segments generalizing expected with
  | nil => simp [checkFrom]
  | cons s rest ih =>
    rcases fit_or_misfit expected s with ⟨filled, start⟩ | ⟨cause, hmisfit⟩
    · rw [checkFrom_of_fit filled start, ih]
      constructor
      · rintro ⟨before, t, after, rfl, hbefore, ht⟩
        refine ⟨s :: before, t, after, rfl, ?_, ?_⟩
        · rwa [checkFrom_of_fit filled start]
        · rwa [expectedAfter_cons]
      · rintro ⟨before, t, after, hsplit, hbefore, ht⟩
        cases before with
        | nil =>
          obtain ⟨rfl, rfl⟩ := List.cons.inj hsplit
          have hfit := checkFrom_of_fit filled start []
          have herror : checkFrom expected [s] = .error err := ht.checkFrom_eq []
          rw [herror] at hfit
          cases hfit
        | cons u before =>
          obtain ⟨rfl, rfl⟩ := List.cons.inj hsplit
          rw [checkFrom_of_fit filled start] at hbefore
          rw [expectedAfter_cons] at ht
          exact ⟨before, t, after, rfl, hbefore, ht⟩
    · rw [hmisfit.checkFrom_eq]
      constructor
      · intro h
        obtain rfl := Except.error.inj h
        exact ⟨[], s, rest, rfl, rfl, hmisfit⟩
      · rintro ⟨before, t, after, hsplit, hbefore, ht⟩
        cases before with
        | nil =>
          obtain ⟨rfl, rfl⟩ := List.cons.inj hsplit
          rw [← hmisfit.checkFrom_eq [], ← ht.checkFrom_eq []]
          rfl
        | cons u before =>
          obtain ⟨rfl, rfl⟩ := List.cons.inj hsplit
          rw [hmisfit.checkFrom_eq] at hbefore
          cases hbefore

/-- Counted without bound, the successor of a frame, except for that of the largest one. -/
def clampedNext (frame : Nat) : Nat := min (frame + 1) Frame.largest.toNat

theorem toNat_next_eq (f : Frame) : f.next.toNat = clampedNext f.toNat := by
  have hle := Frame.toNat_le_largest f
  by_cases hf : f = Frame.largest
  · rw [hf]
    rfl
  · have hne : f.toNat ≠ Frame.largest.toNat := mt UInt64.toNat_inj.mp hf
    rw [Frame.toNat_next (by omega), clampedNext]
    omega

theorem expectedAfter_eq_one_iff {before : List Segment} (h : checkFrom 1 before = .ok ()) :
    expectedAfter 1 before = 1 ↔ before = [] := by
  refine ⟨fun hone => ?_, fun hnil => hnil ▸ rfl⟩
  cases hlast : before.getLast? with
  | none => exact List.getLast?_eq_none_iff.mp hlast
  | some previous =>
    obtain ⟨front, repeats, rfl, hfront, -, hrepeats⟩ := checkFrom_eq_ok_iff.mp h
    have hpositive : 1 ≤ previous.last.toNat := by
      rcases List.mem_append.mp (List.mem_of_getLast? hlast) with hmem | hmem
      · have hfirst := hfront.next_le hmem
        rw [UInt64.toNat_one] at hfirst
        exact hfirst.trans (hfront.filled hmem)
      · rw [(hrepeats previous hmem).2]
        decide
    have hnext : previous.last.next = 1 := by
      rw [expectedAfter, hlast] at hone
      exact hone
    have hclamped := toNat_next_eq previous.last
    rw [hnext, UInt64.toNat_one, clampedNext] at hclamped
    have hlarge : 2 ≤ Frame.largest.toNat := by decide
    omega

theorem misfit_iff_breaks {before : List Segment} (h : checkFrom 1 before = .ok ()) :
    Misfit (expectedAfter 1 before) s err ↔ Breaks clampedNext before s err := by
  have hfirst := expectedAfter_eq_one_iff h
  constructor
  · intro hmisfit
    cases hmisfit with
    | emptySegment empty => exact .emptySegment empty
    | badStart filled start leading =>
      rw [leading] at start
      exact .badStart filled (hfirst.mp leading) start
    | notContiguous filled start following =>
      cases hlast : before.getLast? with
      | none => exact absurd (hfirst.mpr (List.getLast?_eq_none_iff.mp hlast)) following
      | some previous =>
        have hexpected : expectedAfter 1 before = previous.last.next := by
          rw [expectedAfter, hlast]
          rfl
        rw [hexpected] at start ⊢
        exact .notContiguous filled hlast (toNat_next_eq _) start
  · intro hbreaks
    cases hbreaks with
    | emptySegment empty => exact .emptySegment empty
    | badStart filled leading start =>
      have hone := hfirst.mpr leading
      rw [← hone] at start
      exact .badStart filled start hone
    | @notContiguous previous expected filled following next start =>
      have hexpected : expected = expectedAfter 1 before := by
        rw [expectedAfter, following]
        exact UInt64.toNat_inj.mp (next.trans (toNat_next_eq _).symm)
      subst hexpected
      refine .notContiguous filled start fun hone => ?_
      rw [hfirst.mp hone] at following
      cases following

theorem From.repeating {next : Nat} (h : From next segments) : Repeating next segments :=
  ⟨segments, [], (List.append_nil _).symm, h, by simp, by simp⟩

/-- Nothing can be repeated as long as no segment but the last one reaches the largest frame. -/
theorem Repeating.from_of_below (h : Repeating 1 segments)
    (hbelow : ∀ s ∈ segments.dropLast, s.last ≠ Frame.largest) : From 1 segments := by
  obtain ⟨front, repeats, rfl, hfront, hend, -⟩ := h
  cases repeats with
  | nil => rwa [List.append_nil]
  | cons t rest =>
    have hfull := hend (List.cons_ne_nil t rest)
    cases hlast : front.getLast? with
    | none =>
      rw [frameAfter, hlast] at hfull
      exact absurd hfull (by decide)
    | some previous =>
      have hreached : previous.last = Frame.largest := by
        rw [frameAfter, hlast] at hfull
        exact UInt64.toNat_inj.mp (Nat.succ.inj hfull)
      have hmem : previous ∈ (front ++ t :: rest).dropLast := by
        rw [List.dropLast_append_of_ne_nil (List.cons_ne_nil t rest)]
        exact List.mem_append_left _ (List.mem_of_getLast? hlast)
      exact absurd hreached (hbelow previous hmem)

theorem check_eq_error_iff {store : Store} :
    check store = .error err ↔ ∃ before s after, store.segments = before ++ s :: after ∧
      Repeating 1 before ∧ Breaks clampedNext before s err := by
  rw [check, checkFrom_eq_error_iff]
  constructor
  · rintro ⟨before, s, after, hsplit, hbefore, hmisfit⟩
    exact ⟨before, s, after, hsplit, checkFrom_eq_ok_iff.mp hbefore,
      (misfit_iff_breaks hbefore).mp hmisfit⟩
  · rintro ⟨before, s, after, hsplit, hrepeating, hbreaks⟩
    have hbefore : checkFrom 1 before = .ok () := checkFrom_eq_ok_iff.mpr hrepeating
    exact ⟨before, s, after, hsplit, hbefore, (misfit_iff_breaks hbefore).mpr hbreaks⟩

/-- The check passes the partitions of the frames from one on, and those that repeat the largest
frame at their end. Otherwise it describes the first segment that breaks the partition: one without
frames, one that does not begin with frame one and is the first, or one that does not begin with the
frame after the last one before it, where the largest frame has itself for a successor. As long as no
segment but the last reaches the largest frame, there is no such exception: the check passes the
partitions only, and expects the frame after the last one before it. -/
theorem check_describes_first_break (store : Store) :
    (check store = .ok () ↔ Repeating 1 store.segments) ∧
    (∀ err, check store = .error err ↔
      ∃ before s after, store.segments = before ++ s :: after ∧ Repeating 1 before ∧
        Breaks clampedNext before s err) ∧
    ((∀ s ∈ store.segments.dropLast, s.last ≠ Frame.largest) →
      (check store = .ok () ↔ store.IsPartition) ∧
      ∀ err, check store = .error err ↔
        ∃ before s after, store.segments = before ++ s :: after ∧ From 1 before ∧
          Breaks (· + 1) before s err) := by
  refine ⟨checkFrom_eq_ok_iff, fun err => check_eq_error_iff, fun hbelow => ⟨?_, fun err => ?_⟩⟩
  · exact ⟨fun h => (checkFrom_eq_ok_iff.mp h).from_of_below hbelow,
      fun h => checkFrom_eq_ok_iff.mpr (From.repeating h)⟩
  · rw [check_eq_error_iff]
    -- of the segments before the one that breaks the partition, none reaches the largest frame
    have hinner : ∀ before s after, store.segments = before ++ s :: after →
        ∀ t ∈ before, t.last ≠ Frame.largest := by
      intro before s after hsplit t ht
      refine hbelow t ?_
      rw [hsplit, List.dropLast_append_of_ne_nil (List.cons_ne_nil s after)]
      exact List.mem_append_left _ ht
    have hnext : ∀ before s after, store.segments = before ++ s :: after →
        ∀ previous, before.getLast? = some previous →
          clampedNext previous.last.toNat = previous.last.toNat + 1 := by
      intro before s after hsplit previous hlast
      have hreach := hinner before s after hsplit previous (List.mem_of_getLast? hlast)
      rw [← toNat_next_eq, toNat_next_of_lt hreach]
    constructor
    · rintro ⟨before, s, after, hsplit, hrepeating, hbreaks⟩
      refine ⟨before, s, after, hsplit, hrepeating.from_of_below fun t ht => ?_,
        hbreaks.congr fun previous hlast => (hnext before s after hsplit previous hlast).symm⟩
      exact hinner before s after hsplit t (List.mem_of_mem_dropLast ht)
    · rintro ⟨before, s, after, hsplit, hfrom, hbreaks⟩
      exact ⟨before, s, after, hsplit, hfrom.repeating,
        hbreaks.congr fun previous hlast => hnext before s after hsplit previous hlast⟩

/-- A gap, between segments that stay below the largest frame. -/
theorem check_describes_first_break_of_gap :
    let span (first last : Frame) : Segment := { first, last, source := ⟨"main", first⟩ }
    let store : Store := ⟨[span 1 3, span 4 4, span 6 9, span 2 1]⟩
    check store = .error (.notContiguous ⟨"main", 6⟩ 5 6) ∧
      ∃ before s after, store.segments = before ++ s :: after ∧ From 1 before ∧
        Breaks (· + 1) before s (.notContiguous ⟨"main", 6⟩ 5 6) := by
  intro span store
  have hcheck : check store = .error (.notContiguous ⟨"main", 6⟩ 5 6) := by decide
  obtain ⟨-, herror⟩ := (check_describes_first_break store).2.2 (by decide)
  exact ⟨hcheck, (herror _).mp hcheck⟩

/-- Two segments with the largest frame pass. -/
theorem repeated_largest_frame_passes :
    let whole : Segment := { first := 1, last := Frame.largest, source := ⟨"main", 1⟩ }
    let store : Store := ⟨[whole, { whole with first := Frame.largest }]⟩
    check store = .ok () ∧ ¬ store.IsPartition := by
  intro whole store
  refine ⟨by decide, fun h => ?_⟩
  cases h with
  | cons _ _ following =>
    cases following with
    | cons start _ _ => exact absurd start (by decide)

end PadScript.Partition
