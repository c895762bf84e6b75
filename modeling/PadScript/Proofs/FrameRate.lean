import Mathlib.Data.List.Destutter
import PadScript.Proofs.HeadlessRestart
import PadScript.Proofs.RunLog

/-!
# The frame rate in the course of a run

The clock is set when the first frame of a segment is handed out and the segment has another rate
than the clock runs at, and at no other time before the run is closed. If nothing else changes the
clock, it runs at the rate of the latest frame, and is set once for each change of rate.
-/
namespace PadScript

namespace FrameClock

def tune (clock : FrameClock) (rate : UInt32) : FrameClock :=
  if clock.rate = rate then clock else clock.set rate

theorem exists_destutter'_eq (rate : UInt32) (rates : List UInt32) :
    ∃ kept, rates.destutter' (· ≠ ·) rate = rate :: kept := by
  induction rates with
  | nil => exact ⟨[], rfl⟩
  | cons next rest ih =>
    rw [List.destutter'_cons]
    split
    · exact ⟨_, rfl⟩
    · exact ih

/-- Tuned to one rate after the other, a clock is set wherever the rate changes. -/
theorem changes_foldl_tune (clock : FrameClock) (rates : List UInt32) :
    (rates.foldl tune clock).changes =
      clock.changes ++ ((clock.rate :: rates).destutter (· ≠ ·)).tail := by
  induction rates generalizing clock with
  | nil => simp
  | cons rate rest ih =>
    rw [List.foldl_cons, ih, List.destutter_cons', List.destutter_cons', List.destutter'_cons]
    by_cases hsame : clock.rate = rate
    · simp [tune, hsame]
    · obtain ⟨kept, hkept⟩ := exists_destutter'_eq rate rest
      simp [tune, hsame, set, hkept]

end FrameClock

namespace Partition

theorem From.filter_succ {next : Nat} {segments : List Segment} (h : From next segments)
    {i f : Nat} {s : Segment} (hs : segments[i]? = some s) (hfirst : s.first.toNat ≤ f + 1)
    (hlast : f + 1 ≤ s.last.toNat) :
    segments.filter (fun t => t.first.toNat ≤ f + 1) =
      segments.filter (fun t => t.first.toNat ≤ f) ++
        if s.first.toNat = f + 1 then [s] else [] := by
  induction h generalizing i with
  | nil => simp at hs
  | @cons next t rest start filled following ih =>
    cases i with
    | zero =>
      obtain rfl : t = s := by simpa using hs
      -- the later segments begin after this one
      have hlater : ∀ g, g ≤ t.last.toNat → rest.filter (fun u => u.first.toNat ≤ g) = [] := by
        intro g hg
        rw [List.filter_eq_nil_iff]
        intro u hu
        have := following.next_le hu
        simp only [decide_eq_true_eq]
        omega
      rw [List.filter_cons, List.filter_cons, hlater _ hlast, hlater _ (by omega)]
      split_ifs <;> simp_all <;> omega
    | succ i =>
      rw [List.getElem?_cons_succ] at hs
      have hnext := following.next_le (List.mem_of_getElem? hs)
      rw [List.filter_cons_of_pos (by simp only [decide_eq_true_eq]; omega),
        List.filter_cons_of_pos (by simp only [decide_eq_true_eq]; omega), ih hs, List.cons_append]

end Partition

namespace Store

variable {store : Store}

def begun (store : Store) (count : Nat) : List Segment :=
  store.segments.filter fun s => s.first.toNat ≤ count

theorem IsPartition.begun_zero (h : store.IsPartition) : store.begun 0 = [] := by
  rw [begun, List.filter_eq_nil_iff]
  intro s hs
  have hpositive := Partition.From.next_le h hs
  simp only [decide_eq_true_eq]
  omega

theorem IsPartition.begun_eq_all (h : store.IsPartition) {count : Nat}
    (hcount : store.frameCount.toNat ≤ count) : store.begun count = store.segments := by
  rw [begun, List.filter_eq_self]
  intro s hs
  obtain ⟨i, hi⟩ := List.getElem?_of_mem hs
  have hfilled := Partition.From.filled h hs
  have hlast := h.last_le_frameCount hi
  simp only [decide_eq_true_eq]
  omega

end Store

/-- The frame is the first of a segment with another rate than the clock's, which is set then, or
it is not, and the clock goes on as it did. -/
structure InputFrame.Retimes (store : Store) (before after : FrameClock) (f : InputFrame) :
    Prop where
  sets : ∀ s ∈ store.segments, s.first = f.frame → before.rate ≠ s.rate → after = before.set s.rate
  rests : (∀ s ∈ store.segments, s.first = f.frame → before.rate = s.rate) → after = before

namespace Playback

variable {store : Store} {count : Nat} {p : Playback} {s : Segment}

theorem retime_eq_tune (p : Playback) (s : Segment) (clock : FrameClock) :
    p.retime s clock = if p.frame = s.first then clock.tune s.rate else clock := by
  unfold retime FrameClock.tune
  by_cases hstart : p.frame = s.first
  · by_cases hrate : clock.rate = s.rate
    · simp [hrate]
    · simp [hstart, hrate]
  · simp [hstart]

theorem At.retimes_tick (hp : p.At store count) (h : store.IsPartition)
    (hcount : count < store.frameCount.toNat) (clock : FrameClock) {f : InputFrame}
    (hframe : f.frame = p.frame) : f.Retimes store clock (p.tick clock).2.2 := by
  obtain ⟨hphase, s, hs, hc⟩ := hp.running hcount
  have hmem := List.mem_of_getElem? hs
  rw [hp.tick_eq hphase hs, retime_eq_tune]
  refine ⟨fun t ht hfirst hrate => ?_, fun hrates => ?_⟩
  · rw [hframe] at hfirst
    have htf : t.contains p.frame :=
      contains_iff.mpr ⟨by rw [hfirst], hfirst ▸ Partition.From.filled h ht⟩
    obtain rfl := h.eq_of_contains hmem hc ht htf
    simp [hfirst, FrameClock.tune, hrate]
  · by_cases hstart : p.frame = s.first
    · have hrate := hrates s hmem (hframe ▸ hstart.symm)
      simp [FrameClock.tune, hrate]
    · simp [hstart]

/-- The clock keeps to the rates of the segments that have begun. -/
theorem At.tick_foldl_tune (hp : p.At store count) (h : store.IsPartition)
    (hcount : count < store.frameCount.toNat) (clock : FrameClock) :
    (p.tick (((store.begun count).map Segment.rate).foldl FrameClock.tune clock)).2.2 =
      ((store.begun (count + 1)).map Segment.rate).foldl FrameClock.tune clock := by
  obtain ⟨hphase, s, hs, hc⟩ := hp.running hcount
  obtain ⟨hfirst, hlast⟩ := contains_iff.mp hc
  rw [hp.frame] at hfirst hlast
  have hstart : p.frame = s.first ↔ s.first.toNat = count + 1 := by
    rw [← UInt64.toNat_inj, hp.frame, eq_comm]
  have hbegun : store.begun (count + 1) =
      store.begun count ++ if s.first.toNat = count + 1 then [s] else [] :=
    Partition.From.filter_succ h hs hfirst hlast
  rw [hp.tick_eq hphase hs, retime_eq_tune, hbegun]
  by_cases hbegins : p.frame = s.first
  · rw [if_pos hbegins, if_pos (hstart.mp hbegins), List.map_append, List.foldl_append]
    rfl
  · rw [if_neg hbegins, if_neg (mt hstart.mpr hbegins), List.append_nil]

end Playback

namespace Engine

variable {σ : Type} {e : Engine σ} {store : Store} {count : Nat} {op : Operation σ}

/-- What an operation leaves as it is in the course of a run, if it is no poll and does not close
the run. -/
structure Stays (op : Operation σ) (e s : Engine σ) : Prop where
  playback : s.playback = e.playback
  recorder : s.recorder = e.recorder
  config : s.config = e.config
  changes : s.clock.changes = e.clock.changes
  clock : (∀ rate, op ≠ .drift rate) → s.clock = e.clock

theorem Playing.stays {s : Engine σ} (h : e.Playing store count) (hstays : e.Stays op s) :
    s.Playing store count := by
  refine ⟨?_, ?_⟩
  · rw [hstays.recorder]
    exact h.quiet
  · rw [hstays.playback]
    exact h.cursor

/-- The run that `start` has begun is going on, `count` frames have been handed out, and the clock
has been tuned to the segments of these frames, one after the other. -/
structure Paced (store : Store) (count : Nat) (e start : Engine σ) : Prop where
  midway : e.Midway store count
  config : e.config = start.config
  clock : e.clock = ((store.begun count).map Segment.rate).foldl FrameClock.tune start.clock

variable {start : Engine σ}

theorem Paced.stays {s : Engine σ} (h : e.Paced store count start) (hstays : e.Stays op s)
    (hdrift : ∀ rate, op ≠ .drift rate) : s.Paced store count start := by
  have hclock := hstays.clock hdrift
  refine ⟨⟨h.midway.partition, h.midway.below, h.midway.playing.stays hstays, ?_⟩,
    hstays.config.trans h.config, hclock.trans h.clock⟩
  rw [hclock]
  exact h.midway.timed

variable [Storage σ]

/-- What an operation does to the clock in the course of a run of `store`. A poll hands out a frame
and sets the clock if a segment begins with it; nothing else does. -/
structure Times (store : Store) (now : Moment) (op : Operation σ) (e : Engine σ) : Prop where
  frame : ∀ f, (e.perform now op).1 = .frame f →
    (∃ k, f.IsFrame store k) ∧ f.Retimes store e.clock (e.perform now op).2.clock
  silent : (∀ f, (e.perform now op).1 ≠ .frame f) →
    (e.perform now op).2.clock.changes = e.clock.changes

theorem stays_of_not_ends (now : Moment) (hactive : e.playback.isActive)
    (hquiet : e.recorder.recording = false) (hends : ¬ e.Ends op)
    (hpoll : ∀ live, op ≠ .poll live) : e.Stays op (e.perform now op).2 := by
  cases op with
  | poll live => exact absurd rfl (hpoll live)
  | submit results =>
    obtain ⟨tracker, hsubmit⟩ := exists_tracker_of_not_ends now hactive hends
    show e.Stays _ (e.submit now results)
    rw [hsubmit]
    exact ⟨rfl, rfl, rfl, rfl, fun _ => rfl⟩
  | startPlayback =>
    show e.Stays _ (e.startPlayback now).2
    rw [startPlayback_of_active now hactive]
    exact ⟨rfl, rfl, rfl, rfl, fun _ => rfl⟩
  | cancelPlayback => exact absurd trivial hends
  | startRecording =>
    show e.Stays _ e.startRecording.2
    rw [startRecording_of_active hactive]
    exact ⟨rfl, rfl, rfl, rfl, fun _ => rfl⟩
  | stopRecording =>
    show e.Stays _ (e.stopRecording now).2
    rw [stopRecording_of_quiet now hquiet]
    exact ⟨rfl, rfl, rfl, rfl, fun _ => rfl⟩
  | drift rate => exact ⟨rfl, rfl, rfl, rfl, fun hdrift => absurd rfl (hdrift rate)⟩
  | edit change => exact ⟨rfl, rfl, rfl, rfl, fun _ => rfl⟩

theorem Playing.clock_poll (h : e.Playing store count) (now : Moment) {live : Controller}
    (hends : ¬ e.Ends (.poll live)) :
    (e.poll now live).2.clock = (e.playback.tick e.clock).2.2 := by
  have hrunning := (h.cursor.running (h.lt_of_not_ends hends)).1
  rw [poll_of_running now hrunning h.quiet fun hedge => hends (.inr hedge)]
  rfl

theorem Playing.times (h : e.Playing store count) (hstore : store.IsPartition)
    (hlast : ∀ s ∈ store.segments, s.last.toNat < Frame.largest.toNat) (now : Moment)
    (hends : ¬ e.Ends op) : e.Times store now op := by
  by_cases hpoll : ∃ live, op = .poll live
  · obtain ⟨live, rfl⟩ := hpoll
    have hcount := h.lt_of_not_ends hends
    have hedge : ¬ (live.buttons ≠ e.held ∧ live.buttons = e.triggers.cancelPlayback) :=
      fun hedge => hends (.inr hedge)
    obtain ⟨hframe, -, -⟩ := h.poll hstore hlast hcount now hedge
    refine ⟨fun f hf => ?_, fun hnone => absurd rfl (hnone _)⟩
    obtain rfl : (e.poll now live).1 = f := by injection hf
    refine ⟨⟨count, hframe⟩, ?_⟩
    show InputFrame.Retimes _ _ (e.poll now live).2.clock _
    rw [h.clock_poll now hends]
    have hplace : (e.poll now live).1.frame = e.playback.frame := by
      rw [← UInt64.toNat_inj, hframe.frame, h.cursor.frame]
    exact h.cursor.retimes_tick hstore hcount e.clock hplace
  · have hother : ∀ live, op ≠ .poll live := fun live hop => hpoll ⟨live, hop⟩
    have hstays := stays_of_not_ends now h.isActive h.quiet hends hother
    refine ⟨fun f hf => ?_, fun _ => hstays.changes⟩
    cases op with
    | poll live => exact absurd rfl (hother live)
    | _ => cases hf

theorem Playing.run (h : e.Playing store count) (hstore : store.IsPartition)
    (hlast : ∀ s ∈ store.segments, s.last.toNat < Frame.largest.toNat)
    {during : List (Moment × Operation σ)} (hgoes : e.GoesOn during) :
    ∃ later, (e.run during).Playing store later := by
  induction during generalizing e count with
  | nil => exact ⟨count, h⟩
  | cons first rest ih =>
    obtain ⟨hends, hrest⟩ := hgoes
    by_cases hpoll : ∃ live, first.2 = .poll live
    · obtain ⟨now, op⟩ := first
      obtain ⟨live, rfl⟩ := hpoll
      obtain ⟨-, hplaying, -⟩ := h.poll hstore hlast (h.lt_of_not_ends hends) now
        fun hedge => hends (.inr hedge)
      exact ih hplaying hrest
    · have hother : ∀ live, first.2 ≠ .poll live := fun live hop => hpoll ⟨live, hop⟩
      exact ih (h.stays (stays_of_not_ends first.1 h.isActive h.quiet hends hother)) hrest

theorem Paced.poll (h : e.Paced store count start) (now : Moment) {live : Controller}
    (hends : ¬ e.Ends (.poll live)) : (e.poll now live).2.Paced store (count + 1) start := by
  have hcount := h.midway.playing.lt_of_not_ends hends
  obtain ⟨-, hmidway, halike, -⟩ := h.midway.poll now hends
  refine ⟨hmidway, halike.config.trans h.config, ?_⟩
  rw [h.midway.playing.clock_poll now hends, h.clock]
  exact h.midway.playing.cursor.tick_foldl_tune h.midway.partition hcount start.clock

def Undrifted (history : List (Moment × Operation σ)) : Prop :=
  ∀ step ∈ history, ∀ rate, step.2 ≠ .drift rate

theorem Paced.run (h : e.Paced store count start) {during : List (Moment × Operation σ)}
    (hgoes : e.GoesOn during) (hdrift : Undrifted during) :
    ∃ later, (e.run during).Paced store later start := by
  induction during generalizing e count with
  | nil => exact ⟨count, h⟩
  | cons first rest ih =>
    obtain ⟨hends, hrest⟩ := hgoes
    have hlater : Undrifted rest := fun step hstep => hdrift step (List.mem_cons_of_mem _ hstep)
    by_cases hpoll : ∃ live, first.2 = .poll live
    · obtain ⟨now, op⟩ := first
      obtain ⟨live, rfl⟩ := hpoll
      exact ih (h.poll now hends) hrest hlater
    · have hother : ∀ live, first.2 ≠ .poll live := fun live hop => hpoll ⟨live, hop⟩
      have hstays := stays_of_not_ends first.1 h.midway.playing.isActive h.midway.playing.quiet
        hends hother
      exact ih (h.stays hstays (hdrift first List.mem_cons_self)) hrest hlater

theorem clock_finalize (now : Moment) (e : Engine σ) :
    (e.finalize now).clock = e.clock.set e.config.rate := by
  rw [finalize_eq]

theorem clock_of_ends (now : Moment) (hactive : e.playback.isActive)
    (hquiet : e.recorder.recording = false) (hends : e.Ends op) :
    (e.perform now op).2.clock = e.clock.set e.config.rate := by
  cases op with
  | poll live =>
    show (e.poll now live).2.clock = _
    rw [poll_of_ends now hactive hquiet hends, clock_finalize]
  | submit results =>
    show (e.submit now results).clock = _
    rw [submit_of_ends now hactive hends, clock_finalize]
  | cancelPlayback =>
    show (e.cancelPlayback now).clock = _
    rw [cancelPlayback, if_pos hactive, clock_finalize]
  | startPlayback => exact hends.elim
  | startRecording => exact hends.elim
  | stopRecording => exact hends.elim
  | drift rate => exact hends.elim
  | edit change => exact hends.elim

/-- A run whose last frame has been handed out leaves the clock with the rates of its segments,
each where it differs from the one before, and with the configured rate. -/
theorem Paced.clock_of_ends (h : e.Paced store count start)
    (hphase : e.playback.phase = .completing) (now : Moment) (hends : e.Ends op) :
    (e.perform now op).2.clock = ⟨start.config.rate, start.clock.changes ++
      ((start.clock.rate :: store.segments.map Segment.rate).destutter (· ≠ ·)).tail ++
        [start.config.rate]⟩ := by
  have hall : store.frameCount.toNat ≤ count := by
    by_contra hleft
    have hrunning := (h.midway.playing.cursor.running (not_le.mp hleft)).1
    rw [hphase] at hrunning
    cases hrunning
  rw [Engine.clock_of_ends now h.midway.playing.isActive h.midway.playing.quiet hends, h.config,
    FrameClock.set, h.clock, h.midway.partition.begun_eq_all hall, FrameClock.changes_foldl_tune]

theorem paced_begin {loaded : Script.Loaded} {s : Engine σ}
    (hload : Script.load e.config.loading e.library e.config.mainScript = .ok loaded)
    (hfull : loaded.store.isEmpty = false) (hquiet : s.recorder.recording = false)
    (hconfig : s.config = e.config) (hclock : s.clock = e.clock) :
    (s.begin loaded).Paced loaded.store 0 e := by
  have hstore := Script.isPartition_load hload
  refine ⟨.begin hquiet hstore (fun t ht => Script.last_lt_of_load hload ht) hfull, hconfig, ?_⟩
  rw [hstore.begun_zero]
  exact hclock

theorem Opens.paced {loaded : Script.Loaded} (h : e.Opens op loaded)
    (hfull : loaded.store.isEmpty = false) (now : Moment) :
    e.Times loaded.store now op ∧
      (∃ count, (e.perform now op).2.Paced loaded.store count e) ∧
      ∀ f, (e.perform now op).1 = .frame f → (e.perform now op).2.clock.rate = f.rate := by
  rcases h.perform_eq hfull now with hcall | ⟨live, rfl, hedge, hpoll, hends⟩
  · have hpaced : (e.begin loaded).Paced loaded.store 0 e :=
      paced_begin h.loads hfull h.quiet rfl rfl
    refine ⟨⟨fun f hf => ?_, fun _ => ?_⟩, ⟨0, ?_⟩, fun f hf => ?_⟩
    · rw [hcall] at hf
      cases hf
    · rw [hcall]
      rfl
    · rw [hcall]
      exact hpaced
    · rw [hcall] at hf
      cases hf
  · have hpaced : (({ e with held := live.buttons } : Engine σ).begin loaded).Paced
        loaded.store 0 e := paced_begin h.loads hfull h.quiet rfl rfl
    have htimes := hpaced.midway.playing.times hpaced.midway.partition hpaced.midway.below now hends
    obtain ⟨-, -, -, hrate⟩ := hpaced.midway.poll now hends
    refine ⟨⟨fun f hf => ?_, fun hnone => ?_⟩, ⟨1, ?_⟩, fun f hf => ?_⟩
    · rw [hpoll] at hf ⊢
      exact htimes.frame f hf
    · rw [hpoll] at hnone ⊢
      exact htimes.silent hnone
    · rw [hpoll]
      exact hpaced.poll now hends
    · rw [hpoll] at hf ⊢
      obtain rfl : (poll now live _).1 = f := by injection hf
      exact hrate

/-- What the next operation does to the clock in the course of a run of `store`, which `start` has
begun and which these operations have not closed: it is timed, and if nothing else has changed the
clock's rate, a poll leaves it at the rate of its frame. An operation that closes the run after its
last frame leaves behind the rates of the segments in turn, without those that repeat the one
before, and the configured rate. -/
structure KeepsRate (store : Store) (during : List (Moment × Operation σ)) (e start : Engine σ) :
    Prop where
  times : ∀ now op, ¬ e.Ends op → e.Times store now op
  rate : Undrifted during → ∀ now op f, ¬ e.Ends op → (e.perform now op).1 = .frame f →
    (e.perform now op).2.clock.rate = f.rate
  closed : Undrifted during → e.playback.phase = .completing → ∀ now op, e.Ends op →
    (e.perform now op).2.clock = ⟨start.config.rate, start.clock.changes ++
      ((start.clock.rate :: store.segments.map Segment.rate).destutter (· ≠ ·)).tail ++
        [start.config.rate]⟩

theorem Paced.keepsRate (h : e.Paced store count start) {during : List (Moment × Operation σ)}
    (hgoes : e.GoesOn during) : (e.run during).KeepsRate store during start where
  times now op hends := by
    obtain ⟨_, hplaying⟩ := h.midway.playing.run h.midway.partition h.midway.below hgoes
    exact hplaying.times h.midway.partition h.midway.below now hends
  rate hdrift now op f hends hf := by
    obtain ⟨_, hrun⟩ := h.run hgoes hdrift
    cases op with
    | poll live =>
      obtain ⟨-, -, -, hframe⟩ := hrun.midway.poll now hends
      obtain rfl : (Engine.poll now live _).1 = f := by injection hf
      exact hframe
    | _ => cases hf
  closed hdrift hphase now op hends := by
    obtain ⟨_, hrun⟩ := h.run hgoes hdrift
    exact hrun.clock_of_ends hphase now hends

/-- From the operation that opens a run of a script with frames until one closes it, the clock is
set by the polls that hand out the first frame of a segment with another rate than the clock's, and
by nothing else, whatever becomes of its rate in between. If nothing else changes the rate, it is
that of the frame after each poll, and in a run that is not cancelled the clock is set to the rates
of the segments in turn, without those that repeat the one before, and to the configured rate in
the end. -/
theorem clock_keeps_rate_of_frames (e : Engine σ) (now : Moment) (op : Operation σ)
    (loaded : Script.Loaded) (hopens : e.Opens op loaded)
    (hfull : loaded.store.isEmpty = false) :
    e.Times loaded.store now op ∧
    (∀ f, (e.perform now op).1 = .frame f → (e.perform now op).2.clock.rate = f.rate) ∧
    ∀ during, (e.perform now op).2.GoesOn during →
      ((e.perform now op).2.run during).KeepsRate loaded.store during e := by
  obtain ⟨htimes, ⟨count, hpaced⟩, hrate⟩ := hopens.paced hfull now
  exact ⟨htimes, hrate, fun during hgoes => hpaced.keepsRate hgoes⟩

/-- Three segments, the first two at half the rate: the clock is set to it once. When its rate is
changed in between, the next poll is timed all the same. -/
theorem clock_keeps_rate_of_frames_of_three_segments :
    let e : Engine MemoryStorage :=
      { config := {}, triggers := {}
        storage := ⟨[("main", "frame-rate=30\n2,X\n1,Y\nframe-rate=60\n1")], []⟩ }
    let now : Moment := ⟨"0", ""⟩
    let s := (e.perform now .startPlayback).2
    let polls : List (Moment × Operation MemoryStorage) := .replicate 4 (now, .poll {})
    let drifting : List (Moment × Operation MemoryStorage) :=
      [(now, .poll {}), (now, .poll {}), (now, .drift 25)]
    ∃ loaded, e.Opens .startPlayback loaded ∧ s.GoesOn polls ∧
      ((s.run polls).perform now (.poll {})).2.clock = ⟨60, [30, 60, 60]⟩ ∧
      s.GoesOn drifting ∧ (s.run drifting).Times loaded.store now (.poll {}) := by
  intro e now s polls drifting
  have hview : (Script.load e.config.loading e.library e.config.mainScript).toOption.map
      (fun loaded => (loaded.store.isEmpty, loaded.store.segments.map Segment.rate)) =
        some (false, [30, 30, 60]) := by
    decide +kernel
  obtain ⟨loaded, hload, hloaded⟩ := Script.load_of_view hview
  obtain ⟨hfull, hrates⟩ := Prod.mk.inj hloaded
  have hopens : e.Opens .startPlayback loaded := ⟨rfl, rfl, .inl rfl, hload⟩
  have hgoes : s.GoesOn polls := by decide +kernel
  have hdrifting : s.GoesOn drifting := by decide +kernel
  have hphase : (s.run polls).playback.phase = .completing := by decide +kernel
  obtain ⟨-, -, hruns⟩ := clock_keeps_rate_of_frames e now .startPlayback loaded hopens hfull
  have hquiet : Undrifted polls := by
    intro step hstep rate
    rw [List.eq_of_mem_replicate hstep]
    simp
  have hpolled : (s.run polls).KeepsRate loaded.store polls e := hruns polls hgoes
  have hclosed := hpolled.closed hquiet hphase now (.poll {}) (.inl hphase)
  rw [hrates] at hclosed
  refine ⟨loaded, hopens, hgoes, hclosed.trans (by decide +kernel), hdrifting, ?_⟩
  exact (hruns drifting hdrifting).times now (.poll {}) (by decide +kernel)

end Engine

end PadScript
