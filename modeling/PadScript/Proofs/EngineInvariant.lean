import PadScript.Proofs.PlaybackFidelity
import PadScript.Proofs.StoreFrames

/-!
# What holds of an engine after any history

Whatever is done with an engine, it never plays and records at once, keeps nothing of a run that is
over, and while it plays, its cursor stands in the segment of the next frame or behind the last
one. Each operation keeps this, so that every history does.
-/
namespace PadScript

namespace Partition

theorem From.add_length_le {next : Nat} {segments : List Segment} (h : From next segments) :
    next + segments.length ≤ frameAfter next segments := by
  induction h with
  | nil => exact le_rfl
  | cons start filled _ ih =>
    rw [frameAfter_cons, List.length_cons]
    omega

end Partition

theorem Store.IsPartition.size_le_frameCount {store : Store} (h : store.IsPartition) :
    store.size ≤ store.frameCount.toNat := by
  have hlength := Partition.From.add_length_le h
  rw [Store.frameAfter_segments] at hlength
  unfold Store.size
  omega

namespace Playback

theorem isActive_iff {p : Playback} : p.isActive ↔ p.phase ≠ .idle := by
  simp [isActive]

theorem isActive_eq_false_iff {p : Playback} : p.isActive = false ↔ p.phase = .idle := by
  simp [isActive]

/-- The playback has a store of frames to play, and some of them have been handed out. -/
structure Sound (p : Playback) : Prop where
  full : p.store.isEmpty = false
  partition : p.store.IsPartition
  below : ∀ s ∈ p.store.segments, s.last.toNat < Frame.largest.toNat
  cursor : ∃ count ≤ p.store.frameCount.toNat, p.At p.store count

variable {p : Playback}

theorem sound_of_at {store : Store} {count : Nat} (hfull : store.isEmpty = false)
    (h : store.IsPartition)
    (hlast : ∀ s ∈ store.segments, s.last.toNat < Frame.largest.toNat)
    (hcount : count ≤ store.frameCount.toNat) (hat : p.At store count) : p.Sound := by
  obtain rfl := hat.plays
  exact ⟨hfull, h, hlast, count, hcount, hat⟩

theorem Sound.exists_at (h : p.Sound) (hphase : p.phase = .running) :
    ∃ count < p.store.frameCount.toNat, p.At p.store count := by
  obtain ⟨count, hcount, hat⟩ := h.cursor
  refine ⟨count, ?_, hat⟩
  by_contra hge
  have := (hat.completing (not_lt.mp hge)).1
  rw [hphase] at this
  cases this

/-- The segment of the next frame is found, and one more than the frame, and than the place in the
store, is still a word of 64 bits. -/
structure HasRoom (p : Playback) : Prop where
  covered : ∃ s, p.store.get? p.index = some s ∧ s.contains p.frame
  frame : (p.frame + 1).toNat = p.frame.toNat + 1
  index : p.index + 1 < UInt64.size

theorem Sound.hasRoom (h : p.Sound) (hphase : p.phase = .running) : p.HasRoom := by
  obtain ⟨count, hcount, hat⟩ := h.exists_at hphase
  obtain ⟨-, s, hs, hc⟩ := hat.running hcount
  have hlast := h.below s (List.mem_of_getElem? hs)
  have hsize : p.index < p.store.size := (List.getElem?_eq_some_iff.mp hs).1
  have hframes := h.partition.size_le_frameCount
  refine ⟨⟨s, hs, hc⟩, ?_, ?_⟩
  · rw [hat.toNat_next hc hlast, hat.frame]
  · have hword := p.store.frameCount.toNat_lt_size
    omega

theorem tick_of_not_running (hphase : p.phase ≠ .running) (clock : FrameClock) :
    p.tick clock = (none, p, clock) := by
  simp [tick, hphase]

theorem Sound.tick (h : p.Sound) (clock : FrameClock) : (p.tick clock).2.1.Sound := by
  by_cases hphase : p.phase = .running
  · obtain ⟨count, hcount, hat⟩ := h.exists_at hphase
    obtain ⟨i, s, -, -, -, -, hnext⟩ := tick_at h.partition h.below hat hcount clock
    exact sound_of_at h.full h.partition h.below hcount hnext
  · rw [tick_of_not_running hphase]
    exact h

theorem isActive_advance (p : Playback) (s : Segment) (hphase : p.phase = .running) :
    (p.advance s).isActive := by
  rw [isActive_iff]
  unfold advance
  dsimp only
  split_ifs
  all_goals simp [hphase]

theorem isActive_tick (p : Playback) (clock : FrameClock) :
    (p.tick clock).2.1.isActive = p.isActive := by
  by_cases hphase : p.phase = .running
  · have hactive : p.isActive := by simp [isActive, hphase]
    unfold tick
    rw [if_neg (not_not_intro hphase), hactive]
    cases p.store.get? p.index with
    | none => rfl
    | some s => exact isActive_advance p s hphase
  · rw [tick_of_not_running hphase]

end Playback

namespace Engine

variable {σ : Type}

/-- At most one of the two activities goes on; of a run that is over nothing is kept, and an active
playback is sound. -/
structure Sound (e : Engine σ) : Prop where
  exclusive : e.playback.isActive → e.recorder.recording = false
  idle : e.playback.isActive = false → e.playback = {} ∧ e.tracker = {} ∧ e.saveResults = false
  quiet : e.recorder.recording = false → e.recorder = {}
  active : e.playback.isActive → e.playback.Sound

variable {e : Engine σ}

theorem sound_of_new (storage : σ) (config : Config) (triggers : Triggers) (clock : FrameClock) :
    ({ config, triggers, storage, clock } : Engine σ).Sound where
  exclusive := nofun
  idle _ := ⟨rfl, rfl, rfl⟩
  quiet _ := rfl
  active := nofun

theorem Sound.inactive_of_recording (h : e.Sound) (hrecording : e.recorder.recording) :
    e.playback.isActive = false := by
  by_contra hactive
  rw [Bool.not_eq_false] at hactive
  rw [h.exclusive hactive] at hrecording
  cases hrecording

/-- The held buttons, the storage and the clock do not matter. -/
theorem Sound.congr {s : Engine σ} (h : e.Sound) (hplayback : s.playback = e.playback)
    (hrecorder : s.recorder = e.recorder) (htracker : s.tracker = e.tracker)
    (hsave : s.saveResults = e.saveResults) : s.Sound := by
  obtain ⟨exclusive, idle, quiet, active⟩ := h
  rw [← hplayback, ← hrecorder] at exclusive
  rw [← hplayback, ← htracker, ← hsave] at idle
  rw [← hrecorder] at quiet
  rw [← hplayback] at active
  exact ⟨exclusive, idle, quiet, active⟩

theorem Sound.startRecording (h : e.Sound) : e.startRecording.2.Sound := by
  unfold Engine.startRecording
  split
  · exact h
  next hneither =>
    have hidle : e.playback.isActive = false := by
      rw [Bool.not_eq_true, Bool.or_eq_false_iff] at hneither
      exact hneither.1
    refine ⟨fun hactive => ?_, fun _ => h.idle hidle, nofun, h.active⟩
    rw [hidle] at hactive
    cases hactive

theorem Sound.next (h : e.Sound) : e.next.2.Sound := by
  have hactive : e.next.2.playback.isActive = e.playback.isActive :=
    e.playback.isActive_tick e.clock
  refine ⟨fun hnext => h.exclusive (hactive ▸ hnext), fun hnext => ?_, h.quiet, fun hnext => ?_⟩
  · have hidle := h.idle (hactive ▸ hnext)
    have hphase : e.playback.phase ≠ .running := by simp [hidle.1]
    have hsame : e.next.2.playback = e.playback := by
      simp [Engine.next, Playback.tick_of_not_running hphase]
    exact ⟨hsame.trans hidle.1, hidle.2⟩
  · exact (h.active (hactive ▸ hnext)).tick e.clock

theorem Sound.record (h : e.Sound) (live : Controller) :
    ({ e with recorder := e.recorder.record live } : Engine σ).Sound := by
  by_cases hrecording : e.recorder.recording = false
  · rw [record_of_quiet hrecording]
    exact h
  · have hkept := e.recorder.recording_record live
    refine ⟨fun hactive => absurd (h.exclusive hactive) hrecording, h.idle, fun hquiet => ?_,
      h.active⟩
    exact absurd (hkept.symm.trans hquiet) hrecording

/-- What a reader finds in an engine: one activity at a time, nothing of a run that is over, and a
cursor at the segment of the next frame, or behind the last one. -/
structure Consistent (e : Engine σ) : Prop where
  exclusive : ¬ (e.playback.isActive ∧ e.recorder.recording)
  idle : e.playback.phase = .idle →
    e.playback.store = .empty ∧ e.playback.frame = 0 ∧ e.playback.index = 0 ∧
      e.tracker = {} ∧ e.saveResults = false
  quiet : e.recorder.recording = false → e.recorder.captured = []
  running : e.playback.phase = .running →
    e.playback.store.isEmpty = false ∧ e.playback.store.IsPartition ∧
      1 ≤ e.playback.frame ∧ e.playback.frame ≤ e.playback.store.frameCount ∧
      e.playback.store.indexAt? e.playback.frame = some e.playback.index
  completing : e.playback.phase = .completing →
    e.playback.frame.toNat = e.playback.store.frameCount.toNat + 1 ∧
      e.playback.index = e.playback.store.size

theorem Sound.consistent (h : e.Sound) : e.Consistent where
  exclusive := by
    rintro ⟨hactive, hrecording⟩
    rw [h.exclusive hactive] at hrecording
    cases hrecording
  idle hphase := by
    obtain ⟨hplayback, htracker, hsave⟩ := h.idle (by simp [Playback.isActive, hphase])
    rw [hplayback]
    exact ⟨rfl, rfl, rfl, htracker, hsave⟩
  quiet hrecording := by
    rw [h.quiet hrecording]
  running hphase := by
    have hsound := h.active (by simp [Playback.isActive, hphase])
    obtain ⟨count, hcount, hat⟩ := hsound.exists_at hphase
    obtain ⟨-, s, hs, hc⟩ := hat.running hcount
    have hframe := hat.frame
    refine ⟨hsound.full, hsound.partition, ?_, ?_, hsound.partition.indexAt?_eq_some hs hc⟩
    · rw [UInt64.le_iff_toNat_le, UInt64.toNat_one]
      omega
    · rw [UInt64.le_iff_toNat_le]
      omega
  completing hphase := by
    have hsound := h.active (by simp [Playback.isActive, hphase])
    obtain ⟨count, hcount, hat⟩ := hsound.cursor
    have hge : ¬ count < e.playback.store.frameCount.toNat := by
      intro hlt
      have hrunning := (hat.running hlt).1
      rw [hphase] at hrunning
      cases hrunning
    have hframe := hat.frame
    exact ⟨by omega, (hat.completing (not_lt.mp hge)).2⟩

variable [Storage σ]

@[simp] theorem recorder_finalize (now : Moment) (e : Engine σ) :
    (e.finalize now).recorder = e.recorder := by
  show (e.saveLog now).recorder = e.recorder
  unfold saveLog
  split <;> rfl

@[simp] theorem recorder_finalizeIfComplete (now : Moment) (e : Engine σ) :
    (e.finalizeIfComplete now).recorder = e.recorder := by
  unfold Engine.finalizeIfComplete
  split
  · exact recorder_finalize now e
  · rfl

@[simp] theorem recorder_submit (now : Moment) (results : FrameResults) (e : Engine σ) :
    (e.submit now results).recorder = e.recorder := by
  unfold Engine.submit
  split
  · rfl
  · exact recorder_finalizeIfComplete now _

@[simp] theorem recorder_cancelPlayback (now : Moment) (e : Engine σ) :
    (e.cancelPlayback now).recorder = e.recorder := by
  unfold Engine.cancelPlayback
  split
  · exact recorder_finalize now e
  · rfl

@[simp] theorem recorder_startPlayback (now : Moment) (e : Engine σ) :
    (e.startPlayback now).2.recorder = e.recorder := by
  unfold Engine.startPlayback
  split
  · rfl
  split
  · rfl
  dsimp only
  split
  · rfl
  split
  · exact recorder_finalize now _
  · rfl

theorem sound_finalize (now : Moment) (hquiet : e.recorder.recording = false → e.recorder = {}) :
    (e.finalize now).Sound where
  exclusive := nofun
  idle _ := ⟨rfl, rfl, rfl⟩
  quiet hrecording := by
    rw [recorder_finalize] at hrecording ⊢
    exact hquiet hrecording
  active := nofun

theorem Sound.finalizeIfComplete (h : e.Sound) (now : Moment) :
    (e.finalizeIfComplete now).Sound := by
  unfold Engine.finalizeIfComplete
  split
  · exact sound_finalize now h.quiet
  · exact h

theorem Sound.cancelPlayback (h : e.Sound) (now : Moment) : (e.cancelPlayback now).Sound := by
  unfold Engine.cancelPlayback
  split
  · exact sound_finalize now h.quiet
  · exact h

theorem Sound.startPlayback (h : e.Sound) (now : Moment) : (e.startPlayback now).2.Sound := by
  unfold Engine.startPlayback
  split
  · exact h
  split
  · exact h
  next hidle hquiet =>
    rw [Bool.not_eq_true] at hidle hquiet
    have hplayback := (h.idle hidle).1
    dsimp only
    split
    · exact ⟨h.exclusive, fun _ => ⟨hplayback, rfl, rfl⟩, h.quiet, h.active⟩
    next loaded hload =>
      split
      · exact sound_finalize now h.quiet
      next hphase =>
        have hfull : loaded.store.isEmpty = false := by
          by_contra hempty
          exact hphase (by simp [Playback.start, hempty])
        have hactive : (Playback.start loaded.store).isActive := by
          simp [Playback.isActive, Playback.start, hfull]
        refine ⟨fun _ => hquiet, fun hover => ?_, h.quiet, fun _ => ?_⟩
        · rw [hactive] at hover
          cases hover
        · have hstore := Script.isPartition_load hload
          exact Playback.sound_of_at hfull hstore
            (fun s hs => Script.last_lt_of_load hload hs) (Nat.zero_le _)
            (Playback.start_at hstore hfull)

theorem Sound.stopRecording (h : e.Sound) (now : Moment) : (e.stopRecording now).2.Sound := by
  unfold Engine.stopRecording
  split
  · exact h
  · exact ⟨fun _ => rfl, h.idle, fun _ => rfl, h.active⟩

theorem Sound.react (h : e.Sound) (now : Moment) (buttons : Buttons) :
    (e.react now buttons).2.Sound := by
  have hheld : ({ e with held := buttons } : Engine σ).Sound := h.congr rfl rfl rfl rfl
  unfold Engine.react
  dsimp only
  split
  · exact hheld
  split
  · show (if buttons = e.triggers.cancelPlayback then finalize now { e with held := buttons }
      else { e with held := buttons }).Sound
    split
    · exact sound_finalize now h.quiet
    · exact hheld
  split
  · split
    · exact hheld.stopRecording now
    · exact hheld
  split
  · exact hheld.startPlayback now
  split
  · exact hheld.startRecording
  · exact hheld

theorem Sound.poll (h : e.Sound) (now : Moment) (live : Controller) :
    (e.poll now live).2.Sound := by
  have hnext := ((h.react now live.buttons).finalizeIfComplete now).next
  unfold Engine.poll
  dsimp only
  split
  · exact hnext
  · exact hnext.record live

theorem Sound.submit (h : e.Sound) (now : Moment) (results : FrameResults) :
    (e.submit now results).Sound := by
  unfold Engine.submit
  split
  · exact h
  next hcounts =>
    have hactive : e.playback.isActive := by
      by_contra hidle
      exact hcounts (by simp [hidle])
    have hrecorded : ({ e with
        tracker := e.tracker.record results (e.playback.store.markerAt results.frame) } :
        Engine σ).Sound := by
      refine ⟨h.exclusive, fun hidle => ?_, h.quiet, h.active⟩
      rw [hactive] at hidle
      cases hidle
    exact hrecorded.finalizeIfComplete now

/-- Every operation leaves a sound engine sound. -/
theorem Sound.perform (h : e.Sound) (now : Moment) (op : Operation σ) :
    (e.perform now op).2.Sound := by
  cases op with
  | poll live => exact h.poll now live
  | submit results => exact h.submit now results
  | startPlayback => exact h.startPlayback now
  | cancelPlayback => exact h.cancelPlayback now
  | startRecording => exact h.startRecording
  | stopRecording => exact h.stopRecording now
  | drift rate => exact h.congr rfl rfl rfl rfl
  | edit change => exact h.congr rfl rfl rfl rfl

theorem Sound.run (h : e.Sound) (history : List (Moment × Operation σ)) :
    (e.run history).Sound := by
  induction history generalizing e with
  | nil => exact h
  | cons op rest ih => exact ih (h.perform op.1 op.2)

/-- The engine that a poll takes the frame from: triggers have acted, and a run that is over is
closed. -/
def settle (now : Moment) (live : Controller) (e : Engine σ) : Engine σ :=
  (e.react now live.buttons).2.finalizeIfComplete now

theorem playback_poll (now : Moment) (live : Controller) (e : Engine σ) :
    (e.poll now live).2.playback =
      ((e.settle now live).playback.tick (e.settle now live).clock).2.1 := by
  unfold poll
  dsimp only
  split <;> rfl

/-- After any history of operations an engine plays or records but never both, keeps nothing of a
run or a recording that is over, and while it plays, its cursor is in the segment of the next frame
or, the last frame having been handed out, behind the last segment. So the tick of a poll always
finds a segment that covers the frame, and neither the frame nor the place in the store grows out
of a word. -/
theorem run_consistent (storage : σ) (config : Config) (triggers : Triggers) (clock : FrameClock)
    (history : List (Moment × Operation σ)) :
    let e := ({ config, triggers, storage, clock } : Engine σ).run history
    e.Consistent ∧ ∀ now live,
      (e.poll now live).2.playback =
        ((e.settle now live).playback.tick (e.settle now live).clock).2.1 ∧
      ((e.settle now live).playback.phase = .running →
        (e.settle now live).playback.HasRoom) := by
  intro e
  have hsound : e.Sound := (sound_of_new storage config triggers clock).run history
  refine ⟨hsound.consistent, fun now live => ⟨playback_poll now live e, fun hphase => ?_⟩⟩
  have hsettled : (e.settle now live).Sound :=
    (hsound.react now live.buttons).finalizeIfComplete now
  exact (hsettled.active (by simp [Playback.isActive, hphase])).hasRoom hphase

/-- A script plays, is cancelled by a trigger while its second frame is still to come, and input is
recorded afterwards. -/
theorem run_consistent_of_cancelled :
    let now : Moment := ⟨"0", ""⟩
    let e : Engine MemoryStorage :=
      { config := {}, triggers := {}, storage := ⟨[("main", "2,X\n1,Up")], []⟩ }
    let played := e.run [(now, .startPlayback), (now, .poll {})]
    let recorded := e.run [(now, .startPlayback), (now, .poll {}), (now, .cancelPlayback),
      (now, .startRecording), (now, .poll {})]
    played.playback.phase = .running ∧ played.playback.frame = 2 ∧ played.Consistent ∧
      recorded.recorder.frameCount = 1 ∧ recorded.Consistent := by
  intro now e played recorded
  refine ⟨?_, ?_, (run_consistent e.storage {} {} {} _).1, ?_,
    (run_consistent e.storage {} {} {} _).1⟩
  · decide +kernel
  · decide +kernel
  · decide +kernel

end Engine

end PadScript
