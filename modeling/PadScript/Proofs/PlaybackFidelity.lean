import PadScript.Engine.Operation
import PadScript.Proofs.Cursor
import PadScript.Proofs.FramePartition

/-!
# Playback hands out the script

From the start of a playback to its end, the polls of the game get the frames of the loaded store
in order, whatever is held on the pad and whatever results come in between; only a cancel edge can
interrupt this. The poll after the last frame finds the engine idle again.
-/
namespace PadScript

/-- What happens around one poll: reports that come in before it, and the live input. -/
structure Turn where
  reports : List (Moment × FrameResults) := []
  now : Moment
  live : Controller

namespace Turn

variable {σ : Type}

def reporting (t : Turn) : List (Moment × Operation σ) :=
  t.reports.map fun (now, results) => (now, .submit results)

def history (t : Turn) : List (Moment × Operation σ) := t.reporting ++ [(t.now, .poll t.live)]

/-- The buttons `trigger` do not become held at any of the polls, `held` being held before. -/
def NoEdge (trigger : Buttons) : Buttons → List Turn → Prop
  | _, [] => True
  | held, t :: rest =>
    ¬ (t.live.buttons ≠ held ∧ t.live.buttons = trigger) ∧ NoEdge trigger t.live.buttons rest

end Turn

/-- Frame `k + 1` of a store, as the game is given it. -/
structure InputFrame.IsFrame (store : Store) (k : Nat) (f : InputFrame) : Prop where
  active : f.isActive
  frame : f.frame.toNat = k + 1
  input : store.expand[k]? = some f.input
  settings : ∃ i s, store.indexAt? f.frame = some i ∧ store.get? i = some s ∧
    f.rate = s.rate ∧ f.skipMovies = s.skipMovies ∧ f.marker = s.marker
  recording : f.recording = false

namespace Engine

variable {σ : Type} [Storage σ]

def turn (e : Engine σ) (t : Turn) : InputFrame × Engine σ :=
  (e.run t.reporting).poll t.now t.live

theorem run_history (e : Engine σ) (t : Turn) (rest : List (Moment × Operation σ)) :
    e.run (t.history ++ rest) = (e.turn t).2.run rest := by
  simp only [run, turn, Turn.history, List.foldl_append, List.foldl_cons, List.foldl_nil]
  rfl

/-- The engine plays `store`, of which `count` frames have been handed out, and records nothing. -/
structure Playing (store : Store) (count : Nat) (e : Engine σ) : Prop where
  quiet : e.recorder.recording = false
  cursor : e.playback.At store count

variable {e : Engine σ} {store : Store} {count : Nat}

theorem finalizeIfComplete_of_running (now : Moment) (h : e.playback.phase = .running) :
    e.finalizeIfComplete now = e := by
  simp [finalizeIfComplete, h]

theorem submit_of_running (now : Moment) (results : FrameResults)
    (h : e.playback.phase = .running) :
    ∃ tracker, e.submit now results = { e with tracker } := by
  unfold submit
  split
  · exact ⟨e.tracker, rfl⟩
  · exact ⟨_, finalizeIfComplete_of_running now h⟩

theorem run_reporting_of_running (reports : List (Moment × FrameResults))
    (h : e.playback.phase = .running) :
    ∃ tracker, e.run (reports.map fun (now, results) => (now, .submit results)) =
      { e with tracker } := by
  induction reports generalizing e with
  | nil => exact ⟨e.tracker, rfl⟩
  | cons report rest ih =>
    obtain ⟨tracker, hsubmit⟩ := submit_of_running report.1 report.2 h
    obtain ⟨tracker', hrun⟩ := ih (e := { e with tracker }) h
    refine ⟨tracker', ?_⟩
    rw [List.map_cons, run, List.foldl_cons]
    show run (e.submit report.1 report.2) _ = _
    rw [hsubmit, hrun]

theorem react_of_active (now : Moment) {buttons : Buttons} (h : e.playback.isActive)
    (hedge : ¬ (buttons ≠ e.held ∧ buttons = e.triggers.cancelPlayback)) :
    e.react now buttons = (false, { e with held := buttons }) := by
  unfold react
  by_cases hchanged : buttons = e.held
  · simp [hchanged]
  · have hne : buttons ≠ e.triggers.cancelPlayback := fun heq => hedge ⟨hchanged, heq⟩
    simp [hchanged, hne, h]

theorem record_of_quiet {recorder : Recorder} (h : recorder.recording = false)
    (live : Controller) : recorder.record live = recorder := by
  simp [Recorder.record, h]

theorem poll_of_running (now : Moment) {live : Controller} (h : e.playback.phase = .running)
    (hquiet : e.recorder.recording = false)
    (hedge : ¬ (live.buttons ≠ e.held ∧ live.buttons = e.triggers.cancelPlayback)) :
    e.poll now live = ({ e with held := live.buttons } : Engine σ).next := by
  have hactive : e.playback.isActive := by simp [Playback.isActive, h]
  have hfinal := finalizeIfComplete_of_running (e := { e with held := live.buttons }) now h
  simp only [poll, react_of_active now hactive hedge, hfinal, next, record_of_quiet hquiet]
  simp

theorem turn_playing (hstore : store.IsPartition)
    (hlast : ∀ s ∈ store.segments, s.last.toNat < Frame.largest.toNat)
    (h : e.Playing store count) (hcount : count < store.frameCount.toNat) {t : Turn}
    (hedge : ¬ (t.live.buttons ≠ e.held ∧ t.live.buttons = e.triggers.cancelPlayback)) :
    (e.turn t).1.IsFrame store count ∧ (e.turn t).2.Playing store (count + 1) ∧
      (e.turn t).2.held = t.live.buttons ∧ (e.turn t).2.triggers = e.triggers := by
  have hrunning := (h.cursor.running hcount).1
  obtain ⟨tracker, hreports⟩ := run_reporting_of_running t.reports hrunning
  have hturn : e.turn t = ({ e with tracker, held := t.live.buttons } : Engine σ).next := by
    rw [turn, Turn.reporting, hreports]
    exact poll_of_running t.now hrunning h.quiet hedge
  obtain ⟨i, s, hindex, hs, hexpand, hframe, hcursor⟩ :=
    Playback.tick_at hstore hlast h.cursor hcount e.clock
  have hout : (e.turn t).1 = .ofSegment e.playback.frame s := by
    rw [hturn]
    simp [next, hframe]
  have hplace : e.playback.frame.toNat = count + 1 := h.cursor.frame
  refine ⟨?_, ⟨by rw [hturn]; exact h.quiet, by rw [hturn]; exact hcursor⟩,
    by rw [hturn]; rfl, by rw [hturn]; rfl⟩
  rw [hout]
  refine ⟨?_, hplace, hexpand, ⟨i, s, hindex, hs, rfl, rfl, rfl⟩, rfl⟩
  have : (0 : Frame) < e.playback.frame := by
    rw [UInt64.lt_iff_toNat_lt, hplace, UInt64.toNat_zero]
    omega
  exact decide_eq_true this

/-- Turns without a cancel edge hand out frame after frame, as long as there are frames left. -/
theorem turns_playing (hstore : store.IsPartition)
    (hlast : ∀ s ∈ store.segments, s.last.toNat < Frame.largest.toNat) {turns : List Turn}
    (h : e.Playing store count) (hcount : count + turns.length ≤ store.frameCount.toNat)
    (hedge : Turn.NoEdge e.triggers.cancelPlayback e.held turns) :
    (e.run (turns.flatMap Turn.history)).Playing store (count + turns.length) ∧
      ∀ k t, turns[k]? = some t →
        ((e.run ((turns.take k).flatMap Turn.history)).turn t).1.IsFrame store (count + k) ∧
        ((e.run ((turns.take k).flatMap Turn.history)).turn t).2.Playing store
          (count + k + 1) := by
  -- `Playing` is kept by each turn, with one frame more
  induction turns generalizing e count with
  | nil => exact ⟨h, by simp⟩
  | cons t rest ih =>
    obtain ⟨hfirst, hrest⟩ := hedge
    rw [List.length_cons] at hcount
    obtain ⟨hframe, hplaying, hheld, htriggers⟩ :=
      turn_playing hstore hlast h (by omega) hfirst
    have := ih hplaying (by omega) (by rw [hheld, htriggers]; exact hrest)
    rw [List.flatMap_cons, run_history, List.length_cons]
    refine ⟨by convert this.1 using 1; omega, fun k u hk => ?_⟩
    cases k with
    | zero =>
      obtain rfl : t = u := Option.some.inj hk
      exact ⟨hframe, hplaying⟩
    | succ k =>
      rw [List.take_succ_cons, List.flatMap_cons, run_history]
      have hlater := this.2 k u hk
      rw [show count + (k + 1) = count + 1 + k by omega]
      exact hlater

@[simp] theorem playback_finalize (now : Moment) (e : Engine σ) :
    (e.finalize now).playback = {} := rfl

theorem playback_react_of_active (now : Moment) (buttons : Buttons)
    (h : e.playback.isActive) :
    (e.react now buttons).2.playback = e.playback ∨ (e.react now buttons).2.playback = {} := by
  by_cases hedge : buttons ≠ e.held ∧ buttons = e.triggers.cancelPlayback
  · obtain ⟨hne, rfl⟩ := hedge
    refine .inr ?_
    unfold react
    simp [hne, h]
  · rw [react_of_active now h hedge]
    exact .inl rfl

theorem poll_of_completing (now : Moment) (live : Controller)
    (h : e.playback.phase = .completing) :
    (e.poll now live).1.frame = 0 ∧ (e.poll now live).2.playback.phase = .idle := by
  have hactive : e.playback.isActive := by simp [Playback.isActive, h]
  have hclosed : ((e.react now live.buttons).2.finalizeIfComplete now).playback = {} := by
    rcases playback_react_of_active now live.buttons hactive with hsame | hidle
    · simp [finalizeIfComplete, hsame, h]
    · simp [finalizeIfComplete, hidle]
  have hnext : ∀ e : Engine σ, e.playback = {} → e.next.1.frame = 0 ∧ e.next.2.playback = {} := by
    intro e he
    simp [next, he, Playback.tick, InputFrame.idle]
  obtain ⟨hframe, hplayback⟩ := hnext _ hclosed
  refine ⟨hframe, ?_⟩
  have hpoll : (e.poll now live).2.playback =
      ((e.react now live.buttons).2.finalizeIfComplete now).next.2.playback := by
    unfold poll
    dsimp only
    split <;> rfl
  rw [hpoll, hplayback]

theorem startPlayback_of_idle (now : Moment) {loaded : Script.Loaded}
    (hidle : e.playback.phase = .idle) (hquiet : e.recorder.recording = false)
    (hload : Script.load e.config.loading e.library e.config.mainScript = .ok loaded)
    (hfull : loaded.store.isEmpty = false) :
    e.startPlayback now = (.ok .started, { e with
      tracker := {}, saveResults := loaded.saveResults, diagnostics := loaded.diagnostics
      playback := .start loaded.store }) := by
  have hstart : (Playback.start loaded.store).phase = .running := by simp [Playback.start, hfull]
  have hload' : Script.load e.config.loading
      (library { e with tracker := {}, saveResults := false }) e.config.mainScript =
        .ok loaded := hload
  simp [startPlayback, Playback.isActive, hidle, hquiet, hload', hstart]

/-- A poll whose trigger starts a playback is the first poll of that playback. -/
theorem poll_of_trigger (now : Moment) {live : Controller} {loaded : Script.Loaded}
    (hidle : e.playback.phase = .idle) (hquiet : e.recorder.recording = false)
    (hload : Script.load e.config.loading e.library e.config.mainScript = .ok loaded)
    (hfull : loaded.store.isEmpty = false) (hedge : live.buttons ≠ e.held)
    (htrigger : live.buttons = e.triggers.startPlayback) :
    e.poll now live =
      (({ e with held := live.buttons } : Engine σ).startPlayback now).2.poll now live := by
  have hstarted := startPlayback_of_idle (e := { e with held := live.buttons }) now hidle hquiet
    hload hfull
  have hreact : e.react now live.buttons =
      (false, (({ e with held := live.buttons } : Engine σ).startPlayback now).2) := by
    unfold react
    simp [hedge, Playback.isActive, hidle, hquiet, ← htrigger]
  have hagain : ∀ s : Engine σ, s.held = live.buttons → s.react now live.buttons = (false, s) := by
    rintro s hs
    simp [react, ← hs]
  unfold poll
  rw [hreact, hagain _ (by rw [hstarted])]

/-- The polls of `turns` hand out the frames of `store` from the first one on, and once all have
been handed out, the next poll finds the engine idle. -/
structure HandsOut (store : Store) (turns : List Turn) (e : Engine σ) : Prop where
  frames : ∀ k t, turns[k]? = some t →
    ((e.run ((turns.take k).flatMap Turn.history)).turn t).1.IsFrame store k ∧
    ((e.run ((turns.take k).flatMap Turn.history)).turn t).2.playback.phase =
      if k + 1 < store.frameCount.toNat then .running else .completing
  closing : turns.length = store.frameCount.toNat → ∀ now live,
    ((e.run (turns.flatMap Turn.history)).poll now live).1.frame = 0 ∧
    ((e.run (turns.flatMap Turn.history)).poll now live).2.playback.phase = .idle

theorem handsOut_of_playing (hstore : store.IsPartition)
    (hlast : ∀ s ∈ store.segments, s.last.toNat < Frame.largest.toNat) {turns : List Turn}
    (h : e.Playing store 0) (hcount : turns.length ≤ store.frameCount.toNat)
    (hedge : Turn.NoEdge e.triggers.cancelPlayback e.held turns) : e.HandsOut store turns := by
  obtain ⟨hplaying, hturns⟩ := turns_playing hstore hlast h (by omega) hedge
  simp only [Nat.zero_add] at hplaying hturns
  refine ⟨fun k t hk => ?_, fun hall now live => ?_⟩
  · obtain ⟨hframe, hafter⟩ := hturns k t hk
    refine ⟨hframe, ?_⟩
    split
    · exact (hafter.cursor.running ‹_›).1
    · exact (hafter.cursor.completing (by omega)).1
  · exact poll_of_completing now live (hplaying.cursor.completing (by omega)).1

/-- What the turns hand out depends on the first of them only through its outcome. -/
theorem handsOut_of_turn_eq {s : Engine σ} {t : Turn} {rest : List Turn} (h : e.turn t = s.turn t)
    (hs : s.HandsOut store (t :: rest)) : e.HandsOut store (t :: rest) := by
  refine ⟨fun k u hk => ?_, fun hall now live => ?_⟩
  · have hframe := hs.frames k u hk
    cases k with
    | zero =>
      obtain rfl : t = u := Option.some.inj hk
      rw [List.take_zero, List.flatMap_nil] at hframe ⊢
      show (e.turn t).1.IsFrame store 0 ∧ _ = _
      rw [show (e.run []).turn t = s.turn t from h]
      exact ⟨h ▸ hframe.1, hframe.2⟩
    | succ k =>
      rw [List.take_succ_cons, List.flatMap_cons, run_history] at hframe ⊢
      rw [h]
      exact hframe
  · have hclosing := hs.closing hall now live
    rw [List.flatMap_cons, run_history] at hclosing ⊢
    rw [h]
    exact hclosing

/-- Playing the main script of an idle engine: whether a call or the start trigger begins it, the
polls hand out the frames of the loaded store one by one, each with the input at its place in the
expansion and the settings of the segment that covers it, until the last one; the poll after that
finds the engine idle. Reports in between and live input other than a cancel edge do not matter. -/
theorem playback_hands_out_script (e : Engine σ) (now : Moment) (loaded : Script.Loaded)
    (hidle : e.playback.phase = .idle) (hquiet : e.recorder.recording = false)
    (hload : Script.load e.config.loading e.library e.config.mainScript = .ok loaded)
    (hfull : loaded.store.isEmpty = false) :
    ((e.startPlayback now).1 = .ok .started ∧
      (e.startPlayback now).2.playback.phase = .running ∧
      ∀ turns, turns.length ≤ loaded.store.frameCount.toNat →
        Turn.NoEdge e.triggers.cancelPlayback e.held turns →
        (e.startPlayback now).2.HandsOut loaded.store turns) ∧
    ∀ live, live.buttons ≠ e.held → live.buttons = e.triggers.startPlayback →
      ∀ rest, rest.length + 1 ≤ loaded.store.frameCount.toNat →
        Turn.NoEdge e.triggers.cancelPlayback live.buttons rest →
        e.HandsOut loaded.store (⟨[], now, live⟩ :: rest) := by
  have hstore := Script.isPartition_load hload
  have hlast : ∀ s ∈ loaded.store.segments, s.last.toNat < Frame.largest.toNat :=
    fun s hs => Script.last_lt_of_load hload hs
  have hcursor := Playback.start_at hstore hfull
  have hrunning : (Playback.start loaded.store).phase = .running := by simp [Playback.start, hfull]
  refine ⟨?_, fun live hedge htrigger rest hcount hrest => ?_⟩
  · rw [startPlayback_of_idle now hidle hquiet hload hfull]
    exact ⟨rfl, hrunning, fun turns hcount hedge =>
      handsOut_of_playing hstore hlast ⟨hquiet, hcursor⟩ hcount hedge⟩
  · have hpoll := poll_of_trigger now hidle hquiet hload hfull hedge htrigger
    obtain ⟨s, hs⟩ : ∃ s, (({ e with held := live.buttons } : Engine σ).startPlayback now).2 = s :=
      ⟨_, rfl⟩
    rw [hs] at hpoll
    rw [startPlayback_of_idle (e := { e with held := live.buttons }) now hidle hquiet hload hfull]
      at hs
    refine handsOut_of_turn_eq (s := s) hpoll ?_
    subst hs
    exact handsOut_of_playing hstore hlast ⟨hquiet, hcursor⟩ hcount ⟨by simp, hrest⟩

/-- Three frames are handed out after a call, with a report before the second, and after L3. -/
theorem playback_hands_out_script_of_three_frames :
    let e : Engine MemoryStorage :=
      { config := {}, triggers := {}, storage := ⟨[("main", "2,X\n1,Up")], []⟩ }
    let now : Moment := ⟨"0", ""⟩
    ∃ loaded, Script.load e.config.loading e.library e.config.mainScript = .ok loaded ∧
      loaded.store.frameCount = 3 ∧
      (e.startPlayback now).2.HandsOut loaded.store
        [⟨[], now, {}⟩, ⟨[(now, { frame := 1 })], now, {}⟩, ⟨[], now, {}⟩] ∧
      e.HandsOut loaded.store
        [⟨[], now, { buttons := .ofButton .l3 }⟩, ⟨[], now, {}⟩, ⟨[], now, {}⟩] := by
  intro e now
  have hview : (Script.load e.config.loading e.library e.config.mainScript).toOption.map
      (fun loaded => (loaded.store.isEmpty, loaded.store.frameCount)) = some (false, 3) := by
    decide +kernel
  obtain ⟨loaded, hload, hloaded⟩ := Script.load_of_view hview
  obtain ⟨hfull, hcount⟩ := Prod.mk.inj hloaded
  obtain ⟨⟨-, -, hcall⟩, htrigger⟩ :=
    playback_hands_out_script e now loaded rfl rfl hload hfull
  refine ⟨loaded, hload, hcount, hcall _ ?_ ?_, htrigger _ ?_ rfl _ ?_ ?_⟩
  · rw [hcount]
    decide
  · simp [Turn.NoEdge, e]
  · decide
  · rw [hcount]
    decide
  · simp [Turn.NoEdge, e]
    decide

end Engine
end PadScript
