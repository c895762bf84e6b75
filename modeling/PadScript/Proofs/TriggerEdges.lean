import PadScript.Proofs.FailedStart
import PadScript.Proofs.HeadlessRun

/-!
# Triggers act on edges

A poll that finds other buttons held than the poll before it may do one thing more than hand out a
frame: what a direct call would do, if the buttons are exactly those of a trigger that is heeded.
What is held on does nothing more, whatever comes to an end in the meantime.
-/
namespace PadScript

/-- What a trigger can bring about. -/
inductive Control
  | startPlayback | cancelPlayback | startRecording | stopRecording
  deriving DecidableEq, Repr

namespace Control

def all : List Control := [.startPlayback, .cancelPlayback, .startRecording, .stopRecording]

@[simp] theorem mem_all (c : Control) : c ∈ all := by cases c <;> decide

/-- The call that does the same. -/
def operation {σ : Type} : Control → Operation σ
  | startPlayback => .startPlayback
  | cancelPlayback => .cancelPlayback
  | startRecording => .startRecording
  | stopRecording => .stopRecording

/-- Whether live input passes the recorder by in the frame of the trigger. -/
def switchesRecorder : Control → Bool
  | startRecording => true
  | stopRecording => true
  | _ => false

end Control

/-- The operation is a direct call to play or record, or to end that. -/
def Operation.IsDirect {σ : Type} (op : Operation σ) : Prop := ∃ c : Control, op = c.operation

def Operation.pressed? {σ : Type} : Operation σ → Option Buttons
  | .poll live => some live.buttons
  | _ => none

theorem Operation.pressed?_eq_some {σ : Type} {op : Operation σ} {buttons : Buttons}
    (h : op.pressed? = some buttons) : ∃ live, op = .poll live ∧ live.buttons = buttons := by
  cases op with
  | poll live => exact ⟨live, rfl, Option.some.inj h⟩
  | _ => cases h

def Triggers.of (t : Triggers) : Control → Buttons
  | .startPlayback => t.startPlayback
  | .cancelPlayback => t.cancelPlayback
  | .startRecording => t.startRecording
  | .stopRecording => t.stopRecording

theorem TriggerTexts.of_ne_empty {t : TriggerTexts} {triggers : Triggers}
    (h : t.resolve = .ok triggers) (c : Control) : triggers.of c ≠ .empty := by
  obtain ⟨hplay, hcancel, hrecord, hstop⟩ := resolve_eq_ok h
  cases c with
  | startPlayback => exact resolveOne_ne_empty hplay
  | cancelPlayback => exact resolveOne_ne_empty hcancel
  | startRecording => exact resolveOne_ne_empty hrecord
  | stopRecording => exact resolveOne_ne_empty hstop

namespace Engine

variable {σ : Type} {e : Engine σ}

/-- Whether a trigger counts: cancel while a script plays, stop while recording, and the two starts
while nothing goes on, of which playback comes first if both have the same buttons. -/
def Heeds (e : Engine σ) : Control → Prop
  | .startPlayback => e.playback.isActive = false ∧ e.recorder.recording = false
  | .cancelPlayback => e.playback.isActive
  | .startRecording => e.playback.isActive = false ∧ e.recorder.recording = false ∧
      e.triggers.startPlayback ≠ e.triggers.startRecording
  | .stopRecording => e.recorder.recording

instance (e : Engine σ) (c : Control) : Decidable (e.Heeds c) :=
  match c with
  | .startPlayback => inferInstanceAs (Decidable (_ ∧ _))
  | .cancelPlayback => inferInstanceAs (Decidable (_ = true))
  | .startRecording => inferInstanceAs (Decidable (_ ∧ _ ∧ _))
  | .stopRecording => inferInstanceAs (Decidable (_ = true))

/-- What the operation brings about by a trigger: a poll, when the held buttons become exactly those
of a trigger that is heeded. -/
def action? (e : Engine σ) : Operation σ → Option Control
  | .poll live => Control.all.find? fun c =>
      live.buttons ≠ e.held ∧ live.buttons = e.triggers.of c ∧ e.Heeds c
  | _ => none

/-- Two triggers of one and the same buttons are not heeded at a time. -/
theorem Sound.heeds_unique (h : e.Sound) {c d : Control} (hsame : e.triggers.of c = e.triggers.of d)
    (hc : e.Heeds c) (hd : e.Heeds d) : c = d := by
  have hexclusive := h.exclusive
  -- what goes on tells all pairs apart but that of the two starts, which have different buttons
  cases c <;> cases d <;> simp_all [Heeds, Triggers.of]

theorem Sound.mem_action?_iff (h : e.Sound) {live : Controller} {c : Control} :
    c ∈ e.action? (.poll live) ↔
      live.buttons ≠ e.held ∧ live.buttons = e.triggers.of c ∧ e.Heeds c := by
  constructor
  · intro hc
    simpa using List.find?_some hc
  · intro hc
    cases hfound : e.action? (.poll live) with
    | none => exact absurd (decide_eq_true hc) (List.find?_eq_none.mp hfound c c.mem_all)
    | some d =>
      have hd : live.buttons ≠ e.held ∧ live.buttons = e.triggers.of d ∧ e.Heeds d := by
        simpa using List.find?_some hfound
      rw [h.heeds_unique (hc.2.1.symm.trans hd.2.1) hc.2.2 hd.2.2]
      rfl

theorem action?_of_pressed_eq_none {op : Operation σ} (h : op.pressed? = none) :
    e.action? op = none := by
  cases op with
  | poll live => cases h
  | _ => rfl

theorem Sound.action?_of_held (h : e.Sound) {live : Controller} (hheld : live.buttons = e.held) :
    e.action? (.poll live) = none := by
  cases haction : e.action? (.poll live) with
  | none => rfl
  | some c => exact absurd hheld (h.mem_action?_iff.mp haction).1

theorem Sound.completing (h : e.Sound) (hactive : e.playback.isActive)
    (hphase : e.playback.phase ≠ .running) : e.playback.phase = .completing ∧
      e.playback.frame.toNat = e.playback.store.frameCount.toNat + 1 := by
  have hcompleting : e.playback.phase = .completing := by
    cases hother : e.playback.phase with
    | idle => exact absurd hother (Playback.isActive_iff.mp hactive)
    | running => exact absurd hother hphase
    | completing => rfl
  exact ⟨hcompleting, (h.consistent.completing hcompleting).1⟩

/-- `s` has the triggers of `e`, and the same buttons are held. -/
structure Alert (e s : Engine σ) : Prop where
  triggers : s.triggers = e.triggers
  held : s.held = e.held

theorem Alert.trans {s t : Engine σ} (h : e.Alert s) (hnext : s.Alert t) : e.Alert t :=
  ⟨hnext.triggers.trans h.triggers, hnext.held.trans h.held⟩

variable [Storage σ]

/-- The engine of a poll when the triggers have acted: with the buttons held, and what they bring
about done by a call. -/
def triggered (now : Moment) (live : Controller) (e : Engine σ) : Engine σ :=
  let pressed : Engine σ := { e with held := live.buttons }
  match e.action? (.poll live) with
  | none => pressed
  | some c => (pressed.perform now c.operation).2

/-- The rest of a poll: a run whose last frame has been handed out is closed, a frame is handed out,
and live input is recorded, unless it is to be passed by. -/
def handOut (now : Moment) (live : Controller) (passedBy : Bool) (e : Engine σ) :
    InputFrame × Engine σ :=
  let (frame, e) := (e.finalizeIfComplete now).next
  (frame, if passedBy then e else { e with recorder := e.recorder.record live })

theorem react_of_quiet (now : Moment) {buttons : Buttons} (hinactive : e.playback.isActive = false)
    (hquiet : e.recorder.recording = false)
    (hplay : ¬ (buttons ≠ e.held ∧ buttons = e.triggers.startPlayback))
    (hrecord : ¬ (buttons ≠ e.held ∧ buttons = e.triggers.startRecording)) :
    e.react now buttons = (false, { e with held := buttons }) := by
  unfold react
  by_cases hchanged : buttons = e.held
  · simp [hchanged]
  · have hplay' : buttons ≠ e.triggers.startPlayback := fun heq => hplay ⟨hchanged, heq⟩
    have hrecord' : buttons ≠ e.triggers.startRecording := fun heq => hrecord ⟨hchanged, heq⟩
    simp [hchanged, hinactive, hquiet, hplay', hrecord']

theorem Sound.react_of_none (h : e.Sound) (now : Moment) {live : Controller}
    (hnone : e.action? (.poll live) = none) :
    e.react now live.buttons = (false, { e with held := live.buttons }) := by
  have hfires : ∀ c, live.buttons ≠ e.held → live.buttons = e.triggers.of c → ¬ e.Heeds c := by
    intro c hedge hbuttons hheeds
    have hmem := h.mem_action?_iff.mpr ⟨hedge, hbuttons, hheeds⟩
    rw [hnone] at hmem
    cases hmem
  cases hactive : e.playback.isActive with
  | true =>
    exact react_of_active now hactive fun hedge => hfires .cancelPlayback hedge.1 hedge.2 hactive
  | false =>
    cases hrecording : e.recorder.recording with
    | true =>
      have hidle := Playback.isActive_eq_false_iff.mp hactive
      exact react_of_recording now hidle hrecording fun hedge =>
        hfires .stopRecording hedge.1 hedge.2 hrecording
    | false =>
      have hplay : ¬ (live.buttons ≠ e.held ∧ live.buttons = e.triggers.startPlayback) :=
        fun hedge => hfires .startPlayback hedge.1 hedge.2 ⟨hactive, hrecording⟩
      refine react_of_quiet now hactive hrecording hplay fun hedge => ?_
      refine hfires .startRecording hedge.1 hedge.2 ⟨hactive, hrecording, fun hsame => hplay ?_⟩
      exact ⟨hedge.1, hedge.2.trans hsame.symm⟩

/-- Live input does what a call would do, or nothing. -/
theorem Sound.react_eq (h : e.Sound) (now : Moment) (live : Controller) :
    e.react now live.buttons =
      ((e.action? (.poll live)).any Control.switchesRecorder, e.triggered now live) := by
  unfold triggered
  cases haction : e.action? (.poll live) with
  | none => exact h.react_of_none now haction
  | some c =>
    obtain ⟨hedge, hbuttons, hheeds⟩ := h.mem_action?_iff.mp haction
    unfold Engine.react
    cases c with
    | startPlayback =>
      obtain ⟨hinactive, hquiet⟩ := hheeds
      have htrigger : live.buttons = e.triggers.startPlayback := hbuttons
      simp [hedge, hinactive, hquiet, ← htrigger, Control.switchesRecorder, Control.operation,
        Engine.perform]
    | cancelPlayback =>
      have hactive : e.playback.isActive := hheeds
      have htrigger : live.buttons = e.triggers.cancelPlayback := hbuttons
      simp [hedge, hactive, ← htrigger, Control.switchesRecorder, Control.operation,
        Engine.perform, Engine.cancelPlayback]
    | startRecording =>
      obtain ⟨hinactive, hquiet, hother⟩ := hheeds
      have htrigger : live.buttons = e.triggers.startRecording := hbuttons
      rw [← htrigger] at hother
      simp [hedge, hinactive, hquiet, ← htrigger, hother.symm, Control.switchesRecorder,
        Control.operation, Engine.perform]
    | stopRecording =>
      have hrecording : e.recorder.recording := hheeds
      have htrigger : live.buttons = e.triggers.stopRecording := hbuttons
      simp [hedge, h.inactive_of_recording hrecording, hrecording, ← htrigger,
        Control.switchesRecorder, Control.operation, Engine.perform]

theorem Sound.poll_eq (h : e.Sound) (now : Moment) (live : Controller) :
    e.poll now live = (e.triggered now live).handOut now live
      ((e.action? (.poll live)).any Control.switchesRecorder) := by
  unfold Engine.poll
  rw [h.react_eq now live]
  rfl

theorem alert_finalize (now : Moment) (e : Engine σ) : e.Alert (e.finalize now) := by
  rw [finalize_eq]
  exact ⟨rfl, rfl⟩

theorem alert_finalizeIfComplete (now : Moment) (e : Engine σ) :
    e.Alert (e.finalizeIfComplete now) := by
  unfold finalizeIfComplete
  split
  · exact alert_finalize now e
  · exact ⟨rfl, rfl⟩

theorem Sound.alert_startPlayback (h : e.Sound) (now : Moment) :
    e.Alert (e.startPlayback now).2 := by
  rcases h.startPlayback_cases now with ⟨-, hstart⟩ | ⟨-, hstart⟩ | ⟨err, -, hstart⟩ |
    ⟨loaded, -, hstart⟩
  · rw [hstart]
    exact ⟨rfl, rfl⟩
  · rw [hstart]
    exact ⟨rfl, rfl⟩
  · rw [hstart]
    exact ⟨rfl, rfl⟩
  · have hbegin : e.Alert (e.begin loaded) := ⟨rfl, rfl⟩
    rw [hstart]
    split
    · exact hbegin.trans (alert_finalize now _)
    · exact hbegin

theorem alert_submit (now : Moment) (results : FrameResults) (e : Engine σ) :
    e.Alert (e.submit now results) := by
  unfold submit
  split
  · exact ⟨rfl, rfl⟩
  · obtain ⟨htriggers, hheld⟩ := alert_finalizeIfComplete now ({ e with
      tracker := e.tracker.record results (e.playback.store.markerAt results.frame) } : Engine σ)
    exact ⟨htriggers, hheld⟩

theorem Sound.alert_perform (h : e.Sound) (now : Moment) {op : Operation σ}
    (hpressed : op.pressed? = none) : e.Alert (e.perform now op).2 := by
  cases op with
  | poll live => cases hpressed
  | submit results => exact alert_submit now results e
  | startPlayback => exact h.alert_startPlayback now
  | cancelPlayback =>
    show e.Alert (e.cancelPlayback now)
    unfold Engine.cancelPlayback
    split
    · exact alert_finalize now e
    · exact ⟨rfl, rfl⟩
  | startRecording =>
    show e.Alert e.startRecording.2
    unfold Engine.startRecording
    split
    · exact ⟨rfl, rfl⟩
    · exact ⟨rfl, rfl⟩
  | stopRecording =>
    show e.Alert (e.stopRecording now).2
    unfold Engine.stopRecording
    split
    · exact ⟨rfl, rfl⟩
    · exact ⟨rfl, rfl⟩
  | drift rate => exact ⟨rfl, rfl⟩
  | edit change => exact ⟨rfl, rfl⟩

theorem alert_handOut (now : Moment) (live : Controller) (passedBy : Bool) (e : Engine σ) :
    e.Alert (e.handOut now live passedBy).2 := by
  obtain ⟨htriggers, hheld⟩ := alert_finalizeIfComplete now e
  unfold handOut
  dsimp only
  split
  · exact ⟨htriggers, hheld⟩
  · exact ⟨htriggers, hheld⟩

theorem Sound.alert_triggered (h : e.Sound) (now : Moment) (live : Controller) :
    ({ e with held := live.buttons } : Engine σ).Alert (e.triggered now live) := by
  have hpressed : ({ e with held := live.buttons } : Engine σ).Sound := h.congr rfl rfl rfl rfl
  unfold triggered
  dsimp only
  split
  · exact ⟨rfl, rfl⟩
  · next c _ => exact hpressed.alert_perform now (by cases c <;> rfl)

theorem Sound.alert_poll (h : e.Sound) (now : Moment) (live : Controller) :
    ({ e with held := live.buttons } : Engine σ).Alert (e.poll now live).2 := by
  rw [h.poll_eq now live]
  exact (h.alert_triggered now live).trans (alert_handOut now live _ _)

/-- The buttons that the latest poll of a history found held, `before` being held at first. -/
def lastPressed (before : Buttons) (history : List (Moment × Operation σ)) : Buttons :=
  (history.filterMap fun (_, op) => op.pressed?).getLast?.getD before

theorem Sound.perform_ready (h : e.Sound) (now : Moment) (op : Operation σ) :
    (e.perform now op).2.triggers = e.triggers ∧
      (e.perform now op).2.held = op.pressed?.getD e.held := by
  cases hpressed : op.pressed? with
  | none =>
    obtain ⟨htriggers, hheld⟩ := h.alert_perform now hpressed
    exact ⟨htriggers, hheld⟩
  | some buttons =>
    obtain ⟨live, rfl, rfl⟩ := Operation.pressed?_eq_some hpressed
    obtain ⟨htriggers, hheld⟩ := h.alert_poll now live
    exact ⟨htriggers, hheld⟩

theorem Sound.run_ready (h : e.Sound) (history : List (Moment × Operation σ)) :
    (e.run history).triggers = e.triggers ∧ (e.run history).held = lastPressed e.held history := by
  induction history generalizing e with
  | nil => exact ⟨rfl, rfl⟩
  | cons first rest ih =>
    obtain ⟨now, op⟩ := first
    obtain ⟨htriggers, hheld⟩ := h.perform_ready now op
    obtain ⟨hrest, hlast⟩ := ih (h.perform now op)
    refine ⟨hrest.trans htriggers, hlast.trans ?_⟩
    rw [hheld, lastPressed, lastPressed, List.filterMap_cons]
    cases hpressed : op.pressed? with
    | none => simp [hpressed]
    | some buttons => simp [hpressed, List.getLast?_cons]

theorem isActive_handOut (now : Moment) (live : Controller) (passedBy : Bool) (e : Engine σ) :
    (e.handOut now live passedBy).2.playback.isActive ↔ e.playback.phase = .running := by
  have hnext : (e.handOut now live passedBy).2.playback.isActive =
      (e.finalizeIfComplete now).playback.isActive := by
    unfold handOut
    dsimp only
    split
    · exact Playback.isActive_tick _ _
    · exact Playback.isActive_tick _ _
  rw [hnext]
  unfold finalizeIfComplete
  split
  next hcompleting => simp [hcompleting, finalize_eq, Playback.isActive]
  next hcompleting => cases hphase : e.playback.phase <;> simp_all [Playback.isActive]

theorem recording_handOut (now : Moment) (live : Controller) (passedBy : Bool) (e : Engine σ) :
    (e.handOut now live passedBy).2.recorder.recording = e.recorder.recording := by
  have hfinal := recorder_finalizeIfComplete now e
  unfold handOut
  dsimp only
  split
  · exact congrArg Recorder.recording hfinal
  · rw [Recorder.recording_record]
    exact congrArg Recorder.recording hfinal

/-- What is seen of triggers in an operation: without its trigger no run begins or is cancelled, and
no recording begins or ends. A run that is not cancelled ends when its last frame has been handed
out. -/
structure Shows (now : Moment) (op : Operation σ) (e : Engine σ) : Prop where
  begins : e.playback.isActive = false → (e.perform now op).2.playback.isActive →
    .startPlayback ∈ e.action? op
  ends : e.playback.isActive → (e.perform now op).2.playback.isActive = false →
    .cancelPlayback ∈ e.action? op ∨ e.playback.phase = .completing ∧
      e.playback.frame.toNat = e.playback.store.frameCount.toNat + 1
  records : e.recorder.recording = false → (e.perform now op).2.recorder.recording →
    .startRecording ∈ e.action? op
  stops : e.recorder.recording → (e.perform now op).2.recorder.recording = false →
    .stopRecording ∈ e.action? op

theorem Sound.playback_triggered (h : e.Sound) (now : Moment) (live : Controller) :
    (e.triggered now live).playback = e.playback ∨
      .startPlayback ∈ e.action? (.poll live) ∧ e.playback.isActive = false ∨
      .cancelPlayback ∈ e.action? (.poll live) ∧ e.playback.isActive := by
  unfold triggered
  cases haction : e.action? (.poll live) with
  | none => exact .inl rfl
  | some c =>
    have hheeds := (h.mem_action?_iff.mp haction).2.2
    cases c with
    | startPlayback => exact .inr (.inl ⟨rfl, hheeds.1⟩)
    | cancelPlayback => exact .inr (.inr ⟨rfl, hheeds⟩)
    | startRecording =>
      refine .inl ?_
      show (Engine.startRecording _).2.playback = _
      unfold Engine.startRecording
      split
      · rfl
      · rfl
    | stopRecording =>
      refine .inl ?_
      show (Engine.stopRecording _ _).2.playback = _
      unfold Engine.stopRecording
      split
      · rfl
      · rfl

theorem Sound.recorder_triggered (h : e.Sound) (now : Moment) (live : Controller) :
    (e.triggered now live).recorder = e.recorder ∨
      .startRecording ∈ e.action? (.poll live) ∧ e.recorder.recording = false ∨
      .stopRecording ∈ e.action? (.poll live) ∧ e.recorder.recording := by
  unfold triggered
  cases haction : e.action? (.poll live) with
  | none => exact .inl rfl
  | some c =>
    have hheeds := (h.mem_action?_iff.mp haction).2.2
    cases c with
    | startPlayback => exact .inl (recorder_startPlayback now _)
    | cancelPlayback => exact .inl (recorder_cancelPlayback now _)
    | startRecording => exact .inr (.inl ⟨rfl, hheeds.2.1⟩)
    | stopRecording => exact .inr (.inr ⟨rfl, hheeds⟩)

theorem Sound.shows_poll (h : e.Sound) (now : Moment) (live : Controller) :
    e.Shows now (.poll live) := by
  have hpoll : (e.perform now (.poll live)).2 = ((e.triggered now live).handOut now live
      ((e.action? (.poll live)).any Control.switchesRecorder)).2 :=
    congrArg Prod.snd (h.poll_eq now live)
  have hplays := isActive_handOut now live ((e.action? (.poll live)).any Control.switchesRecorder)
    (e.triggered now live)
  have hrecords := recording_handOut now live
    ((e.action? (.poll live)).any Control.switchesRecorder) (e.triggered now live)
  rw [← hpoll] at hplays hrecords
  refine ⟨fun hinactive hbegun => ?_, fun hactive hover => ?_, fun hquiet hbegun => ?_,
    fun hrecording hover => ?_⟩
  · rcases h.playback_triggered now live with hsame | ⟨hstart, -⟩ | ⟨-, hactive⟩
    · rw [hplays, hsame] at hbegun
      simp [Playback.isActive, hbegun] at hinactive
    · exact hstart
    · exact absurd (hactive.symm.trans hinactive) (by decide)
  · rcases h.playback_triggered now live with hsame | ⟨-, hinactive⟩ | ⟨hcancel, -⟩
    · rw [← Bool.not_eq_true, hplays, hsame] at hover
      exact .inr (h.completing hactive hover)
    · exact absurd (hactive.symm.trans hinactive) (by decide)
    · exact .inl hcancel
  · rcases h.recorder_triggered now live with hsame | ⟨hstart, -⟩ | ⟨-, hrecording⟩
    · rw [hrecords, hsame, hquiet] at hbegun
      cases hbegun
    · exact hstart
    · exact absurd (hrecording.symm.trans hquiet) (by decide)
  · rcases h.recorder_triggered now live with hsame | ⟨-, hquiet⟩ | ⟨hstop, -⟩
    · rw [hrecords, hsame, hrecording] at hover
      cases hover
    · exact absurd (hrecording.symm.trans hquiet) (by decide)
    · exact hstop

/-- While the recorder stays as it is, nothing is seen but what becomes of a run. -/
theorem shows_of_recorder {now : Moment} {op : Operation σ}
    (hrecorder : (e.perform now op).2.recorder = e.recorder)
    (hbegins : e.playback.isActive = false → (e.perform now op).2.playback.isActive →
      .startPlayback ∈ e.action? op)
    (hends : e.playback.isActive → (e.perform now op).2.playback.isActive = false →
      .cancelPlayback ∈ e.action? op ∨ e.playback.phase = .completing ∧
        e.playback.frame.toNat = e.playback.store.frameCount.toNat + 1) :
    e.Shows now op := by
  refine ⟨hbegins, hends, fun hquiet hbegun => ?_, fun hrecording hover => ?_⟩
  · rw [hrecorder, hquiet] at hbegun
    cases hbegun
  · rw [hrecorder, hrecording] at hover
    cases hover

theorem shows_of_same {now : Moment} {op : Operation σ}
    (hplayback : (e.perform now op).2.playback = e.playback)
    (hrecorder : (e.perform now op).2.recorder = e.recorder) : e.Shows now op := by
  refine shows_of_recorder hrecorder (fun hinactive hbegun => ?_) (fun hactive hover => ?_)
  · rw [hplayback, hinactive] at hbegun
    cases hbegun
  · rw [hplayback, hactive] at hover
    cases hover

theorem Sound.shows_submit (h : e.Sound) (now : Moment) (results : FrameResults) :
    e.Shows now (.submit results) := by
  refine shows_of_recorder (recorder_submit now results e) (fun hinactive hbegun => ?_)
    (fun hactive hover => .inr (h.completing hactive fun hrunning => ?_))
  · have hsubmit : e.submit now results = e := by simp [Engine.submit, hinactive]
    have hplays : (e.submit now results).playback.isActive := hbegun
    rw [hsubmit, hinactive] at hplays
    cases hplays
  · obtain ⟨tracker, hsubmit⟩ := submit_of_running now results hrunning
    have hplays : (e.submit now results).playback.isActive = false := hover
    rw [hsubmit] at hplays
    exact absurd (hactive.symm.trans hplays) (by decide)

/-- Direct calls apart, an operation shows nothing but what its trigger does and that a run is
over. -/
theorem Sound.shows (h : e.Sound) (now : Moment) {op : Operation σ} (hop : ¬ op.IsDirect) :
    e.Shows now op := by
  cases op with
  | poll live => exact h.shows_poll now live
  | submit results => exact h.shows_submit now results
  | startPlayback => exact absurd ⟨.startPlayback, rfl⟩ hop
  | cancelPlayback => exact absurd ⟨.cancelPlayback, rfl⟩ hop
  | startRecording => exact absurd ⟨.startRecording, rfl⟩ hop
  | stopRecording => exact absurd ⟨.stopRecording, rfl⟩ hop
  | drift rate => exact shows_of_same rfl rfl
  | edit change => exact shows_of_same rfl rfl

def actions : Engine σ → List (Moment × Operation σ) → List Control
  | _, [] => []
  | e, (now, op) :: rest => (e.action? op).toList ++ actions (e.perform now op).2 rest

/-- All polls of a history find these buttons held. -/
def Holding (buttons : Buttons) (history : List (Moment × Operation σ)) : Prop :=
  ∀ entry ∈ history, ∀ live, entry.2 = .poll live → live.buttons = buttons

theorem Sound.actions_of_held (h : e.Sound) {history : List (Moment × Operation σ)}
    (hholding : Holding e.held history) : e.actions history = [] := by
  induction history generalizing e with
  | nil => rfl
  | cons first rest ih =>
    obtain ⟨now, op⟩ := first
    obtain ⟨-, hheld⟩ := h.perform_ready now op
    have hnothing : e.action? op = none ∧ op.pressed?.getD e.held = e.held := by
      cases op with
      | poll live =>
        have hsame := hholding _ List.mem_cons_self live rfl
        exact ⟨h.action?_of_held hsame, hsame⟩
      | _ => exact ⟨rfl, rfl⟩
    have hrest : Holding (e.perform now op).2.held rest := by
      rw [hheld, hnothing.2]
      exact fun entry hentry => hholding entry (List.mem_cons_of_mem _ hentry)
    rw [actions, hnothing.1, ih (h.perform now op) hrest]
    rfl

/-- What is held does one thing at most, when it comes to be held. -/
theorem Sound.length_actions_le (h : e.Sound) {buttons : Buttons}
    {history : List (Moment × Operation σ)} (hholding : Holding buttons history) :
    (e.actions history).length ≤ 1 := by
  induction history generalizing e with
  | nil => exact Nat.zero_le _
  | cons first rest ih =>
    obtain ⟨now, op⟩ := first
    have hrest : Holding buttons rest :=
      fun entry hentry => hholding entry (List.mem_cons_of_mem _ hentry)
    cases hpressed : op.pressed? with
    | none =>
      rw [actions, action?_of_pressed_eq_none hpressed]
      exact ih (h.perform now op) hrest
    | some held =>
      have hheld : (e.perform now op).2.held = buttons := by
        obtain ⟨live, rfl, rfl⟩ := Operation.pressed?_eq_some hpressed
        rw [(h.perform_ready now _).2, hpressed]
        exact hholding _ List.mem_cons_self live rfl
      rw [actions, (h.perform now op).actions_of_held (hheld ▸ hrest), List.append_nil]
      cases e.action? op <;> simp

/-- A poll does one thing at most by a trigger: if other buttons were held before and those held now
are exactly those of a trigger that is heeded, what a call would do, before the frame is handed
out. -/
structure ActsAtEdge (previous : Buttons) (now : Moment) (live : Controller) (e : Engine σ) :
    Prop where
  action : ∀ c, c ∈ e.action? (.poll live) ↔
    live.buttons ≠ previous ∧ live.buttons = e.triggers.of c ∧ e.Heeds c
  poll : e.poll now live = (e.triggered now live).handOut now live
    ((e.action? (.poll live)).any Control.switchesRecorder)

/-- Whatever has been done with an engine that could be made, its triggers are those of the settings
and act at the edges of live input only. Runs and recordings begin and end by them, by calls or, when
the last frame has been handed out, by themselves. Whatever is held on does one thing at most, and
a pad at rest nothing. -/
theorem triggers_act_on_exact_edges {storage : σ} {config : Config} {fresh : Engine σ}
    (hmake : make storage config = .ok fresh) (history : List (Moment × Operation σ)) :
    let e := fresh.run history
    config.triggers.resolve = .ok e.triggers ∧
    (∀ now live, e.ActsAtEdge (lastPressed .empty history) now live) ∧
    (∀ now op, ¬ op.IsDirect → e.Shows now op) ∧
    (∀ buttons holding, Holding buttons holding → (e.actions holding).length ≤ 1) ∧
    (∀ live, live.buttons = .empty → e.action? (.poll live) = none) := by
  intro e
  obtain ⟨hresolve, hfresh⟩ := make_eq_ok.mp hmake
  have hnew : fresh.Sound := by
    rw [hfresh]
    exact sound_of_new _ _ _ _
  have hheld : fresh.held = .empty := by rw [hfresh]
  have hsound : e.Sound := hnew.run history
  obtain ⟨htriggers, hlast⟩ := hnew.run_ready history
  rw [← htriggers] at hresolve
  rw [hheld] at hlast
  refine ⟨hresolve, fun now live => ⟨fun c => ?_, hsound.poll_eq now live⟩,
    fun now op hop => hsound.shows now hop, fun buttons holding => hsound.length_actions_le,
    fun live hempty => ?_⟩
  · rw [← hlast]
    exact hsound.mem_action?_iff
  · cases haction : e.action? (.poll live) with
    | none => rfl
    | some c =>
      have hbuttons := (hsound.mem_action?_iff.mp haction).2.1
      exact absurd (hbuttons.symm.trans hempty) (TriggerTexts.of_ne_empty hresolve c)

/-- L3 starts a run of two frames when X is let go, and is held on until after its end. -/
theorem triggers_act_on_exact_edges_of_l3 :
    let storage : MemoryStorage := ⟨[("main", "2,X")], []⟩
    let fresh : Engine MemoryStorage := { config := {}, triggers := {}, storage }
    let now : Moment := ⟨"0", ""⟩
    let pressed : Controller := { buttons := ⟨0x4002⟩ }
    let live : Controller := { buttons := .ofButton .l3 }
    let e := fresh.run [(now, .poll pressed)]
    let holding : List (Moment × Operation MemoryStorage) := List.replicate 5 (now, .poll live)
    make storage {} = .ok fresh ∧ Holding live.buttons holding ∧
      .startPlayback ∈ e.action? (.poll live) ∧ (e.actions holding).length ≤ 1 ∧
      (e.run holding).playback.phase = .idle := by
  intro storage fresh now pressed live e holding
  have hmake : make storage {} = .ok fresh := rfl
  have hholding : Holding live.buttons holding := by
    intro entry hentry other hother
    rw [List.eq_of_mem_replicate hentry] at hother
    cases hother
    rfl
  obtain ⟨-, hacts, -, hheld, -⟩ := triggers_act_on_exact_edges hmake [(now, .poll pressed)]
  refine ⟨hmake, hholding, ((hacts now live).action _).mpr ?_, hheld _ _ hholding, ?_⟩
  · decide +kernel
  · decide +kernel

end Engine
end PadScript
