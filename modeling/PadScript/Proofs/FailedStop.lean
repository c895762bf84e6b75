import PadScript.Proofs.FinalReport
import PadScript.Proofs.RecordedScript
import PadScript.Storage.Journal

/-!
# Stops that fail

A stop takes what was captured out of the recorder before it writes it. If the storage refuses the
text, the engine is left as after any other stop: the recording stands in the refused text alone,
and no later stop has anything of it to write.
-/
namespace PadScript

def Operation.live? {σ : Type} : Operation σ → Option Controller
  | .poll live => some live
  | _ => none

def polled {σ : Type} (history : List (Moment × Operation σ)) : List Controller :=
  history.filterMap fun step => step.2.live?

theorem polled_cons {σ : Type} (step : Moment × Operation σ)
    (rest : List (Moment × Operation σ)) :
    polled (step :: rest) = step.2.live?.toList ++ polled rest := by
  unfold polled
  cases hlive : step.2.live? with
  | none => exact List.filterMap_cons_none hlive
  | some live => exact List.filterMap_cons_some hlive

theorem Recorder.holds_of_captured {r : Recorder} (hon : r.recording) (hempty : r.captured = []) :
    r.Holds [] := by
  obtain ⟨captured, recording⟩ := r
  obtain rfl : captured = [] := hempty
  obtain rfl : recording = true := hon
  exact holds_start {}

/-- Loaded from anywhere, the text gives the inputs frame by frame, with axes that hold no finite
number put to zero, and nothing is reported. -/
def Script.Replays (text : String) (inputs : List Controller) : Prop :=
  ∀ (settings : Settings) (library : Library) (name : String),
    library (if name = "" then settings.mainScript else name) = .ok text →
    ∃ loaded, load settings library name = .ok loaded ∧ loaded.diagnostics = [] ∧
      List.Forall₂ (fun live frame => live.finite.numEq frame) inputs loaded.store.expand

namespace Engine

variable {σ : Type} [Storage σ] {e : Engine σ} {inputs : List Controller}

def Records (e : Engine σ) : List (Moment × Operation σ) → Prop
  | [] => e.recorder.recording
  | step :: rest => e.recorder.recording ∧ (e.perform step.1 step.2).2.Records rest

theorem Records.recording {history : List (Moment × Operation σ)} (h : e.Records history) :
    e.recorder.recording := by
  cases history with
  | nil => exact h
  | cons step rest => exact h.1

theorem Records.snoc {history : List (Moment × Operation σ)} (h : e.Records history)
    {step : Moment × Operation σ} (hon : (e.run (history ++ [step])).recorder.recording) :
    e.Records (history ++ [step]) := by
  induction history generalizing e with
  | nil => exact ⟨h, hon⟩
  | cons first rest ih => exact ⟨h.1, ih h.2 hon⟩

/-- A recording that goes on has begun at some operation, and has gone on since. -/
theorem exists_start (hquiet : e.recorder.recording = false)
    {history : List (Moment × Operation σ)} (hon : (e.run history).recorder.recording) :
    ∃ before start during, history = before ++ start :: during ∧
      (e.run before).recorder.recording = false ∧
      (e.run (before ++ [start])).Records during := by
  induction history using List.reverseRecOn with
  | nil => exact absurd (hquiet.symm.trans hon) (by decide)
  | append_singleton history step ih =>
    cases hbefore : (e.run history).recorder.recording with
    | false => exact ⟨history, step, [], rfl, hbefore, hon⟩
    | true =>
      obtain ⟨before, start, during, rfl, hoff, hrecords⟩ := ih hbefore
      refine ⟨before, start, during ++ [step], by simp, hoff, hrecords.snoc ?_⟩
      rwa [← run_append, ← List.append_assoc, List.append_assoc before, List.singleton_append]

theorem recorder_cases (e : Engine σ) (now : Moment) (op : Operation σ) :
    (∃ live, op = .poll live) ∨ op = .startRecording ∨ op = .stopRecording ∨
      op.live? = none ∧ (e.perform now op).2.recorder = e.recorder := by
  cases op with
  | poll live => exact .inl ⟨live, rfl⟩
  | startRecording => exact .inr (.inl rfl)
  | stopRecording => exact .inr (.inr (.inl rfl))
  | submit results => exact .inr (.inr (.inr ⟨rfl, recorder_submit now results e⟩))
  | startPlayback => exact .inr (.inr (.inr ⟨rfl, recorder_startPlayback now e⟩))
  | cancelPlayback => exact .inr (.inr (.inr ⟨rfl, recorder_cancelPlayback now e⟩))
  | drift rate => exact .inr (.inr (.inr ⟨rfl, rfl⟩))
  | edit change => exact .inr (.inr (.inr ⟨rfl, rfl⟩))

/-- What is done with a recording engine without switching it off adds the input of polls to the
recording, and nothing else. -/
theorem Sound.holds_perform (h : e.Sound) (hholds : e.recorder.Holds inputs)
    (hroom : inputs.length < Frame.largest.toNat) (now : Moment) (op : Operation σ)
    (hon : (e.perform now op).2.recorder.recording) :
    (e.perform now op).2.recorder.Holds (inputs ++ op.live?.toList) := by
  have hrecording := hholds.recording
  have hidle := Playback.isActive_eq_false_iff.mp (h.inactive_of_recording hrecording)
  obtain ⟨live, rfl⟩ | rfl | rfl | ⟨hnone, hsame⟩ := e.recorder_cases now op
  · have hon' : (e.react now live.buttons).2.recorder.recording := recording_poll now live e ▸ hon
    have hedge : ¬ (live.buttons ≠ e.held ∧ live.buttons = e.triggers.stopRecording) := by
      intro hstops
      rw [(recording_react_of_recording now hidle hrecording).mpr hstops] at hon'
      cases hon'
    have hpoll := poll_of_idle (react_of_recording now hidle hrecording hedge) hidle
    show (e.poll now live).2.recorder.Holds _
    rw [hpoll]
    exact hholds.record hroom live
  · have hrefused : e.startRecording = (false, e) := if_pos (by simp [hrecording])
    show e.startRecording.2.recorder.Holds (inputs ++ [])
    rwa [hrefused, List.append_nil]
  · have hoff : (e.perform now .stopRecording).2.recorder = {} := by
      show (e.stopRecording now).2.recorder = {}
      rw [stopRecording_of_recording now hrecording]
    rw [hoff] at hon
    cases hon
  · rwa [hsame, hnone, Option.toList_none, List.append_nil]

theorem Sound.holds_run (h : e.Sound) (hholds : e.recorder.Holds inputs)
    {history : List (Moment × Operation σ)}
    (hroom : inputs.length + history.length ≤ Frame.largest.toNat) (hon : e.Records history) :
    (e.run history).recorder.Holds (inputs ++ polled history) := by
  induction history generalizing e inputs with
  | nil =>
    rw [polled, List.filterMap_nil, List.append_nil]
    exact hholds
  | cons step rest ih =>
    obtain ⟨-, hrest⟩ := hon
    rw [List.length_cons] at hroom
    have hnext := h.holds_perform hholds (by omega) step.1 step.2 hrest.recording
    have hlive : step.2.live?.toList.length ≤ 1 := by cases step.2.live? <;> simp
    rw [polled_cons, ← List.append_assoc]
    refine ih (h.perform step.1 step.2) hnext ?_ hrest
    rw [List.length_append]
    omega

theorem recording_of_active (hactive : e.playback.isActive)
    (hquiet : e.recorder.recording = false) (now : Moment) (op : Operation σ) :
    (e.perform now op).2.recorder.recording = false := by
  obtain ⟨live, rfl⟩ | rfl | rfl | ⟨-, hsame⟩ := e.recorder_cases now op
  · show (e.poll now live).2.recorder.recording = false
    rw [recording_poll, react]
    by_cases hedge : live.buttons = e.held
    · simp [hedge, hquiet]
    · by_cases hcancel : live.buttons = e.triggers.cancelPlayback
      · simp [hedge, hactive, ← hcancel, hquiet]
      · simp [hedge, hactive, hcancel, hquiet]
  · have hrefused : e.startRecording = (false, e) := if_pos (by simp [hactive])
    exact (congrArg (fun outcome => outcome.2.recorder.recording) hrefused).trans hquiet
  · have hnone : e.stopRecording now = (.ok none, e) := if_pos (by simp [hquiet])
    exact (congrArg (fun outcome => outcome.2.recorder.recording) hnone).trans hquiet
  · rw [hsame, hquiet]

/-- The operation that switches a recording on is not part of it. -/
theorem holds_of_start (hquiet : e.recorder.recording = false) (now : Moment)
    {op : Operation σ} (hon : (e.perform now op).2.recorder.recording) :
    (e.perform now op).2.recorder.Holds [] := by
  have hidle : e.playback.phase = .idle := by
    rw [← Playback.isActive_eq_false_iff, Bool.eq_false_iff]
    intro hactive
    rw [recording_of_active hactive hquiet] at hon
    cases hon
  obtain ⟨start, rfl, hstart⟩ := (starts_iff now op hidle hquiet).mp hon
  obtain ⟨held, hstarted⟩ := perform_on now hidle hquiet hstart
  rw [hstarted]
  exact e.recorder.holds_start

theorem Sound.holds_history (h : e.Sound) (hquiet : e.recorder.recording = false)
    {history : List (Moment × Operation σ)} (hroom : history.length ≤ Frame.largest.toNat)
    (hon : (e.run history).recorder.recording) :
    ∃ before start during, history = before ++ start :: during ∧
      (e.run before).recorder.recording = false ∧
      (e.run (before ++ [start])).Records during ∧
      (e.run history).recorder.Holds (polled during) := by
  obtain ⟨before, start, during, rfl, hoff, hrecords⟩ := exists_start hquiet hon
  refine ⟨before, start, during, rfl, hoff, hrecords, ?_⟩
  have hstarted : e.run (before ++ [start]) = ((e.run before).perform start.1 start.2).2 :=
    run_append e before [start]
  have hfirst : (e.run (before ++ [start])).recorder.Holds [] := by
    have hon' := hrecords.recording
    rw [hstarted] at hon' ⊢
    exact holds_of_start hoff start.1 hon'
  rw [List.length_append, List.length_cons] at hroom
  have hholds := (h.run (before ++ [start])).holds_run hfirst (by rw [List.length_nil]; omega)
    hrecords
  rwa [← run_append, List.append_assoc, List.singleton_append, List.nil_append] at hholds

theorem captured_perform (hempty : e.recorder.captured = []) (now : Moment)
    {op : Operation σ} (hop : op.live? = none) :
    (e.perform now op).2.recorder.captured = [] := by
  obtain ⟨live, rfl⟩ | rfl | rfl | ⟨-, hsame⟩ := e.recorder_cases now op
  · cases hop
  · show e.startRecording.2.recorder.captured = []
    unfold startRecording
    split
    · exact hempty
    · rfl
  · show (e.stopRecording now).2.recorder.captured = []
    unfold stopRecording
    split
    · exact hempty
    · rfl
  · rw [hsame, hempty]

theorem captured_run (hempty : e.recorder.captured = []) {history : List (Moment × Operation σ)}
    (hnone : polled history = []) : (e.run history).recorder.captured = [] := by
  induction history generalizing e with
  | nil => exact hempty
  | cons step rest ih =>
    rw [polled_cons, List.append_eq_nil_iff, Option.toList_eq_nil_iff] at hnone
    exact ih (captured_perform hempty step.1 hnone.1) hnone.2

theorem Sound.writes_empty (h : e.Sound) (hon : e.recorder.recording)
    (hempty : e.recorder.captured = []) (now : Moment) (hdate : '\n' ∉ now.date.toList) :
    ∃ text, e.WritesAt (now, .call) text ∧ Script.Replays text [] := by
  have hidle := Playback.isActive_eq_false_iff.mp (h.inactive_of_recording hon)
  have hholds := Recorder.holds_of_captured hon hempty
  refine ⟨e.recordingText now, writesAt_of_recording hidle hon trivial, ?_⟩
  intro settings library name hname
  exact Script.load_recording hholds (by decide) (not_mem_recordingHeader hdate _) hname

/-- Only a recording engine can fail to stop: the storage refuses the text of the recording, and
the recorder is emptied all the same. -/
theorem stopRecording_of_error {now : Moment} {err : StorageError}
    (hfailed : (e.stopRecording now).1 = .error err) :
    e.recorder.recording ∧
      Storage.write e.storage (e.recordingName now) (e.recordingText now) =
        (.error err, (e.stopRecording now).2.storage) ∧
      (e.stopRecording now).2 =
        { e with recorder := {}, storage := (e.stopRecording now).2.storage } := by
  have hon : e.recorder.recording := by
    by_contra hoff
    have hnone : e.stopRecording now = (.ok none, e) := if_pos (by simp [hoff])
    rw [hnone] at hfailed
    cases hfailed
  have hstopped := stopRecording_of_recording now hon
  have hstorage : (e.stopRecording now).2.storage =
      (Storage.write e.storage (e.recordingName now) (e.recordingText now)).2 :=
    congrArg (fun outcome => outcome.2.storage) hstopped
  refine ⟨hon, ?_, ?_⟩
  · rw [hstorage]
    have hwrite := (congrArg Prod.fst hstopped).symm.trans hfailed
    dsimp only at hwrite
    cases houtcome : (Storage.write e.storage (e.recordingName now) (e.recordingText now)).1 with
    | ok _ =>
      rw [houtcome] at hwrite
      cases hwrite
    | error failure =>
      rw [houtcome] at hwrite
      obtain rfl := Except.error.inj hwrite
      exact Prod.ext houtcome rfl
  · rw [hstorage]
    exact congrArg Prod.snd hstopped

/-- A stop that fails has handed the recording to the storage, and the engine keeps nothing of it.
For every engine that was reached without a recording going on, and whatever has been done with it
since: if a stop is answered with an error, the refused text is a script that gives the live input
of all polls since the recording was switched on, but the engine is left as it was with an empty
recorder that is switched off. Until the next poll, a later stop has nothing to write, or, if a
recording has been switched on again, it writes a script without frames. -/
theorem failed_stop_keeps_nothing (e : Engine σ) (hreachable : e.Reachable)
    (hquiet : e.recorder.recording = false) (history : List (Moment × Operation σ))
    (hroom : history.length < Frame.largest.toNat) (now : Moment)
    (hdate : '\n' ∉ now.date.toList) (err : StorageError)
    (hfailed : ((e.run history).stopRecording now).1 = .error err) :
    let recording := e.run history
    let stopped := (recording.stopRecording now).2
    (∃ before start during text, history = before ++ start :: during ∧
      (e.run before).recorder.recording = false ∧ (e.run (before ++ [start])).Records during ∧
      Storage.write recording.storage (recording.recordingName now) text =
        (.error err, stopped.storage) ∧
      Script.Replays text (polled during)) ∧
    stopped = { recording with recorder := {}, storage := stopped.storage } ∧
    ∀ later, polled later = [] → ∀ again : Moment, '\n' ∉ again.date.toList →
      let s := stopped.run later
      s.recorder.captured = [] ∧
      (s.recorder.recording = false → s.stopRecording again = (.ok none, s)) ∧
      (s.recorder.recording → ∃ text, s.WritesAt (again, .call) text ∧ Script.Replays text []) := by
  intro recording stopped
  have hsound : recording.Sound := hreachable.sound.run history
  obtain ⟨hon, hwrite, hafter⟩ := stopRecording_of_error hfailed
  obtain ⟨before, start, during, hhistory, hoff, hrecords, hholds⟩ :=
    hreachable.sound.holds_history hquiet hroom.le hon
  refine ⟨⟨before, start, during, recording.recordingText now, hhistory, hoff, hrecords, hwrite,
    fun settings library name hname => ?_⟩, hafter, fun later hlater again hagain => ?_⟩
  · refine Script.load_recording hholds ?_ (not_mem_recordingHeader hdate _) hname
    have hpolls : (polled during).length ≤ during.length := List.length_filterMap_le _ _
    rw [hhistory, List.length_append, List.length_cons] at hroom
    omega
  · have hcaptured : (stopped.run later).recorder.captured = [] :=
      captured_run (congrArg (fun s => s.recorder.captured) hafter) hlater
    have hlater : (stopped.run later).Sound := (hsound.stopRecording now).run later
    refine ⟨hcaptured, fun hoff => if_pos (by simp [hoff]), fun hon => ?_⟩
    exact hlater.writes_empty hon hcaptured again hagain

/-- The disk is full at the first stop. Afterwards there is nothing to write, and another recording
begins from its first frame. -/
theorem failed_stop_keeps_nothing_of_full_disk :
    let e : Engine (Journal MemoryStorage) :=
      { config := {}, triggers := {}, storage := { inner := {} } }
    let now : Moment := ⟨"0", "1970-01-01T00:00:00+00:00"⟩
    let refuse (refusing : Bool) : Operation (Journal MemoryStorage) :=
      .edit fun j => { j with refusing }
    let history : List (Moment × Operation (Journal MemoryStorage)) :=
      [(now, .startRecording), (now, .poll { buttons := .ofButton .up }),
        (now, .poll { buttons := .ofButton .x }), (now, refuse true)]
    let stopped := ((e.run history).stopRecording now).2
    let later : List (Moment × Operation (Journal MemoryStorage)) :=
      [(now, refuse false), (now, .startRecording)]
    (stopped.storage.attempts.map Attempt.contents = ["# Recorded 1970-01-01T00:00:00+00:00\n" ++
        "# 2 frames\n1,Up,player-angle=0,player-speed=0,camera-angle=0,camera-zoom=0\n1,X\n"]) ∧
      (stopped.stopRecording now) = (.ok none, stopped) ∧
      ∃ text, (stopped.run later).WritesAt (now, .call) text ∧ Script.Replays text [] := by
  intro e now refuse history stopped later
  have hreachable : e.Reachable := ⟨e.storage, {}, {}, {}, [], rfl⟩
  obtain ⟨-, -, hlater⟩ := failed_stop_keeps_nothing e hreachable rfl history (by decide) now
    (by decide) Journal.refusal rfl
  obtain ⟨-, hnone, -⟩ := hlater [] rfl now (by decide)
  obtain ⟨-, -, hagain⟩ := hlater later rfl now (by decide)
  exact ⟨by decide +kernel, hnone rfl, hagain rfl⟩

/-- One frame was captured and the first stop is refused; the second one, which could write, has
nothing left of it. -/
theorem second_stop_writes_nothing :
    let e : Engine (Journal MemoryStorage) :=
      { config := {}, triggers := {}, storage := { inner := {} } }
    let now : Moment := ⟨"0", "1970-01-01T00:00:00+00:00"⟩
    let recording := e.run [(now, .startRecording), (now, .poll { buttons := .ofButton .x }),
      (now, .edit fun j => { j with refusing := true })]
    let stopped := (recording.stopRecording now).2
    let allowed := stopped.run [(now, .edit fun j => { j with refusing := false })]
    recording.recorder.frameCount = 1 ∧
      (recording.stopRecording now).1 = .error Journal.refusal ∧
      stopped.recorder.captured = [] ∧
      (allowed.stopRecording now).1 = .ok none ∧
      (allowed.stopRecording now).2.storage.written = [] := by
  intro e now recording stopped allowed
  refine ⟨?_, rfl, rfl, rfl, ?_⟩
  · decide +kernel
  · decide +kernel

end Engine
end PadScript
