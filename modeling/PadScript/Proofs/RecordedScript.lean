import PadScript.Proofs.EngineInvariant
import PadScript.Proofs.RoundTrip

/-!
# Recordings load again as the live input

While it records, an engine hands out idle frames, and every poll without a stop edge adds the
live input to the recorder. What is written at the end loads to that input, frame by frame.
-/
namespace PadScript

theorem Store.expand_snoc (segments : List Segment) (s : Segment) :
    expand ⟨segments ++ [s]⟩ = expand ⟨segments⟩ ++ List.replicate s.frameCount s.input := by
  simp [expand]

namespace Recorder

variable {inputs : List Controller} {input : Controller} {count : Nat}

theorem Covers.expand_capture {captured : List Segment} (h : Covers count captured)
    (hroom : count < Frame.largest.toNat) (hinput : ∀ a, (input.axes.get a).isFinite) :
    ∃ frame, input.numEq frame ∧
      Store.expand ⟨(Recorder.capture captured input).reverse⟩ =
        Store.expand ⟨captured.reverse⟩ ++ [frame] := by
  cases captured with
  | nil => exact ⟨input, Controller.numEq_self hinput, rfl⟩
  | cons s earlier =>
    have hnext := h.toNat_next hroom
    have hlast := h.last
    have hpartition := h.partition
    rw [List.reverse_cons, Partition.from_snoc_iff] at hpartition
    obtain ⟨hearlier, hstart, hfilled⟩ := hpartition
    have hpositive : 1 ≤ s.first.toNat := hstart ▸ hearlier.le_frameAfter
    unfold Recorder.capture
    dsimp only
    split
    · next hsame =>
      -- the latest segment grows
      have hcount := Segment.frameCount_eq hpositive hfilled
      have hgrown : ({ s with last := s.last + 1 } : Segment).frameCount = s.frameCount + 1 := by
        have hlonger : s.first.toNat ≤ (s.last + 1).toNat := by omega
        rw [Segment.frameCount_eq (s := { s with last := s.last + 1 }) hpositive hlonger, hnext,
          hcount, hlast]
        show count + 1 + 1 - s.first.toNat = _
        omega
      refine ⟨s.input, by rwa [Controller.numEq_comm], ?_⟩
      rw [List.reverse_cons, List.reverse_cons, Store.expand_snoc, Store.expand_snoc, hgrown,
        List.replicate_succ', List.append_assoc]
    · -- a segment of its own begins
      refine ⟨input, Controller.numEq_self hinput, ?_⟩
      have hfirst : 1 ≤ (s.last + 1).toNat := by omega
      rw [List.reverse_cons, Store.expand_snoc, Segment.frameCount_eq hfirst le_rfl,
        Nat.add_sub_cancel_left]
      rfl

/-- The recorder is switched on and has captured the inputs, with the axes that hold no finite
number put to zero. -/
structure Holds (inputs : List Controller) (r : Recorder) : Prop where
  recording : r.recording
  covers : Covers inputs.length r.captured
  frames : List.Forall₂ (fun input frame => input.finite.numEq frame) inputs
    (Store.expand ⟨r.captured.reverse⟩)

theorem holds_start (r : Recorder) : r.start.Holds [] := ⟨rfl, covers_nil, .nil⟩

theorem Holds.record {r : Recorder} (h : r.Holds inputs)
    (hroom : inputs.length < Frame.largest.toNat) (input : Controller) :
    (r.record input).Holds (inputs ++ [input]) := by
  obtain ⟨frame, hequal, hexpand⟩ := h.covers.expand_capture hroom input.finite_axes
  have hrecord : r.record input = { r with captured := capture r.captured input.finite } :=
    if_pos h.recording
  rw [hrecord]
  refine ⟨h.recording, ?_, ?_⟩
  · rw [List.length_append]
    exact h.covers.capture hroom input.finite_axes
  · rw [hexpand]
    exact List.rel_append h.frames (.cons hequal .nil)

theorem Holds.recordAll {r : Recorder} (h : r.Holds inputs) {later : List Controller}
    (hroom : inputs.length + later.length < Frame.largest.toNat) :
    (later.foldl Recorder.record r).Holds (inputs ++ later) := by
  induction later generalizing r inputs with
  | nil =>
    rw [List.append_nil]
    exact h
  | cons input rest ih =>
    rw [List.length_cons] at hroom
    have hnext := h.record (by omega) input
    rw [List.foldl_cons, List.append_cons]
    refine ih hnext ?_
    rw [List.length_append, List.length_singleton]
    omega

/-- What has been recorded since a start, with room for more frames, is held in full. -/
theorem holds_recordAll (r : Recorder) (inputs : List Controller)
    (hroom : inputs.length < Frame.largest.toNat) :
    (inputs.foldl Recorder.record r.start).Holds inputs := by
  have hlength : ([] : List Controller).length + inputs.length < Frame.largest.toNat := by
    rwa [List.length_nil, Nat.zero_add]
  exact r.holds_start.recordAll hlength

end Recorder

namespace Script

theorem forall₂_numEq_trans {α : Type} {f : α → Controller} {xs : List α}
    {ys zs : List Controller} (h : List.Forall₂ (fun x y => (f x).numEq y) xs ys)
    (k : List.Forall₂ (fun y z => y.numEq z) ys zs) :
    List.Forall₂ (fun x z => (f x).numEq z) xs zs := by
  induction h generalizing zs with
  | nil =>
    cases k
    exact .nil
  | cons hxy _ ih =>
    cases k with
    | cons hyz hrest => exact .cons (Controller.numEq_trans hxy hyz) (ih hrest)

theorem load_recording {r : Recorder} {inputs : List Controller} (h : r.Holds inputs)
    (hroom : inputs.length < Frame.largest.toNat) {header : List String}
    (hheader : ∀ text ∈ header, '\n' ∉ text.toList) {settings : Settings} {library : Library}
    {name : String}
    (hname : library (if name = "" then settings.mainScript else name) =
      .ok (write r.stop.1.segments header)) :
    ∃ loaded, load settings library name = .ok loaded ∧ loaded.diagnostics = [] ∧
      List.Forall₂ (fun input frame => input.finite.numEq frame) inputs loaded.store.expand := by
  obtain ⟨loaded, hload, hreports, hsame, -⟩ :=
    load_write_header (writable_of_covers h.covers hroom) hheader hname
  exact ⟨loaded, hload, hreports, forall₂_numEq_trans h.frames (expand_samePlay hsame)⟩

end Script

/-- The two ways to switch a recording on or off: by a call, or by the live input of a poll. -/
inductive Switch
  | call
  | press (live : Controller)
  deriving DecidableEq, Repr

namespace Switch

variable {σ : Type}

def on : Switch → Operation σ
  | call => .startRecording
  | press live => .poll live

def off : Switch → Operation σ
  | call => .stopRecording
  | press live => .poll live

/-- A press switches an idle engine to recording if it is an edge of that trigger; the trigger of
playback goes first. -/
def Starts (e : Engine σ) : Switch → Prop
  | call => True
  | press live => live.buttons ≠ e.held ∧ live.buttons = e.triggers.startRecording ∧
      live.buttons ≠ e.triggers.startPlayback

def Stops (e : Engine σ) : Switch → Prop
  | call => True
  | press live => live.buttons ≠ e.held ∧ live.buttons = e.triggers.stopRecording

end Switch

namespace Engine

variable {σ : Type} [Storage σ] {e : Engine σ}

theorem run_reporting_of_idle (reports : List (Moment × FrameResults))
    (h : e.playback.phase = .idle) :
    e.run (reports.map fun (now, results) => (now, .submit results)) = e := by
  induction reports with
  | nil => rfl
  | cons report rest ih =>
    have hsubmit : e.submit report.1 report.2 = e := by simp [submit, Playback.isActive, h]
    rw [List.map_cons, run, List.foldl_cons]
    show run (e.submit report.1 report.2) _ = _
    rw [hsubmit, ih]

theorem poll_of_idle {now : Moment} {live : Controller} {toggled : Bool} {s : Engine σ}
    (hreact : e.react now live.buttons = (toggled, s)) (hidle : s.playback.phase = .idle) :
    e.poll now live = (.idle s.config.rate s.recorder.recording,
      if toggled then s else { s with recorder := s.recorder.record live }) := by
  have hnext : (s.finalizeIfComplete now).next =
      (.idle s.config.rate s.recorder.recording, s) := by
    simp [finalizeIfComplete, next, Playback.tick, hidle]
  rw [poll, hreact]
  dsimp only
  rw [hnext]

theorem react_of_recording (now : Moment) {buttons : Buttons} (hidle : e.playback.phase = .idle)
    (hrecording : e.recorder.recording)
    (hedge : ¬ (buttons ≠ e.held ∧ buttons = e.triggers.stopRecording)) :
    e.react now buttons = (false, { e with held := buttons }) := by
  unfold react
  by_cases hchanged : buttons = e.held
  · simp [hchanged]
  · have hne : buttons ≠ e.triggers.stopRecording := fun heq => hedge ⟨hchanged, heq⟩
    simp [hchanged, hne, hrecording, Playback.isActive, hidle]

theorem perform_on (now : Moment) {start : Switch} (hidle : e.playback.phase = .idle)
    (hquiet : e.recorder.recording = false) (hstart : start.Starts e) :
    ∃ held, (e.perform now start.on).2 = { e with held, recorder := e.recorder.start } := by
  cases start with
  | call =>
    refine ⟨e.held, ?_⟩
    simp [Switch.on, perform, startRecording, Playback.isActive, hidle, hquiet]
  | press live =>
    obtain ⟨hedge, htrigger, hfree⟩ := hstart
    refine ⟨live.buttons, ?_⟩
    have hreact : e.react now live.buttons =
        (true, { e with held := live.buttons, recorder := e.recorder.start }) := by
      unfold react
      simp [hedge, hfree, ← htrigger, startRecording, Playback.isActive, hidle, hquiet]
    show (e.poll now live).2 = _
    rw [poll_of_idle hreact hidle]
    rfl

theorem recording_poll (now : Moment) (live : Controller) (e : Engine σ) :
    (e.poll now live).2.recorder.recording =
      (e.react now live.buttons).2.recorder.recording := by
  have hnext : ((e.react now live.buttons).2.finalizeIfComplete now).next.2.recorder =
      (e.react now live.buttons).2.recorder := recorder_finalizeIfComplete now _
  unfold poll
  dsimp only
  split
  · rw [hnext]
  · rw [Recorder.recording_record, hnext]

theorem recording_react_of_idle (now : Moment) {live : Controller}
    (hidle : e.playback.phase = .idle) (hquiet : e.recorder.recording = false) :
    (e.react now live.buttons).2.recorder.recording ↔ (Switch.press live).Starts e := by
  unfold react
  by_cases hedge : live.buttons = e.held
  · simp [Switch.Starts, hedge, hquiet]
  by_cases hplay : live.buttons = e.triggers.startPlayback
  · simp [Switch.Starts, hedge, ← hplay, Playback.isActive, hidle, hquiet]
  by_cases hstart : live.buttons = e.triggers.startRecording
  · simp [Switch.Starts, hedge, hplay, ← hstart, Playback.isActive, hidle, hquiet, startRecording,
      Recorder.start]
  · simp [Switch.Starts, hedge, hplay, hstart, Playback.isActive, hidle, hquiet]

theorem starts_iff (now : Moment) (op : Operation σ) (hidle : e.playback.phase = .idle)
    (hquiet : e.recorder.recording = false) :
    (e.perform now op).2.recorder.recording ↔ ∃ start : Switch, op = start.on ∧ start.Starts e := by
  constructor
  · intro h
    cases op with
    | poll live =>
      have hreact := recording_poll now live e ▸ h
      exact ⟨.press live, rfl, (recording_react_of_idle now hidle hquiet).mp hreact⟩
    | startRecording => exact ⟨.call, rfl, trivial⟩
    | stopRecording => simp [perform, stopRecording, hquiet] at h
    | submit results => simp [perform, hquiet] at h
    | startPlayback => simp [perform, hquiet] at h
    | cancelPlayback => simp [perform, hquiet] at h
    | drift rate => simp [perform, hquiet] at h
    | edit change => simp [perform, hquiet] at h
  · rintro ⟨start, rfl, hstart⟩
    obtain ⟨held, hstarted⟩ := perform_on now hidle hquiet hstart
    rw [hstarted]
    rfl

def recordingText (now : Moment) (e : Engine σ) : String :=
  Script.write e.recorder.stop.1.segments (recordingHeader now e.recorder.stop.1)

def recordingName (now : Moment) (e : Engine σ) : String := now.unix ++ e.config.recordingExtension

theorem stopRecording_of_recording (now : Moment) (hrecording : e.recorder.recording) :
    e.stopRecording now =
      ((Storage.write e.storage (e.recordingName now) (e.recordingText now)).1.map fun _ =>
        some (e.recordingName now),
      { e with
        recorder := {}
        storage := (Storage.write e.storage (e.recordingName now) (e.recordingText now)).2 }) := by
  simp [stopRecording, hrecording, recordingName, recordingText, Recorder.stop]

/-- At `stop` the recorder is emptied and `text` is written; a call is answered with the name of the
file or with the failure to write it. -/
structure WritesAt (stop : Moment × Switch) (text : String) (e : Engine σ) : Prop where
  recorder : (e.perform stop.1 stop.2.off).2.recorder = {}
  storage : (e.perform stop.1 stop.2.off).2.storage =
    (Storage.write e.storage (e.recordingName stop.1) text).2
  answer : stop.2 = .call → (e.perform stop.1 stop.2.off).1 = .stopped
    ((Storage.write e.storage (e.recordingName stop.1) text).1.map fun _ =>
      some (e.recordingName stop.1))

theorem writesAt_of_recording {stop : Moment × Switch} (hidle : e.playback.phase = .idle)
    (hrecording : e.recorder.recording) (hstop : stop.2.Stops e) :
    e.WritesAt stop (e.recordingText stop.1) := by
  obtain ⟨now, stop⟩ := stop
  cases stop with
  | call =>
    have hstopped := stopRecording_of_recording now hrecording
    have hperform : e.perform now (Switch.call).off =
        (.stopped (e.stopRecording now).1, (e.stopRecording now).2) := rfl
    rw [hstopped] at hperform
    refine ⟨?_, ?_, fun _ => ?_⟩
    · rw [hperform]
    · rw [hperform]
    · rw [hperform]
  | press live =>
    obtain ⟨hedge, htrigger⟩ := hstop
    have hreact : e.react now live.buttons =
        (true, (({ e with held := live.buttons } : Engine σ).stopRecording now).2) := by
      unfold react
      simp [hedge, ← htrigger, Playback.isActive, hidle, hrecording]
    rw [stopRecording_of_recording (e := { e with held := live.buttons }) now hrecording] at hreact
    have hpoll : (e.perform now (Switch.press live).off).2 = (e.react now live.buttons).2 := by
      show (e.poll now live).2 = _
      rw [poll_of_idle hreact hidle, hreact]
      rfl
    rw [hreact] at hpoll
    refine ⟨?_, ?_, fun hcall => ?_⟩
    · rw [hpoll]
    · rw [hpoll]
      rfl
    · cases hcall

theorem recording_react_of_recording (now : Moment) {live : Controller}
    (hidle : e.playback.phase = .idle) (hrecording : e.recorder.recording) :
    (e.react now live.buttons).2.recorder.recording = false ↔ (Switch.press live).Stops e := by
  by_cases hedge : live.buttons ≠ e.held ∧ live.buttons = e.triggers.stopRecording
  · refine ⟨fun _ => hedge, fun _ => ?_⟩
    obtain ⟨hchanged, htrigger⟩ := hedge
    unfold react
    simp [hchanged, ← htrigger, Playback.isActive, hidle, hrecording, stopRecording, Recorder.stop]
  · rw [react_of_recording now hidle hrecording hedge]
    simp [Switch.Stops, hrecording, hedge]

theorem stops_iff (now : Moment) (op : Operation σ) (hidle : e.playback.phase = .idle)
    (hrecording : e.recorder.recording) :
    (e.perform now op).2.recorder.recording = false ↔
      ∃ stop : Switch, op = stop.off ∧ stop.Stops e := by
  constructor
  · intro h
    cases op with
    | poll live =>
      have hreact := recording_poll now live e ▸ h
      exact ⟨.press live, rfl, (recording_react_of_recording now hidle hrecording).mp hreact⟩
    | startRecording => simp [perform, startRecording, hrecording] at h
    | stopRecording => exact ⟨.call, rfl, trivial⟩
    | submit results => simp [perform, hrecording] at h
    | startPlayback => simp [perform, hrecording] at h
    | cancelPlayback => simp [perform, hrecording] at h
    | drift rate => simp [perform, hrecording] at h
    | edit change => simp [perform, hrecording] at h
  · rintro ⟨stop, rfl, hstop⟩
    have hwrites : e.WritesAt (now, stop) (e.recordingText now) :=
      writesAt_of_recording hidle hrecording hstop
    rw [hwrites.recorder]

theorem not_mem_framesText (count : Nat) : '\n' ∉ (toString count ++ " frames").toList := by
  rw [String.toList_append, List.mem_append, Nat.toString_eq_repr, Nat.toList_repr]
  rintro (hbreak | hbreak)
  · exact absurd (Text.isDigit_of_mem_decimal hbreak) (by decide)
  · exact absurd hbreak (by decide)

theorem not_mem_recordingHeader {now : Moment} (hdate : '\n' ∉ now.date.toList)
    (recorded : Store) : ∀ text ∈ recordingHeader now recorded, '\n' ∉ text.toList := by
  intro text htext
  rcases List.mem_pair.mp htext with rfl | rfl
  · rw [String.toList_append, List.mem_append]
    rintro (hbreak | hbreak)
    · exact absurd hbreak (by decide)
    · exact hdate hbreak
  · exact not_mem_framesText _

end Engine
end PadScript
