import PadScript.Proofs.RunCourse

/-!
# One log for each run

Whatever is done with an engine, a run that has begun is closed once before another can begin. Its
log is written then, if the script asked for it, and holds what was reported in the course of the
run, each report with the marker of its frame. No other operation writes a log.
-/
namespace PadScript.Engine

variable {σ : Type} [Storage σ] {e : Engine σ} {loaded : Script.Loaded} {reports : List Report}
  {op : Operation σ}

theorem run_append (e : Engine σ) (first rest : List (Moment × Operation σ)) :
    e.run (first ++ rest) = (e.run first).run rest :=
  List.foldl_append

/-- The run is not closed by any of these operations, one after the other. -/
def GoesOn : Engine σ → List (Moment × Operation σ) → Prop
  | _, [] => True
  | e, (now, op) :: rest => ¬ e.Ends op ∧ GoesOn (e.perform now op).2 rest

instance decidableGoesOn : (e : Engine σ) → (history : List (Moment × Operation σ)) →
    Decidable (e.GoesOn history)
  | _, [] => isTrue trivial
  | e, (now, op) :: rest =>
    have := decidableGoesOn (e.perform now op).2 rest
    inferInstanceAs (Decidable (_ ∧ _))

theorem GoesOn.snoc {during : List (Moment × Operation σ)} (h : e.GoesOn during) {now : Moment}
    (hends : ¬ (e.run during).Ends op) : e.GoesOn (during ++ [(now, op)]) := by
  induction during generalizing e with
  | nil => exact ⟨hends, trivial⟩
  | cons first rest ih => exact ⟨h.1, ih h.2 hends⟩

def reported (store : Store) (history : List (Moment × Operation σ)) : List Report :=
  history.flatMap fun (_, op) => op.reported store

theorem Underway.run (h : e.Underway loaded reports) (hsound : e.Sound)
    {during : List (Moment × Operation σ)} (hgoes : e.GoesOn during) :
    (e.run during).Underway loaded (reports ++ reported loaded.store during) := by
  induction during generalizing e reports with
  | nil => exact h.unreported
  | cons first rest ih =>
    obtain ⟨hends, hrest⟩ := hgoes
    have hkept := (h.keeps hsound first.1 hends).1
    have hrun := ih hkept (hsound.perform first.1 first.2) hrest
    rw [List.append_assoc] at hrun
    exact hrun

theorem react_of_idle (now : Moment) {live : Controller} (hidle : e.playback.phase = .idle)
    (hopens : ∀ loaded, ¬ e.Opens (.poll live) loaded) :
    (e.react now live.buttons).2.playback = e.playback ∧
      ((e.react now live.buttons).2.storage = e.storage ∨
        e.recorder.recording ∧ (e.react now live.buttons).2.recorder.recording = false) := by
  by_cases hrecording : e.recorder.recording
  · by_cases hedge : live.buttons ≠ e.held ∧ live.buttons = e.triggers.stopRecording
    · have hstopped := (recording_react_of_recording now hidle hrecording).mpr hedge
      obtain ⟨hchanged, htrigger⟩ := hedge
      refine ⟨?_, .inr ⟨hrecording, hstopped⟩⟩
      unfold react
      simp [hchanged, ← htrigger, Playback.isActive, hidle, hrecording, stopRecording]
    · rw [react_of_recording now hidle hrecording hedge]
      exact ⟨rfl, .inl rfl⟩
  rw [Bool.not_eq_true] at hrecording
  by_cases hchanged : live.buttons = e.held
  · have hreact : e.react now live.buttons = (false, { e with held := live.buttons }) := by
      simp [react, hchanged]
    rw [hreact]
    exact ⟨rfl, .inl rfl⟩
  by_cases hplay : live.buttons = e.triggers.startPlayback
  · cases hload : Script.load e.config.loading e.library e.config.mainScript with
    | ok loaded =>
      exact absurd ⟨hidle, hrecording, .inr ⟨live, rfl, hchanged, hplay⟩, hload⟩ (hopens loaded)
    | error err =>
      have hstart := startPlayback_of_error (e := { e with held := live.buttons }) now hidle
        hrecording hload
      have hreact : e.react now live.buttons = (false,
          { e with held := live.buttons, tracker := {}, saveResults := false }) := by
        unfold react
        simp [hchanged, Playback.isActive, hidle, hrecording, ← hplay, hstart]
      rw [hreact]
      exact ⟨rfl, .inl rfl⟩
  by_cases hstart : live.buttons = e.triggers.startRecording
  · have hreact : e.react now live.buttons =
        (true, { e with held := live.buttons, recorder := e.recorder.start }) := by
      unfold react
      simp [hchanged, hplay, ← hstart, Playback.isActive, hidle, hrecording, startRecording]
    rw [hreact]
    exact ⟨rfl, .inl rfl⟩
  · have hreact : e.react now live.buttons = (false, { e with held := live.buttons }) := by
      unfold react
      simp [hchanged, hplay, hstart, Playback.isActive, hidle, hrecording]
    rw [hreact]
    exact ⟨rfl, .inl rfl⟩

theorem poll_of_rest (now : Moment) {live : Controller} (hidle : e.playback.phase = .idle)
    (hopens : ∀ loaded, ¬ e.Opens (.poll live) loaded) :
    (e.poll now live).2.playback.phase = .idle ∧
      ((e.poll now live).2.storage = e.storage ∨
        e.recorder.recording ∧ (e.poll now live).2.recorder.recording = false) := by
  obtain ⟨hplayback, hstorage⟩ := react_of_idle now hidle hopens
  have hrecorder := recording_poll now live e
  cases hreact : e.react now live.buttons with
  | mk toggled s =>
  rw [hreact] at hplayback hstorage hrecorder
  have hphase : s.playback.phase = .idle := (congrArg Playback.phase hplayback).trans hidle
  have hkept : (e.poll now live).2.playback = s.playback ∧
      (e.poll now live).2.storage = s.storage := by
    rw [poll_of_idle hreact hphase]
    dsimp only
    split
    · exact ⟨rfl, rfl⟩
    · exact ⟨rfl, rfl⟩
  rw [hkept.1, hkept.2, hrecorder]
  exact ⟨hphase, hstorage⟩

/-- An operation that opens no run leaves an engine at rest, and its storage alone, unless it stops
a recording. -/
theorem perform_of_idle (now : Moment) (hidle : e.playback.phase = .idle)
    (hopens : ∀ loaded, ¬ e.Opens op loaded) :
    (e.perform now op).2.playback.phase = .idle ∧
      ((∀ change, op ≠ .edit change) → (e.perform now op).2.storage = e.storage ∨
        e.recorder.recording ∧ (e.perform now op).2.recorder.recording = false) := by
  have hinactive := Playback.isActive_eq_false_iff.mpr hidle
  cases op with
  | poll live =>
    obtain ⟨hphase, hstorage⟩ := poll_of_rest now hidle hopens
    exact ⟨hphase, fun _ => hstorage⟩
  | submit results =>
    have hsubmit : e.submit now results = e := by simp [submit, hinactive]
    show (e.submit now results).playback.phase = .idle ∧
      (_ → (e.submit now results).storage = _ ∨ _)
    rw [hsubmit]
    exact ⟨hidle, fun _ => .inl rfl⟩
  | startPlayback =>
    show (e.startPlayback now).2.playback.phase = .idle ∧
      (_ → (e.startPlayback now).2.storage = _ ∨ _)
    by_cases hrecording : e.recorder.recording
    · rw [startPlayback_of_recording now hinactive hrecording]
      exact ⟨hidle, fun _ => .inl rfl⟩
    · rw [Bool.not_eq_true] at hrecording
      cases hload : Script.load e.config.loading e.library e.config.mainScript with
      | ok loaded => exact absurd ⟨hidle, hrecording, .inl rfl, hload⟩ (hopens loaded)
      | error err =>
        rw [startPlayback_of_error now hidle hrecording hload]
        exact ⟨hidle, fun _ => .inl rfl⟩
  | cancelPlayback =>
    have hcancel : e.cancelPlayback now = e := by simp [cancelPlayback, hinactive]
    show (e.cancelPlayback now).playback.phase = .idle ∧
      (_ → (e.cancelPlayback now).storage = _ ∨ _)
    rw [hcancel]
    exact ⟨hidle, fun _ => .inl rfl⟩
  | startRecording =>
    have hkept : e.startRecording.2.playback = e.playback ∧
        e.startRecording.2.storage = e.storage := by
      unfold startRecording
      split
      · exact ⟨rfl, rfl⟩
      · exact ⟨rfl, rfl⟩
    exact ⟨(congrArg Playback.phase hkept.1).trans hidle, fun _ => .inl hkept.2⟩
  | stopRecording =>
    by_cases hrecording : e.recorder.recording
    · show (e.stopRecording now).2.playback.phase = .idle ∧ (_ → _ ∨ _ ∧
        (e.stopRecording now).2.recorder.recording = false)
      rw [stopRecording_of_recording now hrecording]
      exact ⟨hidle, fun _ => .inr ⟨hrecording, rfl⟩⟩
    · rw [Bool.not_eq_true] at hrecording
      show (e.stopRecording now).2.playback.phase = .idle ∧
        (_ → (e.stopRecording now).2.storage = _ ∨ _)
      rw [stopRecording_of_quiet now hrecording]
      exact ⟨hidle, fun _ => .inl rfl⟩
  | drift rate => exact ⟨hidle, fun _ => .inl rfl⟩
  | edit change => exact ⟨hidle, fun hedit => absurd rfl (hedit change)⟩

section Journal

variable {e : Engine (Journal σ)} {op : Operation (Journal σ)}

/-- The operation closes a run: nothing of it is kept, the last call of the clock sets the
configured rate, and one attempt to write the log is made if the script asked for it. -/
structure Closes (loaded : Script.Loaded) (reports : List Report) (now : Moment)
    (op : Operation (Journal σ)) (e : Engine (Journal σ)) : Prop where
  playback : (e.perform now op).2.playback = {}
  forgotten : (e.perform now op).2.tracker = {} ∧ (e.perform now op).2.saveResults = false
  clock : (e.perform now op).2.clock = e.clock.set e.config.rate
  saved : loaded.saveResults → ∃ succeeded, (e.perform now op).2.storage.attempts =
    e.storage.attempts ++ [⟨e.resultsName now, (ResultsLog.ofReports reports).text, succeeded⟩]
  discarded : loaded.saveResults = false →
    (e.perform now op).2.storage.attempts = e.storage.attempts

/-- A run is going on after the operation, which writes nothing; a call to start is answered by
`outcome`, and a poll by a frame whose marker is the one that reports on it are given. -/
structure Keeps (loaded : Script.Loaded) (outcome : PlaybackStart) (now : Moment)
    (op : Operation (Journal σ)) (e : Engine (Journal σ)) : Prop where
  active : (e.perform now op).2.playback.isActive
  answer : op = .startPlayback → (e.perform now op).1 = .started (.ok outcome)
  attempts : (∀ change, op ≠ .edit change) →
    (e.perform now op).2.storage.attempts = e.storage.attempts
  frame : ∀ f, (e.perform now op).1 = .frame f →
    f.isActive ∧ loaded.store.markerAt f.frame = f.marker

/-- No run is going on before or after the operation, and it writes nothing but a recording that it
stops. -/
structure Rests (now : Moment) (op : Operation (Journal σ)) (e : Engine (Journal σ)) : Prop where
  phase : (e.perform now op).2.playback.phase = .idle
  answer : ∀ outcome, (e.perform now op).1 = .started (.ok outcome) → outcome = .recording
  stopped : e.recorder.recording → (e.perform now op).2.recorder.recording = false →
    ∃ succeeded, (e.perform now op).2.storage.attempts =
      e.storage.attempts ++ [⟨e.recordingName now, e.recordingText now, succeeded⟩]
  attempts : (∀ change, op ≠ .edit change) →
    (e.recorder.recording = false ∨ (e.perform now op).2.recorder.recording) →
    (e.perform now op).2.storage.attempts = e.storage.attempts

theorem Closed.closes {now : Moment}
    (h : e.Closed loaded.saveResults (.ofReports reports) now (e.perform now op).2) :
    e.Closes loaded reports now op := by
  refine ⟨h.playback, ⟨h.tracker, h.saveResults⟩, h.clock, fun hsaves => ?_, fun hdiscards => ?_⟩
  · have hstorage := h.storage
    rw [if_pos hsaves] at hstorage
    rw [hstorage]
    exact e.storage.attempts_write _ _
  · have hstorage := h.storage
    rw [hdiscards, if_neg Bool.false_ne_true] at hstorage
    rw [hstorage]

theorem Closes.attempts_eq {now : Moment} {name : String} {succeeded : Bool}
    (h : e.Closes loaded reports now op) (hsaves : loaded.saveResults)
    (hfirst : e.storage.attempts = []) (hname : e.resultsName now = name)
    (hanswer : (e.perform now op).2.storage.attempts.map Attempt.succeeded = [succeeded]) :
    (e.perform now op).2.storage.attempts =
      [⟨name, (ResultsLog.ofReports reports).text, succeeded⟩] := by
  obtain ⟨answer, hattempt⟩ := h.saved hsaves
  rw [hfirst, List.nil_append, hname] at hattempt
  rw [hattempt] at hanswer ⊢
  obtain rfl : answer = succeeded := (List.cons.inj hanswer).1
  rfl

theorem rests_of_idle (now : Moment) (hidle : e.playback.phase = .idle)
    (hopens : ∀ loaded, ¬ e.Opens op loaded) : e.Rests now op := by
  obtain ⟨hphase, hstorage⟩ := perform_of_idle now hidle hopens
  refine ⟨hphase, fun outcome hanswer => ?_, fun hrecording hstopped => ?_, fun hop hkept => ?_⟩
  · cases op with
    | startPlayback =>
      have hanswered : (e.startPlayback now).1 = .ok outcome := by
        injection hanswer
      by_cases hrecording : e.recorder.recording
      · have hinactive := Playback.isActive_eq_false_iff.mpr hidle
        rw [startPlayback_of_recording now hinactive hrecording] at hanswered
        exact (Except.ok.inj hanswered).symm
      · rw [Bool.not_eq_true] at hrecording
        cases hload : Script.load e.config.loading e.library e.config.mainScript with
        | ok loaded => exact absurd ⟨hidle, hrecording, .inl rfl, hload⟩ (hopens loaded)
        | error err =>
          rw [startPlayback_of_error now hidle hrecording hload] at hanswered
          cases hanswered
    | _ => cases hanswer
  · obtain ⟨stop, rfl, hstop⟩ := (stops_iff now op hidle hrecording).mp hstopped
    have hwrites : e.WritesAt (now, stop) (e.recordingText now) :=
      writesAt_of_recording hidle hrecording hstop
    rw [hwrites.storage]
    exact e.storage.attempts_write _ _
  · rcases hstorage hop with hsame | ⟨hrecording, hstopped⟩
    · rw [hsame]
    · rcases hkept with hquiet | hgoes
      · exact absurd (hrecording.symm.trans hquiet) (by decide)
      · exact absurd (hgoes.symm.trans hstopped) (by decide)

/-- From the operation that opens a run of `loaded`: a run without frames is closed at once. Of any
other, whatever comes next after some operations that have not closed it either closes it, with the
log of what was reported since the start, or leaves it going on and starts no other. The reports
are given the markers that the frames are handed out with, and none beyond them. -/
structure RunsOnce (loaded : Script.Loaded) (now : Moment) (op : Operation (Journal σ))
    (e : Engine (Journal σ)) : Prop where
  empty : loaded.store.isEmpty → e.Closes loaded [] now op ∧
    (op = .startPlayback → (e.perform now op).1 = .started (.ok .noInputs))
  opened : loaded.store.isEmpty = false → e.Keeps loaded .started now op
  closed : loaded.store.isEmpty = false → ∀ during, (e.perform now op).2.GoesOn during →
    ∀ later next, ((e.perform now op).2.run during).Ends next →
      ((e.perform now op).2.run during).Closes loaded
        (reported loaded.store (during ++ [(later, next)])) later next
  kept : loaded.store.isEmpty = false → ∀ during, (e.perform now op).2.GoesOn during →
    ∀ later next, ¬ ((e.perform now op).2.run during).Ends next →
      ((e.perform now op).2.run during).Keeps loaded .alreadyPlaying later next
  marker : ∀ k f, InputFrame.IsFrame loaded.store k f → loaded.store.markerAt f.frame = f.marker
  unmarked : ∀ f : Frame, f = 0 ∨ loaded.store.frameCount < f → loaded.store.markerAt f = none

theorem Underway.keepsRun (h : e.Underway loaded reports) (hsound : e.Sound) (now : Moment)
    (hends : ¬ e.Ends op) : e.Keeps loaded .alreadyPlaying now op := by
  obtain ⟨hunderway, hstorage⟩ := h.keeps hsound now hends
  refine ⟨hunderway.active, ?_, fun hop => by rw [hstorage hop], fun f hf => ?_⟩
  · rintro rfl
    show Reply.started (e.startPlayback now).1 = _
    rw [startPlayback_of_active now h.active]
  · cases op with
    | poll live =>
      have hpoll : (e.poll now live).1 = f := by injection hf
      have hrunning := running_of_not_ends h.active hends
      obtain ⟨k, hframe⟩ := hsound.isFrame_poll now hrunning fun hedge => hends (.inr hedge)
      rw [h.store, hpoll] at hframe
      exact ⟨hframe.active, Store.markerAt_of_isFrame hframe⟩
    | _ => cases hf

theorem Opens.runsOnce (h : e.Opens op loaded) (hsound : e.Sound) (now : Moment) :
    e.RunsOnce loaded now op := by
  have hpartition := Script.isPartition_load h.loads
  have hopened : ∀ during : List (Moment × Operation (Journal σ)),
      loaded.store.isEmpty = false → (e.perform now op).2.GoesOn during →
      ((e.perform now op).2.run during).Underway loaded (reported loaded.store during) ∧
        ((e.perform now op).2.run during).Sound := by
    intro during hfull hgoes
    have hperformed := hsound.perform now op
    exact ⟨(h.keeps hsound hfull now).1.run hperformed hgoes, hperformed.run during⟩
  refine ⟨fun hempty => ?_, fun hfull => ?_, fun hfull during hgoes later next hends => ?_,
    fun hfull during hgoes later next hends => ?_, fun k f => Store.markerAt_of_isFrame,
    fun f => hpartition.markerAt_eq_none⟩
  · obtain ⟨hclosed, hanswer⟩ := h.closes hempty now
    exact ⟨hclosed.closes, hanswer⟩
  · obtain ⟨hunderway, hstorage, hanswer, hframe⟩ := h.keeps hsound hfull now
    refine ⟨hunderway.active, hanswer, fun _ => by rw [hstorage], fun f hf => ?_⟩
    obtain ⟨k, hk⟩ := hframe f hf
    exact ⟨hk.active, Store.markerAt_of_isFrame hk⟩
  · obtain ⟨hunderway, hrun⟩ := hopened during hfull hgoes
    have hclosed := hunderway.closes hrun later hends
    rw [reported, List.flatMap_append, List.flatMap_singleton]
    exact hclosed.closes
  · obtain ⟨hunderway, hrun⟩ := hopened during hfull hgoes
    exact hunderway.keepsRun hrun later hends

/-- An engine that plays is in the course of a run that an earlier operation has opened. -/
theorem exists_opens (hsound : e.Sound) (hidle : e.playback.phase = .idle)
    (history : List (Moment × Operation (Journal σ)))
    (hactive : (e.run history).playback.isActive) :
    ∃ before now op during loaded, history = before ++ (now, op) :: during ∧
      (e.run before).Opens op loaded ∧ loaded.store.isEmpty = false ∧
      ((e.run before).perform now op).2.GoesOn during := by
  induction history using List.reverseRecOn with
  | nil => exact absurd hidle (Playback.isActive_iff.mp hactive)
  | append_singleton history last ih =>
    obtain ⟨now, op⟩ := last
    rw [run_append] at hactive
    have hrun := hsound.run history
    have hcontinued : ∀ before start op' during,
        history = before ++ (start, op') :: during →
        e.run history = ((e.run before).perform start op').2.run during := by
      rintro before start op' during rfl
      exact run_append e before _
    by_cases hplays : (e.run history).playback.isActive
    · -- the run that was going on has not been closed
      obtain ⟨before, start, op', during, loaded, hhistory, hopens, hfull, hgoes⟩ := ih hplays
      refine ⟨before, start, op', during ++ [(now, op)], loaded, ?_, hopens, hfull, ?_⟩
      · rw [hhistory, List.append_assoc, List.cons_append]
      · refine hgoes.snoc fun hends => ?_
        rw [← hcontinued before start op' during hhistory] at hends
        have hopened := (hopens.keeps (hsound.run before) hfull start).1
        have hunderway := hopened.run ((hsound.run before).perform start op') hgoes
        rw [← hcontinued before start op' during hhistory] at hunderway
        have hclosed := hunderway.closes hrun now hends
        exact absurd (hactive.symm.trans hclosed.inactive) (by decide)
    · have hrest : (e.run history).playback.phase = .idle := by
        by_contra hphase
        exact hplays (Playback.isActive_iff.mpr hphase)
      by_cases hopens : ∃ loaded, (e.run history).Opens op loaded
      · obtain ⟨loaded, hopens⟩ := hopens
        refine ⟨history, now, op, [], loaded, rfl, hopens, ?_, trivial⟩
        by_contra hempty
        rw [Bool.not_eq_false] at hempty
        have hclosed := (hopens.closes hempty now).1
        exact absurd (hactive.symm.trans hclosed.inactive) (by decide)
      · have hphase := (perform_of_idle now hrest fun loaded h => hopens ⟨loaded, h⟩).1
        exact absurd hphase (Playback.isActive_iff.mp hactive)

end Journal

/-- Whatever is done with an engine, each run is closed once before another can begin, and its log
is then written if the script asked for it. An operation that finds the engine at rest opens a run
or writes nothing but a recording; an engine that plays is in the course of a run that an earlier
operation opened. The writes are those that a journal of any storage shows. -/
theorem each_run_closes_once (storage : Journal σ) (config : Config) (triggers : Triggers)
    (clock : FrameClock) (history : List (Moment × Operation (Journal σ))) :
    let fresh : Engine (Journal σ) := { config, triggers, storage, clock }
    let e := fresh.run history
    (∀ now op loaded, e.Opens op loaded → e.RunsOnce loaded now op) ∧
    (∀ now op, e.playback.phase = .idle → (∀ loaded, ¬ e.Opens op loaded) → e.Rests now op) ∧
    (e.playback.isActive → ∃ before now op during loaded,
      history = before ++ (now, op) :: during ∧ (fresh.run before).Opens op loaded ∧
      loaded.store.isEmpty = false ∧ ((fresh.run before).perform now op).2.GoesOn during) := by
  intro fresh e
  have hfresh : fresh.Sound := sound_of_new storage config triggers clock
  have hsound : e.Sound := hfresh.run history
  refine ⟨fun now op loaded hopens => ?_, fun now op hidle hopens => ?_, fun hactive => ?_⟩
  · exact hopens.runsOnce hsound now
  · exact rests_of_idle now hidle hopens
  · exact exists_opens hfresh rfl history hactive

/-- The game reports on a frame that has been handed out and on one that has not, and the run is
cancelled before its second frame. One log is written, without the cell that was reported before
the run. -/
theorem each_run_closes_once_of_cancelled :
    let scripts : Texts := [("main", "save-results=true\n2,X\nmarker=end\n1")]
    let fresh : Engine (Journal MemoryStorage) :=
      { config := {}, triggers := {}, storage := { inner := ⟨scripts, []⟩ } }
    let now : Moment := ⟨"7", ""⟩
    let counters : Counters := { fuelCells := .ofBits 0x3F800000 }
    let cell : FrameResults := { frame := 2, snapshot := { counters } }
    let e := fresh.run [(now, .submit cell)]
    let during : List (Moment × Operation (Journal MemoryStorage)) :=
      [(now, .poll {}), (now, .submit { frame := 3 }), (now, .submit { frame := 0 }),
        (now, .submit { frame := 1 })]
    let playing := (e.perform now .startPlayback).2.run during
    let reports : List Report := [({ frame := 3 }, some "end"), ({ frame := 1 }, none)]
    ∃ loaded, e.Opens .startPlayback loaded ∧ loaded.saveResults ∧
      (e.perform now .startPlayback).2.GoesOn during ∧
      playing.Closes loaded reports now .cancelPlayback ∧
      (playing.perform now .cancelPlayback).2.storage.attempts =
        [⟨"7.automated.results.json", (ResultsLog.ofReports reports).text, true⟩] := by
  intro scripts fresh now counters cell e during playing reports
  have hview : (Script.load e.config.loading e.library e.config.mainScript).toOption.map
      (fun loaded => (loaded.saveResults, loaded.store.isEmpty,
        reported loaded.store (during ++ [(now, .cancelPlayback)]))) =
          some (true, false, reports) := by
    decide +kernel
  obtain ⟨loaded, hload, hloaded⟩ := Script.load_of_view hview
  obtain ⟨hsaves, hcourse⟩ := Prod.mk.inj hloaded
  obtain ⟨hfull, hreports⟩ := Prod.mk.inj hcourse
  have hopens : e.Opens .startPlayback loaded := ⟨rfl, rfl, .inl rfl, hload⟩
  have hgoes : (e.perform now .startPlayback).2.GoesOn during := by decide +kernel
  have hruns := (each_run_closes_once fresh.storage {} {} {} [(now, .submit cell)]).1 now
    .startPlayback loaded hopens
  have hclosed : playing.Closes loaded (reported loaded.store (during ++ [(now, .cancelPlayback)]))
      now .cancelPlayback :=
    hruns.closed hfull during hgoes now .cancelPlayback trivial
  rw [hreports] at hclosed
  have hfirst : playing.storage.attempts = [] := by decide +kernel
  have hname : playing.resultsName now = "7.automated.results.json" := by decide +kernel
  have hanswer : (playing.perform now .cancelPlayback).2.storage.attempts.map Attempt.succeeded =
      [true] := by
    decide +kernel
  exact ⟨loaded, hopens, hsaves, hgoes, hclosed, hclosed.attempts_eq hsaves hfirst hname hanswer⟩

end PadScript.Engine
