import PadScript.Proofs.RecordedScript
import PadScript.Storage.Journal

/-!
# The course of a run

A run begins with a load of the main script and has the engine to itself until one operation closes
it. The log that is saved then holds what was reported in between, and nothing else.
-/
namespace PadScript

/-- What the game reported, with the marker of the frame that it reported on. -/
abbrev Report := FrameResults × Option String

def Tracker.ofReports (reports : List Report) : Tracker :=
  reports.foldl (fun t (results, marker) => t.record results marker) {}

def ResultsLog.ofReports (reports : List Report) : ResultsLog :=
  (Tracker.ofReports reports).finish.1

namespace Store

variable {store : Store}

theorem markerAt_of_isFrame {k : Nat} {f : InputFrame} (h : f.IsFrame store k) :
    store.markerAt f.frame = f.marker := by
  obtain ⟨i, s, hindex, hs, -, -, hmarker⟩ := h.settings
  rw [markerAt, hindex, Option.bind_some, hs, Option.bind_some, hmarker]

theorem IsPartition.markerAt_eq_none (h : store.IsPartition) {f : Frame}
    (hf : f = 0 ∨ store.frameCount < f) : store.markerAt f = none := by
  rw [markerAt, h.indexAt?_eq_none_iff.mpr hf]
  rfl

end Store

theorem Playback.store_tick (p : Playback) (clock : FrameClock) :
    (p.tick clock).2.1.store = p.store := by
  unfold tick
  split
  · rfl
  · split
    · rfl
    · rfl

/-- What an operation reports to a run of `store`; a report on no frame does not count. -/
def Operation.reported {σ : Type} (store : Store) : Operation σ → List Report
  | .submit results =>
    if results.frame = 0 then [] else [(results, store.markerAt results.frame)]
  | _ => []

theorem Journal.attempts_write {σ : Type} [Storage σ] (j : Journal σ) (name contents : String) :
    ∃ succeeded, (Storage.write j name contents).2.attempts =
      j.attempts ++ [⟨name, contents, succeeded⟩] := by
  by_cases hrefusing : j.refusing
  · refine ⟨false, ?_⟩
    simp [Storage.write, hrefusing]
  · refine ⟨(Storage.write j.inner name contents).1.isOk, ?_⟩
    simp [Storage.write, hrefusing]

namespace Engine

variable {σ : Type}

def resultsName (now : Moment) (e : Engine σ) : String := now.unix ++ e.config.resultsExtension

/-- An operation that closes the run of an engine that plays: a cancel, by a call or by its trigger,
or, when the last frame has been handed out, a poll or a report on a frame. -/
def Ends (e : Engine σ) : Operation σ → Prop
  | .poll live => e.playback.phase = .completing ∨
      (live.buttons ≠ e.held ∧ live.buttons = e.triggers.cancelPlayback)
  | .submit results => e.playback.phase = .completing ∧ results.frame ≠ 0
  | .cancelPlayback => True
  | _ => False

instance (e : Engine σ) (op : Operation σ) : Decidable (e.Ends op) :=
  match op with
  | .poll _ => inferInstanceAs (Decidable (_ ∨ _))
  | .submit _ => inferInstanceAs (Decidable (_ ∧ _))
  | .cancelPlayback => isTrue trivial
  | .startPlayback => isFalse id
  | .startRecording => isFalse id
  | .stopRecording => isFalse id
  | .drift _ => isFalse id
  | .edit _ => isFalse id

/-- A run of the loaded script is going on, and this has been reported since it began. -/
structure Underway (loaded : Script.Loaded) (reports : List Report) (e : Engine σ) : Prop where
  active : e.playback.isActive
  store : e.playback.store = loaded.store
  saves : e.saveResults = loaded.saveResults
  tracker : e.tracker = .ofReports reports

variable {e : Engine σ} {loaded : Script.Loaded} {reports : List Report}

/-- Only what belongs to the run matters. -/
theorem Underway.congr (h : e.Underway loaded reports) {s : Engine σ}
    (hplayback : s.playback = e.playback) (hsave : s.saveResults = e.saveResults)
    (htracker : s.tracker = e.tracker) : s.Underway loaded reports := by
  obtain ⟨active, store, saves, tracker⟩ := h
  rw [← hplayback] at active store
  exact ⟨active, store, hsave.trans saves, htracker.trans tracker⟩

theorem Underway.record (h : e.Underway loaded reports) (results : FrameResults)
    (marker : Option String) : ({ e with tracker := e.tracker.record results marker } :
      Engine σ).Underway loaded (reports ++ [(results, marker)]) := by
  refine ⟨h.active, h.store, h.saves, ?_⟩
  rw [Tracker.ofReports, List.foldl_append, ← Tracker.ofReports, ← h.tracker]
  rfl

theorem Underway.unreported (h : e.Underway loaded reports) :
    e.Underway loaded (reports ++ []) := by
  rwa [List.append_nil]

theorem Underway.next (h : e.Underway loaded reports) : e.next.2.Underway loaded reports :=
  ⟨(e.playback.isActive_tick e.clock).trans h.active, (e.playback.store_tick e.clock).trans h.store,
    h.saves, h.tracker⟩

theorem running_of_not_ends {live : Controller} (hactive : e.playback.isActive)
    (hends : ¬ e.Ends (.poll live)) : e.playback.phase = .running := by
  have hidle : e.playback.phase ≠ .idle := Playback.isActive_iff.mp hactive
  have hcompleting : e.playback.phase ≠ .completing := fun h => hends (.inl h)
  cases hphase : e.playback.phase with
  | idle => exact absurd hphase hidle
  | running => rfl
  | completing => exact absurd hphase hcompleting

def begin (loaded : Script.Loaded) (e : Engine σ) : Engine σ :=
  { e with
    tracker := {}, saveResults := loaded.saveResults, diagnostics := loaded.diagnostics
    playback := .start loaded.store }

theorem underway_begin (loaded : Script.Loaded) (e : Engine σ) :
    (e.begin loaded).Underway loaded [] := by
  refine ⟨?_, ?_, rfl, rfl⟩
  · show (Playback.start loaded.store).isActive
    unfold Playback.start
    split
    · rfl
    · rfl
  · show (Playback.start loaded.store).store = loaded.store
    unfold Playback.start
    split
    · rfl
    · rfl

theorem startRecording_of_active (hactive : e.playback.isActive) :
    e.startRecording = (false, e) := by
  simp [startRecording, hactive]

variable [Storage σ] {op : Operation σ}

theorem startPlayback_of_active (now : Moment) (hactive : e.playback.isActive) :
    e.startPlayback now = (.ok .alreadyPlaying, e) := if_pos hactive

theorem startPlayback_of_recording (now : Moment) (hinactive : e.playback.isActive = false)
    (hrecording : e.recorder.recording) : e.startPlayback now = (.ok .recording, e) := by
  simp [startPlayback, hinactive, hrecording]

theorem stopRecording_of_quiet (now : Moment) (hquiet : e.recorder.recording = false) :
    e.stopRecording now = (.ok none, e) := by
  simp [stopRecording, hquiet]

theorem finalize_eq (now : Moment) (e : Engine σ) :
    e.finalize now = { e with
      playback := {}, tracker := {}, saveResults := false
      clock := e.clock.set e.config.rate
      storage := if e.saveResults then
          (Storage.write e.storage (e.resultsName now) e.tracker.finish.1.text).2
        else e.storage } := by
  unfold finalize saveLog
  split
  · rfl
  · rfl

theorem submit_of_ends (now : Moment) {results : FrameResults} (hactive : e.playback.isActive)
    (hends : e.Ends (.submit results)) :
    e.submit now results = ({ e with
      tracker := e.tracker.record results (e.playback.store.markerAt results.frame) } :
        Engine σ).finalize now := by
  obtain ⟨hphase, hframe⟩ := hends
  simp [submit, hactive, hframe, finalizeIfComplete, hphase]

theorem submit_of_not_ends (now : Moment) {results : FrameResults} (hactive : e.playback.isActive)
    (hends : ¬ e.Ends (.submit results)) :
    e.submit now results = if results.frame = 0 then e else { e with
      tracker := e.tracker.record results (e.playback.store.markerAt results.frame) } := by
  by_cases hframe : results.frame = 0
  · simp [submit, hframe]
  · have hphase : e.playback.phase ≠ .completing := fun h => hends ⟨h, hframe⟩
    simp [submit, hactive, hframe, finalizeIfComplete, hphase]

/-- Whether a cancel edge or its completion closes the run, the poll gets an idle frame. -/
theorem poll_of_ends (now : Moment) {live : Controller} (hactive : e.playback.isActive)
    (hquiet : e.recorder.recording = false) (hends : e.Ends (.poll live)) :
    e.poll now live = (.idle e.config.rate false,
      ({ e with held := live.buttons } : Engine σ).finalize now) := by
  have hclosed : (e.settle now live) = ({ e with held := live.buttons } : Engine σ).finalize now ∧
      (e.react now live.buttons).1 = false := by
    by_cases hedge : live.buttons ≠ e.held ∧ live.buttons = e.triggers.cancelPlayback
    · have hreact : e.react now live.buttons =
          (false, ({ e with held := live.buttons } : Engine σ).finalize now) := by
        obtain ⟨hchanged, htrigger⟩ := hedge
        unfold react
        simp [hchanged, ← htrigger, hactive]
      rw [settle, hreact]
      exact ⟨by simp [finalizeIfComplete], rfl⟩
    · have hphase : e.playback.phase = .completing := hends.resolve_right hedge
      rw [settle, react_of_active now hactive hedge]
      exact ⟨by simp [finalizeIfComplete, hphase], rfl⟩
  obtain ⟨hsettled, htoggled⟩ := hclosed
  have hpoll : e.poll now live =
      ((e.settle now live).next.1, if (e.react now live.buttons).1 then (e.settle now live).next.2
        else { (e.settle now live).next.2 with
          recorder := (e.settle now live).next.2.recorder.record live }) := rfl
  rw [hpoll, htoggled, hsettled, finalize_eq]
  simp [next, Playback.tick, hquiet, record_of_quiet hquiet]

/-- Closing a run leaves an engine as it is at rest, with its rate set and its log saved. -/
structure Closed (saves : Bool) (log : ResultsLog) (now : Moment) (e s : Engine σ) : Prop where
  playback : s.playback = {}
  tracker : s.tracker = {}
  saveResults : s.saveResults = false
  clock : s.clock = e.clock.set e.config.rate
  storage : s.storage =
    if saves then (Storage.write e.storage (e.resultsName now) log.text).2 else e.storage

theorem Closed.inactive {saves : Bool} {log : ResultsLog} {now : Moment} {s : Engine σ}
    (h : e.Closed saves log now s) : s.playback.isActive = false := by
  rw [h.playback]
  rfl

theorem Underway.closed_finalize (h : e.Underway loaded reports) (now : Moment) :
    e.Closed loaded.saveResults (.ofReports reports) now (e.finalize now) := by
  rw [finalize_eq, h.saves, h.tracker]
  exact ⟨rfl, rfl, rfl, rfl, rfl⟩

theorem Underway.closes (h : e.Underway loaded reports) (hsound : e.Sound) (now : Moment)
    (hends : e.Ends op) :
    e.Closed loaded.saveResults (.ofReports (reports ++ op.reported loaded.store)) now
      (e.perform now op).2 := by
  cases op with
  | poll live =>
    have hpoll := poll_of_ends now h.active (hsound.exclusive h.active) hends
    have hheld : ({ e with held := live.buttons } : Engine σ).Underway loaded (reports ++ []) :=
      h.unreported.congr rfl rfl rfl
    show Closed _ _ now e (e.poll now live).2
    rw [hpoll]
    obtain ⟨playback, tracker, saveResults, clock, storage⟩ := hheld.closed_finalize now
    exact ⟨playback, tracker, saveResults, clock, storage⟩
  | submit results =>
    have hsubmit := submit_of_ends now h.active hends
    rw [h.store] at hsubmit
    rw [Operation.reported, if_neg hends.2]
    show Closed _ _ now e (e.submit now results)
    rw [hsubmit]
    obtain ⟨playback, tracker, saveResults, clock, storage⟩ :=
      (h.record results (loaded.store.markerAt results.frame)).closed_finalize now
    exact ⟨playback, tracker, saveResults, clock, storage⟩
  | cancelPlayback =>
    have hcancel : e.cancelPlayback now = e.finalize now := if_pos h.active
    show Closed _ _ now e (e.cancelPlayback now)
    rw [hcancel]
    exact h.unreported.closed_finalize now
  | startPlayback => exact hends.elim
  | startRecording => exact hends.elim
  | stopRecording => exact hends.elim
  | drift rate => exact hends.elim
  | edit change => exact hends.elim

/-- An operation that does not close the run adds its report to it, and writes nothing. -/
theorem Underway.keeps (h : e.Underway loaded reports) (hsound : e.Sound) (now : Moment)
    (hends : ¬ e.Ends op) :
    (e.perform now op).2.Underway loaded (reports ++ op.reported loaded.store) ∧
      ((∀ change, op ≠ .edit change) → (e.perform now op).2.storage = e.storage) := by
  have hquiet := hsound.exclusive h.active
  cases op with
  | poll live =>
    have hrunning := running_of_not_ends h.active hends
    have hpoll := poll_of_running now hrunning hquiet fun hedge => hends (.inr hedge)
    have hheld : ({ e with held := live.buttons } : Engine σ).Underway loaded (reports ++ []) :=
      h.unreported.congr rfl rfl rfl
    show (e.poll now live).2.Underway _ _ ∧ (_ → (e.poll now live).2.storage = _)
    rw [hpoll]
    exact ⟨hheld.next, fun _ => rfl⟩
  | submit results =>
    have hsubmit := submit_of_not_ends now h.active hends
    rw [h.store] at hsubmit
    show (e.submit now results).Underway _ _ ∧ (_ → (e.submit now results).storage = _)
    rw [hsubmit, Operation.reported]
    split
    · exact ⟨h.unreported, fun _ => rfl⟩
    · exact ⟨h.record results _, fun _ => rfl⟩
  | startPlayback =>
    show (e.startPlayback now).2.Underway _ _ ∧ (_ → (e.startPlayback now).2.storage = _)
    rw [startPlayback_of_active now h.active]
    exact ⟨h.unreported, fun _ => rfl⟩
  | cancelPlayback => exact absurd trivial hends
  | startRecording =>
    show e.startRecording.2.Underway _ _ ∧ (_ → e.startRecording.2.storage = _)
    rw [startRecording_of_active h.active]
    exact ⟨h.unreported, fun _ => rfl⟩
  | stopRecording =>
    show (e.stopRecording now).2.Underway _ _ ∧ (_ → (e.stopRecording now).2.storage = _)
    rw [stopRecording_of_quiet now hquiet]
    exact ⟨h.unreported, fun _ => rfl⟩
  | drift rate =>
    exact ⟨h.unreported.congr rfl rfl rfl, fun _ => rfl⟩
  | edit change =>
    exact ⟨h.unreported.congr rfl rfl rfl, fun hedit => absurd rfl (hedit change)⟩

/-- The operation asks an engine at rest to play, by a call or by the trigger, and the main script
loads. -/
structure Opens (e : Engine σ) (op : Operation σ) (loaded : Script.Loaded) : Prop where
  idle : e.playback.phase = .idle
  quiet : e.recorder.recording = false
  asks : op = .startPlayback ∨ ∃ live, op = .poll live ∧ live.buttons ≠ e.held ∧
    live.buttons = e.triggers.startPlayback
  loads : Script.load e.config.loading e.library e.config.mainScript = .ok loaded

theorem startPlayback_of_empty (now : Moment) (hidle : e.playback.phase = .idle)
    (hquiet : e.recorder.recording = false)
    (hload : Script.load e.config.loading e.library e.config.mainScript = .ok loaded)
    (hempty : loaded.store.isEmpty) :
    e.startPlayback now = (.ok .noInputs, (e.begin loaded).finalize now) := by
  have hload' : Script.load e.config.loading
      (library { e with tracker := {}, saveResults := false }) e.config.mainScript =
        .ok loaded := hload
  have hstart : (Playback.start loaded.store).phase = .completing := by
    simp [Playback.start, hempty]
  simp [startPlayback, Playback.isActive, hidle, hquiet, hload', hstart, begin]

theorem startPlayback_of_error (now : Moment) {err : Script.LoadError}
    (hidle : e.playback.phase = .idle) (hquiet : e.recorder.recording = false)
    (hload : Script.load e.config.loading e.library e.config.mainScript = .error err) :
    e.startPlayback now = (.error err, { e with tracker := {}, saveResults := false }) := by
  have hload' : Script.load e.config.loading
      (library { e with tracker := {}, saveResults := false }) e.config.mainScript =
        .error err := hload
  simp [startPlayback, Playback.isActive, hidle, hquiet, hload']

theorem Opens.closes (h : e.Opens op loaded) (hempty : loaded.store.isEmpty) (now : Moment) :
    e.Closed loaded.saveResults (.ofReports []) now (e.perform now op).2 ∧
      (op = .startPlayback → (e.perform now op).1 = .started (.ok .noInputs)) := by
  obtain ⟨hidle, hquiet, hasks, hload⟩ := h
  have hclosed : ∀ s : Engine σ, s.config = e.config → s.clock = e.clock →
      s.storage = e.storage → e.Closed loaded.saveResults (.ofReports []) now
        ((s.begin loaded).finalize now) := by
    intro s hconfig hclock hstorage
    obtain ⟨playback, tracker, saveResults, clock, storage⟩ :=
      (underway_begin loaded s).closed_finalize now
    refine ⟨playback, tracker, saveResults, ?_, ?_⟩
    · rw [clock, ← hconfig, ← hclock]
      rfl
    · rw [storage, resultsName, resultsName, ← hconfig, ← hstorage]
      rfl
  rcases hasks with rfl | ⟨live, rfl, hedge, htrigger⟩
  · have hstart := startPlayback_of_empty now hidle hquiet hload hempty
    have hperform : e.perform now .startPlayback =
        (.started (e.startPlayback now).1, (e.startPlayback now).2) := rfl
    rw [hperform, hstart]
    exact ⟨hclosed e rfl rfl rfl, fun _ => rfl⟩
  · have hstart := startPlayback_of_empty (e := { e with held := live.buttons }) now hidle hquiet
      hload hempty
    have hreact : e.react now live.buttons =
        (false, (({ e with held := live.buttons } : Engine σ).begin loaded).finalize now) := by
      unfold react
      simp [hedge, Playback.isActive, hidle, hquiet, ← htrigger, hstart]
    have hpoll := poll_of_idle hreact rfl
    have hrecorder : ((({ e with held := live.buttons } : Engine σ).begin loaded).finalize
        now).recorder.recording = false := by
      rw [recorder_finalize]
      exact hquiet
    rw [if_neg Bool.false_ne_true, record_of_quiet hrecorder] at hpoll
    refine ⟨?_, fun hcall => ?_⟩
    · show e.Closed _ _ now (e.poll now live).2
      rw [hpoll]
      exact hclosed { e with held := live.buttons } rfl rfl rfl
    · cases hcall

theorem Sound.isFrame_poll (h : e.Sound) (now : Moment) {live : Controller}
    (hrunning : e.playback.phase = .running)
    (hedge : ¬ (live.buttons ≠ e.held ∧ live.buttons = e.triggers.cancelPlayback)) :
    ∃ k, (e.poll now live).1.IsFrame e.playback.store k := by
  have hactive : e.playback.isActive := by simp [Playback.isActive, hrunning]
  have hsound := h.active hactive
  obtain ⟨count, hcount, hat⟩ := hsound.exists_at hrunning
  have hplaying : e.Playing e.playback.store count := ⟨h.exclusive hactive, hat⟩
  exact ⟨count, (turn_playing (t := ⟨[], now, live⟩) hsound.partition hsound.below hplaying hcount
    hedge).1⟩

/-- The call that opens a run hands out nothing yet; the poll that opens one is its first poll. -/
theorem Opens.perform_eq (h : e.Opens op loaded) (hfull : loaded.store.isEmpty = false)
    (now : Moment) :
    e.perform now op = (.started (.ok .started), e.begin loaded) ∨
      ∃ live, op = .poll live ∧ live.buttons ≠ e.held ∧
        e.perform now op = (({ e with held := live.buttons } : Engine σ).begin loaded).perform
          now op ∧
        ¬ (({ e with held := live.buttons } : Engine σ).begin loaded).Ends op := by
  obtain ⟨hidle, hquiet, hasks, hload⟩ := h
  rcases hasks with rfl | ⟨live, rfl, hedge, htrigger⟩
  · have hstart := startPlayback_of_idle now hidle hquiet hload hfull
    have hperform : e.perform now .startPlayback =
        (.started (e.startPlayback now).1, (e.startPlayback now).2) := rfl
    rw [hperform, hstart]
    exact .inl rfl
  · have hpoll := poll_of_trigger now hidle hquiet hload hfull hedge htrigger
    have hbegun : ({ e with held := live.buttons } : Engine σ).startPlayback now =
        (.ok .started, ({ e with held := live.buttons } : Engine σ).begin loaded) :=
      startPlayback_of_idle now hidle hquiet hload hfull
    rw [hbegun] at hpoll
    refine .inr ⟨live, rfl, hedge, ?_, ?_⟩
    · simp only [perform, hpoll]
    · have hrunning : (Playback.start loaded.store).phase = .running := by
        simp [Playback.start, hfull]
      rintro (hcompleting | ⟨hedge, -⟩)
      · have hphase : (Playback.start loaded.store).phase = .completing := hcompleting
        rw [hrunning] at hphase
        cases hphase
      · exact hedge rfl

theorem Opens.keeps (h : e.Opens op loaded) (hsound : e.Sound)
    (hfull : loaded.store.isEmpty = false) (now : Moment) :
    (e.perform now op).2.Underway loaded [] ∧ (e.perform now op).2.storage = e.storage ∧
      (op = .startPlayback → (e.perform now op).1 = .started (.ok .started)) ∧
      ∀ f, (e.perform now op).1 = .frame f → ∃ k, f.IsFrame loaded.store k := by
  rcases h.perform_eq hfull now with hcall | ⟨live, rfl, -, hpoll, hends⟩
  · rw [hcall]
    refine ⟨underway_begin loaded e, rfl, fun _ => rfl, fun f hf => ?_⟩
    cases hf
  · have hheld : ({ e with held := live.buttons } : Engine σ).Sound := hsound.congr rfl rfl rfl rfl
    have hbegun : ({ e with held := live.buttons } : Engine σ).startPlayback now =
        (.ok .started, ({ e with held := live.buttons } : Engine σ).begin loaded) :=
      startPlayback_of_idle now h.idle h.quiet h.loads hfull
    have hbegin := hheld.startPlayback now
    rw [hbegun] at hbegin
    have hunderway := underway_begin loaded ({ e with held := live.buttons } : Engine σ)
    obtain ⟨hkept, hstorage⟩ := hunderway.keeps hbegin now hends
    have hrunning := running_of_not_ends hunderway.active hends
    obtain ⟨k, hframe⟩ := hbegin.isFrame_poll now hrunning fun hedge => hends (.inr hedge)
    rw [hunderway.store] at hframe
    rw [hpoll]
    refine ⟨hkept, ?_, fun hcall => ?_, fun f hf => ⟨k, ?_⟩⟩
    · exact hstorage fun change hedit => by cases hedit
    · cases hcall
    · cases hf
      exact hframe

end Engine
end PadScript
