import PadScript.Proofs.RunLog
import PadScript.Storage.Memory

/-!
# The report that closes a run

When the last frame has been handed out, the first report on any frame closes the run, and is in
its log; what the game reports after that is not. So the log has a sample of the last frame if no
late report on an earlier one comes before.
-/
namespace PadScript

theorem Tracker.exists_sample_record (t : Tracker) (results : FrameResults)
    (marker : Option String) :
    ∃ sample ∈ (t.record results marker).samples, sample.frame = results.frame := by
  have hlatest : (t.record results marker).latest = some (.of results marker) := rfl
  unfold samples
  rw [hlatest]
  dsimp only
  by_cases hpresent : (t.record results marker).stored.head?.any
      fun s => s.frame = (Sample.of results marker).frame
  · rw [if_pos hpresent]
    obtain ⟨sample, hhead, hframe⟩ := Option.any_eq_true _ _ |>.mp hpresent
    exact ⟨sample, List.mem_reverse.mpr (List.mem_of_head? hhead), of_decide_eq_true hframe⟩
  · rw [if_neg hpresent]
    exact ⟨.of results marker, List.mem_reverse.mpr List.mem_cons_self, rfl⟩

theorem ResultsLog.exists_sample_ofReports (reports : List Report) (results : FrameResults)
    (marker : Option String) :
    ∃ sample ∈ (ResultsLog.ofReports (reports ++ [(results, marker)])).samples,
      sample.frame = results.frame := by
  have hrecord : Tracker.ofReports (reports ++ [(results, marker)]) =
      (Tracker.ofReports reports).record results marker := by
    rw [Tracker.ofReports, List.foldl_append]
    rfl
  show ∃ sample ∈ (Tracker.ofReports (reports ++ [(results, marker)])).samples, _
  rw [hrecord]
  exact Tracker.exists_sample_record _ results marker

namespace Engine

variable {σ : Type} [Storage σ] {e : Engine σ}

def Reachable (e : Engine σ) : Prop :=
  ∃ storage config triggers clock history,
    e = ({ config, triggers, storage, clock } : Engine σ).run history

theorem Reachable.sound (h : e.Reachable) : e.Sound := by
  obtain ⟨storage, config, triggers, clock, history, rfl⟩ := h
  exact (sound_of_new storage config triggers clock).run history

def submitting (window : List (Moment × FrameResults)) : List (Moment × Operation σ) :=
  window.map fun (now, results) => (now, .submit results)

/-- The first report on a frame; a report on no frame says nothing. -/
def firstReport? (window : List (Moment × FrameResults)) : Option (Moment × FrameResults) :=
  window.find? fun report => report.2.frame ≠ 0

/-- Of the reports in a window, those on no frame do nothing, and those after the run is closed are
dropped. -/
theorem run_submitting {window : List (Moment × FrameResults)}
    (hphase : e.playback.phase = .completing) :
    e.run (submitting window) =
      ((firstReport? window).map fun (now, results) => e.submit now results).getD e := by
  have hactive : e.playback.isActive := by simp [Playback.isActive, hphase]
  induction window with
  | nil => rfl
  | cons report rest ih =>
    obtain ⟨now, results⟩ := report
    show (e.submit now results).run (submitting rest) = _
    by_cases hframe : results.frame = 0
    · have hsubmit : e.submit now results = e := by simp [submit, hframe]
      have hfirst : firstReport? ((now, results) :: rest) = firstReport? rest := by
        simp [firstReport?, hframe]
      rw [hsubmit, hfirst]
      exact ih
    · have hfirst : firstReport? ((now, results) :: rest) = some (now, results) := by
        simp [firstReport?, hframe]
      have hidle : (e.submit now results).playback.phase = .idle := by
        rw [submit_of_ends now hactive ⟨hphase, hframe⟩]
        rfl
      rw [hfirst]
      exact run_reporting_of_idle rest hidle

/-- A run whose script asks for a log has been played to its last frame, by any operations that did
not close it. If the game reports on a frame before the next poll, the first such report, late or
not, closes the run and is in the log, which then has a sample of its frame; the reports after it
change nothing. If it does not, the next poll closes the run. -/
theorem first_report_closes_run (e : Engine (Journal σ)) (hreachable : e.Reachable) (now : Moment)
    (op : Operation (Journal σ)) (loaded : Script.Loaded) (hopens : e.Opens op loaded)
    (hfull : loaded.store.isEmpty = false) (hsaves : loaded.saveResults)
    (during : List (Moment × Operation (Journal σ)))
    (hgoes : (e.perform now op).2.GoesOn during)
    (hlast : ((e.perform now op).2.run during).playback.phase = .completing)
    (window : List (Moment × FrameResults)) :
    let s := (e.perform now op).2.run during
    let reports := reported loaded.store during
    (∀ moment results, firstReport? window = some (moment, results) →
      let log := ResultsLog.ofReports (reports ++ [(results, loaded.store.markerAt results.frame)])
      (s.run (submitting window)).playback.phase = .idle ∧
      (∃ succeeded, (s.run (submitting window)).storage.attempts =
        s.storage.attempts ++ [⟨s.resultsName moment, log.text, succeeded⟩]) ∧
      ∃ sample ∈ log.samples, sample.frame = results.frame) ∧
    (firstReport? window = none → s.run (submitting window) = s ∧
      ∀ later live, s.Closes loaded reports later (.poll live)) := by
  intro s reports
  have hsound := hreachable.sound
  have hperformed := hsound.perform now op
  have hrun : s.Sound := hperformed.run during
  have hunderway : s.Underway loaded reports :=
    (hopens.keeps hsound hfull now).1.run hperformed hgoes
  refine ⟨fun moment results hfirst => ?_, fun hnone => ⟨?_, fun later live => ?_⟩⟩
  · have hframe : results.frame ≠ 0 := by
      have := List.find?_some hfirst
      exact of_decide_eq_true this
    have hends : s.Ends (.submit results) := ⟨hlast, hframe⟩
    have hclosed : s.Closes loaded _ moment (.submit results) :=
      (hunderway.closes hrun moment hends).closes
    have hsubmit : s.run (submitting window) = s.submit moment results := by
      rw [run_submitting hlast, hfirst]
      rfl
    have hreported : Operation.reported loaded.store (.submit results : Operation (Journal σ)) =
        [(results, loaded.store.markerAt results.frame)] := if_neg hframe
    rw [hreported] at hclosed
    rw [hsubmit]
    refine ⟨congrArg Playback.phase hclosed.playback, hclosed.saved hsaves, ?_⟩
    exact ResultsLog.exists_sample_ofReports reports results _
  · rw [run_submitting hlast, hnone]
    rfl
  · have hends : s.Ends (.poll live) := .inl hlast
    have hclosed := hunderway.closes hrun later hends
    have hreported : reports ++ Operation.reported loaded.store
        (.poll live : Operation (Journal σ)) = reports := List.append_nil _
    rw [hreported] at hclosed
    exact hclosed.closes

/-- The last of two frames is reported after a report on no frame, and has its sample; a repeated
report on the first frame comes too late. -/
theorem first_report_closes_run_of_last :
    let scripts : Texts := [("main", "save-results=true\n2,X")]
    let e : Engine (Journal MemoryStorage) :=
      { config := {}, triggers := {}, storage := { inner := ⟨scripts, []⟩ } }
    let now : Moment := ⟨"7", ""⟩
    let during : List (Moment × Operation (Journal MemoryStorage)) :=
      [(now, .poll {}), (now, .submit { frame := 1 }), (now, .poll {})]
    let window : List (Moment × FrameResults) :=
      [(now, { frame := 0 }), (now, { frame := 2 }), (now, { frame := 1 })]
    let s := (e.perform now .startPlayback).2.run during
    let log := ResultsLog.ofReports [({ frame := 1 }, none), ({ frame := 2 }, none)]
    s.playback.phase = .completing ∧ (s.run (submitting window)).playback.phase = .idle ∧
      (∃ succeeded, (s.run (submitting window)).storage.attempts =
        [⟨"7.automated.results.json", log.text, succeeded⟩]) ∧
      ∃ sample ∈ log.samples, sample.frame = 2 := by
  intro scripts e now during window s log
  have hview : (Script.load e.config.loading e.library e.config.mainScript).toOption.map
      (fun loaded => ((loaded.store.isEmpty, loaded.saveResults),
        reported loaded.store during ++ [({ frame := 2 }, loaded.store.markerAt 2)])) =
          some ((false, true), [({ frame := 1 }, none), ({ frame := 2 }, none)]) := by
    decide +kernel
  obtain ⟨loaded, hload, hloaded⟩ := Script.load_of_view hview
  obtain ⟨hscript, hreports⟩ := Prod.mk.inj hloaded
  obtain ⟨hfull, hsaves⟩ := Prod.mk.inj hscript
  have hs : s = (e.perform now .startPlayback).2.run during := rfl
  have hlast : s.playback.phase = .completing := by decide +kernel
  have hattempts : s.storage.attempts = [] := by decide +kernel
  have hname : s.resultsName now = "7.automated.results.json" := by decide +kernel
  have hgoes : (e.perform now .startPlayback).2.GoesOn during := by decide +kernel
  have hfirst : firstReport? window = some (now, { frame := 2 }) := by decide +kernel
  have hopens : e.Opens .startPlayback loaded := ⟨rfl, rfl, .inl rfl, hload⟩
  have hreachable : e.Reachable := ⟨e.storage, {}, {}, {}, [], rfl⟩
  rw [hs] at hlast hattempts hname ⊢
  have hcloses := (first_report_closes_run e hreachable now .startPlayback loaded hopens hfull
    hsaves during hgoes hlast window).1 now { frame := 2 } hfirst
  dsimp only at hcloses
  rw [hreports, hattempts, hname] at hcloses
  exact ⟨hlast, hcloses⟩

/-- Both frames have been handed out, and the game reports on the first of them before it reports
on the second. The late report closes the run, so that the log has no sample of the last frame,
although that was reported before the next poll. -/
theorem last_frame_missing_after_late_report :
    let scripts : Texts := [("main", "save-results=true\n2,X")]
    let e : Engine (Journal MemoryStorage) :=
      { config := {}, triggers := {}, storage := { inner := ⟨scripts, []⟩ } }
    let now : Moment := ⟨"7", ""⟩
    let played := e.run [(now, .startPlayback), (now, .poll {}), (now, .poll {})]
    let late := played.submit now { frame := 1 }
    let reported := late.submit now { frame := 2 }
    let log := ResultsLog.ofReports [({ frame := 1 }, none)]
    played.playback.phase = .completing ∧ played.playback.store.frameCount = 2 ∧
      late.playback.phase = .idle ∧
      (reported.poll now {}).2.storage.attempts = [⟨"7.automated.results.json", log.text, true⟩] ∧
      ∀ sample ∈ log.samples, sample.frame ≠ 2 := by
  decide +kernel

end Engine
end PadScript
