import PadScript.Proofs.FinalReport
import PadScript.Storage.Memory

/-!
# A start that does not start

An engine is asked to play and does not: something is going on, or the main script cannot be loaded.
Before a load, what an earlier run may have left is cleared away. An engine that came about by use
has nothing of the kind, so that such a call leaves it as it is.
-/
namespace PadScript

namespace Engine

variable {σ : Type} {e : Engine σ}

theorem Sound.cleared (h : e.Sound) (hinactive : e.playback.isActive = false) :
    ({ e with tracker := {}, saveResults := false } : Engine σ) = e := by
  obtain ⟨-, htracker, hsave⟩ := h.idle hinactive
  rw [← htracker, ← hsave]

variable [Storage σ]

theorem reachable_new (storage : σ) (config : Config) (triggers : Triggers) (clock : FrameClock) :
    ({ config, triggers, storage, clock } : Engine σ).Reachable :=
  ⟨storage, config, triggers, clock, [], rfl⟩

theorem Reachable.run (h : e.Reachable) (history : List (Moment × Operation σ)) :
    (e.run history).Reachable := by
  obtain ⟨storage, config, triggers, clock, earlier, rfl⟩ := h
  exact ⟨storage, config, triggers, clock, earlier ++ history, (run_append _ earlier history).symm⟩

/-- The engine is at rest, and its main script is read with this outcome. -/
structure Reads (e : Engine σ) (outcome : Except Script.LoadError Script.Loaded) : Prop where
  idle : e.playback.phase = .idle
  quiet : e.recorder.recording = false
  load : Script.load e.config.loading e.library e.config.mainScript = outcome

theorem Reads.inactive {result : Except Script.LoadError Script.Loaded} (h : e.Reads result) :
    e.playback.isActive = false :=
  Playback.isActive_eq_false_iff.mpr h.idle

theorem Reads.iff_eq {result other : Except Script.LoadError Script.Loaded} (h : e.Reads result) :
    e.Reads other ↔ result = other :=
  ⟨fun hother => h.load.symm.trans hother.load, fun heq => heq ▸ h⟩

/-- What a call to play does: it is refused while something is going on, fails with the load, or
begins a run, which is over at once if it has no frames. -/
theorem Sound.startPlayback_cases (h : e.Sound) (now : Moment) :
    (e.playback.isActive ∧ e.startPlayback now = (.ok .alreadyPlaying, e)) ∨
    (e.recorder.recording ∧ e.startPlayback now = (.ok .recording, e)) ∨
    (∃ err, e.Reads (.error err) ∧ e.startPlayback now = (.error err, e)) ∨
    (∃ loaded, e.Reads (.ok loaded) ∧ e.startPlayback now =
      if loaded.store.isEmpty then (.ok .noInputs, (e.begin loaded).finalize now)
      else (.ok .started, e.begin loaded)) := by
  cases hactive : e.playback.isActive with
  | true => exact .inl ⟨rfl, startPlayback_of_active now hactive⟩
  | false =>
    have hidle := Playback.isActive_eq_false_iff.mp hactive
    cases hrecording : e.recorder.recording with
    | true => exact .inr (.inl ⟨rfl, startPlayback_of_recording now hactive hrecording⟩)
    | false =>
      cases hload : Script.load e.config.loading e.library e.config.mainScript with
      | error err =>
        refine .inr (.inr (.inl ⟨err, ⟨hidle, hrecording, hload⟩, ?_⟩))
        rw [startPlayback_of_error now hidle hrecording hload, h.cleared hactive]
      | ok loaded =>
        refine .inr (.inr (.inr ⟨loaded, ⟨hidle, hrecording, hload⟩, ?_⟩))
        cases hempty : loaded.store.isEmpty with
        | true => exact startPlayback_of_empty now hidle hrecording hload hempty
        | false => exact startPlayback_of_idle now hidle hrecording hload hempty

/-- Whatever has been done with an engine, and whatever storage and clock it has come by: a call to
play is refused exactly while a run or a recording goes on, and fails exactly if the main script of
an engine at rest does, with the same error. Unless it begins a run, the call leaves the engine, its
storage and its clock as they were. -/
theorem failed_start_changes_nothing (e : Engine σ) (hreachable : e.Reachable) (storage : σ)
    (clock : FrameClock) (now : Moment) :
    let asked : Engine σ := { e with storage, clock }
    let outcome := (asked.startPlayback now).1
    (outcome = .ok .alreadyPlaying ↔ e.playback.isActive) ∧
    (outcome = .ok .recording ↔ e.recorder.recording) ∧
    (∀ err, outcome = .error err ↔ asked.Reads (.error err)) ∧
    (outcome ≠ .ok .started → outcome ≠ .ok .noInputs → (asked.startPlayback now).2 = asked) := by
  intro asked outcome
  have hsound : asked.Sound := hreachable.sound.congr rfl rfl rfl rfl
  have hplays : asked.playback.isActive = e.playback.isActive := rfl
  have hrecords : asked.recorder.recording = e.recorder.recording := rfl
  rw [← hplays, ← hrecords]
  rcases hsound.startPlayback_cases now with ⟨hactive, hstart⟩ | ⟨hrecording, hstart⟩ |
    ⟨err, hreads, hstart⟩ | ⟨loaded, hreads, hstart⟩
  · have hbusy : ∀ result, ¬ asked.Reads result := fun _ h => Playback.isActive_iff.mp hactive h.idle
    simp [outcome, hstart, hactive, hsound.exclusive hactive, hbusy]
  · have hinactive := hsound.inactive_of_recording hrecording
    have hbusy : ∀ result, ¬ asked.Reads result := fun _ h =>
      absurd (hrecording.symm.trans h.quiet) (by decide)
    simp [outcome, hstart, hrecording, hinactive, hbusy]
  · simp [outcome, hstart, hreads.inactive, hreads.quiet, hreads.iff_eq]
  · rw [show outcome = (asked.startPlayback now).1 from rfl, hstart]
    split
    · simp [hreads.inactive, hreads.quiet, hreads.iff_eq]
    · simp [hreads.inactive, hreads.quiet, hreads.iff_eq]

/-- A run with a report in its tracker has been cancelled, and the script has come to import itself
behind a row and a line that is no row. -/
theorem failed_start_changes_nothing_of_cycle :
    let scripts : Texts := [("main", "save-results=true\n2,X")]
    let fresh : Engine MemoryStorage := { config := {}, triggers := {}, storage := ⟨scripts, []⟩ }
    let now : Moment := ⟨"7", ""⟩
    let cyclic : MemoryStorage := ⟨[("main", "save-results=true\n5,X\nrow\nimport=main")], []⟩
    let during : List (Moment × Operation MemoryStorage) :=
      [(now, .startPlayback), (now, .poll {}), (now, .submit { frame := 1 })]
    let e := (fresh.run during).run [(now, .cancelPlayback), (now, .edit fun _ => cyclic)]
    (fresh.run during).tracker.size = 1 ∧ (fresh.run during).saveResults ∧
      (e.startPlayback now).1 = .error (.importCycle ["main", "main"] ⟨"main", 4⟩) ∧
      (e.startPlayback now).2 = e := by
  intro scripts fresh now cyclic during e
  refine ⟨by decide +kernel, by decide +kernel, ?_⟩
  have hreachable : e.Reachable :=
    ((reachable_new fresh.storage {} {} {}).run during).run _
  have hcycle : Script.load e.config.loading e.library e.config.mainScript =
      .error (.importCycle ["main", "main"] ⟨"main", 4⟩) := by
    decide +kernel
  have hidle : e.playback.phase = .idle := by decide +kernel
  have hquiet : e.recorder.recording = false := by decide +kernel
  clear_value e
  obtain ⟨-, -, hfails, hchanges⟩ :=
    failed_start_changes_nothing e hreachable e.storage e.clock now
  have hstart := (hfails _).mpr ⟨hidle, hquiet, hcycle⟩
  refine ⟨hstart, hchanges ?_ ?_⟩
  · rw [hstart]
    nofun
  · rw [hstart]
    nofun

end Engine
end PadScript
