import PadScript.Cli.Execute
import PadScript.Proofs.HeadlessRun

/-!
# Checking a script and running it

The two commands come to a script by different ways: one loads it under its name, the other makes
the name that of the main script and has an engine load it. They tell of the same script, except
that an empty name stands for the main script in the first command only.
-/
namespace PadScript

namespace Script

theorem load_congr_mainScript {settings other : Settings} {library : Library} {name : String}
    (hrate : other.rate = settings.rate) (hdepth : other.importDepth = settings.importDepth)
    (hmain : name = "" → other.mainScript = settings.mainScript) :
    load other library name = load settings library name := by
  unfold load
  by_cases hname : name = ""
  · simp only [hrate, hdepth, hmain hname]
  · simp only [hrate, hdepth, if_neg hname]

theorem load_empty (settings : Settings) (library : Library) :
    load settings library "" = load settings library settings.mainScript := by
  unfold load
  simp only [if_true, ite_self]

/-- What is loaded when no script can have the name. -/
def unnamed : Loaded :=
  ⟨.empty, false, [⟨⟨"", 0⟩, .scriptNotFound "" (StorageError.invalidName "").message⟩]⟩

end Script

namespace Cli

variable {disk : Disk} {config : Config} {folder : String} {script trace : Option String}
  {now : Moment} {triggers : Triggers} {maxFrames : UInt64}

open Script (LoadError Loaded)
open Headless (RunError Summary)

/-- What is told of a script by the command that checks it. -/
def Report.Checks (name : String) (heading : List String) (r : Report) :
    Except LoadError Loaded → Prop
  | .error err => r.failure = some ["Failed to load script: " ++ name, err.message]
  | .ok loaded => r.failure = none ∧
      r.lines = heading ++ segmentLines loaded ++ warningLines loaded ++ ["", "Script OK."]

/-- What is told of a script by the command that runs it: that it does not load, or else the summary
of its run. -/
def Report.Plays (options : Headless.Options) (rate : UInt32) (heading : List String)
    (r : Report) : Except LoadError Loaded → Prop
  | .error err => r.failure = some (RunError.load err).chain
  | .ok loaded => (∀ err, r.failure ≠ some (RunError.load err).chain) ∧
      ∃ summary more, r.lines = heading ++ summaryLines summary ++ more ∧
        summary.Tells loaded options rate

theorem checks_check (disk : Disk) (config : Config) (folder : String) (script : Option String) :
    let storage : FolderStorage := ⟨disk, folder, config.scriptExtension⟩
    let name := script.getD config.mainScript
    (check disk config folder script false).Checks name
      ["Checking script: " ++ storage.location name]
      (Script.load config.loading storage.read name) := by
  intro storage name
  cases hload : Script.load config.loading storage.read name with
  | error err =>
    have hcheck : (check disk config folder script false).failure =
        some ["Failed to load script: " ++ name, err.message] := by
      unfold check
      simp only [storage, name] at hload
      simp only [hload, name]
    exact hcheck
  | ok loaded =>
    have hpartition := Script.check_load hload
    have hcheck : check disk config folder script false =
        ⟨["Checking script: " ++ storage.location name] ++ segmentLines loaded ++
          warningLines loaded ++ ["", "Script OK."], disk, none⟩ := by
      unfold check
      simp only [storage, name] at hload
      simp [hload, hpartition, storage, name]
    rw [hcheck]
    exact ⟨rfl, rfl⟩

def runHeading (folder name : String) (maxFrames : UInt64) : List String :=
  ["Running script: " ++ name, "  Folder: " ++ folder,
    "  Max frames: " ++ toString maxFrames.toNat]

section Run

variable {engine after : Engine FolderStorage}
  (hmake : Engine.make (⟨disk, folder, config.scriptExtension⟩ : FolderStorage)
    { config with folder, mainScript := script.getD config.mainScript } = .ok engine)
include hmake

theorem run_of_error {err : RunError}
    (hrun : Headless.run now ⟨maxFrames, trace.isSome⟩ .echo () engine = (.error err, after, ())) :
    run disk now config folder script trace maxFrames =
      ⟨runHeading folder (script.getD config.mainScript) maxFrames, after.storage.disk,
        some err.chain⟩ := by
  unfold run
  simp only [hmake, hrun]
  rfl

theorem run_of_summary {summary : Summary}
    (hrun : Headless.run now ⟨maxFrames, trace.isSome⟩ .echo () engine =
      (.ok summary, after, ())) :
    (∃ more, (run disk now config folder script trace maxFrames).lines =
      runHeading folder (script.getD config.mainScript) maxFrames ++ summaryLines summary ++ more) ∧
    ((run disk now config folder script trace maxFrames).failure = none ∨
      ∃ path cause, (run disk now config folder script trace maxFrames).failure =
        some ["Failed to write trace: " ++ path, cause]) := by
  unfold run
  simp only [hmake, hrun]
  cases trace with
  | none => exact ⟨⟨[], (List.append_nil _).symm⟩, .inl rfl⟩
  | some path =>
    cases hwrite : after.storage.disk.write path (traceText summary.trace) with
    | error err =>
      simp only [hwrite]
      exact ⟨⟨[], (List.append_nil _).symm⟩, .inr ⟨path, err.message, rfl⟩⟩
    | ok written =>
      simp only [hwrite]
      exact ⟨⟨_, rfl⟩, .inl trivial⟩

end Run

theorem chain_load_ne (path cause : String) (err : LoadError) :
    some ["Failed to write trace: " ++ path, cause] ≠ some (RunError.load err).chain := by
  intro h
  have hwords := congrArg String.toList (List.cons.inj (Option.some.inj h)).1
  simp at hwords

theorem plays_run (disk : Disk) (now : Moment) (folder : String) (script trace : Option String)
    (maxFrames : UInt64) (htriggers : config.triggers.resolve = .ok triggers) :
    let storage : FolderStorage := ⟨disk, folder, config.scriptExtension⟩
    let name := script.getD config.mainScript
    (run disk now config folder script trace maxFrames).Plays ⟨maxFrames, trace.isSome⟩ config.rate
      (runHeading folder name maxFrames)
      (Script.load { config.loading with mainScript := name } storage.read name) := by
  intro storage name
  let engine : Engine FolderStorage :=
    { config := { config with folder, mainScript := name }, triggers, storage }
  have hmake : Engine.make storage { config with folder, mainScript := name } = .ok engine :=
    Engine.make_eq_ok.mpr ⟨htriggers, rfl⟩
  cases hload : Script.load { config.loading with mainScript := name } storage.read name with
  | error err =>
    have hstart := Engine.startPlayback_of_error (e := engine) now rfl rfl hload
    have hrun : Headless.run now ⟨maxFrames, trace.isSome⟩ .echo () engine =
        (.error (.load err), { engine with tracker := {}, saveResults := false }, ()) := by
      simp only [Headless.run, hstart]
    rw [run_of_error hmake hrun]
    exact rfl
  | ok loaded =>
    have htrigger := TriggerTexts.cancelPlayback_ne_empty htriggers
    obtain ⟨summary, s, next, hrun, htells, -⟩ := Headless.run_tells (e := engine) now
      ⟨maxFrames, trace.isSome⟩ Backend.echo_reports () rfl rfl htrigger hload
    obtain ⟨⟨more, hlines⟩, hfailure⟩ := run_of_summary hmake hrun
    refine ⟨fun err => ?_, summary, more, hlines, htells⟩
    rcases hfailure with hnone | ⟨path, cause, hcause⟩
    · rw [hnone]
      exact Option.some_ne_none _ |>.symm
    · rw [hcause]
      exact chain_load_ne path cause err

theorem load_unnamed (storage : FolderStorage) (settings : Script.Settings) :
    Script.load { settings with mainScript := "" } storage.read "" = .ok Script.unnamed := by
  have hread : storage.read "" = .error (.invalidName "") := rfl
  unfold Script.load Script.Flat.ofScript Script.Flat.descend
  simp only [List.not_mem_nil, if_false, ite_self, hread]
  rfl

/-- Checking a script and running it tell of the same: both say why it does not load, or check lists
its segments, frames and warnings, and run plays it and counts as many of them. This holds of
any name that is given, present or not, except for an empty one where the settings name a main
script: check takes it for the main script, and run for a script that is not there. -/
theorem check_and_run_agree (disk : Disk) (now : Moment) (config : Config) (triggers : Triggers)
    (folder : String) (script trace : Option String) (maxFrames : UInt64)
    (htriggers : config.triggers.resolve = .ok triggers) :
    let storage : FolderStorage := ⟨disk, folder, config.scriptExtension⟩
    let name := script.getD config.mainScript
    let outcome := Script.load config.loading storage.read name
    let options : Headless.Options := ⟨maxFrames, trace.isSome⟩
    let checked := check disk config folder script false
    let played := run disk now config folder script trace maxFrames
    checked.Checks name ["Checking script: " ++ storage.location name] outcome ∧
    ((script = some "" → config.mainScript = "") →
      played.Plays options config.rate (runHeading folder name maxFrames) outcome ∧
      (checked.failure.isSome ↔ ∃ err, played.failure = some (RunError.load err).chain)) ∧
    (script = some "" →
      outcome = Script.load config.loading storage.read config.mainScript ∧
      played.Plays options config.rate (runHeading folder name maxFrames)
        (.ok Script.unnamed)) := by
  intro storage name outcome options checked played
  have hchecks : checked.Checks name ["Checking script: " ++ storage.location name] outcome :=
    checks_check disk config folder script
  have hplays := plays_run disk now folder script trace maxFrames htriggers
  refine ⟨hchecks, fun hscript => ?_, fun hempty => ?_⟩
  · have hmain : name = "" → name = config.mainScript := by
      intro hname
      cases script with
      | none => rfl
      | some given =>
        obtain rfl : given = "" := hname
        exact (hscript rfl).symm
    have hsame : Script.load { config.loading with mainScript := name } storage.read name =
        outcome := Script.load_congr_mainScript rfl rfl hmain
    have hplayed : played.Plays options config.rate (runHeading folder name maxFrames) outcome :=
      hsame ▸ hplays
    refine ⟨hplayed, ?_⟩
    cases hload : outcome with
    | error err =>
      rw [hload] at hchecks hplayed
      have hfailure : checked.failure.isSome := Option.isSome_of_eq_some hchecks
      exact ⟨fun _ => ⟨err, hplayed⟩, fun _ => hfailure⟩
    | ok loaded =>
      rw [hload] at hchecks hplayed
      have hfailure : ¬ checked.failure.isSome := by
        rw [hchecks.1]
        decide
      exact ⟨fun hsome => absurd hsome hfailure, fun ⟨err, herr⟩ => absurd herr (hplayed.1 err)⟩
  · subst hempty
    have hunnamed := load_unnamed storage config.loading
    exact ⟨Script.load_empty _ _, hunnamed ▸ hplays⟩

/-- A script of three frames with a warning, run up to its second frame. -/
theorem check_and_run_agree_of_warning :
    let disk : Disk := ({} : Disk).plant ["tas", "main.jaktas"] (.file (some "2,X\nJump\n1"))
    let checked := check disk {} "tas" none false
    let played := run disk ⟨"7", ""⟩ {} "tas" none none 2
    ∃ loaded, checked.Checks "main" ["Checking script: tas/main.jaktas"] (.ok loaded) ∧
      played.Plays ⟨2, false⟩ 60 (runHeading "tas" "main" 2) (.ok loaded) ∧
      loaded.store.size = 2 ∧ loaded.store.frameCount = 3 ∧ loaded.diagnostics.length = 1 := by
  intro disk checked played
  let storage : FolderStorage := ⟨disk, "tas", ".jaktas"⟩
  have hview : (Script.load ({} : Config).loading storage.read "main").toOption.map (fun loaded =>
      (loaded.store.size, loaded.store.frameCount, loaded.diagnostics.length)) =
        some (2, 3, 1) := by
    decide +kernel
  obtain ⟨loaded, hload, hloaded⟩ := Script.load_of_view hview
  obtain ⟨hsize, hcounts⟩ := Prod.mk.inj hloaded
  obtain ⟨hframes, hwarnings⟩ := Prod.mk.inj hcounts
  obtain ⟨hchecks, hplays, -⟩ :=
    check_and_run_agree disk ⟨"7", ""⟩ {} {} "tas" none none 2 (by decide +kernel)
  have hheading : "Checking script: " ++ storage.location "main" =
      "Checking script: tas/main.jaktas" := by
    decide +kernel
  have hplayed := (hplays (by simp)).1
  have hnamed : Script.load ({} : Config).loading
      (FolderStorage.mk disk "tas" ({} : Config).scriptExtension).read
      ((none : Option String).getD ({} : Config).mainScript) = .ok loaded := hload
  rw [hnamed] at hchecks hplayed
  have hchecked : checked.Checks "main" ["Checking script: " ++ storage.location "main"]
      (.ok loaded) := hchecks
  rw [hheading] at hchecked
  exact ⟨loaded, hchecked, hplayed, hsize, hframes, hwarnings⟩

/-- Under an empty name, five frames are checked and none is run. -/
theorem empty_name_checks_five_runs_none :
    let disk : Disk := ({} : Disk).plant ["tas", "main.jaktas"] (.file (some "5,X\n"))
    let checked := check disk {} "tas" (some "") false
    let played := run disk ⟨"7", ""⟩ {} "tas" (some "") none 216000
    (checked.failure = none ∧ "Segments: 1" ∈ checked.lines ∧ "Frames: 5" ∈ checked.lines ∧
      "=== Warnings ===" ∉ checked.lines) ∧
    played.failure = none ∧ "Frames played: 0/0" ∈ played.lines ∧ "Segments: 0" ∈ played.lines ∧
      "Warnings: 1" ∈ played.lines := by
  decide +kernel

end Cli
end PadScript
