import PadScript.Proofs.CommandsAgree
import PadScript.Proofs.HeaderText
import PadScript.Proofs.RunLength
import PadScript.Proofs.TraceFile

/-!
# The trace of a run can be recorded again

The trace that a run writes is read by the command that records one as the played input, and the
script that this command writes loads to the same input again.
-/
namespace PadScript

open Headless (Summary)

theorem Store.mem_expand {store : Store} {input : Controller} (h : input ∈ store.expand) :
    ∃ s ∈ store.segments, input = s.input := by
  obtain ⟨s, hs, hinput⟩ := List.mem_flatMap.mp h
  exact ⟨s, hs, List.eq_of_mem_replicate hinput⟩

theorem Controller.finite_eq_self {c : Controller} (h : ∀ a, (c.axes.get a).isFinite) :
    c.finite = c := by
  have haxes : c.axes.map Single.finiteOrZero = c.axes := by
    refine Axes.ext_get fun a => ?_
    rw [Axes.get_map, Single.finiteOrZero_of_isFinite (h a)]
  rw [finite, haxes]

theorem Script.frameCount_lt_of_load {settings : Settings} {library : Library} {name : String}
    {loaded : Loaded} (h : load settings library name = .ok loaded) :
    loaded.store.frameCount.toNat < Frame.largest.toNat := by
  unfold Store.frameCount
  cases hlast : loaded.store.segments.getLast? with
  | none => decide
  | some s => exact last_lt_of_load h (List.mem_of_getLast? hlast)

namespace Cli

variable {disk : Disk} {now : Moment} {config : Config} {folder : String}
  {script : Option String} {maxFrames : UInt64}

theorem disk_run_untraced {engine : Engine FolderStorage}
    (hmake : Engine.make (⟨disk, folder, config.scriptExtension⟩ : FolderStorage)
      { config with folder, mainScript := script.getD config.mainScript } = .ok engine) :
    (run disk now config folder script none maxFrames).disk =
      (Headless.run now ⟨maxFrames, true⟩ .echo () engine).2.1.storage.disk := by
  have hsame : (Headless.run now ⟨maxFrames, false⟩ .echo () engine).2 =
      (Headless.run now ⟨maxFrames, true⟩ .echo () engine).2 := by
    unfold Headless.run
    split <;> rfl
  rw [← hsame]
  simp only [run, hmake, Option.isSome_none]
  rcases Headless.run now ⟨maxFrames, false⟩ .echo () engine with ⟨outcome | outcome, after, next⟩
  · rfl
  · rfl

/-- The trace is written to the disk that the run leaves without one. -/
theorem run_traced (path : String) {engine after : Engine FolderStorage} {summary : Summary}
    (hmake : Engine.make (⟨disk, folder, config.scriptExtension⟩ : FolderStorage)
      { config with folder, mainScript := script.getD config.mainScript } = .ok engine)
    (hrun : Headless.run now ⟨maxFrames, true⟩ .echo () engine = (.ok summary, after, ())) :
    let left := (run disk now config folder script none maxFrames).disk
    let played := run disk now config folder script (some path) maxFrames
    (∀ err, left.write path (traceText summary.trace) = .error err →
      played.failure = some ["Failed to write trace: " ++ path, err.message] ∧
        played.disk = left) ∧
    ∀ written, left.write path (traceText summary.trace) = .ok written →
      played.failure = none ∧ played.disk = written := by
  intro left played
  have hleft : left = after.storage.disk := by
    rw [show left = _ from disk_run_untraced hmake, hrun]
  rw [hleft]
  constructor
  · intro err hwrite
    simp only [played, run, hmake, Option.isSome_some, hrun, hwrite, and_self]
  · intro written hwrite
    simp only [played, run, hmake, Option.isSome_some, hrun, hwrite, and_self]

end Cli

namespace Script

/-- Under whatever name it is found, the text loads without reports to these frames. -/
def LoadsTo (text : String) (frames : List Controller) : Prop :=
  ∀ (settings : Settings) (library : Library) (name : String),
    library (if name = "" then settings.mainScript else name) = .ok text →
    ∃ loaded, load settings library name = .ok loaded ∧ loaded.diagnostics = [] ∧
      List.Forall₂ (fun input frame => input.numEq frame) frames loaded.store.expand

theorem loadsTo_recordAll {trace : String} (hplain : '\n' ∉ trace.toList)
    {inputs : List Controller} (hroom : inputs.length < Frame.largest.toNat)
    (hfinite : ∀ input ∈ inputs, ∀ a, (input.axes.get a).isFinite) :
    LoadsTo (write (Recorder.recordAll inputs).segments
      (Cli.traceHeader trace (Recorder.recordAll inputs))) inputs := by
  intro settings library name hname
  obtain ⟨loaded, hload, hreports, hframes⟩ :=
    load_recordAll hroom (isQuiet_of_not_mem hplain) hname
  have hsame : inputs.map Controller.finite = inputs :=
    (List.map_congr_left fun input hinput => input.finite_eq_self (hfinite input hinput)).trans
      (List.map_id _)
  have hfinal : List.Forall₂ (fun input frame => input.numEq frame)
      (inputs.map Controller.finite) loaded.store.expand :=
    List.forall₂_map_left_iff.mpr hframes
  rw [hsame] at hfinal
  exact ⟨loaded, hload, hreports, hfinal⟩

end Script

namespace Cli

/-- Running a script with a trace and recording the trace, whatever folder and settings the script
is run with, as long as the triggers are valid and the script loads. The trace is written to the
disk that the run leaves without one, which is all that can fail, and is read as the first frames of
the expansion, as many as the limit lets through. Where it is recorded, under a path without a line
break, the script that is made loads, without reports, to the same frames; it is in the folder then,
unless it cannot be written there. -/
theorem trace_is_recorded_again (disk : Disk) (now : Moment) (config : Config)
    (triggers : Triggers) (folder : String) (script : Option String) (path : String)
    (maxFrames : UInt64) (loaded : Script.Loaded)
    (htriggers : config.triggers.resolve = .ok triggers)
    (hload : Script.load { config.loading with mainScript := script.getD config.mainScript }
      (⟨disk, folder, config.scriptExtension⟩ : FolderStorage).read
      (script.getD config.mainScript) = .ok loaded) :
    let played := run disk now config folder script (some path) maxFrames
    let left := (run disk now config folder script none maxFrames).disk
    let count := min loaded.store.frameCount.toNat maxFrames.toNat
    let inputs := loaded.store.expand.take count
    loaded.store.expand.length = loaded.store.frameCount.toNat ∧ inputs.length = count ∧
    ∃ text, Controller.trace? text = some inputs ∧
      (∀ err, left.write path text = .error err →
        played.failure = some ["Failed to write trace: " ++ path, err.message] ∧
          played.disk = left) ∧
      (∀ written, left.write path text = .ok written →
        played.failure = none ∧ played.disk = written ∧ played.disk.read path = .ok text) ∧
      ∀ (after : Disk) (later : Moment) (settings : Config) (place trace : String),
        after.read trace = .ok text → '\n' ∉ trace.toList →
        ∃ recording, Script.LoadsTo recording inputs ∧
          (record after later settings place trace).Writes after later settings place
            recording := by
  intro played left count inputs
  have hpartition := Script.isPartition_load hload
  have hw := Script.writable_of_load hload
  have htotal : loaded.store.expand.length = loaded.store.frameCount.toNat := by
    rw [Store.length_expand, hpartition.sum_frameCount]
  have hcount : inputs.length = count := by
    rw [List.length_take, htotal]
    exact min_eq_left (min_le_left _ _)
  have hfinite : ∀ input ∈ inputs, ∀ a, (input.axes.get a).isFinite := by
    intro input hinput
    obtain ⟨s, hs, rfl⟩ := Store.mem_expand (List.mem_of_mem_take hinput)
    exact hw.finite s hs
  let engine : Engine FolderStorage :=
    { config := { config with folder, mainScript := script.getD config.mainScript }
      triggers, storage := ⟨disk, folder, config.scriptExtension⟩ }
  have hmake : Engine.make (⟨disk, folder, config.scriptExtension⟩ : FolderStorage)
      { config with folder, mainScript := script.getD config.mainScript } = .ok engine :=
    Engine.make_eq_ok.mpr ⟨htriggers, rfl⟩
  have htrigger := TriggerTexts.cancelPlayback_ne_empty htriggers
  obtain ⟨summary, after, next, hrun, htells, -⟩ := Headless.run_tells (e := engine) now
    ⟨maxFrames, true⟩ Backend.echo_reports () rfl rfl htrigger hload
  obtain ⟨hlength, hframes⟩ := htells.traced rfl
  have hinputs : summary.trace.map InputFrame.input = inputs := by
    rw [hframes.inputs, hlength, htells.framesPlayed, List.drop_zero]
  have htrace : Controller.trace? (traceText summary.trace) = some inputs := by
    rw [← hinputs]
    refine Controller.trace?_traceText fun f hf => ?_
    exact hfinite f.input (hinputs ▸ List.mem_map_of_mem hf)
  obtain ⟨hfails, hwrites⟩ := run_traced path hmake hrun
  refine ⟨htotal, hcount, traceText summary.trace, htrace, hfails, fun written hwrite => ?_,
    fun after later settings place trace hafter hplain => ?_⟩
  · obtain ⟨hdone, hdisk⟩ := hwrites written hwrite
    refine ⟨hdone, hdisk, ?_⟩
    rw [show played.disk = written from hdisk]
    exact Disk.read_write hwrite
  · have hroom := Script.frameCount_lt_of_load hload
    exact ⟨_, Script.loadsTo_recordAll hplain (by omega) hfinite, writes_record hafter htrace⟩

/-- Four of six frames are traced, with an axis between two presses, and recorded again. -/
theorem trace_is_recorded_again_of_limit :
    let disk : Disk := ({} : Disk).plant ["tas", "main.jaktas"]
      (.file (some "2,X\n1,Up,player-angle=0.1\n3,Square"))
    let played := run disk ⟨"7", ""⟩ {} "tas" none (some "t.json") 4
    let again := record played.disk ⟨"8", ""⟩ {} "tas" "t.json"
    let inputs : List Controller := [⟨.ofButton .x, {}⟩, ⟨.ofButton .x, {}⟩,
      ⟨.ofButton .up, { playerAngle := .ofBits 0x3DCCCCCD }⟩,
      ⟨.ofButton .square, { playerAngle := .ofBits 0x3DCCCCCD }⟩]
    ∃ text recording,
      played.failure = none ∧ played.disk.read "t.json" = .ok text ∧
      Controller.trace? text = some inputs ∧
      again.failure = none ∧ again.disk.read "tas/8.recording.jaktas" = .ok recording ∧
      Script.LoadsTo recording inputs := by
  intro disk played again inputs
  have hview : (Script.load ({} : Config).loading
      (FolderStorage.mk disk "tas" ({} : Config).scriptExtension).read "main").toOption.map
        (fun loaded => (loaded.store.frameCount, loaded.store.expand.take 4)) =
          some (6, inputs) := by
    decide +kernel
  obtain ⟨loaded, hload, hloaded⟩ := Script.load_of_view hview
  obtain ⟨hcount, hframes⟩ := Prod.mk.inj hloaded
  obtain ⟨-, -, text, htrace, -, hwrites, hagain⟩ :=
    trace_is_recorded_again disk ⟨"7", ""⟩ {} {} "tas" none "t.json" 4 loaded (by decide +kernel)
      hload
  have hinputs : loaded.store.expand.take (min (6 : UInt64).toNat (4 : UInt64).toNat) = inputs :=
    hframes
  rw [hcount, hinputs] at htrace hagain
  -- no log is written, so that the run leaves the disk as it was
  have hleft : (run disk ⟨"7", ""⟩ {} "tas" none none 4).disk = disk := by decide +kernel
  let traced : Disk := disk.put ["t.json"] (.file (some text))
  have hwrite : disk.write "t.json" text = .ok traced := rfl
  rw [hleft] at hwrites
  obtain ⟨hplayed, hdisk, htext⟩ := hwrites traced hwrite
  obtain ⟨recording, hloads, hreport⟩ : ∃ recording, Script.LoadsTo recording inputs ∧
      again.Writes played.disk ⟨"8", ""⟩ {} "tas" recording :=
    hagain played.disk ⟨"8", ""⟩ {} "tas" "t.json" htext (by decide)
  have hpath : Path.join "tas" ("8" ++ ({} : Config).recordingExtension) =
      "tas/8.recording.jaktas" := by
    decide +kernel
  let storage : FolderStorage := ⟨played.disk, "tas", ({} : Config).scriptExtension⟩
  have hroom : (storage.write ("8" ++ ({} : Config).recordingExtension) "").1 = .ok () := by
    have hstorage : storage = ⟨traced, "tas", ({} : Config).scriptExtension⟩ := by
      rw [← hdisk]
    rw [hstorage]
    simp only [FolderStorage.write, hpath]
    rfl
  rw [storage.write_outcome _ "" recording] at hroom
  obtain ⟨after, hstored⟩ : ∃ after,
      storage.write ("8" ++ ({} : Config).recordingExtension) recording = (.ok (), after) :=
    ⟨_, Prod.ext hroom rfl⟩
  obtain ⟨hdone, -, hread, -⟩ := hreport.done after hstored
  rw [hpath] at hread
  exact ⟨text, recording, hplayed, htext, htrace, hdone, hread, hloads⟩

end Cli
end PadScript
