import PadScript.Cli.Command
import PadScript.Config.File
import PadScript.Headless
import PadScript.Partition
import PadScript.Storage.Folder

/-!
# Commands

Each command is a function from the files on a disk to what it prints, its exit code, and the
files afterwards.
-/
namespace PadScript.Cli

structure World where
  disk : Disk
  /-- The settings file to be read when none is named. -/
  settings : Option String
  now : Moment

structure Outcome where
  exit : Nat
  output : String
  errors : String := ""
  disk : Disk

/-- What a command has printed, the disk, and how it ended: an error is a message followed by
those of its causes. -/
structure Report where
  lines : List String
  disk : Disk
  failure : Option (List String) := none

def indent (blanks : Nat) (text : String) : String :=
  String.intercalate ("\n" ++ String.ofList (List.replicate blanks ' '))
    ((Text.pieces '\n' text.toList).map String.ofList)

def errorText : List String → String
  | [] => ""
  | [message] => "Error: " ++ message ++ "\n"
  | [message, cause] => "Error: " ++ message ++ "\n\nCaused by:\n    " ++ indent 4 cause ++ "\n"
  | message :: causes =>
    "Error: " ++ message ++ "\n\nCaused by:\n" ++
      String.join (causes.mapIdx fun i cause =>
        Text.padLeft 5 (toString i) ++ ": " ++ indent 7 cause ++ "\n")

def Report.outcome (r : Report) : Outcome where
  exit := if r.failure.isSome then 1 else 0
  output := String.join (r.lines.map (· ++ "\n"))
  errors := errorText (r.failure.getD [])
  disk := r.disk

def segmentLine (s : Segment) : String :=
  "  " ++ Text.padLeft 6 (toString s.first.toNat) ++ "-" ++
    Text.padRight 6 (toString s.last.toNat) ++ " " ++ Text.padRight 24 s.input.buttons.text ++
    " rate=" ++ toString s.rate.toNat ++
    (if s.skipMovies then " skip-spool-movies" else "") ++
    ((s.marker.map fun m => " marker=" ++ m).getD "") ++ "  (" ++ s.source.text ++ ")"

def segmentLines (l : Script.Loaded) : List String :=
  ["", "=== Segments ==="] ++ l.store.segments.map segmentLine ++
    ["", "Segments: " ++ toString l.store.size,
      "Frames: " ++ toString l.store.frameCount.toNat,
      "Saves results: " ++ toString l.saveResults]

def warningLines (l : Script.Loaded) : List String :=
  if l.diagnostics.isEmpty then []
  else ["", "=== Warnings ==="] ++ l.diagnostics.map fun d => "  " ++ d.text

def check (disk : Disk) (config : Config) (folder : String) (script : Option String)
    (strict : Bool) : Report :=
  let storage : FolderStorage := ⟨disk, folder, config.scriptExtension⟩
  let name := script.getD config.mainScript
  let heading := ["Checking script: " ++ storage.location name]
  match Script.load config.loading storage.read name with
  | .error e => ⟨heading, disk, some ["Failed to load script: " ++ name, e.message]⟩
  | .ok l =>
    let listed := heading ++ segmentLines l
    match Partition.check l.store with
    | .error e =>
      ⟨listed, disk, some ["Segments do not cover a contiguous frame range", e.message]⟩
    | .ok () =>
      let warned := listed ++ warningLines l
      if strict && !l.diagnostics.isEmpty then
        ⟨warned, disk, some [toString l.diagnostics.length ++ " warning(s) in strict mode"]⟩
      else ⟨warned ++ ["", "Script OK."], disk, none⟩

def summaryLines (s : Headless.Summary) : List String :=
  ["", "=== Run Complete ===",
    "Frames played: " ++ toString s.framesPlayed ++ "/" ++ toString s.totalFrames.toNat,
    "Segments: " ++ toString s.segments,
    "Warnings: " ++ toString s.diagnostics] ++
  if s.truncated then ["Stopped at the frame limit."] else []

def traceText (trace : List InputFrame) : String := (Json.list (trace.map InputFrame.toJson)).pretty

/-- A script is played without the game, and the played frames are written if a file is named. -/
def run (disk : Disk) (now : Moment) (config : Config) (folder : String)
    (script trace : Option String) (maxFrames : UInt64) : Report :=
  let config := { config with folder, mainScript := script.getD config.mainScript }
  let storage : FolderStorage := ⟨disk, folder, config.scriptExtension⟩
  let heading := ["Running script: " ++ config.mainScript, "  Folder: " ++ folder,
    "  Max frames: " ++ toString maxFrames.toNat]
  match Engine.make storage config with
  | .error e => ⟨heading, disk, some ["Invalid trigger configuration", e.message]⟩
  | .ok engine =>
    let options : Headless.Options := ⟨maxFrames, trace.isSome⟩
    match Headless.run now options .echo () engine with
    | (.error e, engine, _) => ⟨heading, engine.storage.disk, some e.chain⟩
    | (.ok summary, engine, _) =>
      let lines := heading ++ summaryLines summary
      let disk := engine.storage.disk
      match trace with
      | none => ⟨lines, disk, none⟩
      | some path =>
        match disk.write path (traceText summary.trace) with
        | .error e => ⟨lines, disk, some ["Failed to write trace: " ++ path, e.message]⟩
        | .ok disk => ⟨lines ++ ["", "Trace written to: " ++ path], disk, none⟩

/-- A trace of controller input is packed into a script. -/
def record (disk : Disk) (now : Moment) (config : Config) (folder trace : String) : Report :=
  match disk.read trace with
  | .error e => ⟨[], disk, some ["Failed to read trace: " ++ trace, e.message]⟩
  | .ok text =>
    match Controller.trace? text with
    | none => ⟨[], disk, some ["Failed to parse trace: " ++ trace, "not a list of controllers"]⟩
    | some frames =>
      let recorded := Recorder.recordAll frames
      let count := toString recorded.frameCount.toNat
      let header := ["Recorded from " ++ trace, count ++ " frames"]
      let name := now.unix ++ config.recordingExtension
      let storage : FolderStorage := ⟨disk, folder, config.scriptExtension⟩
      match storage.write name (Script.write recorded.segments header) with
      | (.error e, storage) =>
        ⟨[], storage.disk, some (("Failed to write recording: " ++ name) :: e.chain)⟩
      | (.ok (), storage) =>
        ⟨["Recorded " ++ count ++ " frames in " ++ toString recorded.size ++ " segments",
          "Written to: " ++ Path.join folder name], storage.disk, none⟩

def settingsOf (disk : Disk) (path : Option String) : Config :=
  match path.map disk.read with
  | some (.ok text) => Config.ofText text
  | _ => {}

def execute (w : World) (settings : Option String) (command : Command) : Report :=
  let config := settingsOf w.disk (settings <|> w.settings)
  match command with
  | .check folder script strict => check w.disk config folder script strict
  | .run folder script trace maxFrames => run w.disk w.now config folder script trace maxFrames
  | .record folder trace => record w.disk w.now config folder trace

def program (w : World) (words : List String) : Outcome :=
  match Invocation.ofWords? words with
  | some (.execute settings command) => (execute w settings command).outcome
  | some (.print text) => ⟨0, text, "", w.disk⟩
  | none => ⟨2, "", programHelp, w.disk⟩

end PadScript.Cli
