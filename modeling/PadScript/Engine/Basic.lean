import PadScript.Config.Basic
import PadScript.Exchange
import PadScript.Playback
import PadScript.Recorder
import PadScript.Script.Writer

/-!
# The engine

The engine stands between the game and its input. Once in a frame the game asks for input by
`poll`, and afterwards it may report results by `submit`. A script is played or live input is
recorded, never both.
-/
namespace PadScript

/-- The two spellings of the present moment: seconds of the Unix clock in file names, and a date
with a time in the heading of a recording. -/
structure Moment where
  unix : String
  date : String
  deriving DecidableEq, Repr, Inhabited

structure Engine (σ : Type) where
  config : Config
  triggers : Triggers
  storage : σ
  clock : FrameClock := {}
  playback : Playback := {}
  recorder : Recorder := {}
  tracker : Tracker := {}
  saveResults : Bool := false
  diagnostics : List Script.Diagnostic := []
  /-- The buttons that were held at the latest poll. -/
  held : Buttons := .empty

inductive PlaybackStart
  | started | noInputs | alreadyPlaying | recording
  deriving DecidableEq, Repr

namespace Engine

variable {σ : Type} [Storage σ]

def make (storage : σ) (config : Config) : Except ConfigError (Engine σ) :=
  (config.triggers.resolve).map fun triggers => { config, triggers, storage }

def library (e : Engine σ) : Script.Library := Storage.read e.storage

/-- The log of the run is written if the script asked for it; a failure is passed over. -/
def saveLog (now : Moment) (e : Engine σ) : Engine σ :=
  if e.saveResults then
    let name := now.unix ++ e.config.resultsExtension
    { e with storage := (Storage.write e.storage name e.tracker.finish.1.text).2 }
  else e

/-- A run ends: its log is saved, nothing of it is kept, and the game gets back its frame rate. -/
def finalize (now : Moment) (e : Engine σ) : Engine σ :=
  let e := e.saveLog now
  { e with
    playback := {}, tracker := {}, saveResults := false
    clock := e.clock.set e.config.rate }

def finalizeIfComplete (now : Moment) (e : Engine σ) : Engine σ :=
  if e.playback.phase = .completing then e.finalize now else e

/-- The main script is loaded and played from its first frame, unless something is going on. A
script without frames is over at once. -/
def startPlayback (now : Moment) (e : Engine σ) :
    Except Script.LoadError PlaybackStart × Engine σ :=
  if e.playback.isActive then (.ok .alreadyPlaying, e)
  else if e.recorder.recording then (.ok .recording, e)
  else
    let e := { e with tracker := {}, saveResults := false }
    match Script.load e.config.loading e.library e.config.mainScript with
    | .error err => (.error err, e)
    | .ok loaded =>
      let e := { e with
        diagnostics := loaded.diagnostics
        saveResults := loaded.saveResults
        playback := .start loaded.store }
      if e.playback.phase = .completing then (.ok .noInputs, e.finalize now)
      else (.ok .started, e)

def cancelPlayback (now : Moment) (e : Engine σ) : Engine σ :=
  if e.playback.isActive then e.finalize now else e

/-- Whether recording has begun; it does not while anything is going on. -/
def startRecording (e : Engine σ) : Bool × Engine σ :=
  if e.playback.isActive || e.recorder.recording then (false, e)
  else (true, { e with recorder := e.recorder.start })

def recordingHeader (now : Moment) (recorded : Store) : List String :=
  ["Recorded " ++ now.date, toString recorded.frameCount.toNat ++ " frames"]

/-- The recording is written, and the file's name given; there is none when nothing was being
recorded. The recorder is empty afterwards in any case. -/
def stopRecording (now : Moment) (e : Engine σ) : Except StorageError (Option String) × Engine σ :=
  if !e.recorder.recording then (.ok none, e)
  else
    let (recorded, recorder) := e.recorder.stop
    let name := now.unix ++ e.config.recordingExtension
    let text := Script.write recorded.segments (recordingHeader now recorded)
    let (outcome, storage) := Storage.write e.storage name text
    (outcome.map fun _ => some name, { e with recorder, storage })

/-- The buttons that became held act if they are exactly those of a trigger: cancel while a script
plays, stop while recording, and otherwise the two starts, playback first. The answer is whether
recording was switched on or off. -/
def react (now : Moment) (buttons : Buttons) (e : Engine σ) : Bool × Engine σ :=
  let edge := buttons != e.held
  let e := { e with held := buttons }
  if !edge then (false, e)
  else if e.playback.isActive then
    (false, if buttons = e.triggers.cancelPlayback then e.finalize now else e)
  else if e.recorder.recording then
    if buttons = e.triggers.stopRecording then (true, (e.stopRecording now).2) else (false, e)
  else if buttons = e.triggers.startPlayback then (false, (e.startPlayback now).2)
  else if buttons = e.triggers.startRecording then (true, e.startRecording.2)
  else (false, e)

/-- The input of the frame: that of the script if one is playing. -/
def next (e : Engine σ) : InputFrame × Engine σ :=
  let (frame, playback, clock) := e.playback.tick e.clock
  let idle := InputFrame.idle e.config.rate e.recorder.recording
  (frame.getD idle, { e with playback, clock })

/-- Triggers act first, a run whose last frame has been handed out is closed, and live input is
recorded except in a frame that switches recording on or off. -/
def poll (now : Moment) (live : Controller) (e : Engine σ) : InputFrame × Engine σ :=
  let (toggled, e) := e.react now live.buttons
  let (frame, e) := (e.finalizeIfComplete now).next
  (frame, if toggled then e else { e with recorder := e.recorder.record live })

/-- The game's report on a frame counts while a run is going on, and closes a run whose last frame
has been handed out. -/
def submit (now : Moment) (results : FrameResults) (e : Engine σ) : Engine σ :=
  if !e.playback.isActive || results.frame == 0 then e
  else
    let marker := e.playback.store.markerAt results.frame
    let e := { e with tracker := e.tracker.record results marker }
    e.finalizeIfComplete now

end Engine
end PadScript
