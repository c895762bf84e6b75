import PadScript.Buttons
import PadScript.Script.Load

/-!
# Settings

Where scripts and outputs lie, what they are called, and which buttons drive the engine.
-/
namespace PadScript

/-- The combinations of buttons that drive the engine, as they are written in a settings file. -/
structure TriggerTexts where
  startPlayback : String := "L3"
  cancelPlayback : String := "Triangle"
  startRecording : String := "L2"
  stopRecording : String := "R2"
  deriving DecidableEq, Repr, Inhabited

/-- A trigger fires when exactly its buttons become held. -/
structure Triggers where
  startPlayback : Buttons := .ofButton .l3
  cancelPlayback : Buttons := .ofButton .triangle
  startRecording : Buttons := .ofButton .l2
  stopRecording : Buttons := .ofButton .r2
  deriving DecidableEq, Repr, Inhabited

inductive ConfigError
  | unknownButton (trigger button : String)
  | emptyTrigger (trigger : String)
  deriving DecidableEq, Repr

def ConfigError.message : ConfigError → String
  | unknownButton trigger button => "trigger " ++ trigger ++ ": unknown button '" ++ button ++ "'"
  | emptyTrigger trigger => "trigger " ++ trigger ++ " has no buttons"

namespace TriggerTexts

/-- The buttons of one trigger, of which there has to be one at least. -/
def resolveOne (trigger combo : String) : Except ConfigError Buttons :=
  match Buttons.ofCombo combo with
  | .error button => .error (.unknownButton trigger button)
  | .ok buttons => if buttons.isEmpty then .error (.emptyTrigger trigger) else .ok buttons

def resolve (t : TriggerTexts) : Except ConfigError Triggers := do
  return {
    startPlayback := ← resolveOne "start_playback" t.startPlayback
    cancelPlayback := ← resolveOne "cancel_playback" t.cancelPlayback
    startRecording := ← resolveOne "start_recording" t.startRecording
    stopRecording := ← resolveOne "stop_recording" t.stopRecording }

end TriggerTexts

structure Config where
  folder : String := "tas/jak1"
  mainScript : String := "main"
  scriptExtension : String := ".jaktas"
  recordingExtension : String := ".recording.jaktas"
  resultsExtension : String := ".automated.results.json"
  rate : UInt32 := standardRate
  importDepth : UInt64 := 32
  triggers : TriggerTexts := {}
  deriving DecidableEq, Repr, Inhabited

def Config.loading (c : Config) : Script.Settings := ⟨c.mainScript, c.rate, c.importDepth.toNat⟩

end PadScript
