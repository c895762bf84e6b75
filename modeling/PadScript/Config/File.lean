import PadScript.Config.Basic
import PadScript.Disk
import PadScript.Toml.Reader

/-!
# Settings files

`Config.text` writes all settings as a settings file and `Config.ofText` reads one. A missing
entry has its default; a file with anything wrong in it gives the defaults for all. Entries that
mean nothing here are looked at as well, but not the items of a list beyond those that are needed.
`Config.save` puts the settings file on a disk.
-/
namespace PadScript

namespace Toml

def string? : Toml → Option String
  | string s => some s
  | _ => none

def below? (bound : Nat) : Toml → Option Nat
  | integer n => if 0 ≤ n ∧ n < bound then some n.toNat else none
  | _ => none

/-- The entry under a key as `read` reads it, or the default where there is none. -/
def field {α : Type} (read : Toml → Option α) (default : α) (key : String) (entries : Entries) :
    Option α :=
  match entries.lookup key with
  | none => some default
  | some v => read v

/-- The item at a place of a list as `read` reads it, or the default beyond its end. -/
def item {α : Type} (read : Toml → Option α) (default : α) (place : Nat) (items : List Toml) :
    Option α :=
  match items[place]? with
  | none => some default
  | some v => read v

end Toml

namespace TriggerTexts

def ofEntries? (entries : Toml.Entries) : Option TriggerTexts :=
  let d : TriggerTexts := {}
  if !Toml.entriesReadable entries then none
  else do
    return {
      startPlayback := ← Toml.field Toml.string? d.startPlayback "start_playback" entries
      cancelPlayback := ← Toml.field Toml.string? d.cancelPlayback "cancel_playback" entries
      startRecording := ← Toml.field Toml.string? d.startRecording "start_recording" entries
      stopRecording := ← Toml.field Toml.string? d.stopRecording "stop_recording" entries }

/-- Triggers in their order; further items are not looked at. -/
def ofItems? (items : List Toml) : Option TriggerTexts :=
  let d : TriggerTexts := {}
  do
    return {
      startPlayback := ← Toml.item Toml.string? d.startPlayback 0 items
      cancelPlayback := ← Toml.item Toml.string? d.cancelPlayback 1 items
      startRecording := ← Toml.item Toml.string? d.startRecording 2 items
      stopRecording := ← Toml.item Toml.string? d.stopRecording 3 items }

/-- The triggers are a table or a list. A moment is taken for a table that has none of the
names. -/
def ofToml? : Toml → Option TriggerTexts
  | .table _ entries => ofEntries? entries
  | .list items => ofItems? items
  | .moment _ => some {}
  | _ => none

end TriggerTexts

namespace Config

def ofEntries? (entries : Toml.Entries) : Option Config :=
  let d : Config := {}
  let text (default key : String) : Option String := Toml.field Toml.string? default key entries
  let others := entries.filter fun (key, _) => key ≠ "triggers"
  if !Toml.entriesReadable others then none
  else do
    return {
      folder := ← text d.folder "folder"
      mainScript := ← text d.mainScript "main_script"
      scriptExtension := ← text d.scriptExtension "script_extension"
      recordingExtension := ← text d.recordingExtension "recording_extension"
      resultsExtension := ← text d.resultsExtension "results_extension"
      rate := UInt32.ofNat
        (← Toml.field (Toml.below? UInt32.size) d.rate.toNat "default_frame_rate" entries)
      importDepth := UInt64.ofNat
        (← Toml.field (Toml.below? UInt64.size) d.importDepth.toNat "max_import_depth" entries)
      triggers := ← Toml.field TriggerTexts.ofToml? d.triggers "triggers" entries }

def ofText (text : String) : Config := ((Toml.parse? text).bind ofEntries?).getD {}

def textLine (key value : String) : String := key ++ " = " ++ Toml.quote value ++ "\n"

def numberLine (key : String) (value : Nat) : String := key ++ " = " ++ toString value ++ "\n"

def text (c : Config) : String :=
  String.join [
    textLine "folder" c.folder,
    textLine "main_script" c.mainScript,
    textLine "script_extension" c.scriptExtension,
    textLine "recording_extension" c.recordingExtension,
    textLine "results_extension" c.resultsExtension,
    numberLine "default_frame_rate" c.rate.toNat,
    numberLine "max_import_depth" c.importDepth.toNat,
    "\n[triggers]\n",
    textLine "start_playback" c.triggers.startPlayback,
    textLine "cancel_playback" c.triggers.cancelPlayback,
    textLine "start_recording" c.triggers.startRecording,
    textLine "stop_recording" c.triggers.stopRecording]

/-- The settings are written to a file, whose folder is made when it is not there. -/
def save (c : Config) (disk : Disk) (path : String) : Except FileError Unit × Disk :=
  match disk.ensureFolder (Path.folderOf path) with
  | (.error e, disk) => (.error e, disk)
  | (.ok (), disk) =>
    match disk.write path c.text with
    | .error e => (.error e, disk)
    | .ok disk => (.ok (), disk)

end Config
end PadScript
