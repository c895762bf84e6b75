import PadScript.Cli.Execute
import Std.Time.DateTime.Timestamp

/-!
# The program

The files that a command may read are gathered into a disk, the command runs on it, and what it
has changed is written back.
-/
namespace PadScript.Cli

def readNode (path : String) : IO (Option Node) := do
  try
    let bytes ← IO.FS.readBinFile path
    return some (.file (String.fromUTF8? bytes))
  catch _ => return none

def isFolder (path : String) : IO Bool := do ((← IO.currentDir) / path).isDir

def note (d : Disk) (path : String) : IO Disk := do
  let place := match d.walk (d.start path) (Path.pieces path) with
    | .ok place => place
    | .error _ => d.start path ++ (Path.pieces path).filter Path.isName
  if ← isFolder path then return d.plant place .folder
  match ← readNode path with
  | some node => return d.plant place node
  | none => return d

/-- The scripts that the given ones import, directly or through others, are noted. -/
partial def gather (storage : FolderStorage) (seen : List String) :
    List String → IO FolderStorage
  | [] => return storage
  | name :: rest => do
    if seen.contains name then gather storage seen rest
    else
      let disk ← note storage.disk (storage.location name)
      let storage := { storage with disk }
      let imports := match storage.read name with
        | .ok text => (Script.lines name text).filterMap fun e => e.reading.import?
        | .error _ => []
      gather storage (name :: seen) (imports ++ rest)

def gatherFor (d : Disk) (path : Option String) (command : Command) : IO Disk := do
  let d ← match path with
    | some path => note d path
    | none => pure d
  let config := settingsOf d path
  let scripts (folder : String) (script : Option String) : IO Disk := do
    let d ← note d folder
    let storage ← gather ⟨d, folder, config.scriptExtension⟩ []
      [script.getD config.mainScript, config.mainScript]
    return storage.disk
  match command with
  | .check folder script _ => scripts folder script
  | .run folder script trace _ => do
    let d ← scripts folder script
    match trace with
    | some path => note d ("/".intercalate (Path.pieces path).dropLast)
    | none => return d
  | .record folder trace => do note (← note d folder) trace

def writeBack (before after : Disk) : IO Unit := do
  for (place, text) in before.changes after do
    IO.FS.createDirAll ("/" ++ "/".intercalate place.dropLast)
    IO.FS.writeFile ("/" ++ "/".intercalate place) text

def standardSettings : IO (Option String) := do
  let folder := match ← IO.getEnv "XDG_CONFIG_HOME", ← IO.getEnv "HOME" with
    | some path, home => if Path.isAbsolute path then some path else home.map (· ++ "/.config")
    | none, home => home.map (· ++ "/.config")
  return folder.map (· ++ "/jaktas/tas.toml")

def present : IO Moment := do
  let seconds := toString (← Std.Time.Timestamp.now).toSecondsSinceUnixEpoch.val
  return ⟨seconds, seconds⟩

end PadScript.Cli

open PadScript Cli in
def main (words : List String) : IO UInt32 := do
  let here := ((Path.pieces (← IO.currentDir).toString).filter Path.isName)
  let empty := ({ here } : Disk).plant here .folder
  let settings ← standardSettings
  let disk ← match Invocation.ofWords? words with
    | some (.execute named command) => gatherFor empty (named <|> settings) command
    | _ => pure empty
  let outcome := program ⟨disk, settings, ← present⟩ words
  IO.print outcome.output
  IO.eprint outcome.errors
  writeBack disk outcome.disk
  return UInt32.ofNat outcome.exit
