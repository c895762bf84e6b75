import PadScript.Cli.Arguments

/-!
# Commands

The commands with their options, and the reading of a whole command line. `CommandSpec.help` is
the text that a request for help is answered with.
-/
namespace PadScript.Cli

/-- A command works on one folder. -/
structure CommandSpec where
  name : String
  about : String
  folder : String
  /-- The options that have to be there, as the line of usage shows them. -/
  required : String := ""
  options : List OptionSpec

def configOption : OptionSpec :=
  { name := "config", valueName := some "CONFIG"
    about := "TOML config file (defaults to the platform config directory)" }

def checkSpec : CommandSpec where
  name := "check"
  about := "Load a script and report its segments and warnings"
  folder := "TAS folder holding the scripts"
  options := [
    { name := "script", letter := some 's', valueName := some "SCRIPT"
      about := "Script to load instead of the configured main script" },
    { name := "strict", about := "Treat warnings as errors" }]

def standardMaxFrames : UInt64 := 216000

def runSpec : CommandSpec where
  name := "run"
  about := "Play a script without the game"
  folder := "TAS folder holding the scripts"
  options := [
    { name := "script", letter := some 's', valueName := some "SCRIPT"
      about := "Script to play instead of the configured main script" },
    { name := "trace", letter := some 't', valueName := some "TRACE"
      about := "Write every played frame to this JSON file" },
    { name := "max-frames", valueName := some "MAX_FRAMES"
      about := "Cancel the run after this many frames [default: " ++
        toString standardMaxFrames.toNat ++ "]" }]

def recordSpec : CommandSpec where
  name := "record"
  about := "Compress a JSON controller trace into a recording script"
  folder := "TAS folder to write the recording into"
  required := "--trace <TRACE> "
  options := [
    { name := "trace", letter := some 't', valueName := some "TRACE"
      about := "JSON array of controller frames" }]

namespace CommandSpec

def all : List CommandSpec := [checkSpec, runSpec, recordSpec]

def find? (name : String) : Option CommandSpec := all.find? fun c => c.name = name

end CommandSpec

def helpCommandAbout : String := "Print this message or the help of the given subcommand(s)"

def helpSection (title : String) (rows : List (String × String)) : String :=
  let width := (rows.map fun row => row.1.length).foldl max 0
  if rows.isEmpty then ""
  else "\n" ++ title ++ ":\n" ++ String.join (rows.map fun (text, about) =>
    "  " ++ Text.padRight width text ++ "  " ++ about ++ "\n")

def OptionSpec.row (o : OptionSpec) : String × String :=
  let letter := match o.letter with
    | some c => String.ofList ['-', c, ',', ' ']
    | none => "    "
  let value := match o.valueName with
    | some v => " <" ++ v ++ ">"
    | none => ""
  (letter ++ "--" ++ o.name ++ value, o.about)

def CommandSpec.help (c : CommandSpec) : String :=
  c.about ++ "\n\nUsage: jaktas " ++ c.name ++ " [OPTIONS] " ++ c.required ++ "<DIR>\n" ++
    helpSection "Arguments" [("<DIR>", c.folder)] ++
    helpSection "Options" ((configOption :: c.options ++ [helpOption]).map OptionSpec.row)

def programHelp : String :=
  "Check, run and record TAS scripts\n\nUsage: jaktas [OPTIONS] <COMMAND>\n" ++
    helpSection "Commands"
      ((CommandSpec.all.map fun c => (c.name, c.about)) ++ [("help", helpCommandAbout)]) ++
    helpSection "Options" ([configOption, helpOption, versionOption].map OptionSpec.row)

def helpCommandHelp : String :=
  helpCommandAbout ++ "\n\nUsage: jaktas help [COMMAND]...\n" ++
    helpSection "Arguments" [("[COMMAND]...", "Print help for the subcommand(s)")]

def versionText : String := "jaktas 0.1.0\n"

inductive Command
  | check (folder : String) (script : Option String) (strict : Bool)
  | run (folder : String) (script trace : Option String) (maxFrames : UInt64)
  | record (folder trace : String)
  deriving DecidableEq, Repr

/-- A command is executed, with a settings file if one is named, or a text is all that is asked
for. -/
inductive Invocation
  | execute (settings : Option String) (command : Command)
  | print (text : String)
  deriving DecidableEq, Repr

/-- The command that its arguments spell out, unless help is asked for. What is there has to be
right even then, but nothing has to be there. -/
def Command.ofArguments? (name : String) (args : List Argument) : Option (Option Command) := do
  let asked := (request? args).isSome
  let folder ← folderOf? args
  match name with
  | "check" =>
    let script ← valueOf? "script" args
    let strict ← isOn? "strict" args
    if asked then some none else some (some (.check (← folder) script strict))
  | "run" =>
    let script ← valueOf? "script" args
    let trace ← pathOf? "trace" args
    let maxFrames := (← numberOf? "max-frames" args).getD standardMaxFrames
    if asked then some none else some (some (.run (← folder) script trace maxFrames))
  | _ =>
    let trace ← pathOf? "trace" args
    if asked then some none else some (some (.record (← folder) (← trace)))

namespace Invocation

def ofCommandWords? (spec : CommandSpec) (words : List String) : Option Invocation := do
  let options := spec.options ++ [configOption, helpOption]
  let (args, _) ← Argument.ofWords? options false none false words
  let own ← pathOf? "config" args
  match ← Command.ofArguments? spec.name args with
  | some command => some (.execute own command)
  | none => some (.print spec.help)

def ofHelpWords? : List String → Option Invocation
  | [] => some (.print programHelp)
  | ["help"] => some (.print helpCommandHelp)
  | [name] => (CommandSpec.find? name).map fun spec => .print spec.help
  | _ => none

def ofTail? (name : String) (words : List String) : Option Invocation :=
  if name = "help" then ofHelpWords? words
  else (CommandSpec.find? name).bind (ofCommandWords? · words)

/-- The general arguments that have to be right when a command's name is reached; `words` spell
them out. An option whose value is a word of its own is looked at when more arguments follow it or
the whole line is read, so the last one is not among them. -/
def settled (words : List String) (args : List Argument) : List Argument :=
  if words.getLast?.any (shape · = .plain) then args.dropLast else args

/-- The words of a whole command line: general options, a command, and what belongs to it. A
settings file that is named after the command counts before one that is named ahead of it. -/
def ofWords? (words : List String) : Option Invocation := do
  let options := [configOption, helpOption, versionOption]
  let (args, tail) ← Argument.ofWords? options true none false words
  match request? args, args.any fun a => a matches .word _, tail with
  | some .help, _, _ => (pathOf? "config" args).map fun _ => .print programHelp
  | some .version, _, _ => (pathOf? "config" args).map fun _ => .print versionText
  | none, false, name :: rest =>
    let _ ← pathOf? "config" (settled (words.take (words.length - tail.length)) args)
    match ← ofTail? name rest with
    | .print text => some (.print text)
    | .execute own command =>
      (pathOf? "config" args).map fun general => .execute (own <|> general) command
  | none, _, _ => none

example : ofWords? ["run", "--max-frames", "7", "tas"] =
    some (.execute none (.run "tas" none none 7)) := by decide +kernel
example : ofWords? ["--config", "a", "record", "-tb", "tas", "--config=c"] =
    some (.execute (some "c") (.record "tas" "b")) := by decide +kernel
example : ofWords? ["--config", "", "help"] = some (.print programHelp) ∧
    ofWords? ["--config=", "help"] = none ∧
    ofWords? ["--config", "", "check", "tas"] = none := by decide +kernel
example : ofWords? ["check"] = none ∧ ofWords? ["help", "play"] = none := by decide +kernel

end Invocation
end PadScript.Cli
