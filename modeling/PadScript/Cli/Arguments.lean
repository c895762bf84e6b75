import PadScript.Text

/-!
# Command line arguments

The words of a command line are read from left to right. An option has a long name, perhaps a
letter, and perhaps a value, which is attached or is the next word; after a lone `--` all words
stand for themselves. Reading stops at the first request for help or the version.
-/
namespace PadScript.Cli

/-- An option of a command; one whose value has a name needs a value, the others must not have
one. -/
structure OptionSpec where
  name : String
  letter : Option Char := none
  valueName : Option String := none
  about : String
  deriving DecidableEq, Repr

inductive Request
  | help | version
  deriving DecidableEq, Repr

inductive Argument
  | option (name value : String)
  | switch (name : String)
  | word (text : String)
  | request (r : Request)
  deriving DecidableEq, Repr

/-- A word as it looks before any option is known. -/
inductive Shape
  | separator
  | long (name : String) (value : Option String)
  | short (letters : List Char)
  | plain
  deriving DecidableEq, Repr

def shape (word : String) : Shape :=
  match word.toList with
  | ['-', '-'] => .separator
  | '-' :: '-' :: r =>
    let name := r.takeWhile (· ≠ '=')
    let value := r.drop (name.length + 1)
    .long (String.ofList name) (if name.length < r.length then some (String.ofList value) else none)
  | '-' :: c :: r => .short (c :: r)
  | _ => .plain

def helpOption : OptionSpec := { name := "help", letter := some 'h', about := "Print help" }

def versionOption : OptionSpec :=
  { name := "version", letter := some 'V', about := "Print version" }

namespace Argument

def ofSwitch (o : OptionSpec) : Argument :=
  if o = helpOption then .request .help
  else if o = versionOption then .request .version
  else .switch o.name

def isRequest : Argument → Bool
  | request _ => true
  | _ => false

/-- A word of option letters: what it says, and the option that still needs its value from the
next word. -/
def ofLetters? (options : List OptionSpec) :
    List Char → Option (List Argument × Option OptionSpec)
  | [] => some ([], none)
  | c :: r =>
    match options.find? fun o => o.letter = some c with
    | none => none
    | some o =>
      if o.valueName.isSome then
        match r with
        | [] => some ([], some o)
        | '=' :: value => some ([.option o.name (String.ofList value)], none)
        | value => some ([.option o.name (String.ofList value)], none)
      else if (ofSwitch o).isRequest then some ([ofSwitch o], none)
      else (ofLetters? options r).map fun (more, pending) => (ofSwitch o :: more, pending)

def ofShape? (options : List OptionSpec) : Shape → Option (List Argument × Option OptionSpec)
  | .long name value =>
    match options.find? fun o => o.name = name, value with
    | none, _ => none
    | some o, none => some (if o.valueName.isSome then ([], some o) else ([ofSwitch o], none))
    | some o, some value =>
      if o.valueName.isSome then some ([.option o.name value], none) else none
  | .short letters => ofLetters? options letters
  | _ => some ([], none)

/-- All words of a command line up to the first plain one, if it `ends` there, and the words from
that one on. An option that is `pending` takes the next word, which must not look like an
option. -/
def ofWords? (options : List OptionSpec) (ends : Bool) :
    (pending : Option OptionSpec) → (verbatim : Bool) → List String →
    Option (List Argument × List String)
  | some _, _, [] => none
  | none, _, [] => some ([], [])
  | some _, true, _ :: _ => none
  | none, true, w :: rest => do
    let (more, tail) ← ofWords? options ends none true rest
    some (.word w :: more, tail)
  | some o, false, w :: rest =>
    if shape w = .plain then do
      let (more, tail) ← ofWords? options ends none false rest
      some (.option o.name w :: more, tail)
    else none
  | none, false, w :: rest =>
    match shape w with
    | .separator => ofWords? options ends none true rest
    | .plain =>
      if ends then some ([], w :: rest)
      else do
        let (more, tail) ← ofWords? options ends none false rest
        some (.word w :: more, tail)
    | s => do
      let (first, pending) ← ofShape? options s
      if first.any isRequest then some (first, [])
      else
        let (more, tail) ← ofWords? options ends pending false rest
        some (first ++ more, tail)

end Argument

/-- What is said more than once, or in a wrong way, makes the command line unreadable. -/
def once? {α : Type} (pick : Argument → Option α) (args : List Argument) : Option (Option α) :=
  match args.filterMap pick with
  | [] => some none
  | [x] => some (some x)
  | _ => none

def valueOf? (name : String) (args : List Argument) : Option (Option String) :=
  once? (fun | .option n v => if n = name then some v else none | _ => none) args

def path? (path : Option String) : Option (Option String) :=
  if path = some "" then none else some path

def pathOf? (name : String) (args : List Argument) : Option (Option String) :=
  (valueOf? name args).bind path?

def numberOf? (name : String) (args : List Argument) : Option (Option UInt64) := do
  match ← valueOf? name args with
  | none => some none
  | some text => (Text.unsigned? UInt64.size text.toList).map fun n => some (UInt64.ofNat n)

def isOn? (name : String) (args : List Argument) : Option Bool :=
  (once? (fun | .switch n => if n = name then some () else none | _ => none) args).map
    Option.isSome

/-- The one word that is no option, which names a folder. -/
def folderOf? (args : List Argument) : Option (Option String) :=
  (once? (fun | .word w => some w | _ => none) args).bind path?

def request? (args : List Argument) : Option Request :=
  args.findSome? fun
    | .request r => some r
    | _ => none

example : shape "--script=a=b" = .long "script" (some "a=b") ∧ shape "-" = .plain := by
  decide +kernel
example : Argument.ofWords? [helpOption] false none false ["a", "-h", "b"] =
    some ([.word "a", .request .help], []) := by decide +kernel

end PadScript.Cli
