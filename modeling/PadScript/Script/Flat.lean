import PadScript.Script.Line
import PadScript.Segment
import PadScript.Storage.Basic

/-!
# Scripts with their imports in place

`Flat.ofScript` reads a script and everything that it imports into one list of lines in reading
order: an import line is followed by the lines of the imported script. The names of the scripts
around a line are kept on the way down, so that a script which imports itself is refused, and
their number is bounded.
-/
namespace PadScript.Script

/-- A line of the list with its place. A script that cannot be read leaves one line that holds
nothing but the issue. -/
structure Entry where
  source : Location
  reading : Reading
  deriving DecidableEq, Repr

inductive LoadError
  | importCycle (chain : List String) (source : Location)
  | importDepthExceeded (name : String) (limit : Nat) (source : Location)
  deriving DecidableEq, Repr

def LoadError.message : LoadError → String
  | importCycle chain source =>
    "import cycle at " ++ source.text ++ ": " ++ " -> ".intercalate chain
  | importDepthExceeded name limit source =>
    "import of '" ++ name ++ "' at " ++ source.text ++ " exceeds the nesting limit of " ++
      toString limit

abbrev Library := String → Except StorageError String

def Reading.import? (r : Reading) : Option String :=
  match r.line with
  | some (.directive (.importScript name)) => some name
  | _ => none

def lines (file text : String) : List Entry :=
  (Text.pieces '\n' text.toList).mapIdx fun i cs =>
    ⟨⟨file, UInt64.ofNat (i + 1)⟩, .ofSqueezed (Text.squeeze cs)⟩

namespace Flat

/-- The lines of the script `name`, which is asked for at `source` inside the scripts `around`
(the outermost first), when `room` further levels are allowed. -/
def descend (library : Library) (limit : Nat) :
    (room : Nat) → (around : List String) → (source : Location) → (name : String) →
    Except LoadError (List Entry)
  | room, around, source, name =>
    if name ∈ around then .error (.importCycle (around ++ [name]) source)
    else match room with
      | 0 => .error (.importDepthExceeded name limit source)
      | room + 1 =>
        match library name with
        | .error e => .ok [⟨source, .skipped (.scriptNotFound name e.message)⟩]
        | .ok text => (lines name text).flatMapM fun entry =>
          match entry.reading.import? with
          | none => .ok [entry]
          | some imported =>
            (descend library limit room (around ++ [name]) entry.source imported).map (entry :: ·)

def ofScript (library : Library) (limit : Nat) (name : String) : Except LoadError (List Entry) :=
  descend library limit (limit + 1) [] ⟨name, 0⟩ name

end Flat
end PadScript.Script
