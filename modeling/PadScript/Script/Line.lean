import PadScript.Controller
import PadScript.Single.Text

/-!
# Lines of a script

A script is read line by line, blanks not counting anywhere. A line is empty, a comment, one of
five directives, or a row: a frame count and fields between commas, each a button or an axis with
its value. A piece that cannot be read becomes an issue and is skipped; `Reading.ofText` never
fails as a whole.
-/
namespace PadScript.Script

/-- The words that begin a directive, in the order in which they are tried. -/
inductive Keyword
  | importScript | frameRate | marker | saveResults | skipMovies
  deriving DecidableEq, Repr

namespace Keyword

def all : List Keyword := [.importScript, .frameRate, .marker, .saveResults, .skipMovies]

def name : Keyword → String
  | importScript => "import"
  | frameRate => "frame-rate"
  | marker => "marker"
  | saveResults => "save-results"
  | skipMovies => "skip-spool-movies"

@[simp] theorem mem_all (k : Keyword) : k ∈ all := by cases k <;> decide

end Keyword

inductive Directive
  | importScript (name : String)
  | frameRate (rate : UInt32)
  | marker (name : String)
  | saveResults (on : Bool)
  | skipMovies (on : Bool)
  deriving DecidableEq, Repr

inductive Field
  | button (b : Button)
  | axis (a : Axis) (value : Single)
  deriving DecidableEq, Repr

inductive Line
  | blank
  | directive (d : Directive)
  | row (frames : UInt64) (fields : List Field)
  deriving DecidableEq, Repr

/-- What is reported and skipped in a script. -/
inductive Issue
  | scriptNotFound (name reason : String)
  | malformedFrameCount (text : String)
  | malformedValue (key value : String)
  | unknownField (field : String)
  deriving DecidableEq, Repr

def Issue.message : Issue → String
  | scriptNotFound name reason => "script '" ++ name ++ "' not found: " ++ reason
  | malformedFrameCount text => "skipping line, '" ++ text ++ "' is not a frame count"
  | malformedValue key value => "skipping malformed value for " ++ key ++ ": '" ++ value ++ "'"
  | unknownField field => "skipping unhandled field: '" ++ field ++ "'"

/-- What a line says, nothing if it is skipped as a whole, and the issues in it. -/
structure Reading where
  line : Option Line
  issues : List Issue
  deriving DecidableEq, Repr

def commentSign : Char := '#'

/-- A key, an equals sign and a value that is not empty. -/
def valueOf? (key : String) (text : List Char) : Option (List Char) :=
  ((Text.after? key.toList text).bind (Text.after? ['='])).filter fun value => !value.isEmpty

/-- The first of `keys` that `text` sets, with its value. -/
def setting? {α : Type} (name : α → String) (keys : List α) (text : List Char) :
    Option (α × List Char) :=
  keys.findSome? fun key => (valueOf? (name key) text).map (key, ·)

def switch? (text : List Char) : Option Bool :=
  if text = "true".toList then some true
  else if text = "false".toList then some false
  else none

def frameCount? (text : List Char) : Option UInt64 :=
  (Text.unsigned? UInt64.size text).map UInt64.ofNat

def frameRate? (text : List Char) : Option UInt32 :=
  (Text.unsigned? UInt32.size text).map UInt32.ofNat

/-- An axis takes finite numbers only. -/
def axisValue? (text : List Char) : Option Single :=
  (Single.ofText? (String.ofList text)).filter Single.isFinite

namespace Directive

def of? (key : Keyword) (value : List Char) : Option Directive :=
  match key with
  | .importScript => some (.importScript (String.ofList value))
  | .frameRate => (frameRate? value).map .frameRate
  | .marker => some (.marker (String.ofList value))
  | .saveResults => (switch? value).map .saveResults
  | .skipMovies => (switch? value).map .skipMovies

end Directive

namespace Field

def ofText (text : List Char) : Except Issue Field :=
  match Button.ofName? (String.ofList text) with
  | some b => .ok (.button b)
  | none =>
    match setting? Axis.name Axis.all text with
    | some (a, value) =>
      match axisValue? value with
      | some v => .ok (.axis a v)
      | none => .error (.malformedValue a.name (String.ofList value))
    | none => .error (.unknownField (String.ofList text))

/-- The fields that can be read and the issues of the others, each in the order of the text. -/
def gather : List (List Char) → List Field × List Issue
  | [] => ([], [])
  | text :: rest =>
    let (fields, issues) := gather rest
    match ofText text with
    | .ok field => (field :: fields, issues)
    | .error issue => (fields, issue :: issues)

end Field

namespace Reading

def of (line : Line) : Reading := ⟨some line, []⟩

def skipped (issue : Issue) : Reading := ⟨none, [issue]⟩

/-- A row of zero frames says nothing, so its fields are not looked at. -/
def ofRow (text : List Char) : Reading :=
  match Text.pieces ',' text with
  | [] => of .blank
  | count :: fieldTexts =>
    match frameCount? count with
    | none => skipped (.malformedFrameCount (String.ofList count))
    | some frames =>
      if frames = 0 then of (.row 0 [])
      else
        let (fields, issues) := Field.gather fieldTexts
        ⟨some (.row frames fields), issues⟩

def ofSqueezed (text : List Char) : Reading :=
  if text.isEmpty || text.head? = some commentSign then of .blank
  else
    match setting? Keyword.name Keyword.all text with
    | some (key, value) =>
      match Directive.of? key value with
      | some d => of (.directive d)
      | none => skipped (.malformedValue key.name (String.ofList value))
    | none => ofRow text

def ofText (text : String) : Reading := ofSqueezed (Text.squeeze text.toList)

example : ofText "frame-rate = 30" = of (.directive (.frameRate 30)) := by decide +kernel
example : ofText "import=" = skipped (.malformedFrameCount "import=") := by decide +kernel
example : ofText "2, Circle, player-angle=90" =
    of (.row 2 [.button .circle, .axis .playerAngle ⟨false, 0x42B40000⟩]) := by decide +kernel
example : ofText "4,X,Jump,camera-zoom=far" =
    ⟨some (.row 4 [.button .x]), [.unknownField "Jump", .malformedValue "camera-zoom" "far"]⟩ := by
  decide +kernel

end Reading
end PadScript.Script
