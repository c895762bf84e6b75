import PadScript.Script.Flat
import PadScript.Store

/-!
# Loading

`Draft.take` works one line after the other into segments. A directive changes the settings of
the segment that the next row will fill; a row fills it, after which the next change opens its
successor. `load` runs this over a script with its imports in place.
-/
namespace PadScript.Script

structure Diagnostic where
  source : Location
  issue : Issue
  deriving DecidableEq, Repr

def Diagnostic.text (d : Diagnostic) : String := d.source.text ++ ": " ++ d.issue.message

/-- The latest segment of a draft: there is none, it has settings but no frames yet, or a row has
filled it. -/
inductive Latest
  | absent
  | opened (s : Segment)
  | filled (s : Segment)
  deriving DecidableEq, Repr

def Latest.toList : Latest → List Segment
  | absent => []
  | opened s => [s]
  | filled s => [s]

/-- What has been read so far; `earlier` and `diagnostics` hold the latest first. -/
structure Draft where
  earlier : List Segment := []
  latest : Latest := .absent
  saveResults : Bool := false
  diagnostics : List Diagnostic := []
  deriving DecidableEq, Repr

structure Loaded where
  store : Store
  saveResults : Bool
  diagnostics : List Diagnostic
  deriving DecidableEq, Repr

namespace Draft

/-- The segments before the one that a line at `source` changes, the latest first, and that
segment. -/
def pending (rate : UInt32) (d : Draft) (source : Location) : List Segment × Segment :=
  match d.latest with
  | .absent => (d.earlier, { Segment.fresh 1 source with rate })
  | .opened s => (d.earlier, s)
  | .filled s => (s :: d.earlier, s.successor source)

def adjust (rate : UInt32) (d : Draft) (source : Location) (change : Segment → Segment) : Draft :=
  let (earlier, s) := d.pending rate source
  { d with earlier, latest := .opened (change s) }

def direct (rate : UInt32) (d : Draft) (source : Location) : Directive → Draft
  | .frameRate value => d.adjust rate source fun s => { s with rate := value }
  | .marker name => d.adjust rate source fun s => { s with marker := some name }
  | .skipMovies on => d.adjust rate source fun s => { s with skipMovies := on }
  | .saveResults on => { d with saveResults := on }
  | .importScript _ => d

/-- The input of a row: its fields upon what is there. -/
def press (input : Controller) (fields : List Field) : Controller :=
  fields.foldl (fun c field =>
    match field with
    | .button b => { c with buttons := c.buttons.union (.ofButton b) }
    | .axis a value => { c with axes := c.axes.set a value }) input

/-- A row without frames changes nothing, and one that would reach the largest frame number is
reported and leaves the pending segment open. -/
def fill (rate : UInt32) (d : Draft) (source : Location) (frames : UInt64) (fields : List Field) :
    Draft :=
  if frames = 0 then d
  else
    let (earlier, s) := d.pending rate source
    match s.last.later? frames with
    | none =>
      let issue := Issue.malformedFrameCount (toString frames.toNat)
      { d with earlier, latest := .opened s, diagnostics := ⟨source, issue⟩ :: d.diagnostics }
    | some last =>
      { d with earlier, latest := .filled { s with last, input := press s.input fields } }

/-- The line takes effect after its issues have been noted. -/
def take (rate : UInt32) (d : Draft) (entry : Entry) : Draft :=
  let issues := entry.reading.issues.map (Diagnostic.mk entry.source)
  let d := { d with diagnostics := issues.reverse ++ d.diagnostics }
  match entry.reading.line with
  | none => d
  | some .blank => d
  | some (.directive directive) => d.direct rate entry.source directive
  | some (.row frames fields) => d.fill rate entry.source frames fields

/-- Segments that no row has filled are dropped. -/
def finish (d : Draft) : Loaded where
  store := ⟨(d.latest.toList ++ d.earlier).reverse.filter fun s => !s.isEmpty⟩
  saveResults := d.saveResults
  diagnostics := d.diagnostics.reverse

end Draft

def assemble (rate : UInt32) (entries : List Entry) : Loaded :=
  (entries.foldl (Draft.take rate) {}).finish

structure Settings where
  mainScript : String := "main"
  rate : UInt32 := standardRate
  importDepth : Nat := 32
  deriving DecidableEq, Repr

/-- A script is loaded with its imports; an empty name stands for the main script. -/
def load (settings : Settings) (library : Library) (name : String) : Except LoadError Loaded :=
  let name := if name = "" then settings.mainScript else name
  (Flat.ofScript library settings.importDepth name).map (assemble settings.rate)

end PadScript.Script
