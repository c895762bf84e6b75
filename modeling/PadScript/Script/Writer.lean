import PadScript.Script.Line
import PadScript.Store

/-!
# Writing scripts

Segments become rows that load again to the same input: the frame count, the buttons, and those
axes whose number differs from the row before, all four on the first row.
-/
namespace PadScript.Script

/-- The number of an axis is written when there is no row before or it differs from it. -/
def changedAxes (previous : Option Axes) (axes : Axes) : List Axis :=
  Axis.all.filter fun a => previous.all fun p => !(p.get a).numEq (axes.get a)

def rowText (previous : Option Axes) (s : Segment) : String :=
  let buttons := s.input.buttons.toList.map fun b => "," ++ b.name
  let axes := (changedAxes previous s.input.axes).map fun a =>
    "," ++ a.name ++ "=" ++ (s.input.axes.get a).toText
  String.join ([toString s.frameCount] ++ buttons ++ axes ++ ["\n"])

def rowTexts : Option Axes → List Segment → List String
  | _, [] => []
  | previous, s :: rest => rowText previous s :: rowTexts (some s.input.axes) rest

def commentText (text : String) : String := String.ofList [commentSign, ' '] ++ text ++ "\n"

/-- The script of some segments, under one comment line for each of `header`. -/
def write (segments : List Segment) (header : List String) : String :=
  String.join (header.map commentText ++ rowTexts none segments)

example : write [{ Segment.fresh 1 default with last := 3, input := ⟨⟨0x8010⟩, {}⟩ },
      { Segment.fresh 4 default with last := 4 }] ["recorded"] =
    "# recorded\n3,Up,Square,player-angle=0,player-speed=0,camera-angle=0,camera-zoom=0\n1\n" := by
  decide +kernel

end PadScript.Script
