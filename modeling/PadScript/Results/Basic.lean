import PadScript.Controller
import PadScript.Playback

/-!
# Results of a frame

What the game reports after it has consumed a frame: counters, positions and the input it saw.
-/
namespace PadScript

structure Vec4 where
  x : Single := .zero
  y : Single := .zero
  z : Single := .zero
  w : Single := .zero
  deriving DecidableEq, Repr, Inhabited

def Vec4.numEq (a b : Vec4) : Bool :=
  a.x.numEq b.x && a.y.numEq b.y && a.z.numEq b.z && a.w.numEq b.w

structure Counters where
  fuelCells : Single := .zero
  money : Single := .zero
  buzzers : Single := .zero
  deriving DecidableEq, Repr, Inhabited

def Counters.numEq (a b : Counters) : Bool :=
  a.fuelCells.numEq b.fuelCells && a.money.numEq b.money && a.buzzers.numEq b.buzzers

structure Snapshot where
  counters : Counters := {}
  player : Vec4 := {}
  camera : Vec4 := {}
  deriving DecidableEq, Repr, Inhabited

def Snapshot.numEq (a b : Snapshot) : Bool :=
  a.counters.numEq b.counters && a.player.numEq b.player && a.camera.numEq b.camera

structure FrameResults where
  frame : Frame
  snapshot : Snapshot := {}
  input : Controller := {}
  deriving DecidableEq, Repr, Inhabited

/-- The results of a game in which nothing happens, and which saw the input of `f`. -/
def FrameResults.echo (f : InputFrame) : FrameResults := { frame := f.frame, input := f.input }

end PadScript
