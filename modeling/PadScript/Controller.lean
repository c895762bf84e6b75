import PadScript.Buttons
import PadScript.Single.Basic

/-!
# The controller

What the pad reports in one frame: the held buttons and four axes.
-/
namespace PadScript

/-- The axes in the order in which scripts write them. -/
inductive Axis
  | playerAngle | playerSpeed | cameraAngle | cameraZoom
  deriving DecidableEq, Repr

namespace Axis

def all : List Axis := [.playerAngle, .playerSpeed, .cameraAngle, .cameraZoom]

def name : Axis → String
  | playerAngle => "player-angle"
  | playerSpeed => "player-speed"
  | cameraAngle => "camera-angle"
  | cameraZoom => "camera-zoom"

@[simp] theorem mem_all (a : Axis) : a ∈ all := by cases a <;> decide

end Axis

structure Axes where
  playerAngle : Single := .zero
  playerSpeed : Single := .zero
  cameraAngle : Single := .zero
  cameraZoom : Single := .zero
  deriving DecidableEq, Repr, Inhabited

namespace Axes

def get (axes : Axes) : Axis → Single
  | .playerAngle => axes.playerAngle
  | .playerSpeed => axes.playerSpeed
  | .cameraAngle => axes.cameraAngle
  | .cameraZoom => axes.cameraZoom

def set (axes : Axes) (axis : Axis) (value : Single) : Axes :=
  match axis with
  | .playerAngle => { axes with playerAngle := value }
  | .playerSpeed => { axes with playerSpeed := value }
  | .cameraAngle => { axes with cameraAngle := value }
  | .cameraZoom => { axes with cameraZoom := value }

def map (f : Single → Single) (axes : Axes) : Axes :=
  ⟨f axes.playerAngle, f axes.playerSpeed, f axes.cameraAngle, f axes.cameraZoom⟩

def numEq (a b : Axes) : Bool := Axis.all.all fun x => (a.get x).numEq (b.get x)

theorem get_set (axes : Axes) (a b : Axis) (v : Single) :
    (axes.set a v).get b = if a = b then v else axes.get b := by
  cases a <;> cases b <;> rfl

@[simp] theorem get_map (f : Single → Single) (axes : Axes) (a : Axis) :
    (axes.map f).get a = f (axes.get a) := by
  cases a <;> rfl

theorem ext_get {a b : Axes} (h : ∀ x, a.get x = b.get x) : a = b := by
  cases a; cases b
  exact congr (congr (congr (congrArg _ (h .playerAngle)) (h .playerSpeed)) (h .cameraAngle))
    (h .cameraZoom)

end Axes

structure Controller where
  buttons : Buttons := .empty
  axes : Axes := {}
  deriving DecidableEq, Repr, Inhabited

namespace Controller

def numEq (a b : Controller) : Bool := a.buttons = b.buttons && a.axes.numEq b.axes

/-- Axes that hold no finite number are put to zero. -/
def finite (c : Controller) : Controller := { c with axes := c.axes.map Single.finiteOrZero }

end Controller
end PadScript
