import PadScript.Store

/-!
# Playback

`Playback.tick` walks a store one frame at a time and sets the game's frame rate where a segment
begins with another one.
-/
namespace PadScript

/-- The game's frame rate, and every rate that it was set to, in order. -/
structure FrameClock where
  rate : UInt32 := standardRate
  changes : List UInt32 := []
  deriving DecidableEq, Repr, Inhabited

namespace FrameClock

def set (clock : FrameClock) (rate : UInt32) : FrameClock := ⟨rate, clock.changes ++ [rate]⟩

def drift (clock : FrameClock) (rate : UInt32) : FrameClock := { clock with rate }

end FrameClock

/-- What the game is given in one frame; `frame` is zero when no script is playing. -/
structure InputFrame where
  frame : Frame
  rate : UInt32
  skipMovies : Bool := false
  recording : Bool := false
  input : Controller := {}
  marker : Option String := none
  deriving DecidableEq, Repr, Inhabited

namespace InputFrame

def isActive (f : InputFrame) : Bool := 0 < f.frame

def idle (rate : UInt32) (recording : Bool) : InputFrame := { frame := 0, rate, recording }

def ofSegment (frame : Frame) (s : Segment) : InputFrame :=
  { frame, rate := s.rate, skipMovies := s.skipMovies, input := s.input, marker := s.marker }

end InputFrame

/-- A run is completing when its last frame has been handed out. -/
inductive Phase
  | idle
  | running
  | completing
  deriving DecidableEq, Repr, Inhabited

/-- The next frame to play is `frame`, in the segment at place `index` of the store. -/
structure Playback where
  store : Store := .empty
  phase : Phase := .idle
  frame : Frame := 0
  index : Nat := 0
  deriving DecidableEq, Repr, Inhabited

namespace Playback

/-- A store without segments has nothing to play and is completing at once. -/
def start (store : Store) : Playback :=
  if store.isEmpty then { store, phase := .completing }
  else { store, phase := .running, frame := 1 }

def isActive (p : Playback) : Bool := p.phase != .idle

/-- The state after frame `p.frame` of segment `s` has been handed out. -/
def advance (p : Playback) (s : Segment) : Playback :=
  let index := if p.frame = s.last then p.index + 1 else p.index
  { p with
    index, frame := p.frame + 1
    phase := if p.store.size ≤ index then .completing else p.phase }

/-- The clock is set on the first frame of a segment, unless it runs at that rate already. -/
def retime (p : Playback) (s : Segment) (clock : FrameClock) : FrameClock :=
  if p.frame = s.first ∧ clock.rate ≠ s.rate then clock.set s.rate else clock

def tick (p : Playback) (clock : FrameClock) : Option InputFrame × Playback × FrameClock :=
  if p.phase ≠ .running then (none, p, clock)
  else match p.store.get? p.index with
    | none => (none, { p with phase := .completing }, clock)
    | some s => (some (.ofSegment p.frame s), p.advance s, p.retime s clock)

end Playback
end PadScript
