import PadScript.Engine.Basic

/-!
# Runs without a game

The engine is driven through a whole run by a backend that stands in for the game.
-/
namespace PadScript

/-- A backend consumes a frame and reports its results, or says why it cannot. -/
structure Backend (β : Type) where
  step : β → InputFrame → Except String FrameResults × β

namespace Backend

def echo : Backend Unit := ⟨fun s f => (.ok (.echo f), s)⟩

end Backend

namespace Headless

structure Options where
  maxFrames : UInt64 := 216000
  captureTrace : Bool := false
  deriving DecidableEq, Repr

structure Summary where
  framesPlayed : Nat
  totalFrames : Frame
  segments : Nat
  diagnostics : Nat
  truncated : Bool
  finalRate : UInt32
  trace : List InputFrame
  deriving DecidableEq, Repr

def Summary.toJson (s : Summary) : Json :=
  .record <|
    [("frames_played", .ofNat s.framesPlayed), ("total_frames", .ofNat s.totalFrames.toNat),
      ("segments", .ofNat s.segments), ("diagnostics", .ofNat s.diagnostics),
      ("truncated", .bool s.truncated), ("final_frame_rate", .ofNat s.finalRate.toNat)] ++
    if s.trace.isEmpty then [] else [("trace", .list (s.trace.map InputFrame.toJson))]

inductive RunError
  | load (cause : Script.LoadError)
  | backend (frame : Frame) (cause : String)
  deriving DecidableEq, Repr

def RunError.chain : RunError → List String
  | load cause => ["Failed to load TAS inputs", cause.message]
  | backend frame cause => ["Backend failed at frame " ++ toString frame.toNat, cause]

variable {σ β : Type} [Storage σ]

/-- What a loop of polls has come to; the played frames are kept latest first. -/
structure Progress (σ β : Type) where
  engine : Engine σ
  backend : β
  played : List InputFrame := []
  truncated : Bool := false

/-- Frames are played until the run is over, or cancelled after `left` of them. No live input
reaches the engine. -/
def playFrames (now : Moment) (backend : Backend β) :
    (left : Nat) → Progress σ β → Except RunError Unit × Progress σ β
  | left, p =>
    if !p.engine.playback.isActive then (.ok (), p)
    else match left with
      | 0 => (.ok (), { p with engine := p.engine.cancelPlayback now, truncated := true })
      | left + 1 =>
        let (frame, engine) := p.engine.poll now {}
        let p := { p with engine }
        if !frame.isActive then (.ok (), p)
        else
          match backend.step p.backend frame with
          | (.error cause, state) =>
            (.error (.backend frame.frame cause), { p with backend := state })
          | (.ok results, state) =>
            playFrames now backend left { p with
              engine := p.engine.submit now results
              backend := state
              played := frame :: p.played }

def run (now : Moment) (options : Options) (backend : Backend β) (state : β) (e : Engine σ) :
    Except RunError Summary × Engine σ × β :=
  match e.startPlayback now with
  | (.error err, e) => (.error (.load err), e, state)
  | (.ok _, e) =>
    let store := e.playback.store
    let diagnostics := e.diagnostics.length
    let (outcome, p) := playFrames now backend options.maxFrames.toNat ⟨e, state, [], false⟩
    (outcome.map fun _ => {
        framesPlayed := p.played.length
        totalFrames := store.frameCount
        segments := store.size
        diagnostics
        truncated := p.truncated
        finalRate := p.engine.clock.rate
        trace := if options.captureTrace then p.played.reverse else [] },
      p.engine, p.backend)

end Headless
end PadScript
