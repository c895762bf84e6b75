import PadScript.Engine.Basic

/-!
# Histories of an engine

Everything that can be done with an engine, as data, so that one can speak of all histories.
-/
namespace PadScript

inductive Operation (σ : Type)
  | poll (live : Controller)
  | submit (results : FrameResults)
  | startPlayback
  | cancelPlayback
  | startRecording
  | stopRecording
  | drift (rate : UInt32)
  | edit (change : σ → σ)

inductive Reply
  | frame (f : InputFrame)
  | started (outcome : Except Script.LoadError PlaybackStart)
  | toggled (on : Bool)
  | stopped (outcome : Except StorageError (Option String))
  | nothing

namespace Engine

variable {σ : Type} [Storage σ]

def perform (now : Moment) (e : Engine σ) : Operation σ → Reply × Engine σ
  | .poll live => let (f, e) := e.poll now live; (.frame f, e)
  | .submit results => (.nothing, e.submit now results)
  | .startPlayback => let (outcome, e) := e.startPlayback now; (.started outcome, e)
  | .cancelPlayback => (.nothing, e.cancelPlayback now)
  | .startRecording => let (on, e) := e.startRecording; (.toggled on, e)
  | .stopRecording => let (outcome, e) := e.stopRecording now; (.stopped outcome, e)
  | .drift rate => (.nothing, { e with clock := e.clock.drift rate })
  | .edit change => (.nothing, { e with storage := change e.storage })

/-- The engine after a history of operations, each at its moment. -/
def run (e : Engine σ) (history : List (Moment × Operation σ)) : Engine σ :=
  history.foldl (fun e (now, op) => (e.perform now op).2) e

end Engine
end PadScript
