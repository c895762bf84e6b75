import PadScript.Results.Basic

/-!
# The results log

The tracker keeps a sample of the first frame, of every frame whose snapshot differs from the
latest sample, and of the last frame. The log lists these samples and, apart, those at which the
counters change.
-/
namespace PadScript

structure Sample where
  frame : Frame
  snapshot : Snapshot
  marker : Option String := none
  deriving DecidableEq, Repr, Inhabited

def Sample.of (r : FrameResults) (marker : Option String) : Sample := ⟨r.frame, r.snapshot, marker⟩

structure CounterSample where
  frame : Frame
  counters : Counters
  deriving DecidableEq, Repr, Inhabited

def Sample.counterSample (s : Sample) : CounterSample := ⟨s.frame, s.snapshot.counters⟩

structure ResultsLog where
  samples : List Sample
  counterSamples : List CounterSample
  deriving DecidableEq, Repr, Inhabited

namespace ResultsLog

/-- The samples after `previous` that are the last one or differ from the one before in a
counter. -/
def turns (previous : Sample) : List Sample → List Sample
  | [] => []
  | [last] => [last]
  | s :: rest =>
    if s.snapshot.counters.numEq previous.snapshot.counters then turns s rest else s :: turns s rest

def ofSamples (samples : List Sample) : ResultsLog where
  samples
  counterSamples := match samples with
    | [] => []
    | s :: rest => (s :: turns s rest).map Sample.counterSample

end ResultsLog

/-- `stored` holds the latest sample first; `latest` is what was recorded last, stored or not. -/
structure Tracker where
  stored : List Sample := []
  latest : Option Sample := none
  deriving DecidableEq, Repr, Inhabited

namespace Tracker

def size (t : Tracker) : Nat := t.stored.length

def record (t : Tracker) (r : FrameResults) (marker : Option String) : Tracker :=
  let sample := Sample.of r marker
  let same := t.stored.head?.any fun s => s.snapshot.numEq sample.snapshot
  { stored := if same then t.stored else sample :: t.stored, latest := some sample }

/-- The samples of the log: the latest one is added unless its frame is the one stored last. -/
def samples (t : Tracker) : List Sample :=
  match t.latest with
  | none => t.stored.reverse
  | some latest =>
    let present := t.stored.head?.any fun s => s.frame = latest.frame
    (if present then t.stored else latest :: t.stored).reverse

/-- The log of what was recorded; the tracker starts anew. -/
def finish (t : Tracker) : ResultsLog × Tracker := (.ofSamples t.samples, {})

end Tracker
end PadScript
