import PadScript.Proofs.RunCourse

/-!
# A log rebuilds its run

A log leaves out the reports that repeat the snapshot of the latest sample. What was left out can be
told from it: the snapshot of every report is, number by number, that of the latest sample at or
before its frame, unless the report has a sample of its own.
-/
namespace PadScript

def Report.sample (report : Report) : Sample := .of report.1 report.2

namespace Sample

/-- The samples stand in the order of their frames, and no frame has two of them. -/
def Ordered (samples : List Sample) : Prop := samples.Pairwise fun s t => s.frame < t.frame

/-- The snapshot of a sample is not the one before it. -/
def Differ (s t : Sample) : Prop := s.snapshot.numEq t.snapshot = false

/-- The latest of some samples at frame `f` or before it. -/
def latestAt? (samples : List Sample) (f : Frame) : Option Sample :=
  (samples.filter fun s => s.frame ≤ f).getLast?

end Sample

namespace Tracker

end Tracker

namespace ResultsLog

/-- The log tells of the reports: it has samples of some of them, the first and the last ones among
them, in their order and each once. The latest sample at the frame of a report or before it is that
of the report or has an equal snapshot, and no sample but the first and the last could be spared. -/
structure Rebuilds (log : ResultsLog) (reports : List Report) : Prop where
  samples : log.samples.Sublist (reports.map Report.sample)
  ordered : Sample.Ordered log.samples
  first : log.samples.head? = (reports.map Report.sample).head?
  last : log.samples.getLast? = (reports.map Report.sample).getLast?
  stands : ∀ report ∈ reports, ∃ s, Sample.latestAt? log.samples report.1.frame = some s ∧
    (s = Report.sample report ∨ s.snapshot.numEq report.1.snapshot)
  differ : log.samples.dropLast.IsChain Sample.Differ

end ResultsLog
end PadScript
