import PadScript.Proofs.RunSamples

/-!
# The counters are listed where they turn

The log lists the counters of the samples at which they change, and sees the samples that were kept
only. Of a report that was left out it would see nothing new: its counters are those of the latest
sample, so that the list is the one that all the reports together would give.
-/
namespace PadScript

theorem Counters.numEq_iff {a b : Counters} : a.numEq b ↔
    a.fuelCells.numEq b.fuelCells ∧ a.money.numEq b.money ∧ a.buzzers.numEq b.buzzers := by
  simp [numEq, and_assoc]

theorem Counters.numEq_comm (a b : Counters) : a.numEq b = b.numEq a := by
  simp only [numEq, Single.numEq_comm]

theorem Counters.numEq_trans {a b c : Counters} (h : a.numEq b) (k : b.numEq c) : a.numEq c := by
  obtain ⟨hcells, hmoney, hbuzzers⟩ := numEq_iff.mp h
  obtain ⟨kcells, kmoney, kbuzzers⟩ := numEq_iff.mp k
  exact numEq_iff.mpr ⟨Single.numEq_trans hcells kcells, Single.numEq_trans hmoney kmoney,
    Single.numEq_trans hbuzzers kbuzzers⟩

theorem Counters.numEq_congr {a b : Counters} (h : a.numEq b) (c : Counters) :
    c.numEq a = c.numEq b := by
  rw [Bool.eq_iff_iff]
  constructor
  · intro hc
    exact numEq_trans hc h
  · intro hc
    rw [numEq_comm] at h
    exact numEq_trans hc h

namespace ResultsLog

theorem turns_cons_cons (previous s t : Sample) (rest : List Sample) :
    turns previous (s :: t :: rest) =
      if s.snapshot.counters.numEq previous.snapshot.counters then turns s (t :: rest)
      else s :: turns s (t :: rest) :=
  rfl

theorem turns_sublist (previous : Sample) (samples : List Sample) :
    (turns previous samples).Sublist samples := by
  induction samples generalizing previous with
  | nil => exact List.Sublist.refl _
  | cons s rest ih =>
    cases rest with
    | nil => exact List.Sublist.refl _
    | cons t rest =>
      rw [turns_cons_cons]
      split
      · exact (ih s).cons s
      · exact (ih s).cons_cons s

theorem counterSamples_sublist (samples : List Sample) :
    (ofSamples samples).counterSamples.Sublist (samples.map Sample.counterSample) := by
  cases samples with
  | nil => exact List.Sublist.refl _
  | cons first rest => exact ((turns_sublist first rest).cons_cons first).map _

end ResultsLog
end PadScript
