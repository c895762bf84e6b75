import PadScript.Proofs.CounterTurns
import PadScript.Proofs.JsonNumbers
import PadScript.Proofs.JsonRecords
import PadScript.Proofs.RunLog

/-!
# A results log is read back from its text

Numbers that are not finite are written as nothing, and no log is read from a text with such a
number left out. Any other log is read back as it was.
-/
namespace PadScript

def Vec4.isFinite (v : Vec4) : Bool :=
  v.x.isFinite && v.y.isFinite && v.z.isFinite && v.w.isFinite

def Counters.isFinite (c : Counters) : Bool :=
  c.fuelCells.isFinite && c.money.isFinite && c.buzzers.isFinite

def Snapshot.isFinite (s : Snapshot) : Bool :=
  s.counters.isFinite && s.player.isFinite && s.camera.isFinite

def ResultsLog.isFinite (log : ResultsLog) : Bool :=
  log.samples.all (·.snapshot.isFinite) && log.counterSamples.all (·.counters.isFinite)

namespace Json

theorem single?_ofSingle_eq (x : Single) :
    (ofSingle x).single? = if x.isFinite then some x else none := by
  by_cases hfinite : x.isFinite
  · rw [single?_ofSingle hfinite, if_pos hfinite]
  · rw [ofSingle, if_pos (by simpa using hfinite), if_neg hfinite]
    rfl

theorem word64?_ofNat (n : UInt64) : (ofNat n.toNat).word64? = some n := by
  have hnatural : (ofNat n.toNat).natural? UInt64.size = some n.toNat := natural?_ofNat n.toNat_lt
  simp [word64?, hnatural]

theorem mapM_map_eq_ite {α : Type} {write : α → Json} {read : Json → Option α} {p : α → Bool}
    (h : ∀ x, read (write x) = if p x then some x else none) (xs : List α) :
    (xs.map write).mapM read = if xs.all p then some xs else none := by
  by_cases hall : xs.all p
  · rw [if_pos hall]
    have hread : (xs.map write).mapM read = some (xs.map id) := by
      refine mapM_map_eq_some fun x hx => ?_
      rw [h, if_pos (List.all_eq_true.mp hall x hx), id]
    rwa [List.map_id] at hread
  · rw [if_neg hall]
    obtain ⟨x, hx, hp⟩ : ∃ x ∈ xs, p x = false := by simpa using hall
    refine mapM_eq_none (List.mem_map_of_mem hx) ?_
    rw [h, hp]
    rfl

end Json

theorem Vec4.ofJson?_toJson (v : Vec4) :
    ofJson? v.toJson = if v.isFinite then some v else none := by
  rw [ofJson?, toJson, Json.slots_record]
  cases hx : v.x.isFinite <;> cases hy : v.y.isFinite <;> cases hz : v.z.isFinite <;>
    cases hw : v.w.isFinite <;>
    simp [Json.slotOf, Json.Slot.required, Json.single?_ofSingle_eq, isFinite, hx, hy, hz, hw]

theorem Counters.ofSlots?_given (c : Counters) :
    ofSlots? [.given (.ofSingle c.fuelCells), .given (.ofSingle c.money),
      .given (.ofSingle c.buzzers)] = if c.isFinite then some c else none := by
  cases hcells : c.fuelCells.isFinite <;> cases hmoney : c.money.isFinite <;>
    cases hbuzzers : c.buzzers.isFinite <;>
    simp [ofSlots?, Json.Slot.required, Json.single?_ofSingle_eq, isFinite, hcells, hmoney,
      hbuzzers]

theorem Snapshot.ofSlots?_given (s : Snapshot) :
    ofSlots? (.given (.ofSingle s.counters.fuelCells)) (.given (.ofSingle s.counters.money))
      (.given (.ofSingle s.counters.buzzers)) (.given s.player.toJson) (.given s.camera.toJson) =
        if s.isFinite then some s else none := by
  cases hcounters : s.counters.isFinite <;> cases hplayer : s.player.isFinite <;>
    cases hcamera : s.camera.isFinite <;>
    simp [ofSlots?, Json.Slot.required, Counters.ofSlots?_given, Vec4.ofJson?_toJson, isFinite,
      hcounters, hplayer, hcamera]

theorem Sample.ofJson?_toJson (s : Sample) :
    ofJson? s.toJson = if s.snapshot.isFinite then some s else none := by
  obtain ⟨frame, snapshot, marker⟩ := s
  have hslots : (toJson ⟨frame, snapshot, marker⟩).slots
      ("tas-frame" :: Counters.keys ++ Snapshot.positionKeys ++ ["marker"]) =
        some [.given (.ofNat frame.toNat), .given (.ofSingle snapshot.counters.fuelCells),
          .given (.ofSingle snapshot.counters.money), .given (.ofSingle snapshot.counters.buzzers),
          .given snapshot.player.toJson, .given snapshot.camera.toJson,
          (marker.map fun m => .given (.ofString m)).getD .absent] := by
    rw [toJson, Json.slots_record]
    cases marker <;>
      simp [Counters.keys, Counters.members, Snapshot.positionKeys, Snapshot.positionMembers,
        Json.markerMembers, Json.slotOf]
  rw [ofJson?, hslots]
  cases hfinite : snapshot.isFinite <;> cases marker <;>
    simp [Snapshot.ofSlots?_given, hfinite, Json.Slot.required, Json.Slot.optional,
      Json.word64?_ofNat, Json.ofString, Json.string?]

theorem CounterSample.ofJson?_toJson (s : CounterSample) :
    ofJson? s.toJson = if s.counters.isFinite then some s else none := by
  have hslots : s.toJson.slots ("tas-frame" :: Counters.keys) =
      some [.given (.ofNat s.frame.toNat), .given (.ofSingle s.counters.fuelCells),
        .given (.ofSingle s.counters.money), .given (.ofSingle s.counters.buzzers)] := by
    rw [toJson, Json.slots_record]
    simp [Counters.keys, Counters.members, Json.slotOf]
  rw [ofJson?, hslots]
  cases hfinite : s.counters.isFinite <;>
    simp [Counters.ofSlots?_given, hfinite, Json.Slot.required, Json.word64?_ofNat]

theorem Snapshot.proper_members (s : Snapshot) :
    ∀ m ∈ s.counters.members ++ s.positionMembers, Json.Proper m.2.tokens := by
  have hvec (v : Vec4) : Json.Proper v.toJson.tokens :=
    Json.proper_record (by simp [Json.proper_ofSingle])
  simp [Counters.members, positionMembers, Json.proper_ofSingle, hvec]

theorem Sample.proper_toJson (s : Sample) : Json.Proper s.toJson.tokens := by
  have hmarker : ∀ m ∈ Json.markerMembers s.marker, Json.Proper m.2.tokens := by
    cases s.marker <;> simp [Json.markerMembers, Json.proper_ofString]
  refine Json.proper_record (List.forall_mem_cons.mpr ⟨Json.proper_ofNat _, ?_⟩)
  exact List.forall_mem_append.mpr ⟨s.snapshot.proper_members, hmarker⟩

theorem CounterSample.proper_toJson (s : CounterSample) : Json.Proper s.toJson.tokens :=
  Json.proper_record (by simp [Counters.members, Json.proper_ofNat, Json.proper_ofSingle])

namespace ResultsLog

theorem ofJson?_toJson (log : ResultsLog) :
    ofJson? log.toJson = if log.isFinite then some log else none := by
  have hsamples := Json.mapM_map_eq_ite Sample.ofJson?_toJson log.samples
  have hcounters := Json.mapM_map_eq_ite CounterSample.ofJson?_toJson log.counterSamples
  rw [ofJson?, toJson, Json.slots_record]
  cases hall : log.samples.all (·.snapshot.isFinite) <;>
    cases hall' : log.counterSamples.all (·.counters.isFinite) <;>
    simp [Json.slotOf, Json.Slot.required, Json.list?, hsamples, hcounters, isFinite, hall, hall']

theorem proper_toJson (log : ResultsLog) : Json.Proper log.toJson.tokens := by
  refine Json.proper_record (List.forall_mem_cons.mpr ⟨?_, List.forall_mem_singleton.mpr ?_⟩)
  · refine Json.proper_list fun v hv => ?_
    obtain ⟨s, -, rfl⟩ := List.mem_map.mp hv
    exact s.proper_toJson
  · refine Json.proper_list fun v hv => ?_
    obtain ⟨s, -, rfl⟩ := List.mem_map.mp hv
    exact s.proper_toJson

/-- The text of a log is read as the log if all its numbers are finite, and not at all otherwise. -/
theorem parse_text (log : ResultsLog) :
    (Json.parse log.text).bind ofJson? = if log.isFinite then some log else none := by
  rw [text, Json.parse_pretty log.proper_toJson, Option.bind_some, ofJson?_toJson]

theorem isFinite_ofSamples (samples : List Sample) :
    (ofSamples samples).isFinite = samples.all (·.snapshot.isFinite) := by
  have hcounters (h : samples.all (·.snapshot.isFinite)) :
      (ofSamples samples).counterSamples.all (·.counters.isFinite) := by
    refine List.all_eq_true.mpr fun c hc => ?_
    obtain ⟨s, hs, rfl⟩ := List.mem_map.mp ((counterSamples_sublist samples).subset hc)
    have hsnapshot : s.snapshot.isFinite := List.all_eq_true.mp h s hs
    simp only [Snapshot.isFinite, Bool.and_eq_true] at hsnapshot
    exact hsnapshot.1.1
  have hsamples : (ofSamples samples).samples = samples := rfl
  rw [isFinite, hsamples]
  cases hall : samples.all (·.snapshot.isFinite) with
  | false => rfl
  | true => exact hcounters hall

end ResultsLog

namespace Tracker

variable {P : Sample → Prop}

structure Keeps (P : Sample → Prop) (t : Tracker) : Prop where
  stored : ∀ s ∈ t.stored, P s
  latest : ∀ s ∈ t.latest, P s

theorem Keeps.record {t : Tracker} (h : t.Keeps P) {r : FrameResults} {marker : Option String}
    (hr : P (.of r marker)) : (t.record r marker).Keeps P := by
  refine ⟨fun s hs => ?_, fun s hs => ?_⟩
  · simp only [Tracker.record] at hs
    split at hs
    · exact h.stored s hs
    · exact (List.mem_cons.mp hs).elim (fun heq => heq ▸ hr) (h.stored s)
  · obtain rfl := Option.mem_some.mp hs
    exact hr

theorem Keeps.samples {t : Tracker} (h : t.Keeps P) : ∀ s ∈ t.samples, P s := by
  intro s hs
  unfold Tracker.samples at hs
  cases hlatest : t.latest with
  | none =>
    rw [hlatest, List.mem_reverse] at hs
    exact h.stored s hs
  | some latest =>
    simp only [hlatest, List.mem_reverse] at hs
    split at hs
    · exact h.stored s hs
    · exact (List.mem_cons.mp hs).elim (fun heq => h.latest s (heq ▸ hlatest)) (h.stored s)

theorem keeps_ofReports {reports : List Report} (h : ∀ r ∈ reports, P r.sample) :
    (ofReports reports).Keeps P := by
  induction reports using List.reverseRecOn with
  | nil =>
    refine ⟨fun s hs => ?_, fun s hs => ?_⟩
    · cases hs
    · cases hs
  | append_singleton reports r ih =>
    have hrecord : ofReports (reports ++ [r]) = (ofReports reports).record r.1 r.2 := by
      rw [ofReports, List.foldl_append]
      rfl
    rw [hrecord]
    exact (ih fun q hq => h q (List.mem_append_left _ hq)).record (h r (by simp))

end Tracker

theorem ResultsLog.parse_text_ofReports {reports : List Report}
    (h : ∀ r ∈ reports, r.1.snapshot.isFinite) :
    (Json.parse (ofReports reports).text).bind ofJson? = some (ofReports reports) := by
  have hsamples : ∀ s ∈ (Tracker.ofReports reports).samples, s.snapshot.isFinite :=
    (Tracker.keeps_ofReports h).samples
  have hfinite : (ofReports reports).isFinite :=
    (isFinite_ofSamples _).trans (List.all_eq_true.mpr hsamples)
  rw [parse_text, if_pos hfinite]

/-- The log that is written when such a run closes is a file that is read as it. -/
theorem Engine.Closes.parse_attempt {σ : Type} [Storage σ] {e : Engine (Journal σ)}
    {loaded : Script.Loaded} {reports : List Report} {now : Moment} {op : Operation (Journal σ)}
    (h : e.Closes loaded reports now op) (hsaves : loaded.saveResults)
    (hfinite : ∀ r ∈ reports, r.1.snapshot.isFinite) :
    ∃ attempt, (e.perform now op).2.storage.attempts = e.storage.attempts ++ [attempt] ∧
      attempt.name = e.resultsName now ∧
      (Json.parse attempt.contents).bind ResultsLog.ofJson? =
        some (ResultsLog.ofReports reports) := by
  obtain ⟨succeeded, hattempt⟩ := h.saved hsaves
  exact ⟨_, hattempt, rfl, ResultsLog.parse_text_ofReports hfinite⟩

end PadScript
