import PadScript.Cli.Execute
import PadScript.Proofs.Context
import PadScript.Proofs.Inlining
import PadScript.Proofs.Lookup
import PadScript.Storage.Memory

/-!
# Loaded scripts partition the frames

Whatever the scripts say, the segments of a load cover the frames from one on without gap or
overlap, and end below the largest frame number; so no sum of frames in a load wraps or saturates.
-/
namespace PadScript

namespace Partition

theorem checkFrom_of_from {expected : Frame} {segments : List Segment}
    (h : From expected.toNat segments)
    (hlast : ∀ s ∈ segments, s.last.toNat < Frame.largest.toNat) :
    checkFrom expected segments = .ok () := by
  induction segments generalizing expected with
  | nil => rfl
  | cons s rest ih =>
    cases h with
    | cons start filled following =>
      have hempty : s.isEmpty = false := by
        rw [Bool.eq_false_iff, ne_eq, Segment.isEmpty_iff, UInt64.lt_iff_toNat_lt]
        omega
      have hfirst : s.first = expected := UInt64.toNat_inj.mp start
      have hnext := Frame.toNat_next (hlast s (by simp))
      rw [checkFrom, hempty, if_neg Bool.false_ne_true, if_neg (by simp [hfirst])]
      exact ih (by rwa [hnext]) fun t ht => hlast t (by simp [ht])

end Partition

theorem Text.length_pieces_le (sep : Char) (cs : List Char) :
    (Text.pieces sep cs).length ≤ cs.length + 1 := by
  induction cs with
  | nil => simp [Text.pieces]
  | cons c r ih =>
    unfold Text.pieces
    split
    · simpa using ih
    · cases hp : Text.pieces sep r with
      | nil => simp
      | cons p ps =>
        simp only [hp, List.length_cons] at ih ⊢
        omega

namespace Script

theorem start_lt (rate : UInt32) : ({ rate } : Context).last.toNat < Frame.largest.toNat :=
  show (0 : Frame).toNat < Frame.largest.toNat by decide

theorem isPartition_assemble (rate : UInt32) (entries : List Entry) :
    (assemble rate entries).store.IsPartition := by
  rw [assemble_eq]
  exact Context.segments_from (start_lt rate) entries

theorem last_lt_of_mem_assemble {rate : UInt32} {entries : List Entry} {s : Segment}
    (hs : s ∈ (assemble rate entries).store.segments) : s.last.toNat < Frame.largest.toNat := by
  rw [assemble_eq] at hs
  exact Context.segments_last_lt (start_lt rate) hs

variable {settings : Settings} {library : Library} {name : String} {loaded : Loaded}

theorem isPartition_load (h : load settings library name = .ok loaded) :
    loaded.store.IsPartition := by
  obtain ⟨flat, -, rfl⟩ := load_eq_ok h
  exact isPartition_assemble _ _

theorem last_lt_of_load (h : load settings library name = .ok loaded) {s : Segment}
    (hs : s ∈ loaded.store.segments) : s.last.toNat < Frame.largest.toNat := by
  obtain ⟨flat, -, rfl⟩ := load_eq_ok h
  exact last_lt_of_mem_assemble hs

theorem check_load (h : load settings library name = .ok loaded) :
    Partition.check loaded.store = .ok () :=
  Partition.checkFrom_of_from (isPartition_load h) fun _ hs => last_lt_of_load h hs

/-- No draft in the course of a load has reached the largest frame number. -/
theorem Draft.last_lt {rate : UInt32} (entries : List Entry) {s : Segment}
    (h : (entries.foldl (Draft.take rate) {}).latest = .filled s) :
    s.last.toNat < Frame.largest.toNat := by
  have hbelow := (Draft.foldl_take_spec (Draft.sound_empty rate) entries).sound.below
  simpa [Draft.context, h, Context.ofSegment] using hbelow

/-- Lines count up from one in any text whose characters can be counted. -/
theorem line_of_lines {file text : String} (h : text.toList.length < Frame.largest.toNat)
    {i : Nat} {e : Entry} (he : (lines file text)[i]? = some e) :
    e.source.line.toNat = i + 1 := by
  simp only [lines, List.getElem?_mapIdx, Option.map_eq_some_iff] at he
  obtain ⟨cs, hcs, rfl⟩ := he
  have hi := (List.getElem?_eq_some_iff.mp hcs).1
  have hlength := Text.length_pieces_le '\n' text.toList
  have hword : Frame.largest.toNat + 1 = UInt64.size := by decide
  exact UInt64.toNat_ofNat_of_lt' (by omega)

end Script

namespace Cli

theorem failure_check_ne (disk : Disk) (config : Config) (folder : String) (script : Option String)
    (strict : Bool) (e : PartitionError) :
    (check disk config folder script strict).failure ≠
      some ["Segments do not cover a contiguous frame range", e.message] := by
  intro h
  unfold check at h
  dsimp only at h
  split at h
  · -- the script was not loaded, which is reported in other words
    have hwords := congrArg String.toList (List.cons.inj (Option.some.inj h)).1
    simp at hwords
  · next loaded hload =>
    rw [Script.check_load hload] at h
    dsimp only at h
    split at h <;> simp at h

end Cli

namespace Script

/-- A loaded script partitions the frames from one on, below the largest frame number: every
segment has frames, neighbours meet exactly, and no sum on the way wraps or saturates. Its check
passes, so that `check` never reports a broken partition. -/
theorem load_covers_frames (settings : Settings) (library : Library) (name : String)
    (loaded : Loaded) (h : load settings library name = .ok loaded) :
    loaded.store.IsPartition ∧
    (∀ s ∈ loaded.store.segments, 0 < s.frameCount ∧
      s.frameCount = s.last.toNat + 1 - s.first.toNat ∧
      s.last.toNat < Frame.largest.toNat) ∧
    (∀ flat before : List Entry, ∀ e after,
      Flat.ofScript library settings.importDepth
        (if name = "" then settings.mainScript else name) = .ok flat →
      flat = before ++ e :: after →
      let draft := before.foldl (Draft.take settings.rate) {}
      (∀ s, draft.latest = .filled s →
        (s.successor e.source).first.toNat = s.last.toNat + 1) ∧
      (∀ frames last,
        (draft.pending settings.rate e.source).2.last.later? frames = some last →
        last.toNat = (draft.pending settings.rate e.source).2.last.toNat + frames.toNat)) ∧
    (∀ file text, text.toList.length < Frame.largest.toNat →
      ∀ i e, (lines file text)[i]? = some e → e.source.line.toNat = i + 1) ∧
    Partition.check loaded.store = .ok () ∧
    (∀ disk config folder script strict, ∀ e : PartitionError,
      (Cli.check disk config folder script strict).failure ≠
        some ["Segments do not cover a contiguous frame range", e.message]) := by
  have hpartition := isPartition_load h
  refine ⟨hpartition, fun s hs => ?_, fun flat before e after _ _ => ⟨fun s hs => ?_, ?_⟩,
    fun file text htext i e => line_of_lines htext, check_load h, Cli.failure_check_ne⟩
  · have hcount := hpartition.frameCount_eq le_rfl hs
    have := hpartition.filled hs
    exact ⟨by omega, hcount, last_lt_of_load h hs⟩
  · exact Frame.toNat_next (Draft.last_lt before hs)
  · exact fun frames last hlast => (Frame.later?_eq_some hlast).1

/-- Rows without frames and rows beyond the largest frame leave no gap. -/
theorem load_covers_frames_of_import :
    let scripts : Texts :=
      [("main", "3,X\nimport=jump\n18446744073709551611\n1"), ("jump", "2,Up\n0,X")]
    ∃ loaded, load {} (Storage.read (MemoryStorage.mk scripts [])) "" = .ok loaded ∧
      loaded.store.segments.map (fun s => (s.first, s.last)) = [(1, 3), (4, 5), (6, 6)] ∧
      loaded.store.IsPartition := by
  intro scripts
  have hview : (load {} (Storage.read (MemoryStorage.mk scripts [])) "").toOption.map
      (fun loaded => loaded.store.segments.map fun s => (s.first, s.last)) =
        some [(1, 3), (4, 5), (6, 6)] := by
    decide +kernel
  obtain ⟨loaded, hload, hranges⟩ := load_of_view hview
  exact ⟨loaded, hload, hranges, (load_covers_frames _ _ _ loaded hload).1⟩

end Script
end PadScript
