import PadScript.Proofs.FramePartition
import PadScript.Proofs.Recording
import PadScript.Proofs.WrittenScript

/-!
# Stores that can be written and loaded again

Loaded stores and recordings hold finite input only and partition the frames, so that what is
written of them loads again.
-/
namespace PadScript.Script

theorem Field.isFinite_of_ofText {text : List Char} {f : Field} (h : Field.ofText text = .ok f) :
    f.IsFinite := by
  unfold Field.ofText at h
  split at h
  · obtain rfl := Except.ok.inj h
    trivial
  · split at h
    · split at h
      · next value hvalue =>
        obtain rfl := Except.ok.inj h
        exact (Option.filter_eq_some_iff.mp hvalue).2
      · cases h
    · cases h

theorem Field.isFinite_of_mem_gather {texts : List (List Char)} {f : Field}
    (hf : f ∈ (Field.gather texts).1) : f.IsFinite := by
  induction texts with
  | nil => simp [Field.gather] at hf
  | cons text rest ih =>
    unfold Field.gather at hf
    dsimp only at hf
    split at hf
    · next g hg =>
      rcases List.mem_cons.mp hf with rfl | hf
      · exact Field.isFinite_of_ofText hg
      · exact ih hf
    · exact ih hf

def Reading.IsFinite (r : Reading) : Prop :=
  ∀ frames fields, r.line = some (.row frames fields) → ∀ f ∈ fields, f.IsFinite

theorem Reading.isFinite_of_ne {r : Reading}
    (h : ∀ frames fields, r.line ≠ some (.row frames fields)) : r.IsFinite :=
  fun frames fields hline => absurd hline (h frames fields)

theorem Reading.isFinite_ofRow (text : List Char) : (Reading.ofRow text).IsFinite := by
  unfold Reading.ofRow
  split
  · exact isFinite_of_ne (by simp [of])
  · split
    · exact isFinite_of_ne (by simp [skipped])
    · split
      · rintro frames fields hline f hf
        obtain ⟨-, rfl⟩ := Line.row.inj (Option.some.inj hline)
        simp at hf
      · rintro frames fields hline f hf
        obtain ⟨-, rfl⟩ := Line.row.inj (Option.some.inj hline)
        exact Field.isFinite_of_mem_gather hf

theorem Reading.isFinite_ofSqueezed (text : List Char) : (Reading.ofSqueezed text).IsFinite := by
  unfold Reading.ofSqueezed
  split
  · exact isFinite_of_ne (by simp [of])
  · split
    · split
      · exact isFinite_of_ne (by simp [of])
      · exact isFinite_of_ne (by simp [skipped])
    · exact isFinite_ofRow text

theorem isFinite_of_mem_lines {file text : String} {e : Entry} (he : e ∈ lines file text) :
    e.reading.IsFinite := by
  obtain ⟨i, hi⟩ := List.mem_iff_getElem?.mp he
  simp only [lines, List.getElem?_mapIdx, Option.map_eq_some_iff] at hi
  obtain ⟨cs, -, rfl⟩ := hi
  exact Reading.isFinite_ofSqueezed _

theorem isFinite_unreadable (source : Location) (name : String) (error : StorageError) :
    (Entry.unreadable source name error).reading.IsFinite :=
  Reading.isFinite_of_ne (by simp [Entry.unreadable, Reading.skipped])

theorem Inlined.isFinite {library : Library} {entries flat : List Entry}
    (h : Inlined library entries flat) (hentries : ∀ e ∈ entries, e.reading.IsFinite) :
    ∀ e ∈ flat, e.reading.IsFinite := by
  induction h with
  | nil => simp
  | plain _ _ ih =>
    obtain ⟨he, hrest⟩ := List.forall_mem_cons.mp hentries
    exact List.forall_mem_cons.mpr ⟨he, ih hrest⟩
  | missing _ _ _ ih =>
    obtain ⟨he, hrest⟩ := List.forall_mem_cons.mp hentries
    refine List.forall_mem_cons.mpr ⟨he, List.forall_mem_cons.mpr ⟨?_, ih hrest⟩⟩
    exact isFinite_unreadable _ _ _
  | imported _ _ _ _ ihInside ih =>
    obtain ⟨he, hrest⟩ := List.forall_mem_cons.mp hentries
    rintro f hf
    rcases List.mem_append.mp hf with hf | hf
    · rcases List.mem_cons.mp hf with rfl | hf
      · exact he
      · exact ihInside (fun g hg => isFinite_of_mem_lines hg) f hf
    · exact ih hrest f hf

theorem Flattens.isFinite {library : Library} {source : Location} {name : String}
    {flat : List Entry} (h : Flattens library source name flat) :
    ∀ e ∈ flat, e.reading.IsFinite := by
  cases h with
  | unreadable _ =>
    rintro e he
    rw [List.mem_singleton.mp he]
    exact isFinite_unreadable _ _ _
  | script _ inside => exact inside.isFinite fun e he => isFinite_of_mem_lines he

namespace Context

variable {c : Context}

theorem isFinite_of_rowSegment? {source : Location} {frames : UInt64} {fields : List Field}
    {s : Segment} (hc : ∀ a, (c.axes.get a).isFinite) (hfields : ∀ f ∈ fields, f.IsFinite)
    (hs : c.rowSegment? source frames fields = some s) (a : Axis) :
    (s.input.axes.get a).isFinite := by
  obtain ⟨-, -, -, hinput⟩ := rowSegment?_settings hs
  rw [hinput, Draft.axes_press]
  cases hlast : last? (Field.value? a) fields with
  | none => exact hc a
  | some value =>
    obtain ⟨f, hf, hvalue⟩ := List.mem_filterMap.mp (List.mem_of_getLast? hlast)
    cases f with
    | button b => simp [Field.value?] at hvalue
    | axis b other =>
      simp only [Field.value?, Option.ite_none_right_eq_some, Option.some.injEq] at hvalue
      obtain ⟨-, rfl⟩ := hvalue
      exact hfields _ hf

theorem segments_isFinite {entries : List Entry} (hc : ∀ a, (c.axes.get a).isFinite)
    (hentries : ∀ e ∈ entries, e.reading.IsFinite) :
    ∀ s ∈ c.segments entries, ∀ a, (s.input.axes.get a).isFinite := by
  induction entries generalizing c with
  | nil => simp [segments]
  | cons e rest ih =>
    obtain ⟨he, hrest⟩ := List.forall_mem_cons.mp hentries
    have hmade : ∀ s, c.segment? e = some s → ∀ a, (s.input.axes.get a).isFinite := by
      rintro s hs
      obtain ⟨frames, fields, hline, hrow⟩ := segment?_eq_some hs
      exact isFinite_of_rowSegment? hc (he frames fields hline) hrow
    have hnext : ∀ a, ((c.next e).axes.get a).isFinite := by
      intro a
      rw [axes_next]
      cases hs : c.segment? e with
      | none => exact hc a
      | some s => exact hmade s hs a
    rintro s hs
    rcases List.mem_append.mp hs with hs | hs
    · exact hmade s (Option.mem_toList.mp hs)
    · exact ih hnext hrest s hs

end Context

theorem writable_of_load {settings : Settings} {library : Library} {name : String}
    {loaded : Loaded} (h : load settings library name = .ok loaded) :
    Writable 1 loaded.store.segments where
  partition := isPartition_load h
  below := fun _ hs => last_lt_of_load h hs
  finite := by
    obtain ⟨flat, hflat, rfl⟩ := load_eq_ok h
    rw [assemble_eq]
    refine Context.segments_isFinite ?_ (Flat.flattens_of_ofScript hflat).isFinite
    rintro a
    cases a <;> rfl

theorem writable_of_covers {count : Nat} {captured : List Segment}
    (h : Recorder.Covers count captured) (hroom : count < Frame.largest.toNat) :
    Writable 1 captured.reverse := by
  refine ⟨h.partition, fun s hs => ?_, fun s hs => ?_⟩
  · have := h.last_le (List.mem_reverse.mp hs)
    omega
  · exact h.finite s (List.mem_reverse.mp hs)

theorem writable_of_recording {offered : Nat} {r : Recorder} (h : r.Used offered)
    (hroom : offered < Frame.largest.toNat) : Writable 1 r.stop.1.segments := by
  obtain ⟨count, hcount, hcovers⟩ := h.covers hroom.le
  exact writable_of_covers hcovers (by omega)

/-- A store whose segments partition the frames below the largest one, with finite numbers on all
axes, is written as a script that loads without reports to segments with the same frames, the same
buttons and equal numbers on the axes; so the two stores expand to the same input frame by frame,
and the second one is written as the same text. This holds of every loaded store and of every
recording. -/
theorem load_write_round_trip :
    (∀ segments, Writable 1 segments → ∀ settings library name,
      library (if name = "" then settings.mainScript else name) = .ok (write segments []) →
      ∃ loaded, load settings library name = .ok loaded ∧ loaded.diagnostics = [] ∧
        List.Forall₂ SamePlay segments loaded.store.segments ∧
        List.Forall₂ (fun a b => a.numEq b) (Store.expand ⟨segments⟩) loaded.store.expand ∧
        write loaded.store.segments [] = write segments []) ∧
    (∀ settings library name loaded, load settings library name = .ok loaded →
      Writable 1 loaded.store.segments) ∧
    ∀ offered r, Recorder.Used offered r → offered < Frame.largest.toNat →
      Writable 1 r.stop.1.segments := by
  refine ⟨fun segments hw settings library name hname => ?_,
    fun settings library name loaded h => writable_of_load h,
    fun offered r h hroom => writable_of_recording h hroom⟩
  obtain ⟨loaded, hload, hreports, hsame, htext⟩ := load_write hw hname
  exact ⟨loaded, hload, hreports, hsame, expand_samePlay hsame, htext⟩

/-- A recording with the two zeros in it. -/
theorem load_write_round_trip_of_recording :
    let r := ((Recorder.start {}).record ⟨⟨0x8010⟩, { playerSpeed := ⟨true, 0⟩ }⟩).record
      ⟨.empty, { cameraZoom := .ofBits 0x3DCCCCCD }⟩
    ∃ loaded, load {} (fun _ => .ok (write r.stop.1.segments [])) "" = .ok loaded ∧
      loaded.diagnostics = [] ∧ loaded.store.segments.length = 2 ∧
      List.Forall₂ SamePlay r.stop.1.segments loaded.store.segments ∧
      write loaded.store.segments [] = write r.stop.1.segments [] ∧
      Writable 1 loaded.store.segments := by
  intro r
  have hused : r.Used 2 := .record (.record (.start .new) _) _
  have hw := load_write_round_trip.2.2 2 r hused (by decide)
  obtain ⟨loaded, hload, hreports, hsame, -, htext⟩ :=
    load_write_round_trip.1 r.stop.1.segments hw {} (fun _ => .ok (write r.stop.1.segments [])) ""
      rfl
  have hlength : r.stop.1.segments.length = 2 := by decide
  exact ⟨loaded, hload, hreports, hsame.length_eq.symm.trans hlength, hsame, htext,
    load_write_round_trip.2.1 _ _ _ loaded hload⟩

end PadScript.Script
