import PadScript.Proofs.ImportErrors
import PadScript.Proofs.ScriptMeaning

/-!
# Sources of segments

A segment has the place of the line that opened it. That is the first line since the accepted row
before it which directs the settings of segments or is a row with frames. A row that is refused
opens a segment as well, so the place of a line that is reported as skipped can become the source of
a segment to which it adds nothing; without such rows the source is a line that took effect.
-/
namespace PadScript.Script

namespace Entry

def directs (e : Entry) : Bool := e.rate?.isSome || e.skipMovies?.isSome || e.marker?.isSome

/-- The count of a row that has frames, accepted or not. -/
def frames? (e : Entry) : Option UInt64 :=
  match e.reading.line with
  | some (.row frames _) => if frames = 0 then none else some frames
  | _ => none

/-- From such a line on the next segment is open. -/
def opens (e : Entry) : Bool := e.directs || e.frames?.isSome

end Entry

/-- The number of lines up to the last of some accepted rows. -/
def reach (rows : List AcceptedRow) : Nat :=
  (rows.getLast?.map fun row => row.before.length + 1).getD 0

/-- The lines between the accepted rows `earlier` and this one. -/
def AcceptedRow.since (row : AcceptedRow) (earlier : List AcceptedRow) : List Entry :=
  row.before.drop (reach earlier)

theorem reach_snoc (rows : List AcceptedRow) (row : AcceptedRow) :
    reach (rows ++ [row]) = row.before.length + 1 := by
  rw [reach, List.getLast?_concat]
  rfl

def Diagnostic.ofRefused (source : Location) (frames : UInt64) : Diagnostic :=
  ⟨source, .malformedFrameCount (toString frames.toNat)⟩

namespace Context

variable {c : Context} {e : Entry}

theorem opened_touch (c : Context) (source : Location) :
    (c.touch source).opened = c.opened.or (some source) := by
  unfold touch
  cases c.opened <;> rfl

theorem opened_row {source : Location} {frames : UInt64} {fields : List Field}
    (h : c.rowSegment? source frames fields = none) :
    (c.row source frames fields).opened =
      c.opened.or (if frames = 0 then none else some source) := by
  rw [row, h]
  dsimp only
  split
  · exact (Option.or_none).symm
  · exact opened_touch c source

/-- A line that makes no segment leaves the next one open if it was, and opens it if it can. -/
theorem opened_next (h : c.segment? e = none) :
    (c.next e).opened = c.opened.or (if e.opens then some e.source else none) := by
  unfold segment? at h
  unfold next Entry.opens Entry.directs Entry.rate? Entry.skipMovies? Entry.marker? Entry.frames?
  cases hline : e.reading.line with
  | none => exact (Option.or_none).symm
  | some line =>
    rw [hline] at h
    cases line with
    | blank => exact (Option.or_none).symm
    | row frames fields =>
      rw [opened_row h]
      by_cases hframes : frames = 0 <;> simp [hframes]
    | directive d =>
      cases d with
      | importScript name => exact (Option.or_none).symm
      | saveResults on => exact (Option.or_none).symm
      | frameRate rate => exact opened_touch c e.source
      | marker name => exact opened_touch c e.source
      | skipMovies on => exact opened_touch c e.source

theorem opened_of_segment {s : Segment} (h : c.segment? e = some s) :
    (c.next e).opened = none ∧ s.source = c.opened.getD e.source ∧ e.opens := by
  obtain ⟨frames, fields, hline, hrow⟩ := segment?_eq_some h
  have hnext : (c.next e).opened = none := by
    unfold next
    rw [hline]
    simp only [row, hrow]
    rfl
  simp only [rowSegment?, Option.ite_none_left_eq_some, Option.map_eq_some_iff] at hrow
  obtain ⟨hframes, last, -, rfl⟩ := hrow
  refine ⟨hnext, rfl, ?_⟩
  simp [Entry.opens, Entry.frames?, hline, hframes]

theorem refused_of_segment {frames : UInt64} (h : c.segment? e = none)
    (hframes : e.frames? = some frames) : .ofRefused e.source frames ∈ c.reports e := by
  unfold Entry.frames? at hframes
  split at hframes
  · next frames' fields hline =>
    obtain ⟨hne, hsome⟩ := Option.ite_none_left_eq_some.mp hframes
    obtain rfl := Option.some.inj hsome
    simp only [segment?, hline, rowSegment?, if_neg hne, Option.map_eq_none_iff] at h
    simp [reports, hline, refusal, hne, h, Diagnostic.ofRefused]
  · cases hframes

/-- After the lines `before`, of which the rows `earlier` were accepted and which `reported` is
about, the next segment was opened by the first line since these rows that could open it, and the
rows with frames since then were reported. -/
structure Opened (earlier : List AcceptedRow) (before : List Entry) (reported : List Diagnostic)
    (c : Context) : Prop where
  reach_le : reach earlier ≤ before.length
  opened : c.opened = ((before.drop (reach earlier)).find? Entry.opens).map Entry.source
  refused : ∀ e ∈ before.drop (reach earlier), ∀ frames, e.frames? = some frames →
    .ofRefused e.source frames ∈ reported

theorem opened_nil (rate : UInt32) : Opened [] [] [] { rate } where
  reach_le := le_rfl
  opened := rfl
  refused := by simp

variable {earlier : List AcceptedRow} {before : List Entry} {reported : List Diagnostic}

theorem Opened.next (h : Opened earlier before reported c) (hs : c.segment? e = none) :
    Opened earlier (before ++ [e]) (reported ++ c.reports e) (c.next e) where
  reach_le := by
    have := h.reach_le
    rw [List.length_append]
    omega
  opened := by
    rw [opened_next hs, h.opened, List.drop_append_of_le_length h.reach_le, List.find?_append,
      Option.map_or, List.find?_singleton]
    split <;> rfl
  refused := by
    rw [List.drop_append_of_le_length h.reach_le]
    intro f hf frames hframes
    rcases List.mem_append.mp hf with hf | hf
    · exact List.mem_append_left _ (h.refused f hf frames hframes)
    · obtain rfl := List.mem_singleton.mp hf
      exact List.mem_append_right _ (refused_of_segment hs hframes)

theorem Opened.next_row {s : Segment} (hs : c.segment? e = some s) (frames : UInt64)
    (fields : List Field) (earlier : List AcceptedRow) (before : List Entry)
    (reported : List Diagnostic) :
    Opened (earlier ++ [⟨before, frames, fields⟩]) (before ++ [e]) reported (c.next e) := by
  have hnone : (before ++ [e]).drop (before.length + 1) = [] := by simp
  refine ⟨?_, ?_, ?_⟩
  · rw [reach_snoc, List.length_append]
    rfl
  · rw [reach_snoc, hnone, (opened_of_segment hs).1]
    rfl
  · rw [reach_snoc, hnone]
    exact fun f hf => absurd hf List.not_mem_nil

end Context

/-- The segment `s` has the place of the line that opened it among `flat`: the first one after the
accepted rows `earlier` that directs settings or is a row with frames, its own row `own` at the
latest. The rows with frames before that one were reported. -/
structure HasSource (flat : List Entry) (reported : List Diagnostic) (earlier : List AcceptedRow)
    (row : AcceptedRow) (own : Entry) (s : Segment) : Prop where
  own_line : own.reading.line = some (.row row.frames row.fields)
  place : ∃ later, flat = row.before ++ own :: later
  source : ∃ first, (row.since earlier ++ [own]).find? Entry.opens = some first ∧
    s.source = first.source
  refused : ∀ e ∈ row.since earlier, ∀ frames, e.frames? = some frames →
    .ofRefused e.source frames ∈ reported

namespace Context

variable {c : Context} {e : Entry} {earlier : List AcceptedRow} {before : List Entry}
  {reported : List Diagnostic}

theorem Opened.hasSource (h : Opened earlier before reported c) {frames : UInt64}
    {fields : List Field} {s : Segment} (hline : e.reading.line = some (.row frames fields))
    (hs : c.segment? e = some s) (later : List Entry) (more : List Diagnostic) :
    HasSource (before ++ e :: later) (reported ++ more) earlier ⟨before, frames, fields⟩ e s where
  own_line := hline
  place := ⟨later, rfl⟩
  source := by
    obtain ⟨-, hsource, hopens⟩ := opened_of_segment hs
    rw [hsource, h.opened, List.find?_append, List.find?_singleton, if_pos hopens]
    unfold AcceptedRow.since
    cases (before.drop (reach earlier)).find? Entry.opens with
    | none => exact ⟨e, rfl, rfl⟩
    | some first => exact ⟨first, rfl, rfl⟩
  refused f hf frames hframes := List.mem_append_left _ (h.refused f hf frames hframes)

theorem Opened.segments (h : Opened earlier before reported c)
    (hbelow : c.last.toNat < Frame.largest.toNat) (entries : List Entry) :
    ∀ i row s, (acceptedFrom c.last.toNat before entries)[i]? = some row →
      (c.segments entries)[i]? = some s →
      ∃ own, HasSource (before ++ entries) (reported ++ c.allReports entries)
        (earlier ++ (acceptedFrom c.last.toNat before entries).take i) row own s := by
  induction entries generalizing before earlier reported c with
  | nil =>
    intro i row s hrow
    simp [acceptedFrom] at hrow
  | cons e rest ih =>
    intro i row t hi ht
    rw [allReports, ← List.append_assoc]
    cases hs : c.segment? e with
    | none =>
      rw [acceptedFrom_of_none hs] at hi ⊢
      rw [segments, hs] at ht
      rw [List.append_cons before e rest]
      exact ih (h.next hs) (last_next_lt hbelow e) i row t hi ht
    | some s =>
      obtain ⟨frames, fields, hline, hrow⟩ := segment?_eq_some hs
      rw [acceptedFrom_of_row hbelow hline hrow] at hi ⊢
      rw [segments, hs] at ht
      cases i with
      | zero =>
        obtain rfl : _ = row := Option.some.inj hi
        obtain rfl : s = t := Option.some.inj ht
        refine ⟨e, ?_⟩
        rw [List.take_zero, List.append_nil, List.append_assoc]
        exact h.hasSource hline hs rest _
      | succ i =>
        have hrest := ih (Opened.next_row hs frames fields earlier before (reported ++ c.reports e))
          (last_next_lt hbelow e) i row t hi ht
        rw [List.append_cons before e rest, List.take_succ_cons, List.append_cons earlier]
        exact hrest

end Context

def Entry.IsLine (library : Library) (e : Entry) : Prop :=
  ∃ (file text : String) (place : Nat), library file = .ok text ∧
    (lines file text)[place]? = some e

theorem isLine_of_mem_lines {library : Library} {file text : String}
    (hread : library file = .ok text) : ∀ e ∈ lines file text, e.IsLine library := by
  intro e he
  obtain ⟨place, hplace⟩ := List.mem_iff_getElem?.mp he
  exact ⟨file, text, place, hread, hplace⟩

/-- What opens segments among inlined lines is a line of some script: what stands for a script that
cannot be read opens none. -/
theorem Inlined.isLine_of_opens {library : Library} {entries flat : List Entry}
    (h : Inlined library entries flat) (hentries : ∀ e ∈ entries, e.IsLine library) :
    ∀ e ∈ flat, e.opens → e.IsLine library := by
  induction h with
  | nil => exact fun e he => absurd he List.not_mem_nil
  | plain _ _ ih =>
    obtain ⟨hfirst, hrest⟩ := List.forall_mem_cons.mp hentries
    exact List.forall_mem_cons.mpr ⟨fun _ => hfirst, ih hrest⟩
  | missing _ _ _ ih =>
    obtain ⟨hfirst, hrest⟩ := List.forall_mem_cons.mp hentries
    refine List.forall_mem_cons.mpr ⟨fun _ => hfirst, List.forall_mem_cons.mpr ⟨?_, ih hrest⟩⟩
    exact fun hopens => absurd hopens (by simp [Entry.opens, Entry.directs, Entry.rate?,
      Entry.skipMovies?, Entry.marker?, Entry.frames?, Entry.unreadable, Reading.skipped])
  | imported _ read _ _ ihInside ih =>
    obtain ⟨hfirst, hrest⟩ := List.forall_mem_cons.mp hentries
    refine List.forall_mem_append.mpr ⟨List.forall_mem_cons.mpr ⟨fun _ => hfirst, ?_⟩, ih hrest⟩
    exact ihInside (isLine_of_mem_lines read)

theorem Flattens.isLine_of_opens {library : Library} {source : Location} {name : String}
    {flat : List Entry} (h : Flattens library source name flat) :
    ∀ e ∈ flat, e.opens → e.IsLine library := by
  cases h with
  | unreadable =>
    intro e he hopens
    obtain rfl := List.mem_singleton.mp he
    cases hopens
  | script read inside => exact inside.isLine_of_opens (isLine_of_mem_lines read)

namespace HasSource

variable {flat : List Entry} {reported : List Diagnostic} {earlier : List AcceptedRow}
  {row : AcceptedRow} {own : Entry} {s : Segment}

theorem exists_line {library : Library} (h : HasSource flat reported earlier row own s)
    (hflat : ∀ e ∈ flat, e.opens → e.IsLine library) :
    ∃ file text place e, library file = .ok text ∧ (lines file text)[place]? = some e ∧
      e.opens ∧ s.source = ⟨file, .ofNat (place + 1)⟩ := by
  obtain ⟨first, hfirst, hsource⟩ := h.source
  obtain ⟨later, rfl⟩ := h.place
  have hopens := List.find?_some hfirst
  have hmem : first ∈ row.before ++ own :: later := by
    rcases List.mem_append.mp (List.mem_of_find?_eq_some hfirst) with hsince | hown
    · exact List.mem_append_left _ (List.mem_of_mem_drop hsince)
    · rw [List.mem_singleton.mp hown]
      exact List.mem_append_right _ List.mem_cons_self
  obtain ⟨file, text, place, hread, hplace⟩ := hflat first hmem hopens
  exact ⟨file, text, place, first, hread, hplace, hopens,
    hsource.trans (Flat.source_of_lines hplace)⟩

/-- Unless a row was refused in between, the source is the first directive on settings, or the row
itself. -/
theorem source_eq (h : HasSource flat reported earlier row own s)
    (hnone : ∀ e ∈ row.since earlier, e.frames? = none) :
    s.source = (((row.since earlier).find? Entry.directs).getD own).source := by
  obtain ⟨first, hfirst, hsource⟩ := h.source
  have hsame : (row.since earlier).find? Entry.opens = (row.since earlier).find? Entry.directs :=
    List.find?_congr fun e he => by simp [Entry.opens, hnone e he]
  rw [List.find?_append, hsame] at hfirst
  rw [hsource]
  cases hdirects : (row.since earlier).find? Entry.directs with
  | some e =>
    rw [hdirects] at hfirst
    rw [← Option.some.inj hfirst]
    rfl
  | none =>
    rw [hdirects, Option.none_or, List.find?_singleton] at hfirst
    obtain ⟨-, hown⟩ := Option.ite_none_right_eq_some.mp hfirst
    rw [← Option.some.inj hown]
    rfl

end HasSource

/-- The source of a segment in a loaded script is the place, file and line, of the line that opened
it: the first one, among those read after the accepted row before and up to the segment's own row,
that directs the rate, the marker or the skipping of movies, or is a row with frames. Such a row
other than the segment's own was refused and is reported, though its place is kept. Where none was
refused in between, the source is the first of these directives, or else the row itself. -/
theorem load_keeps_opening_lines (settings : Settings) (library : Library) (name : String)
    (loaded : Loaded) (h : load settings library name = .ok loaded) :
    let root := if name = "" then settings.mainScript else name
    ∃ flat, Flattens library ⟨root, 0⟩ root flat ∧
      loaded.store.segments.length = (accepted flat).length ∧
      ∀ i row s, (accepted flat)[i]? = some row → loaded.store.segments[i]? = some s →
        let earlier := (accepted flat).take i
        ∃ own, HasSource flat loaded.diagnostics earlier row own s ∧
          (∃ file text place e, library file = .ok text ∧ (lines file text)[place]? = some e ∧
            e.opens ∧ s.source = ⟨file, .ofNat (place + 1)⟩) ∧
          ((∀ e ∈ row.since earlier, e.frames? = none) →
            s.source = (((row.since earlier).find? Entry.directs).getD own).source) := by
  obtain ⟨flat, hflat, rfl⟩ := load_eq_ok h
  have hscript := Flat.flattens_of_ofScript hflat
  obtain ⟨hlength, -⟩ := (Context.after_nil settings.rate).segments_mean flat
  have hsources := (Context.opened_nil settings.rate).segments (start_lt settings.rate) flat
  rw [assemble_eq]
  refine ⟨flat, hscript, hlength, fun i row s hrow hs => ?_⟩
  obtain ⟨own, hsource⟩ := hsources i row s hrow hs
  exact ⟨own, hsource, hsource.exists_line hscript.isLine_of_opens, hsource.source_eq⟩

/-- A directive before an import is the source of the first row behind it, and a row that is refused
is the source of the next one. -/
theorem load_keeps_opening_lines_of_import :
    let scripts : Texts := [("main", "frame-rate=30\nimport=jump\n# jump\n18446744073709551615\n4"),
      ("jump", "0,X\nmarker=here\n2,Up")]
    ∃ loaded, load {} (Storage.read (MemoryStorage.mk scripts [])) "" = .ok loaded ∧
      loaded.store.segments.map Segment.source = [⟨"main", 1⟩, ⟨"main", 4⟩] ∧
      ∃ flat, Flattens (Storage.read (MemoryStorage.mk scripts [])) ⟨"main", 0⟩ "main" flat ∧
        (accepted flat).length = 2 ∧
        ∀ i row s, (accepted flat)[i]? = some row → loaded.store.segments[i]? = some s →
          ∃ own, HasSource flat loaded.diagnostics ((accepted flat).take i) row own s := by
  intro scripts
  have hview : (load {} (Storage.read (MemoryStorage.mk scripts [])) "").toOption.map
      (fun loaded => loaded.store.segments.map Segment.source) =
        some [⟨"main", 1⟩, ⟨"main", 4⟩] := by
    decide +kernel
  obtain ⟨loaded, hload, hloaded⟩ := load_of_view hview
  obtain ⟨flat, hflat, hlength, hsources⟩ := load_keeps_opening_lines _ _ _ loaded hload
  have htwo := congrArg List.length hloaded
  rw [List.length_map, hlength] at htwo
  refine ⟨loaded, hload, hloaded, flat, hflat, htwo, fun i row s hrow hs => ?_⟩
  obtain ⟨own, hsource, -⟩ := hsources i row s hrow hs
  exact ⟨own, hsource⟩

/-- The first line is reported and skipped, and the frames are those of the second; the segment has
the place of the first. -/
theorem refused_row_is_source :
    let script : Texts := [("main", "18446744073709551615\n5,X")]
    (load {} (Storage.read (MemoryStorage.mk script [])) "main").toOption.map (fun loaded =>
        (loaded.store.segments.map fun s => (s.first, s.last, s.input.buttons, s.source),
          loaded.diagnostics)) =
      some ([(1, 5, .ofButton .x, ⟨"main", 1⟩)],
        [⟨⟨"main", 1⟩, .malformedFrameCount "18446744073709551615"⟩]) := by
  decide +kernel

end PadScript.Script
