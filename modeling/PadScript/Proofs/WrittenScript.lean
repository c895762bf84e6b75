import PadScript.Proofs.Controller
import PadScript.Proofs.RowText
import PadScript.Proofs.ScriptMeaning

/-!
# Written scripts load again

A script that was written from segments loads to the same frames with the same input. The writer
leaves out an axis whose number has not changed and the loader carries it over, so that what is
carried always equals, as a number, what was left out.
-/
namespace PadScript.Script

/-- Segments that begin at the frame `next` and end below the largest frame number, with finite
numbers on all axes. -/
structure Writable (next : Nat) (segments : List Segment) : Prop where
  partition : Partition.From next segments
  below : ∀ s ∈ segments, s.last.toNat < Frame.largest.toNat
  finite : ∀ s ∈ segments, ∀ a, (s.input.axes.get a).isFinite

theorem Writable.head {next : Nat} {s : Segment} {rest : List Segment}
    (h : Writable next (s :: rest)) :
    s.first.toNat = next ∧ s.first.toNat ≤ s.last.toNat ∧ s.last.toNat < Frame.largest.toNat ∧
      ∀ a, (s.input.axes.get a).isFinite := by
  cases h.partition with
  | cons start filled _ =>
    exact ⟨start, filled, h.below s List.mem_cons_self, h.finite s List.mem_cons_self⟩

theorem Writable.tail {next : Nat} {s : Segment} {rest : List Segment}
    (h : Writable next (s :: rest)) : Writable (s.last.toNat + 1) rest := by
  cases h.partition with
  | cons _ _ following =>
    exact ⟨following, fun t ht => h.below t (List.mem_cons_of_mem _ ht),
      fun t ht => h.finite t (List.mem_cons_of_mem _ ht)⟩

/-- The frames of two segments are the same, and so is the input in them, with the two zeros taken
as one. -/
structure SamePlay (s t : Segment) : Prop where
  first : t.first = s.first
  last : t.last = s.last
  input : s.input.numEq t.input

theorem last?_eq_some {α β : Type} {f : α → Option β} {xs : List α} {v : β}
    (hsome : ∃ x ∈ xs, f x = some v) (hsame : ∀ x ∈ xs, ∀ w, f x = some w → w = v) :
    last? f xs = some v := by
  obtain ⟨x, hx, hv⟩ := hsome
  have hmem : v ∈ xs.filterMap f := List.mem_filterMap.mpr ⟨x, hx, hv⟩
  have hne : xs.filterMap f ≠ [] := List.ne_nil_of_mem hmem
  obtain ⟨y, hy, hw⟩ := List.mem_filterMap.mp (List.getLast_mem hne)
  rw [last?, List.getLast?_eq_some_getLast hne, hsame y hy _ hw]

theorem last?_value_rowFields (previous : Option Axes) (s : Segment) (a : Axis) :
    last? (Field.value? a) (rowFields previous s) =
      if a ∈ changedAxes previous s.input.axes then some (s.input.axes.get a) else none := by
  have hvalue : ∀ f ∈ rowFields previous s, ∀ w, Field.value? a f = some w →
      w = s.input.axes.get a ∧ a ∈ changedAxes previous s.input.axes := by
    intro f hf w hw
    rcases List.mem_append.mp hf with hf | hf
    · obtain ⟨b, -, rfl⟩ := List.mem_map.mp hf
      simp [Field.value?] at hw
    · obtain ⟨b, hb, rfl⟩ := List.mem_map.mp hf
      simp only [Field.value?, Option.ite_none_right_eq_some, Option.some.injEq] at hw
      obtain ⟨rfl, rfl⟩ := hw
      exact ⟨rfl, hb⟩
  split
  · next h =>
    refine last?_eq_some ⟨.axis a (s.input.axes.get a), ?_, if_pos rfl⟩
      fun f hf w hw => (hvalue f hf w hw).1
    exact List.mem_append_right _ (List.mem_map_of_mem h)
  · next h =>
    have hnone : (rowFields previous s).filterMap (Field.value? a) = [] := by
      rw [List.filterMap_eq_nil_iff]
      intro f hf
      by_contra hsome
      obtain ⟨w, hw⟩ := Option.ne_none_iff_exists'.mp hsome
      exact h (hvalue f hf w hw).2
    rw [last?, hnone, List.getLast?_nil]

theorem button?_rowFields (previous : Option Axes) (s : Segment) :
    (rowFields previous s).filterMap Field.button? = s.input.buttons.toList := by
  have hbuttons : Field.button? ∘ Field.button = some := rfl
  have haxes : (Field.button? ∘ fun a => Field.axis a (s.input.axes.get a)) = fun _ => none := rfl
  rw [rowFields, List.filterMap_append, List.filterMap_map, List.filterMap_map, hbuttons, haxes]
  simp

def rowReadings : Option Axes → List Segment → List Reading
  | _, [] => []
  | previous, s :: rest =>
    .of (.row (UInt64.ofNat s.frameCount) (rowFields previous s)) ::
      rowReadings (some s.input.axes) rest

namespace Context

/-- What is carried over equals, as numbers, the axes of the row before. -/
def Carries (c : Context) (previous : Option Axes) : Prop :=
  ∀ p, previous = some p → ∀ a, (p.get a).numEq (c.axes.get a)

/-- The axes that the written row before is compared with, after a reload. -/
def reloaded (c : Context) (previous : Option Axes) : Option Axes := previous.map fun _ => c.axes

/-- A written row makes a segment with the same frames and the same input, its axes being those of
the row where they were written and those carried over elsewhere. -/
structure Rebuilds (c : Context) (previous : Option Axes) (s t : Segment) : Prop where
  first : t.first = s.first
  last : t.last = s.last
  buttons : t.input.buttons = s.input.buttons
  axes : ∀ a, t.input.axes.get a =
    if a ∈ changedAxes previous s.input.axes then s.input.axes.get a else c.axes.get a

theorem exists_rebuilds {c : Context} (previous : Option Axes) {s : Segment} (source : Location)
    (hfirst : s.first.toNat = c.last.toNat + 1) (hfilled : s.first.toNat ≤ s.last.toNat)
    (hbelow : s.last.toNat < Frame.largest.toNat) :
    ∃ t, c.rowSegment? source (UInt64.ofNat s.frameCount) (rowFields previous s) = some t ∧
      c.Rebuilds previous s t := by
  have hword : Frame.largest.toNat + 1 = UInt64.size := by decide
  have hcount : s.frameCount = s.last.toNat + 1 - s.first.toNat :=
    Segment.frameCount_eq (by omega) hfilled
  obtain ⟨frames, hframes⟩ : ∃ frames, UInt64.ofNat s.frameCount = frames := ⟨_, rfl⟩
  have htoNat : frames.toNat = s.frameCount := by
    rw [← hframes, UInt64.toNat_ofNat_of_lt' (by omega)]
  have hne : frames ≠ 0 := by
    rintro rfl
    rw [UInt64.toNat_zero] at htoNat
    omega
  obtain ⟨last, hlast⟩ : ∃ last, c.last.later? frames = some last :=
    ⟨_, if_pos (by omega)⟩
  have hsame : last = s.last := by
    obtain ⟨hsum, -⟩ := Frame.later?_eq_some hlast
    rw [← UInt64.toNat_inj]
    omega
  have hnext : c.last.next = s.first := by
    rw [← UInt64.toNat_inj, Frame.toNat_next (by omega), hfirst]
  rw [hframes, rowSegment?, if_neg hne, hlast, hsame]
  refine ⟨_, rfl, hnext, rfl, ?_, fun a => ?_⟩
  · show (Draft.press _ _).buttons = _
    rw [Draft.buttons_press, button?_rowFields]
    exact s.input.buttons.ofList_toList
  · show (Draft.press _ _).axes.get a = _
    rw [Draft.axes_press, last?_value_rowFields]
    split <;> rfl

variable {c : Context} {previous : Option Axes} {s t : Segment}

theorem mem_changedAxes {axes : Axes} {a : Axis} :
    a ∈ changedAxes previous axes ↔
      ∀ p, previous = some p → (p.get a).numEq (axes.get a) = false := by
  simp [changedAxes, Option.all_eq_true]

theorem Rebuilds.numEq (h : c.Rebuilds previous s t) (hc : c.Carries previous)
    (hfinite : ∀ a, (s.input.axes.get a).isFinite) (a : Axis) :
    (s.input.axes.get a).numEq (t.input.axes.get a) := by
  rw [h.axes]
  split
  · exact Single.numEq_self (Single.isNaN_of_isFinite (hfinite a))
  · next hsame =>
    rw [mem_changedAxes] at hsame
    push Not at hsame
    obtain ⟨p, hp, hequal⟩ := hsame
    rw [ne_eq, Bool.not_eq_false, Single.numEq_comm] at hequal
    exact Single.numEq_trans hequal (hc p hp a)

theorem Rebuilds.samePlay (h : c.Rebuilds previous s t) (hc : c.Carries previous)
    (hfinite : ∀ a, (s.input.axes.get a).isFinite) : SamePlay s t where
  first := h.first
  last := h.last
  input := Controller.numEq_iff.mpr ⟨h.buttons.symm, h.numEq hc hfinite⟩

theorem Rebuilds.changedAxes_eq (h : c.Rebuilds previous s t) (hc : c.Carries previous)
    (hfinite : ∀ a, (s.input.axes.get a).isFinite) :
    changedAxes (c.reloaded previous) t.input.axes = changedAxes previous s.input.axes := by
  refine List.filter_congr fun a _ => ?_
  cases hp : previous with
  | none => rfl
  | some p =>
    have hequal := Single.numEq_congr (hc p hp a) (h.numEq hc hfinite a)
    simp only [reloaded, Option.map_some, Option.all_some, hequal]

theorem Rebuilds.rowText_eq (h : c.Rebuilds previous s t) (hc : c.Carries previous)
    (hfinite : ∀ a, (s.input.axes.get a).isFinite) :
    rowText (c.reloaded previous) t = rowText previous s := by
  have hcount : t.frameCount = s.frameCount := by simp only [Segment.frameCount, h.first, h.last]
  have haxes : (changedAxes previous s.input.axes).map
      (fun a => "," ++ a.name ++ "=" ++ (t.input.axes.get a).toText) =
      (changedAxes previous s.input.axes).map
        (fun a => "," ++ a.name ++ "=" ++ (s.input.axes.get a).toText) := by
    refine List.map_congr_left fun a ha => ?_
    rw [h.axes, if_pos ha]
  simp only [rowText, h.changedAxes_eq hc hfinite, h.buttons, hcount, haxes]

theorem reports_of_row {c : Context} {e : Entry} {frames : UInt64} {fields : List Field}
    {t : Segment} (hread : e.reading = .of (.row frames fields))
    (ht : c.rowSegment? e.source frames fields = some t) : c.reports e = [] := by
  have haccepted : c.last.later? frames ≠ none := by
    intro hnone
    simp [rowSegment?, hnone] at ht
  simp [reports, hread, Reading.of, refusal, haccepted]

theorem skip_blank (c : Context) {blanks : List Entry}
    (h : ∀ e ∈ blanks, e.reading = .of .blank) (entries : List Entry) :
    c.segments (blanks ++ entries) = c.segments entries ∧
      c.allReports (blanks ++ entries) = c.allReports entries := by
  induction blanks with
  | nil => exact ⟨rfl, rfl⟩
  | cons e rest ih =>
    obtain ⟨he, hrest⟩ := List.forall_mem_cons.mp h
    have hsegment : c.segment? e = none := by simp [segment?, he, Reading.of]
    have hreports : c.reports e = [] := by simp [reports, he, Reading.of]
    have hnext : c.next e = c := by simp [next, he, Reading.of]
    rw [List.cons_append, segments, allReports, hsegment, hreports, hnext]
    exact ih hrest

/-- The rows of a written script rebuild its segments one by one. -/
theorem segments_written {entries : List Entry} {segments : List Segment}
    (hread : entries.map Entry.reading = rowReadings previous segments ++ [.of .blank])
    (hw : Writable (c.last.toNat + 1) segments) (hc : c.Carries previous) :
    List.Forall₂ SamePlay segments (c.segments entries) ∧ c.allReports entries = [] ∧
      rowTexts (c.reloaded previous) (c.segments entries) = rowTexts previous segments := by
  induction segments generalizing c previous entries with
  | nil =>
    obtain ⟨e, rfl, he⟩ := List.map_eq_singleton_iff.mp hread
    have hsegments : c.segments [e] = [] := by simp [segments, segment?, he, Reading.of]
    rw [hsegments]
    exact ⟨.nil, by simp [allReports, reports, he, Reading.of], rfl⟩
  | cons s rest ih =>
    -- the row of `s` is rebuilt as `t`; the rest is read in the context that `t` leaves, which
    -- carries axes that equal those of `s`
    obtain ⟨e, entries, rfl, he, hrest⟩ := List.map_eq_cons_iff.mp hread
    obtain ⟨hfirst, hfilled, hbelow, hfinite⟩ := hw.head
    obtain ⟨t, ht, hrebuilds⟩ := exists_rebuilds previous e.source hfirst hfilled hbelow
    have hline : e.reading.line =
        some (.row (UInt64.ofNat s.frameCount) (rowFields previous s)) := by rw [he]; rfl
    have hsegment : c.segment? e = some t := by simp only [segment?, hline, ht]
    have hnext : c.next e = ofSegment t none := by simp only [next, hline, row, ht]
    have hcarries : (c.next e).Carries (some s.input.axes) := by
      rw [hnext]
      rintro p hp a
      obtain rfl := Option.some.inj hp
      exact hrebuilds.numEq hc hfinite a
    have hlast : (c.next e).last = s.last := by rw [hnext]; exact hrebuilds.last
    obtain ⟨hsame, hreports, htexts⟩ := ih hrest (by rw [hlast]; exact hw.tail) hcarries
    have hsegments : c.segments (e :: entries) = t :: (c.next e).segments entries := by
      rw [segments, hsegment]
      rfl
    rw [hsegments]
    refine ⟨.cons (hrebuilds.samePlay hc hfinite) hsame, ?_, ?_⟩
    · rw [allReports, reports_of_row he ht, hreports, List.append_nil]
    · rw [rowTexts, rowTexts, hrebuilds.rowText_eq hc hfinite, ← htexts]
      rw [hnext]
      rfl

end Context

def rowLines : Option Axes → List Segment → List (List Char)
  | _, [] => []
  | previous, s :: rest => rowLine previous s :: rowLines (some s.input.axes) rest

def commentLine (text : String) : List Char := commentSign :: ' ' :: text.toList

theorem toList_write (segments : List Segment) (header : List String) :
    (write segments header).toList =
      (header.map commentLine ++ rowLines none segments).flatMap (· ++ ['\n']) := by
  have hrows : ∀ previous, (rowTexts previous segments).flatMap String.toList =
      (rowLines previous segments).flatMap (· ++ ['\n']) := by
    induction segments with
    | nil => exact fun _ => rfl
    | cons s rest ih =>
      intro previous
      rw [rowTexts, rowLines, List.flatMap_cons, List.flatMap_cons, toList_rowText, ih]
  have hheader : (header.map commentText).flatMap String.toList =
      (header.map commentLine).flatMap (· ++ ['\n']) := by
    rw [List.flatMap_map, List.flatMap_map]
    refine List.flatMap_congr fun text _ => ?_
    simp [commentText, commentLine]
  rw [write, String.toList_join, List.flatMap_append, List.flatMap_append, hheader, hrows]

theorem readings_lines (file text : String) :
    (lines file text).map Entry.reading =
      (Text.pieces '\n' text.toList).map fun cs => .ofSqueezed (Text.squeeze cs) := by
  refine List.ext_getElem (by simp [lines]) fun i h h' => ?_
  simp [lines]

theorem readings_rowLines {next : Nat} {segments : List Segment} (hnext : 1 ≤ next)
    (hw : Writable next segments) (previous : Option Axes) :
    (rowLines previous segments).map (fun cs => .ofSqueezed (Text.squeeze cs)) =
      rowReadings previous segments := by
  induction segments generalizing next previous with
  | nil => rfl
  | cons s rest ih =>
    obtain ⟨hfirst, hfilled, hbelow, hfinite⟩ := hw.head
    have hword : Frame.largest.toNat < UInt64.size := by decide
    have hcount : s.frameCount = s.last.toNat + 1 - s.first.toNat :=
      Segment.frameCount_eq (by omega) hfilled
    rw [rowLines, rowReadings, List.map_cons, ih (by omega) hw.tail,
      ofSqueezed_rowLine hfinite (by omega) (by omega)]

theorem not_mem_rowLines {next : Nat} {segments : List Segment}
    (hw : Writable next segments) (previous : Option Axes) :
    ∀ cs ∈ rowLines previous segments, '\n' ∉ cs := by
  induction segments generalizing next previous with
  | nil => simp [rowLines]
  | cons s rest ih =>
    intro cs hcs hbreak
    rcases List.mem_cons.mp hcs with rfl | hcs
    · have hblank := isBlank_of_mem_rowLine hw.head.2.2.2 hbreak
      exact absurd hblank (by decide)
    · exact ih hw.tail _ cs hcs hbreak

theorem ofSqueezed_commentLine (text : String) :
    Reading.ofSqueezed (Text.squeeze (commentLine text)) = .of .blank := by
  have hsign : Text.squeeze (commentLine text) = commentSign :: Text.squeeze (' ' :: text.toList) :=
    List.filter_cons_of_pos (by decide)
  simp [Reading.ofSqueezed, hsign]

theorem readings_write {segments : List Segment} (hw : Writable 1 segments) {header : List String}
    (hheader : ∀ text ∈ header, '\n' ∉ text.toList) (file : String) :
    (lines file (write segments header)).map Entry.reading =
      header.map (fun _ => .of .blank) ++ (rowReadings none segments ++ [.of .blank]) := by
  have hbreak : ∀ cs ∈ header.map commentLine ++ rowLines none segments, '\n' ∉ cs := by
    intro cs hcs
    rcases List.mem_append.mp hcs with hcs | hcs
    · obtain ⟨text, htext, rfl⟩ := List.mem_map.mp hcs
      simpa [commentLine, commentSign] using hheader text htext
    · exact not_mem_rowLines hw none cs hcs
  have hcomments : (header.map commentLine).map (fun cs => Reading.ofSqueezed (Text.squeeze cs)) =
      header.map fun _ => .of .blank := by
    rw [List.map_map]
    exact List.map_congr_left fun text _ => ofSqueezed_commentLine text
  rw [readings_lines, toList_write, Text.pieces_terminated hbreak, List.map_append,
    List.map_append, hcomments, readings_rowLines le_rfl hw none, List.append_assoc]
  rfl

theorem import?_of_mem_rowReadings {previous : Option Axes} {segments : List Segment}
    {r : Reading} (hr : r ∈ rowReadings previous segments) : r.import? = none := by
  induction segments generalizing previous with
  | nil => simp [rowReadings] at hr
  | cons s rest ih =>
    rcases List.mem_cons.mp hr with rfl | hr
    · rfl
    · exact ih hr

theorem import?_of_readings {entries : List Entry} {blanks : List Reading}
    {previous : Option Axes} {segments : List Segment} (hblanks : ∀ r ∈ blanks, r = .of .blank)
    (h : entries.map Entry.reading = blanks ++ (rowReadings previous segments ++ [.of .blank])) :
    ∀ e ∈ entries, e.reading.import? = none := by
  intro e he
  have hmem := List.mem_map_of_mem (f := Entry.reading) he
  rw [h, List.mem_append, List.mem_append] at hmem
  rcases hmem with hmem | hmem | hmem
  · rw [hblanks _ hmem]
    rfl
  · exact import?_of_mem_rowReadings hmem
  · rw [List.mem_singleton.mp hmem]
    rfl

theorem load_of_plain {settings : Settings} {library : Library} {name text : String}
    (hname : library (if name = "" then settings.mainScript else name) = .ok text)
    (hplain : ∀ e ∈ lines (if name = "" then settings.mainScript else name) text,
      e.reading.import? = none) :
    load settings library name = .ok (assemble settings.rate
      (lines (if name = "" then settings.mainScript else name) text)) := by
  obtain ⟨root, hroot⟩ : ∃ root, (if name = "" then settings.mainScript else name) = root :=
    ⟨_, rfl⟩
  rw [hroot] at hname hplain ⊢
  have hvisit : ∀ entries : List Entry, (∀ e ∈ entries, e.reading.import? = none) →
      entries.flatMapM (Flat.visit (Flat.descend library settings.importDepth settings.importDepth
        ([] ++ [root]))) = .ok entries := by
    intro entries hentries
    induction entries with
    | nil => rfl
    | cons e rest ih =>
      have he : Flat.visit (Flat.descend library settings.importDepth settings.importDepth
          ([] ++ [root])) e = .ok [e] := by
        simp [Flat.visit, hentries e List.mem_cons_self]
      rw [List.flatMapM_cons, he, ih fun f hf => hentries f (List.mem_cons_of_mem _ hf)]
      rfl
  have hflat : Flat.ofScript library settings.importDepth root = .ok (lines root text) := by
    unfold Flat.ofScript Flat.descend
    simp only [List.not_mem_nil, if_false, hname]
    exact hvisit _ hplain
  unfold load
  simp only [hroot, hflat]
  rfl

theorem SamePlay.frameCount {s t : Segment} (h : SamePlay s t) : t.frameCount = s.frameCount := by
  simp only [Segment.frameCount, h.first, h.last]

theorem expand_samePlay {segments others : List Segment}
    (h : List.Forall₂ SamePlay segments others) :
    List.Forall₂ (fun a b => a.numEq b) (Store.expand ⟨segments⟩) (Store.expand ⟨others⟩) := by
  refine List.rel_flatMap h fun s t hst => ?_
  rw [hst.frameCount]
  induction s.frameCount with
  | zero => exact .nil
  | succ n ih =>
    rw [List.replicate_succ, List.replicate_succ]
    exact .cons hst.input ih

/-- Rows that stand under blank lines load, without reports, to segments that play the same, and
these are written as the same rows. -/
theorem load_of_readings {segments : List Segment} (hw : Writable 1 segments) {text : String}
    {blanks : List Reading} (hblanks : ∀ r ∈ blanks, r = .of .blank)
    (hread : ∀ file, (lines file text).map Entry.reading =
      blanks ++ (rowReadings none segments ++ [.of .blank]))
    {settings : Settings} {library : Library} {name : String}
    (hname : library (if name = "" then settings.mainScript else name) = .ok text) :
    ∃ loaded, load settings library name = .ok loaded ∧ loaded.diagnostics = [] ∧
      List.Forall₂ SamePlay segments loaded.store.segments ∧
      write loaded.store.segments [] = write segments [] := by
  have hfile := hread (if name = "" then settings.mainScript else name)
  have hload := load_of_plain hname (import?_of_readings hblanks hfile)
  have hcarries : ({ rate := settings.rate } : Context).Carries none := by
    rintro p hp
    simp at hp
  obtain ⟨comments, rows, hlines, hcomments, hrows⟩ := List.map_eq_append_iff.mp hfile
  have hblank : ∀ e ∈ comments, e.reading = .of .blank := by
    intro e he
    exact hblanks _ (hcomments ▸ List.mem_map_of_mem he)
  obtain ⟨hsame, hreports, htexts⟩ := Context.segments_written
    (c := { rate := settings.rate }) hrows hw hcarries
  obtain ⟨hsegments, hnone⟩ := Context.skip_blank { rate := settings.rate } hblank rows
  refine ⟨_, hload, ?_⟩
  rw [assemble_eq, hlines, hsegments, hnone]
  refine ⟨hreports, hsame, ?_⟩
  rw [write, write, List.map_nil, List.nil_append, List.nil_append]
  exact congrArg String.join htexts

/-- A script written under a header of whole lines loads, without reports, to segments that play the
same, and these are written as the same rows. -/
theorem load_write_header {segments : List Segment} (hw : Writable 1 segments)
    {header : List String} (hheader : ∀ text ∈ header, '\n' ∉ text.toList) {settings : Settings}
    {library : Library} {name : String}
    (hname : library (if name = "" then settings.mainScript else name) =
      .ok (write segments header)) :
    ∃ loaded, load settings library name = .ok loaded ∧ loaded.diagnostics = [] ∧
      List.Forall₂ SamePlay segments loaded.store.segments ∧
      write loaded.store.segments [] = write segments [] := by
  refine load_of_readings hw ?_ (readings_write hw hheader) hname
  intro r hr
  obtain ⟨text, -, hblank⟩ := List.mem_map.mp hr
  exact hblank.symm

theorem load_write {segments : List Segment} (hw : Writable 1 segments) {settings : Settings}
    {library : Library} {name : String}
    (hname : library (if name = "" then settings.mainScript else name) = .ok (write segments [])) :
    ∃ loaded, load settings library name = .ok loaded ∧ loaded.diagnostics = [] ∧
      List.Forall₂ SamePlay segments loaded.store.segments ∧
      write loaded.store.segments [] = write segments [] :=
  load_write_header hw (by simp) hname

end PadScript.Script
