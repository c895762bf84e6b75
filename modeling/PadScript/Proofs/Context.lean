import Mathlib.Tactic
import PadScript.Partition
import PadScript.Script.Load

/-!
# What lines hand on

A draft opens the segment after a row only when a later line needs it. `Context` says the same
without delay: what the lines so far hand on to the next row. `assemble_eq` shows that working
lines into a draft makes exactly the segments that the contexts make, and `Context.segments_from`
that these partition the frames.
-/
namespace PadScript.Script

/-- What the lines so far hand on: the last frame, settings and axes, and the place of the first
line after the latest row that opened the next segment. -/
structure Context where
  last : Frame := 0
  rate : UInt32
  skipMovies : Bool := false
  marker : Option String := none
  axes : Axes := {}
  opened : Option Location := none
  deriving DecidableEq, Repr

namespace Context

def ofSegment (s : Segment) (opened : Option Location) : Context where
  last := s.last
  rate := s.rate
  skipMovies := s.skipMovies
  marker := s.marker
  axes := s.input.axes
  opened := opened

/-- The next segment before a row has filled it, when `source` is the present line. -/
def blank (c : Context) (source : Location) : Segment where
  first := c.last.next
  last := c.last
  source := c.opened.getD source
  rate := c.rate
  skipMovies := c.skipMovies
  marker := c.marker
  input := ⟨.empty, c.axes⟩

/-- The next segment is open from this line on, unless it was already. -/
def touch (c : Context) (source : Location) : Context :=
  { c with opened := some (c.opened.getD source) }

def direct (c : Context) (source : Location) : Directive → Context
  | .frameRate value => { c.touch source with rate := value }
  | .marker name => { c.touch source with marker := some name }
  | .skipMovies on => { c.touch source with skipMovies := on }
  | .saveResults _ => c
  | .importScript _ => c

def rowSegment? (c : Context) (source : Location) (frames : UInt64) (fields : List Field) :
    Option Segment :=
  if frames = 0 then none
  else (c.last.later? frames).map fun last =>
    { c.blank source with last, input := Draft.press (c.blank source).input fields }

def segment? (c : Context) (e : Entry) : Option Segment :=
  match e.reading.line with
  | some (.row frames fields) => c.rowSegment? e.source frames fields
  | _ => none

/-- The context after a row. A row without frames changes nothing, and one that is refused has
opened the next segment. -/
def row (c : Context) (source : Location) (frames : UInt64) (fields : List Field) : Context :=
  match c.rowSegment? source frames fields with
  | some s => ofSegment s none
  | none => if frames = 0 then c else c.touch source

def next (c : Context) (e : Entry) : Context :=
  match e.reading.line with
  | some (.directive d) => c.direct e.source d
  | some (.row frames fields) => c.row e.source frames fields
  | _ => c

def refusal (c : Context) (frames : UInt64) : List Issue :=
  if frames ≠ 0 ∧ c.last.later? frames = none then [.malformedFrameCount (toString frames.toNat)]
  else []

def reports (c : Context) (e : Entry) : List Diagnostic :=
  let refused := match e.reading.line with
    | some (.row frames _) => c.refusal frames
    | _ => []
  (e.reading.issues ++ refused).map (Diagnostic.mk e.source)

def segments (c : Context) : List Entry → List Segment
  | [] => []
  | e :: rest => (c.segment? e).toList ++ (c.next e).segments rest

def allReports (c : Context) : List Entry → List Diagnostic
  | [] => []
  | e :: rest => c.reports e ++ (c.next e).allReports rest

theorem rowSegment?_eq_some {c : Context} {source : Location} {frames : UInt64}
    {fields : List Field} {s : Segment} (h : c.last.toNat < Frame.largest.toNat)
    (hs : c.rowSegment? source frames fields = some s) :
    s.first.toNat = c.last.toNat + 1 ∧ s.last.toNat = c.last.toNat + frames.toNat ∧
      frames.toNat ≠ 0 ∧ s.last.toNat < Frame.largest.toNat := by
  simp only [rowSegment?, Option.ite_none_left_eq_some, Option.map_eq_some_iff] at hs
  obtain ⟨hframes, last, hlast, rfl⟩ := hs
  obtain ⟨hsum, hbelow⟩ := Frame.later?_eq_some hlast
  have hne : frames.toNat ≠ 0 := fun h0 => hframes (UInt64.toNat_inj.mp (by simpa using h0))
  exact ⟨Frame.toNat_next h, hsum, hne, hbelow⟩

theorem rowSegment?_isEmpty {c : Context} {source : Location} {frames : UInt64}
    {fields : List Field} {s : Segment} (h : c.last.toNat < Frame.largest.toNat)
    (hs : c.rowSegment? source frames fields = some s) : s.isEmpty = false := by
  obtain ⟨hfirst, hlast, hne, -⟩ := rowSegment?_eq_some h hs
  rw [Bool.eq_false_iff, ne_eq, Segment.isEmpty_iff, UInt64.lt_iff_toNat_lt]
  omega

theorem segment?_eq_some {c : Context} {e : Entry} {s : Segment} (hs : c.segment? e = some s) :
    ∃ frames fields, e.reading.line = some (.row frames fields) ∧
      c.rowSegment? e.source frames fields = some s := by
  unfold segment? at hs
  split at hs
  · exact ⟨_, _, ‹_›, hs⟩
  · simp at hs

@[simp] theorem last_touch (c : Context) (source : Location) : (c.touch source).last = c.last := rfl

theorem last_direct (c : Context) (source : Location) (d : Directive) :
    (c.direct source d).last = c.last := by
  cases d <;> rfl

theorem last_row (c : Context) (source : Location) (frames : UInt64) (fields : List Field) :
    (c.row source frames fields).last =
      ((c.rowSegment? source frames fields).map Segment.last).getD c.last := by
  unfold row
  cases c.rowSegment? source frames fields with
  | some s => rfl
  | none =>
    show (if frames = 0 then c else c.touch source).last = c.last
    split <;> rfl

theorem last_next (c : Context) (e : Entry) :
    (c.next e).last = ((c.segment? e).map Segment.last).getD c.last := by
  unfold next segment?
  rcases e.reading.line with _ | _ | d | ⟨frames, fields⟩
  · rfl
  · rfl
  · exact last_direct c e.source d
  · exact last_row c e.source frames fields

theorem last_next_lt {c : Context} (h : c.last.toNat < Frame.largest.toNat) (e : Entry) :
    (c.next e).last.toNat < Frame.largest.toNat := by
  rw [last_next]
  cases hs : c.segment? e with
  | none => exact h
  | some s =>
    obtain ⟨frames, fields, -, hrow⟩ := segment?_eq_some hs
    exact (rowSegment?_eq_some h hrow).2.2.2

theorem segments_from {c : Context} (h : c.last.toNat < Frame.largest.toNat)
    (entries : List Entry) : Partition.From (c.last.toNat + 1) (c.segments entries) := by
  induction entries generalizing c with
  | nil => exact .nil _
  | cons e rest ih =>
    have hrest := ih (last_next_lt h e)
    rw [last_next] at hrest
    unfold segments
    cases hs : c.segment? e with
    | none => simpa [hs] using hrest
    | some s =>
      obtain ⟨frames, fields, -, hrow⟩ := segment?_eq_some hs
      obtain ⟨hfirst, hlast, hne, -⟩ := rowSegment?_eq_some h hrow
      rw [hs] at hrest
      exact .cons hfirst (by omega) hrest

theorem segments_last_lt {c : Context} (h : c.last.toNat < Frame.largest.toNat)
    {entries : List Entry} {s : Segment} (hs : s ∈ c.segments entries) :
    s.last.toNat < Frame.largest.toNat := by
  induction entries generalizing c with
  | nil => simp [segments] at hs
  | cons e rest ih =>
    rcases List.mem_append.mp hs with hs | hs
    · obtain ⟨frames, fields, -, hrow⟩ := segment?_eq_some (Option.mem_toList.mp hs)
      exact (rowSegment?_eq_some h hrow).2.2.2
    · exact ih (last_next_lt h e) hs

end Context

namespace Draft

def context (rate : UInt32) (d : Draft) : Context :=
  match d.latest with
  | .absent => { rate }
  | .opened s => .ofSegment s (some s.source)
  | .filled s => .ofSegment s none

def made (d : Draft) : List Segment :=
  match d.latest with
  | .filled s => (s :: d.earlier).reverse
  | _ => d.earlier.reverse

/-- An opened segment follows the frames so far and holds no buttons; filled ones have frames. -/
structure Sound (rate : UInt32) (d : Draft) : Prop where
  below : (d.context rate).last.toNat < Frame.largest.toNat
  opened : ∀ s, d.latest = .opened s → s.first = s.last.next ∧ s.input.buttons = .empty
  filled : ∀ s ∈ d.made, s.isEmpty = false

theorem sound_empty (rate : UInt32) : Sound rate {} where
  below := show (0 : Frame).toNat < Frame.largest.toNat by decide
  opened := by simp
  filled := by simp [made]

theorem pending_eq {rate : UInt32} {d : Draft} (h : d.Sound rate) (source : Location) :
    d.pending rate source = (d.made.reverse, (d.context rate).blank source) := by
  unfold pending made context
  cases hl : d.latest with
  | absent => simp [Segment.fresh, Context.blank, Frame.next, Frame.previous, Frame.largest]
  | opened s =>
    obtain ⟨hfirst, hbuttons⟩ := h.opened s hl
    simp [Context.blank, Context.ofSegment, ← hfirst, ← hbuttons]
  | filled s => simp [Segment.successor, Context.blank, Context.ofSegment]

def reopen (d : Draft) (s : Segment) : Draft :=
  { d with earlier := d.made.reverse, latest := .opened s }

@[simp] theorem made_reopen (d : Draft) (s : Segment) : (d.reopen s).made = d.made := by
  simp [reopen, made]

@[simp] theorem context_reopen (rate : UInt32) (d : Draft) (s : Segment) :
    (d.reopen s).context rate = .ofSegment s (some s.source) := rfl

theorem sound_reopen {rate : UInt32} {d : Draft} (h : d.Sound rate) {s : Segment}
    (hlast : s.last = (d.context rate).last) (hfirst : s.first = s.last.next)
    (hbuttons : s.input.buttons = .empty) : (d.reopen s).Sound rate where
  below := by simpa [Context.ofSegment, hlast] using h.below
  opened := by
    rintro t ht
    obtain rfl : s = t := Latest.opened.inj ht
    exact ⟨hfirst, hbuttons⟩
  filled := by simpa using h.filled

def append (d : Draft) (s : Segment) : Draft :=
  { d with earlier := d.made.reverse, latest := .filled s }

@[simp] theorem made_append (d : Draft) (s : Segment) : (d.append s).made = d.made ++ [s] := by
  simp [append, made]

@[simp] theorem context_append (rate : UInt32) (d : Draft) (s : Segment) :
    (d.append s).context rate = .ofSegment s none := rfl

theorem sound_append {rate : UInt32} {d : Draft} (h : d.Sound rate) {s : Segment}
    (hfilled : s.isEmpty = false) (hbelow : s.last.toNat < Frame.largest.toNat) :
    (d.append s).Sound rate where
  below := hbelow
  opened := by simp [append]
  filled := by
    intro t ht
    rw [made_append, List.mem_append, List.mem_singleton] at ht
    rcases ht with ht | rfl
    · exact h.filled t ht
    · exact hfilled

theorem sound_report {rate : UInt32} {d : Draft} (h : d.Sound rate)
    (diagnostics : List Diagnostic) : ({ d with diagnostics } : Draft).Sound rate :=
  ⟨h.below, h.opened, h.filled⟩

theorem adjust_eq {rate : UInt32} {d : Draft} (h : d.Sound rate) (source : Location)
    (change : Segment → Segment) :
    d.adjust rate source change = d.reopen (change ((d.context rate).blank source)) := by
  simp only [adjust, pending_eq h, reopen]

/-- What one step of reading does to a draft: the context afterwards, the segments that are added
and what is reported. -/
structure Step (rate : UInt32) (d after : Draft) (next : Context) (added : List Segment)
    (reported : List Diagnostic) : Prop where
  sound : after.Sound rate
  context : after.context rate = next
  made : after.made = d.made ++ added
  diagnostics : after.diagnostics = reported.reverse ++ d.diagnostics

theorem direct_spec {rate : UInt32} {d : Draft} (h : d.Sound rate) (source : Location)
    (directive : Directive) :
    Step rate d (d.direct rate source directive) ((d.context rate).direct source directive) []
      [] := by
  cases directive with
  | importScript name => exact ⟨h, rfl, (List.append_nil _).symm, rfl⟩
  | saveResults on =>
    exact ⟨⟨h.below, h.opened, h.filled⟩, rfl, (List.append_nil _).symm, rfl⟩
  | frameRate value | marker value | skipMovies value =>
    simp only [direct, adjust_eq h]
    exact ⟨sound_reopen h rfl rfl rfl, rfl, by simp, rfl⟩

theorem fill_spec {rate : UInt32} {d : Draft} (h : d.Sound rate) (source : Location)
    (frames : UInt64) (fields : List Field) :
    Step rate d (d.fill rate source frames fields) ((d.context rate).row source frames fields)
      ((d.context rate).rowSegment? source frames fields).toList
      (((d.context rate).refusal frames).map (Diagnostic.mk source)) := by
  by_cases hf : frames = 0
  · have hfill : d.fill rate source frames fields = d := by simp [fill, hf]
    rw [hfill]
    exact ⟨h, by simp [Context.row, Context.rowSegment?, hf],
      by simp [Context.rowSegment?, hf], by simp [Context.refusal, hf]⟩
  · have hlast : ((d.context rate).blank source).last = (d.context rate).last := rfl
    cases hl : (d.context rate).last.later? frames with
    | none =>
      have hfill : d.fill rate source frames fields =
          { d.reopen ((d.context rate).blank source) with
            diagnostics :=
              ⟨source, .malformedFrameCount (toString frames.toNat)⟩ :: d.diagnostics } := by
        simp only [fill, if_neg hf, pending_eq h, hlast, hl, reopen]
      have hrow : (d.context rate).rowSegment? source frames fields = none := by
        simp [Context.rowSegment?, hl]
      rw [hfill]
      refine ⟨sound_report (sound_reopen h rfl rfl rfl) _, ?_, ?_,
        by simp [Context.refusal, hf, hl]⟩
      · simp only [Context.row, hrow, if_neg hf]
        rfl
      · rw [hrow]
        exact (made_reopen d ((d.context rate).blank source)).trans (List.append_nil _).symm
    | some last =>
      obtain ⟨s, hfill, hrow⟩ : ∃ s, d.fill rate source frames fields = d.append s ∧
          (d.context rate).rowSegment? source frames fields = some s := by
        simp only [fill, Context.rowSegment?, if_neg hf, pending_eq h, hlast, hl, append]
        exact ⟨_, rfl, rfl⟩
      obtain ⟨-, -, -, hbelow⟩ := Context.rowSegment?_eq_some h.below hrow
      rw [hfill]
      refine ⟨sound_append h (Context.rowSegment?_isEmpty h.below hrow) hbelow, ?_, ?_, ?_⟩
      · simp only [Context.row, hrow, context_append]
      · rw [hrow]
        exact made_append d s
      · simp [append, Context.refusal, hl]

theorem take_spec {rate : UInt32} {d : Draft} (h : d.Sound rate) (e : Entry) :
    Step rate d (d.take rate e) ((d.context rate).next e) ((d.context rate).segment? e).toList
      ((d.context rate).reports e) := by
  have hnoted := sound_report h ((e.reading.issues.map (Diagnostic.mk e.source)).reverse ++
    d.diagnostics)
  unfold take Context.next Context.segment? Context.reports
  rcases e.reading.line with _ | _ | directive | ⟨frames, fields⟩
  · exact ⟨hnoted, rfl, (List.append_nil _).symm, by simp⟩
  · exact ⟨hnoted, rfl, (List.append_nil _).symm, by simp⟩
  · have step := direct_spec hnoted e.source directive
    exact ⟨step.sound, step.context, step.made, by simpa using step.diagnostics⟩
  · have step := fill_spec hnoted e.source frames fields
    refine ⟨step.sound, step.context, step.made, step.diagnostics.trans ?_⟩
    simp only [List.map_append, List.reverse_append, List.append_assoc]
    rfl

/-- What many lines do: the run of the single steps. -/
theorem foldl_take_spec {rate : UInt32} {d : Draft} (h : d.Sound rate) (entries : List Entry) :
    Step rate d (entries.foldl (take rate) d) (entries.foldl Context.next (d.context rate))
      ((d.context rate).segments entries) ((d.context rate).allReports entries) := by
  induction entries generalizing d with
  | nil => exact ⟨h, rfl, (List.append_nil _).symm, rfl⟩
  | cons e rest ih =>
    have step := take_spec h e
    have run := ih step.sound
    rw [step.context] at run
    refine ⟨run.sound, run.context, run.made.trans ?_, run.diagnostics.trans ?_⟩
    · rw [step.made, List.append_assoc]
      rfl
    · rw [step.diagnostics, Context.allReports, List.reverse_append, List.append_assoc]

theorem store_finish {rate : UInt32} {d : Draft} (h : d.Sound rate) :
    d.finish.store.segments = d.made := by
  have hmade : d.made.filter (fun s => !s.isEmpty) = d.made :=
    List.filter_eq_self.mpr fun s hs => by simp [h.filled s hs]
  unfold finish
  cases hl : d.latest with
  | absent => simpa [Latest.toList, made, hl] using hmade
  | filled s => simpa [Latest.toList, made, hl] using hmade
  | opened s =>
    have hempty : s.isEmpty := by
      have hbelow : s.last.toNat < Frame.largest.toNat := by
        simpa [context, hl, Context.ofSegment] using h.below
      have := Frame.toNat_next hbelow
      rw [Segment.isEmpty_iff, UInt64.lt_iff_toNat_lt, (h.opened s hl).1]
      omega
    simpa [Latest.toList, made, hl, hempty] using hmade

end Draft

def Entry.saveResults? (e : Entry) : Option Bool :=
  match e.reading.line with
  | some (.directive (.saveResults on)) => some on
  | _ => none

theorem Draft.saveResults_fill (rate : UInt32) (d : Draft) (source : Location) (frames : UInt64)
    (fields : List Field) : (d.fill rate source frames fields).saveResults = d.saveResults := by
  unfold fill
  split
  · rfl
  · dsimp only
    split <;> rfl

theorem Draft.saveResults_take (rate : UInt32) (d : Draft) (e : Entry) :
    (d.take rate e).saveResults = e.saveResults?.getD d.saveResults := by
  unfold take Entry.saveResults?
  rcases e.reading.line with _ | _ | directive | ⟨frames, fields⟩
  · rfl
  · rfl
  · cases directive <;> rfl
  · exact saveResults_fill _ _ _ _ _

theorem Draft.saveResults_foldl (rate : UInt32) (d : Draft) (entries : List Entry) :
    (entries.foldl (take rate) d).saveResults =
      (entries.filterMap Entry.saveResults?).getLast?.getD d.saveResults := by
  induction entries generalizing d with
  | nil => rfl
  | cons e rest ih =>
    rw [List.foldl_cons, ih, saveResults_take]
    cases he : e.saveResults? with
    | none => simp [he]
    | some on =>
      rw [List.filterMap_cons_some he, List.getLast?_cons]
      rfl

theorem assemble_eq (rate : UInt32) (entries : List Entry) :
    assemble rate entries =
      ⟨⟨Context.segments { rate } entries⟩,
        (entries.filterMap Entry.saveResults?).getLast?.getD false,
        Context.allReports { rate } entries⟩ := by
  have run := Draft.foldl_take_spec (Draft.sound_empty rate) entries
  have hcontext : ({} : Draft).context rate = { rate } := rfl
  have hsegments : (assemble rate entries).store.segments = Context.segments { rate } entries := by
    rw [← hcontext]
    exact (Draft.store_finish run.sound).trans run.made
  have hsave := Draft.saveResults_foldl rate {} entries
  have hreports : (assemble rate entries).diagnostics = Context.allReports { rate } entries := by
    rw [← hcontext, ← List.reverse_reverse (Context.allReports _ _), ← List.append_nil
      (Context.allReports _ _).reverse]
    exact congrArg List.reverse run.diagnostics
  rw [← hsegments, ← hreports]
  exact congrArg (Loaded.mk _ · _) hsave

end PadScript.Script
