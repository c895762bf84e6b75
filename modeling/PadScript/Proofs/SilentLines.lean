import PadScript.Proofs.Context

/-!
# Lines without effect

What lines make depends on their readings alone, the places of segments and issues apart, and of
the readings only those matter that are neither blank nor imports nor missing scripts.
-/
namespace PadScript

def Segment.withoutSource (s : Segment) : Segment := { s with source := default }

namespace Script

def Issue.isScriptNotFound : Issue → Bool
  | .scriptNotFound _ _ => true
  | _ => false

/-- A line without effect on segments, settings and issues, but for those on missing scripts. -/
def Reading.isSilent (r : Reading) : Bool :=
  (r.line = none || r.line = some .blank || r.import?.isSome) &&
    r.issues.all Issue.isScriptNotFound

theorem Reading.line_of_isSilent {r : Reading} (h : r.isSilent) :
    (r.line = none ∨ r.line = some .blank ∨
      ∃ name, r.line = some (.directive (.importScript name))) ∧
    ∀ i ∈ r.issues, i.isScriptNotFound := by
  simp only [isSilent, Bool.and_eq_true, Bool.or_eq_true, decide_eq_true_eq, List.all_eq_true,
    or_assoc] at h
  refine ⟨h.1.imp_right (Or.imp_right fun himport => ?_), h.2⟩
  obtain ⟨name, hname⟩ := Option.isSome_iff_exists.mp himport
  unfold import? at hname
  split at hname
  · next hline => exact ⟨_, hline⟩
  · cases hname

def loud (rs : List Reading) : List Reading := rs.filter fun r => !r.isSilent

@[simp] theorem loud_nil : loud [] = [] := rfl

@[simp] theorem loud_append (rs ss : List Reading) : loud (rs ++ ss) = loud rs ++ loud ss :=
  List.filter_append ..

@[simp] theorem loud_cons_of_silent {r : Reading} (h : r.isSilent) (rs : List Reading) :
    loud (r :: rs) = loud rs := by
  simp [loud, h]

theorem loud_cons_congr (r : Reading) {rs ss : List Reading} (h : loud rs = loud ss) :
    loud (r :: rs) = loud (r :: ss) := by
  rw [← List.singleton_append, loud_append, h, ← loud_append, List.singleton_append]

theorem isSilent_blank : (Reading.of .blank).isSilent := by decide

/-- The issues that are reported, without their places and without missing scripts. -/
def issues (ds : List Diagnostic) : List Issue :=
  (ds.map Diagnostic.issue).filter fun i => !i.isScriptNotFound

theorem issues_append (ds es : List Diagnostic) : issues (ds ++ es) = issues ds ++ issues es := by
  simp [issues]

/-- Two loads of the same segments, with the same word on saving results and the same issues; the
places and the missing scripts do not count. -/
structure SameLoad (a b : Loaded) : Prop where
  segments : a.store.segments.map Segment.withoutSource =
    b.store.segments.map Segment.withoutSource
  saveResults : a.saveResults = b.saveResults
  issues : issues a.diagnostics = issues b.diagnostics

namespace Context

def withoutSource (c : Context) : Context := { c with opened := none }

variable {c d : Context} {e f : Entry}

theorem next_of_silent (h : e.reading.isSilent) :
    c.segment? e = none ∧ c.next e = c ∧ issues (c.reports e) = [] ∧ e.saveResults? = none := by
  obtain ⟨hline, hissues⟩ := Reading.line_of_isSilent h
  have hnone : (e.reading.issues.filter fun i => !i.isScriptNotFound) = [] := by
    simpa using hissues
  rcases hline with hline | hline | ⟨name, hline⟩ <;>
    simp [segment?, next, direct, reports, Entry.saveResults?, hline, issues, Function.comp_def,
      hnone]

theorem segments_loud (c : Context) (entries : List Entry) :
    c.segments entries = c.segments (entries.filter fun e => !e.reading.isSilent) ∧
      issues (c.allReports entries) =
        issues (c.allReports (entries.filter fun e => !e.reading.isSilent)) ∧
      entries.filterMap Entry.saveResults? =
        (entries.filter fun e => !e.reading.isSilent).filterMap Entry.saveResults? := by
  induction entries generalizing c with
  | nil => exact ⟨rfl, rfl, rfl⟩
  | cons e rest ih =>
    cases he : e.reading.isSilent with
    | true =>
      obtain ⟨hsegment, hnext, hissues, hsave⟩ := next_of_silent (c := c) he
      rw [List.filter_cons_of_neg (by simp [he]), segments, allReports, hsegment, hnext,
        issues_append, hissues, List.filterMap_cons_none hsave]
      exact ih c
    | false =>
      obtain ⟨hsegments, hissues, hsave⟩ := ih (c.next e)
      rw [List.filter_cons_of_pos (by simp [he]), segments, segments, allReports, allReports,
        issues_append, issues_append, hsegments, hissues, List.filterMap_cons, List.filterMap_cons,
        hsave]
      exact ⟨rfl, rfl, rfl⟩

/-- What is handed on, except for the place where the next segment was opened. -/
theorem ext_withoutSource (h : c.withoutSource = d.withoutSource) :
    ∃ opened, d = { c with opened } := by
  obtain ⟨last, rate, skipMovies, marker, axes, opened⟩ := d
  simp only [withoutSource, Context.mk.injEq] at h
  obtain ⟨rfl, rfl, rfl, rfl, rfl, -⟩ := h
  exact ⟨opened, rfl⟩

theorem rowSegment?_withoutSource (hc : c.withoutSource = d.withoutSource)
    (source place : Location) (frames : UInt64) (fields : List Field) :
    (c.rowSegment? source frames fields).map Segment.withoutSource =
      (d.rowSegment? place frames fields).map Segment.withoutSource := by
  obtain ⟨opened, rfl⟩ := ext_withoutSource hc
  unfold rowSegment?
  split
  · rfl
  · rw [Option.map_map, Option.map_map]
    rfl

theorem row_withoutSource (c : Context) (source : Location) (frames : UInt64)
    (fields : List Field) :
    (c.row source frames fields).withoutSource =
      (((c.rowSegment? source frames fields).map Segment.withoutSource).map (ofSegment · none)).getD
        c.withoutSource := by
  unfold row
  cases c.rowSegment? source frames fields with
  | some s => rfl
  | none =>
    show (if frames = 0 then c else c.touch source).withoutSource = c.withoutSource
    split <;> rfl

theorem segment?_withoutSource (hc : c.withoutSource = d.withoutSource)
    (hread : e.reading = f.reading) :
    (c.segment? e).map Segment.withoutSource = (d.segment? f).map Segment.withoutSource := by
  unfold segment?
  rw [hread]
  split
  · exact rowSegment?_withoutSource hc _ _ _ _
  · rfl

theorem next_withoutSource (hc : c.withoutSource = d.withoutSource)
    (hread : e.reading = f.reading) : (c.next e).withoutSource = (d.next f).withoutSource := by
  unfold next
  rw [hread]
  rcases f.reading.line with _ | _ | directive | ⟨frames, fields⟩
  · exact hc
  · exact hc
  · obtain ⟨opened, rfl⟩ := ext_withoutSource hc
    cases directive <;> rfl
  · show (c.row e.source frames fields).withoutSource = (d.row f.source frames fields).withoutSource
    rw [row_withoutSource, row_withoutSource,
      rowSegment?_withoutSource hc e.source f.source frames fields, hc]

theorem reports_withoutSource (hc : c.withoutSource = d.withoutSource)
    (hread : e.reading = f.reading) :
    (c.reports e).map Diagnostic.issue = (d.reports f).map Diagnostic.issue := by
  obtain ⟨opened, rfl⟩ := ext_withoutSource hc
  unfold reports
  rw [hread, List.map_map, List.map_map]
  rfl

theorem segments_withoutSource {entries others : List Entry}
    (hc : c.withoutSource = d.withoutSource)
    (hread : entries.map Entry.reading = others.map Entry.reading) :
    (c.segments entries).map Segment.withoutSource =
        (d.segments others).map Segment.withoutSource ∧
      (c.allReports entries).map Diagnostic.issue = (d.allReports others).map Diagnostic.issue ∧
      entries.filterMap Entry.saveResults? = others.filterMap Entry.saveResults? := by
  induction entries generalizing c d others with
  | nil =>
    obtain rfl : others = [] := List.map_eq_nil_iff.mp hread.symm
    exact ⟨rfl, rfl, rfl⟩
  | cons e rest ih =>
    obtain ⟨f, others, rfl, hf, hothers⟩ := List.map_eq_cons_iff.mp hread.symm
    obtain ⟨hsegments, hreports, hsave⟩ := ih (next_withoutSource hc hf.symm) hothers.symm
    have hhere : e.saveResults? = f.saveResults? := by rw [Entry.saveResults?, ← hf]; rfl
    refine ⟨?_, ?_, ?_⟩
    · rw [segments, segments, List.map_append, List.map_append, hsegments, ← Option.toList_map,
        ← Option.toList_map, segment?_withoutSource hc hf.symm]
    · rw [allReports, allReports, List.map_append, List.map_append, hreports,
        reports_withoutSource hc hf.symm]
    · rw [List.filterMap_cons, List.filterMap_cons, hhere, hsave]

end Context

/-- Only the readings with an effect count for what lines are assembled to. -/
theorem sameLoad_assemble (rate : UInt32) {entries others : List Entry}
    (h : loud (entries.map Entry.reading) = loud (others.map Entry.reading)) :
    SameLoad (assemble rate entries) (assemble rate others) := by
  have hloud : (entries.filter fun e => !e.reading.isSilent).map Entry.reading =
      (others.filter fun e => !e.reading.isSilent).map Entry.reading := by
    rw [loud, loud, List.filter_map, List.filter_map] at h
    exact h
  obtain ⟨hsegments, hissues, hsave⟩ := Context.segments_loud { rate } entries
  obtain ⟨hsegments', hissues', hsave'⟩ := Context.segments_loud { rate } others
  obtain ⟨hsame, hreports, hword⟩ :=
    Context.segments_withoutSource (c := { rate }) (d := { rate }) rfl hloud
  rw [assemble_eq, assemble_eq]
  refine ⟨?_, ?_, ?_⟩
  · rw [hsegments, hsegments']
    exact hsame
  · rw [hsave, hsave', hword]
  · rw [hissues, hissues', issues, issues, hreports]

end Script
end PadScript
