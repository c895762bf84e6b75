import PadScript.Proofs.SilentLines
import PadScript.Proofs.WrittenScript

/-!
# Imports are the imported lines

A script with imports loads like the one text in which the lines of the imported scripts stand in
place of the import lines. The two loads differ in nothing but the places of segments and issues,
and in the issues on scripts that cannot be read.
-/
namespace PadScript

namespace Text

/-- The lines of a text; a line break at its end does not begin another one. -/
def lines (cs : List Char) : List (List Char) :=
  if (pieces '\n' cs).getLast? = some [] then (pieces '\n' cs).dropLast else pieces '\n' cs

def ofLines (ls : List (List Char)) : List Char := ls.flatMap (· ++ ['\n'])

/-- One more empty piece may stand at the end of the lines. -/
theorem exists_pieces_eq (cs : List Char) :
    ∃ n, pieces '\n' cs = lines cs ++ List.replicate n [] := by
  unfold lines
  split
  · next hlast =>
    obtain ⟨before, hpieces⟩ := List.getLast?_eq_some_iff.mp hlast
    exact ⟨1, by rw [hpieces]; simp⟩
  · exact ⟨0, by simp⟩

theorem not_mem_lines {cs l : List Char} (hl : l ∈ lines cs) : '\n' ∉ l := by
  obtain ⟨n, hpieces⟩ := exists_pieces_eq cs
  exact not_mem_pieces (hpieces ▸ List.mem_append_left _ hl)

end Text

namespace Script

def Reading.ofLine (cs : List Char) : Reading := .ofSqueezed (Text.squeeze cs)

/-- The second lines are the first ones with the lines of a script in place of the line that
imports it, and nothing in place of a line that imports what cannot be read. -/
inductive Spliced (library : Library) : List (List Char) → List (List Char) → Prop
  | nil : Spliced library [] []
  | plain {l : List Char} {rest out : List (List Char)}
      (plain : (Reading.ofLine l).import? = none)
      (following : Spliced library rest out) :
      Spliced library (l :: rest) (l :: out)
  | missing {l : List Char} {rest out : List (List Char)} {name : String} {error : StorageError}
      (imports : (Reading.ofLine l).import? = some name)
      (unread : library name = .error error)
      (following : Spliced library rest out) :
      Spliced library (l :: rest) out
  | imported {l : List Char} {rest inner out : List (List Char)} {name text : String}
      (imports : (Reading.ofLine l).import? = some name)
      (read : library name = .ok text)
      (inside : Spliced library (Text.lines text.toList) inner)
      (following : Spliced library rest out) :
      Spliced library (l :: rest) (inner ++ out)

/-- The lines of the script `name` with all imports replaced; there are none when it cannot be
read. -/
inductive SplicedScript (library : Library) (name : String) : List (List Char) → Prop
  | missing {error : StorageError} (unread : library name = .error error) :
      SplicedScript library name []
  | script {text : String} {out : List (List Char)} (read : library name = .ok text)
      (inside : Spliced library (Text.lines text.toList) out) : SplicedScript library name out

theorem Spliced.unique {library : Library} {ls out other : List (List Char)}
    (h : Spliced library ls out) (k : Spliced library ls other) : out = other := by
  induction h generalizing other with
  | nil => cases k; rfl
  | plain plain _ ih =>
    cases k with
    | plain _ following => rw [ih following]
    | missing imports | imported imports => simp [plain] at imports
  | missing imports unread _ ih =>
    cases k with
    | plain plain => simp [imports] at plain
    | missing _ _ following => exact ih following
    | imported imports' read =>
      obtain rfl := Option.some.inj (imports.symm.trans imports')
      simp [unread] at read
  | imported imports read _ _ ihInside ih =>
    cases k with
    | plain plain => simp [imports] at plain
    | missing imports' unread =>
      obtain rfl := Option.some.inj (imports.symm.trans imports')
      simp [read] at unread
    | imported imports' read' inside following =>
      obtain rfl := Option.some.inj (imports.symm.trans imports')
      obtain rfl := Except.ok.inj (read.symm.trans read')
      rw [ihInside inside, ih following]

theorem SplicedScript.unique {library : Library} {name : String} {out other : List (List Char)}
    (h : SplicedScript library name out) (k : SplicedScript library name other) :
    out = other := by
  cases h with
  | missing unread =>
    cases k with
    | missing => rfl
    | script read => simp [unread] at read
  | script read inside =>
    cases k with
    | missing unread => simp [read] at unread
    | script read' inside' =>
      obtain rfl := Except.ok.inj (read.symm.trans read')
      exact inside.unique inside'

theorem Spliced.plain_lines {library : Library} {ls out : List (List Char)}
    (h : Spliced library ls out) (hls : ∀ l ∈ ls, '\n' ∉ l) :
    ∀ l ∈ out, '\n' ∉ l ∧ (Reading.ofLine l).import? = none := by
  induction h with
  | nil => simp
  | plain plain _ ih =>
    obtain ⟨hl, hrest⟩ := List.forall_mem_cons.mp hls
    exact List.forall_mem_cons.mpr ⟨⟨hl, plain⟩, ih hrest⟩
  | missing _ _ _ ih => exact ih (List.forall_mem_cons.mp hls).2
  | imported _ _ _ _ ihInside ih =>
    intro l hl
    rcases List.mem_append.mp hl with hl | hl
    · exact ihInside (fun _ => Text.not_mem_lines) l hl
    · exact ih (List.forall_mem_cons.mp hls).2 l hl

theorem SplicedScript.plain_lines {library : Library} {name : String} {out : List (List Char)}
    (h : SplicedScript library name out) :
    ∀ l ∈ out, '\n' ∉ l ∧ (Reading.ofLine l).import? = none := by
  cases h with
  | missing => simp
  | script _ inside => exact inside.plain_lines fun _ => Text.not_mem_lines

/-- Lines that are read as `ls` is, with blank ones after them perhaps. -/
def ReadAs (entries : List Entry) (ls : List (List Char)) : Prop :=
  ∃ n, entries.map Entry.reading = ls.map Reading.ofLine ++ List.replicate n (.of .blank)

theorem readAs_lines (file text : String) : ReadAs (lines file text) (Text.lines text.toList) := by
  obtain ⟨n, hpieces⟩ := Text.exists_pieces_eq text.toList
  refine ⟨n, ?_⟩
  rw [readings_lines, hpieces, List.map_append, List.map_replicate]
  rfl

theorem ReadAs.cons {e : Entry} {rest : List Entry} {ls : List (List Char)}
    (h : ReadAs (e :: rest) ls) :
    (ls = [] ∧ e.reading = .of .blank ∧ ReadAs rest []) ∨
      ∃ l others, ls = l :: others ∧ e.reading = .ofLine l ∧ ReadAs rest others := by
  obtain ⟨n, hread⟩ := h
  cases ls with
  | nil =>
    cases n with
    | zero => cases hread
    | succ n =>
      obtain ⟨he, hrest⟩ := List.cons.inj hread
      exact .inl ⟨rfl, he, n, hrest⟩
  | cons l others =>
    obtain ⟨he, hrest⟩ := List.cons.inj hread
    exact .inr ⟨l, others, rfl, he, n, hrest⟩

theorem ReadAs.cons_of_import {e : Entry} {rest : List Entry} {ls : List (List Char)}
    {name : String} (h : ReadAs (e :: rest) ls) (himport : e.reading.import? = some name) :
    ∃ l others, ls = l :: others ∧ e.reading = .ofLine l ∧ ReadAs rest others := by
  rcases h.cons with ⟨-, he, -⟩ | hcons
  · rw [he] at himport
    cases himport
  · exact hcons

theorem import?_ofRow (text : List Char) : (Reading.ofRow text).import? = none := by
  unfold Reading.ofRow
  split
  · rfl
  · split
    · rfl
    · split <;> rfl

theorem isSilent_of_import {l : List Char} {name : String}
    (h : (Reading.ofLine l).import? = some name) : (Reading.ofLine l).isSilent := by
  have hissues : (Reading.ofLine l).issues = [] := by
    unfold Reading.ofLine Reading.ofSqueezed at h ⊢
    split
    · rfl
    · split
      · split
        · rfl
        · simp [*, Reading.skipped, Reading.import?] at h
      · simp [*, import?_ofRow] at h
  simp [Reading.isSilent, h, hissues]

theorem isSilent_unreadable (source : Location) (name : String) (error : StorageError) :
    (Entry.unreadable source name error).reading.isSilent := rfl

/-- Lines stand for a flat list; the same lines with their imports replaced have the effect of that
list. -/
theorem Inlined.exists_spliced {library : Library} {entries flat : List Entry}
    (h : Inlined library entries flat) {ls : List (List Char)} (hread : ReadAs entries ls) :
    ∃ out, Spliced library ls out ∧ loud (flat.map Entry.reading) = loud (out.map .ofLine) := by
  induction h generalizing ls with
  | nil =>
    obtain ⟨n, hread⟩ := hread
    obtain ⟨hls, -⟩ := List.append_eq_nil_iff.mp hread.symm
    obtain rfl : ls = [] := List.map_eq_nil_iff.mp hls
    exact ⟨[], .nil, rfl⟩
  | @plain e rest flat plain _ ih =>
    rcases hread.cons with ⟨rfl, he, hrest⟩ | ⟨l, others, rfl, he, hrest⟩
    · obtain ⟨out, hout, hloud⟩ := ih hrest
      refine ⟨out, hout, ?_⟩
      rw [List.map_cons, he, loud_cons_of_silent isSilent_blank, hloud]
    · obtain ⟨out, hout, hloud⟩ := ih hrest
      refine ⟨l :: out, .plain (he ▸ plain) hout, ?_⟩
      rw [List.map_cons, List.map_cons, he]
      exact loud_cons_congr _ hloud
  | @missing e rest flat name error imports unread _ ih =>
    obtain ⟨l, others, rfl, he, hrest⟩ := hread.cons_of_import imports
    obtain ⟨out, hout, hloud⟩ := ih hrest
    refine ⟨out, .missing (he ▸ imports) unread hout, ?_⟩
    rw [List.map_cons, List.map_cons, he, loud_cons_of_silent (isSilent_of_import (he ▸ imports)),
      loud_cons_of_silent (isSilent_unreadable _ _ _), hloud]
  | @imported e rest inner flat name text imports read _ _ ihInside ih =>
    obtain ⟨l, others, rfl, he, hrest⟩ := hread.cons_of_import imports
    obtain ⟨out, hout, hloud⟩ := ih hrest
    obtain ⟨within, hwithin, hinner⟩ := ihInside (readAs_lines name text)
    refine ⟨within ++ out, .imported (he ▸ imports) read hwithin hout, ?_⟩
    rw [List.cons_append, List.map_cons, he,
      loud_cons_of_silent (isSilent_of_import (he ▸ imports)), List.map_append, List.map_append,
      loud_append, loud_append, hinner, hloud]

theorem Flattens.exists_spliced {library : Library} {source : Location} {name : String}
    {flat : List Entry} (h : Flattens library source name flat) :
    ∃ out, SplicedScript library name out ∧
      loud (flat.map Entry.reading) = loud (out.map .ofLine) := by
  cases h with
  | unreadable unread =>
    refine ⟨[], .missing unread, ?_⟩
    rw [List.map_singleton, loud_cons_of_silent (isSilent_unreadable _ _ _)]
    rfl
  | @script text flat read inside =>
    obtain ⟨out, hout, hloud⟩ := inside.exists_spliced (readAs_lines name text)
    exact ⟨out, .script read hout, hloud⟩

theorem readings_ofLines {out : List (List Char)} (hout : ∀ l ∈ out, '\n' ∉ l) (file : String) :
    (lines file (String.ofList (Text.ofLines out))).map Entry.reading =
      out.map Reading.ofLine ++ [.of .blank] := by
  rw [readings_lines, String.toList_ofList, Text.ofLines, Text.pieces_terminated hout,
    List.map_append]
  rfl

theorem Means.of_withoutSource {rate : UInt32} {earlier : List AcceptedRow} {row : AcceptedRow}
    {s t : Segment} (h : Means rate earlier row s) (hst : s.withoutSource = t.withoutSource) :
    Means rate earlier row t := by
  obtain ⟨first, last, source, speed, skipMovies, marker, input⟩ := t
  simp only [Segment.withoutSource, Segment.mk.injEq] at hst
  obtain ⟨rfl, rfl, -, rfl, rfl, rfl, rfl⟩ := hst
  exact ⟨h.frames, h.buttons, h.axes, h.rate, h.skipMovies, h.marker⟩

/-- The segments of a load are what the accepted rows of `entries` mean. -/
def MeansRows (rate : UInt32) (entries : List Entry) (segments : List Segment) : Prop :=
  segments.length = (accepted entries).length ∧
    ∀ i row s, (accepted entries)[i]? = some row → segments[i]? = some s →
      Means rate ((accepted entries).take i) row s

theorem meansRows_assemble (rate : UInt32) (entries : List Entry) :
    MeansRows rate entries (assemble rate entries).store.segments := by
  obtain ⟨hlength, hmeans⟩ := (Context.after_nil rate).segments_mean entries
  rw [assemble_eq]
  exact ⟨hlength, hmeans⟩

theorem MeansRows.of_withoutSource {rate : UInt32} {entries : List Entry}
    {segments others : List Segment} (h : MeansRows rate entries segments)
    (hsame : segments.map Segment.withoutSource = others.map Segment.withoutSource) :
    MeansRows rate entries others := by
  obtain ⟨hlength, hmeans⟩ := h
  refine ⟨by simpa using (congrArg List.length hsame).symm.trans (by simpa using hlength), ?_⟩
  intro i row t hrow ht
  have hi : (segments.map Segment.withoutSource)[i]? = some t.withoutSource := by
    rw [hsame, List.getElem?_map, ht]
    rfl
  rw [List.getElem?_map, Option.map_eq_some_iff] at hi
  obtain ⟨s, hs, hst⟩ := hi
  exact (hmeans i row s hrow hs).of_withoutSource hst

/-- A script that loads gives the same as the one text in which every import line has been replaced
by the lines of the imported script, and by nothing if it cannot be read: that text loads by itself,
to the same segments, the same word on saving results and the same issues, places and missing
scripts apart. So what is directed before an import counts for its first row, what it directs and
the axes that it sets count for the lines after it, and buttons count for their own row only, just
as the rows of that text mean. -/
theorem load_eq_load_spliced (settings : Settings) (library : Library) (name : String)
    (loaded : Loaded) (h : load settings library name = .ok loaded) :
    let root := if name = "" then settings.mainScript else name
    ∃ out, SplicedScript library root out ∧
      (∀ other, SplicedScript library root other → other = out) ∧
      ∀ (alone : Library) (single : String),
        let file := if single = "" then settings.mainScript else single
        let text := String.ofList (Text.ofLines out)
        alone file = .ok text →
        ∃ whole, load settings alone single = .ok whole ∧ SameLoad loaded whole ∧
          MeansRows settings.rate (lines file text) loaded.store.segments := by
  intro root
  obtain ⟨flat, hflat, rfl⟩ := load_eq_ok h
  obtain ⟨out, hout, hloud⟩ := (Flat.flattens_of_ofScript hflat).exists_spliced
  refine ⟨out, hout, fun other hother => hother.unique hout, ?_⟩
  intro alone single file text halone
  have hread : (lines file text).map Entry.reading = out.map Reading.ofLine ++ [.of .blank] :=
    readings_ofLines (fun l hl => (hout.plain_lines l hl).1) file
  have hplain : ∀ e ∈ lines file text, e.reading.import? = none := by
    intro e he
    have hmem := hread ▸ List.mem_map_of_mem (f := Entry.reading) he
    rcases List.mem_append.mp hmem with hmem | hmem
    · obtain ⟨l, hl, hreading⟩ := List.mem_map.mp hmem
      rw [← hreading]
      exact (hout.plain_lines l hl).2
    · rw [List.mem_singleton.mp hmem]
      rfl
  have hsame : SameLoad (assemble settings.rate flat) (assemble settings.rate (lines file text)) := by
    refine sameLoad_assemble _ ?_
    rw [hloud, hread, loud_append, loud_cons_of_silent isSilent_blank, loud_nil, List.append_nil]
  exact ⟨_, load_of_plain halone hplain, hsame,
    (meansRows_assemble _ _).of_withoutSource hsame.segments.symm⟩

/-- A directive before an import, an axis inside it, and a script that is missing. -/
theorem load_eq_load_spliced_of_missing :
    let scripts : Texts := [("main", "frame-rate=30\nimport=turn\n1,X\n"),
      ("turn", "2,Up,player-angle=5\nimport=gone")]
    let library : Library := Storage.read (MemoryStorage.mk scripts [])
    let whole := "frame-rate=30\n2,Up,player-angle=5\n1,X\n"
    ∃ loaded other, load {} library "" = .ok loaded ∧ load {} (fun _ => .ok whole) "" = .ok other ∧
      SameLoad loaded other ∧
      loaded.store.segments.map (fun s => (s.rate, s.input.buttons, s.input.axes.playerAngle)) =
        [(30, .ofButton .up, ⟨false, 0x40A00000⟩), (30, .ofButton .x, ⟨false, 0x40A00000⟩)] := by
  intro scripts library whole
  have hview : (load {} library "").toOption.map (fun loaded => loaded.store.segments.map
      fun s => (s.rate, s.input.buttons, s.input.axes.playerAngle)) =
        some [(30, .ofButton .up, ⟨false, 0x40A00000⟩), (30, .ofButton .x, ⟨false, 0x40A00000⟩)] := by
    decide +kernel
  obtain ⟨loaded, hload, hsegments⟩ := load_of_view hview
  obtain ⟨out, -, hunique, hwhole⟩ := load_eq_load_spliced {} library "" loaded hload
  have hgone : (Reading.ofLine "import=gone".toList).import? = some "gone" := by decide +kernel
  have himport : (Reading.ofLine "import=turn".toList).import? = some "turn" := by decide +kernel
  have hmissing : library "gone" = .error (.notFound "gone") := rfl
  have hread : library "turn" = .ok "2,Up,player-angle=5\nimport=gone" := rfl
  have hturn : Spliced library (Text.lines "2,Up,player-angle=5\nimport=gone".toList)
      ["2,Up,player-angle=5".toList] :=
    .plain (by decide) (.missing hgone hmissing .nil)
  have hmain : SplicedScript library "main"
      ["frame-rate=30".toList, "2,Up,player-angle=5".toList, "1,X".toList] :=
    .script rfl (.plain (by decide) (.imported himport hread hturn (.plain (by decide) .nil)))
  obtain rfl := hunique _ hmain
  obtain ⟨other, hother, hsame, -⟩ := hwhole (fun _ => .ok whole) "" (by decide +kernel)
  exact ⟨loaded, other, hload, hother, hsame, hsegments⟩

end Script
end PadScript
