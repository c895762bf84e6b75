import PadScript.Cli.Execute
import PadScript.Proofs.DiskFiles
import PadScript.Proofs.RecordedScript
import PadScript.Proofs.Splicing

/-!
# The header of a written script

Only the first line of a header text is a comment. What stands after a line break in it is read as
lines of the script, which come before its rows.
-/
namespace PadScript

namespace Script

/-- What stands after the first line break of a text. -/
def furtherLines (text : String) : List (List Char) := (Text.pieces '\n' text.toList).tail

/-- The first line of a text in a header, as a comment. -/
def firstLine (text : String) : List Char :=
  commentSign :: ' ' :: (Text.pieces '\n' text.toList).headD []

/-- There is nothing but blanks and comments after a line break. -/
def IsQuiet (text : String) : Prop :=
  ∀ l ∈ furtherLines text, Reading.ofLine l = .of .blank

instance (text : String) : Decidable (IsQuiet text) :=
  inferInstanceAs (Decidable (∀ l ∈ furtherLines text, Reading.ofLine l = .of .blank))

theorem isQuiet_of_not_mem {text : String} (h : '\n' ∉ text.toList) : IsQuiet text := by
  intro l hl
  rw [furtherLines, Text.pieces_of_not_mem h] at hl
  cases hl

theorem ofLine_firstLine (text : String) : Reading.ofLine (firstLine text) = .of .blank := by
  have hsign : Text.squeeze (firstLine text) =
      commentSign :: Text.squeeze (' ' :: (Text.pieces '\n' text.toList).headD []) :=
    List.filter_cons_of_pos (by decide)
  simp [Reading.ofLine, Reading.ofSqueezed, hsign]

theorem pieces_commentLine (text : String) :
    Text.pieces '\n' (commentLine text) = firstLine text :: furtherLines text := by
  have hsign : '\n' ≠ commentSign := by decide
  have hblank : '\n' ≠ ' ' := by decide
  unfold firstLine furtherLines
  rw [commentLine, Text.pieces, if_neg hsign.symm, Text.pieces, if_neg hblank.symm]
  cases hpieces : Text.pieces '\n' text.toList with
  | nil => exact absurd hpieces (Text.pieces_ne_nil _ _)
  | cons first more => rfl

def headerLines (header : List String) : List (List Char) :=
  header.flatMap fun text => firstLine text :: furtherLines text

theorem pieces_write {segments : List Segment} (hw : Writable 1 segments) (header : List String) :
    Text.pieces '\n' (write segments header).toList =
      headerLines header ++ rowLines none segments ++ [[]] := by
  have hheader : (header.map commentLine).flatMap (Text.pieces '\n') = headerLines header := by
    rw [List.flatMap_map]
    exact List.flatMap_congr fun text _ => pieces_commentLine text
  have hrows : (rowLines none segments).flatMap (Text.pieces '\n') = rowLines none segments := by
    rw [List.flatMap_congr fun l hl => Text.pieces_of_not_mem (not_mem_rowLines hw none l hl)]
    exact List.flatMap_singleton' _
  rw [toList_write, Text.pieces_flatMap, List.flatMap_append, hheader, hrows]

theorem readings_write_lines {segments : List Segment} (hw : Writable 1 segments)
    (header : List String) (file : String) :
    (lines file (write segments header)).map Entry.reading =
      (headerLines header).map Reading.ofLine ++ (rowReadings none segments ++ [.of .blank]) := by
  have hrows : (rowLines none segments).map Reading.ofLine = rowReadings none segments :=
    readings_rowLines le_rfl hw none
  have hread : ∀ cs, Reading.ofSqueezed (Text.squeeze cs) = Reading.ofLine cs := fun _ => rfl
  simp only [readings_lines, pieces_write hw, hread, List.map_append, hrows, List.append_assoc]
  rfl

theorem forall_headerLines_of_isQuiet {header : List String} (h : ∀ text ∈ header, IsQuiet text) :
    ∀ r ∈ (headerLines header).map Reading.ofLine, r = .of .blank := by
  intro r hr
  obtain ⟨l, hl, rfl⟩ := List.mem_map.mp hr
  obtain ⟨text, htext, hl⟩ := List.mem_flatMap.mp hl
  rcases List.mem_cons.mp hl with rfl | hl
  · exact ofLine_firstLine text
  · exact h text htext l hl

theorem loud_headerLines_of_isQuiet {header : List String} (h : ∀ text ∈ header, IsQuiet text) :
    loud ((headerLines header).map Reading.ofLine) = [] := by
  rw [loud, List.filter_eq_nil_iff]
  intro r hr
  rw [forall_headerLines_of_isQuiet h r hr, isSilent_blank]
  decide

theorem load_of_isQuiet {segments : List Segment} (hw : Writable 1 segments)
    {header : List String} (hheader : ∀ text ∈ header, IsQuiet text) {settings : Settings}
    {library : Library} {name : String}
    (hname : library (if name = "" then settings.mainScript else name) =
      .ok (write segments header)) :
    ∃ loaded, load settings library name = .ok loaded ∧ loaded.diagnostics = [] ∧
      List.Forall₂ SamePlay segments loaded.store.segments ∧
      ∀ (alone : Library) (single : String),
        alone (if single = "" then settings.mainScript else single) = .ok (write segments []) →
        ∃ whole, load settings alone single = .ok whole ∧ SameLoad loaded whole := by
  have hblanks := forall_headerLines_of_isQuiet hheader
  obtain ⟨loaded, hload, hreports, hsame, -⟩ :=
    load_of_readings hw hblanks (readings_write_lines hw header) hname
  refine ⟨loaded, hload, hreports, hsame, fun alone single halone => ?_⟩
  have hplain := import?_of_readings hblanks
    (readings_write_lines hw header (if name = "" then settings.mainScript else name))
  have hrows := readings_write_lines hw []
    (if single = "" then settings.mainScript else single)
  have hwhole := import?_of_readings (by simp [headerLines]) hrows
  obtain rfl := Except.ok.inj (hload.symm.trans (load_of_plain hname hplain))
  refine ⟨_, load_of_plain halone hwhole, sameLoad_assemble _ ?_⟩
  rw [readings_write_lines hw, hrows, loud_append, loud_headerLines_of_isQuiet hheader]
  rfl

theorem Spliced.exists_of_append {library : Library} {first rest out : List (List Char)}
    (h : Spliced library (first ++ rest) out) :
    ∃ before after, out = before ++ after ∧ Spliced library first before ∧
      Spliced library rest after := by
  induction first generalizing out with
  | nil => exact ⟨[], out, rfl, .nil, h⟩
  | cons l others ih =>
    cases h with
    | plain plain following =>
      obtain ⟨before, after, rfl, hfirst, hrest⟩ := ih following
      exact ⟨l :: before, after, rfl, .plain plain hfirst, hrest⟩
    | missing imports unread following =>
      obtain ⟨before, after, rfl, hfirst, hrest⟩ := ih following
      exact ⟨before, after, rfl, .missing imports unread hfirst, hrest⟩
    | @imported _ _ inner _ _ _ imports read inside following =>
      obtain ⟨before, after, rfl, hfirst, hrest⟩ := ih following
      refine ⟨inner ++ before, after, ?_, .imported imports read inside hfirst, hrest⟩
      rw [List.append_assoc]

theorem Spliced.append {library : Library} {first rest before after : List (List Char)}
    (h : Spliced library first before) (k : Spliced library rest after) :
    Spliced library (first ++ rest) (before ++ after) := by
  induction h with
  | nil => exact k
  | plain plain _ ih => exact .plain plain ih
  | missing imports unread _ ih => exact .missing imports unread ih
  | imported imports read inside _ _ ih =>
    rw [List.append_assoc]
    exact .imported imports read inside ih

theorem spliced_of_plain (library : Library) {ls : List (List Char)}
    (h : ∀ l ∈ ls, (Reading.ofLine l).import? = none) : Spliced library ls ls := by
  induction ls with
  | nil => exact .nil
  | cons l rest ih =>
    obtain ⟨hl, hrest⟩ := List.forall_mem_cons.mp h
    exact .plain hl (ih hrest)

/-- The comments of a header have no effect, so that its further lines have all of it. -/
theorem exists_spliced_furtherLines {library : Library} {header : List String}
    {out : List (List Char)} (h : Spliced library (headerLines header) out) :
    ∃ further, Spliced library (header.flatMap furtherLines) further ∧
      loud (out.map Reading.ofLine) = loud (further.map Reading.ofLine) := by
  induction header generalizing out with
  | nil =>
    cases h
    exact ⟨[], .nil, rfl⟩
  | cons text rest ih =>
    have hcomment := ofLine_firstLine text
    have hplain : (Reading.ofLine (firstLine text)).import? = none := by
      rw [hcomment]
      rfl
    cases h with
    | missing imports | imported imports =>
      rw [hplain] at imports
      cases imports
    | plain _ following =>
      obtain ⟨here, later, rfl, hhere, hlater⟩ := following.exists_of_append
      obtain ⟨further, hfurther, hloud⟩ := ih hlater
      refine ⟨here ++ further, hhere.append hfurther, ?_⟩
      rw [List.map_cons, hcomment, loud_cons_of_silent isSilent_blank, List.map_append,
        List.map_append, loud_append, loud_append, hloud]

theorem import?_of_mem_rowLines {segments : List Segment} (hw : Writable 1 segments) :
    ∀ l ∈ rowLines none segments, (Reading.ofLine l).import? = none := by
  intro l hl
  have hmem := List.mem_map_of_mem (f := Reading.ofLine) hl
  rw [show (rowLines none segments).map Reading.ofLine = rowReadings none segments from
    readings_rowLines le_rfl hw none] at hmem
  exact import?_of_mem_rowReadings hmem

theorem ofLines_append_write (further : List (List Char)) (segments : List Segment) :
    String.ofList (Text.ofLines further) ++ write segments [] =
      String.ofList (Text.ofLines (further ++ rowLines none segments)) := by
  rw [← String.toList_inj, String.toList_append, String.toList_ofList, String.toList_ofList,
    toList_write, Text.ofLines, Text.ofLines, List.map_nil, List.nil_append, List.flatMap_append]

theorem exists_load_ofLines {out : List (List Char)}
    (hout : ∀ l ∈ out, '\n' ∉ l ∧ (Reading.ofLine l).import? = none) {flat : List Entry}
    (hloud : loud (flat.map Entry.reading) = loud (out.map Reading.ofLine)) {settings : Settings}
    {alone : Library} {single : String}
    (halone : alone (if single = "" then settings.mainScript else single) =
      .ok (String.ofList (Text.ofLines out))) :
    ∃ whole, load settings alone single = .ok whole ∧
      SameLoad (assemble settings.rate flat) whole := by
  have hread := readings_ofLines (fun l hl => (hout l hl).1)
    (if single = "" then settings.mainScript else single)
  refine ⟨_, load_of_plain halone fun e he => ?_, sameLoad_assemble _ ?_⟩
  · have hmem := hread ▸ List.mem_map_of_mem he
    rcases List.mem_append.mp hmem with hmem | hmem
    · obtain ⟨l, hl, hreading⟩ := List.mem_map.mp hmem
      rw [← hreading]
      exact (hout l hl).2
    · rw [List.mem_singleton.mp hmem]
      rfl
  · rw [hloud, hread, loud_append, loud_cons_of_silent isSilent_blank, loud_nil, List.append_nil]

/-- A script that was written under a header loads like the one in which the further lines of the
header texts, with their imports replaced, stand above the rows. -/
theorem sameLoad_of_header {segments : List Segment} (hw : Writable 1 segments)
    {header : List String} {settings : Settings} {library : Library} {name : String}
    {loaded : Loaded}
    (hname : library (if name = "" then settings.mainScript else name) =
      .ok (write segments header)) (h : load settings library name = .ok loaded) :
    ∃ further, Spliced library (header.flatMap furtherLines) further ∧
      ∀ (alone : Library) (single : String),
        alone (if single = "" then settings.mainScript else single) =
          .ok (String.ofList (Text.ofLines further) ++ write segments []) →
        ∃ whole, load settings alone single = .ok whole ∧ SameLoad loaded whole := by
  obtain ⟨flat, hflat, rfl⟩ := load_eq_ok h
  cases Flat.flattens_of_ofScript hflat with
  | unreadable unread =>
    rw [hname] at unread
    cases unread
  | @script text flat read inside =>
  obtain rfl := Except.ok.inj (hname.symm.trans read)
  have hread : ReadAs (lines (if name = "" then settings.mainScript else name)
      (write segments header)) (headerLines header ++ rowLines none segments) := by
    refine ⟨1, ?_⟩
    have hrows : (rowLines none segments).map Reading.ofLine = rowReadings none segments :=
      readings_rowLines le_rfl hw none
    rw [readings_write_lines hw, List.map_append, hrows, List.append_assoc]
    rfl
  obtain ⟨out, hout, hloud⟩ := inside.exists_spliced hread
  obtain ⟨above, rows, rfl, habove, hrows⟩ := hout.exists_of_append
  obtain rfl := hrows.unique (spliced_of_plain library (import?_of_mem_rowLines hw))
  obtain ⟨further, hfurther, hsame⟩ := exists_spliced_furtherLines habove
  refine ⟨further, hfurther, fun alone single halone => ?_⟩
  have hfree : ∀ l ∈ header.flatMap furtherLines, '\n' ∉ l := by
    intro l hl
    obtain ⟨text, -, hl⟩ := List.mem_flatMap.mp hl
    exact Text.not_mem_pieces (List.mem_of_mem_tail hl)
  rw [ofLines_append_write] at halone
  refine exists_load_ofLines (fun l hl => ?_) ?_ halone
  · rcases List.mem_append.mp hl with hl | hl
    · exact hfurther.plain_lines hfree l hl
    · exact ⟨not_mem_rowLines hw none l hl, import?_of_mem_rowLines hw l hl⟩
  · rw [hloud, List.map_append, List.map_append, loud_append, loud_append, hsame]

end Script

theorem Text.tail_pieces_append {sep : Char} {before : List Char} (h : sep ∉ before)
    (cs : List Char) : (pieces sep (before ++ cs)).tail = (pieces sep cs).tail := by
  induction before with
  | nil => rfl
  | cons c rest ih =>
    obtain ⟨hc, hrest⟩ := not_or.mp (mt List.mem_cons.mpr h)
    rw [List.cons_append, pieces, if_neg (Ne.symm hc), ← ih hrest]
    cases hpieces : pieces sep (rest ++ cs) with
    | nil => exact absurd hpieces (pieces_ne_nil sep _)
    | cons first more => rfl

namespace Cli

def traceHeader (trace : String) (recorded : Store) : List String :=
  ["Recorded from " ++ trace, toString recorded.frameCount.toNat ++ " frames"]

open Script in
theorem forall_traceHeader_of_isQuiet {trace : String} (h : IsQuiet trace) (recorded : Store) :
    ∀ text ∈ traceHeader trace recorded, IsQuiet text := by
  intro text htext
  rcases List.mem_pair.mp htext with rfl | rfl
  · intro l hl
    have hplain : '\n' ∉ "Recorded from ".toList := by decide
    rw [furtherLines, String.toList_append, Text.tail_pieces_append hplain] at hl
    exact h l hl
  · exact isQuiet_of_not_mem (Engine.not_mem_framesText _)

/-- The report of a command that writes the script `text` into a folder, under the name of the
moment: whether it fails, and with what causes, is up to that write. -/
structure Report.Writes (disk : Disk) (now : Moment) (config : Config) (folder text : String)
    (r : Report) : Prop where
  done : ∀ storage, FolderStorage.write ⟨disk, folder, config.scriptExtension⟩
      (now.unix ++ config.recordingExtension) text = (.ok (), storage) →
    r.failure = none ∧ r.disk = storage.disk ∧
      r.disk.read (Path.join folder (now.unix ++ config.recordingExtension)) = .ok text ∧
      "Written to: " ++ Path.join folder (now.unix ++ config.recordingExtension) ∈ r.lines
  refused : ∀ err storage, FolderStorage.write ⟨disk, folder, config.scriptExtension⟩
      (now.unix ++ config.recordingExtension) text = (.error err, storage) →
    r.disk = storage.disk ∧ r.failure = some
      (("Failed to write recording: " ++ (now.unix ++ config.recordingExtension)) :: err.chain)

section

variable {disk : Disk} {now : Moment} {config : Config} {folder trace text : String}
  {frames : List Controller}

theorem writes_record (hread : disk.read trace = .ok text)
    (htrace : Controller.trace? text = some frames) :
    (record disk now config folder trace).Writes disk now config folder
      (Script.write (Recorder.recordAll frames).segments
        (traceHeader trace (Recorder.recordAll frames))) := by
  generalize hwritten : Script.write (Recorder.recordAll frames).segments
    (traceHeader trace (Recorder.recordAll frames)) = written
  rw [traceHeader] at hwritten
  constructor
  · intro storage hwrite
    have hfile := FolderStorage.read_write hwrite
    simp only [record, hread, htrace, hwritten, hwrite, true_and]
    exact ⟨hfile, by simp⟩
  · intro err storage hwrite
    simp only [record, hread, htrace, hwritten, hwrite, and_self]

theorem read_record (hread : disk.read trace = .ok text)
    (htrace : Controller.trace? text = some frames)
    (hdone : (record disk now config folder trace).failure = none) :
    (record disk now config folder trace).disk.read
        (Path.join folder (now.unix ++ config.recordingExtension)) =
      .ok (Script.write (Recorder.recordAll frames).segments
        (traceHeader trace (Recorder.recordAll frames))) := by
  have hwrites : (record disk now config folder trace).Writes disk now config folder
      (Script.write (Recorder.recordAll frames).segments
        (traceHeader trace (Recorder.recordAll frames))) := writes_record hread htrace
  cases hwrite : FolderStorage.write ⟨disk, folder, config.scriptExtension⟩
    (now.unix ++ config.recordingExtension) (Script.write (Recorder.recordAll frames).segments
      (traceHeader trace (Recorder.recordAll frames))) with
  | mk outcome storage =>
  cases outcome with
  | error err => cases hdone.symm.trans (hwrites.refused err storage hwrite).2
  | ok _ => exact (hwrites.done storage hwrite).2.2.1

end

end Cli

namespace Script

section

variable {trace : String} {frames : List Controller} (hroom : frames.length < Frame.largest.toNat)
include hroom

theorem writable_recordAll : Writable 1 (Recorder.recordAll frames).segments :=
  writable_of_covers (Recorder.holds_recordAll {} frames hroom).covers hroom

/-- The recording of a trace whose path is quiet loads to the frames, made finite. -/
theorem load_recordAll (hquiet : IsQuiet trace) {settings : Settings} {library : Library}
    {name : String} (hname : library (if name = "" then settings.mainScript else name) =
      .ok (write (Recorder.recordAll frames).segments
        (Cli.traceHeader trace (Recorder.recordAll frames)))) :
    ∃ loaded, load settings library name = .ok loaded ∧ loaded.diagnostics = [] ∧
      List.Forall₂ (fun input frame => input.finite.numEq frame) frames loaded.store.expand := by
  have hholds := Recorder.holds_recordAll {} frames hroom
  have hheader := Cli.forall_traceHeader_of_isQuiet hquiet (Recorder.recordAll frames)
  obtain ⟨loaded, hload, hreports, hsame, -⟩ :=
    load_of_isQuiet (writable_recordAll hroom) hheader hname
  exact ⟨loaded, hload, hreports, forall₂_numEq_trans hholds.frames (expand_samePlay hsame)⟩

end

/-- A script that was written under a header plays its rows alone as long as nothing but blanks and
comments stands after the line breaks in the header texts. In general it loads like the script in
which the lines after these line breaks stand above the rows, with imports in place. So it is with a
recording that the command has made of a trace, whose path is in the header: the file that has been
written loads to the input of the trace, with axes that hold no finite number put to zero, unless
the path has a line break in it with something after it. -/
theorem header_plays_after_line_breaks (settings : Settings) (library : Library) (name : String) :
    let root := if name = "" then settings.mainScript else name
    (∀ segments header, Writable 1 segments → library root = .ok (write segments header) →
      ((∀ text ∈ header, IsQuiet text) →
        ∃ loaded, load settings library name = .ok loaded ∧ loaded.diagnostics = [] ∧
          List.Forall₂ SamePlay segments loaded.store.segments ∧
          ∀ (alone : Library) single,
            alone (if single = "" then settings.mainScript else single) = .ok (write segments []) →
            ∃ whole, load settings alone single = .ok whole ∧ SameLoad loaded whole) ∧
      ∀ loaded, load settings library name = .ok loaded →
        ∃ further, Spliced library (header.flatMap furtherLines) further ∧
          ∀ (alone : Library) single,
            alone (if single = "" then settings.mainScript else single) =
              .ok (String.ofList (Text.ofLines further) ++ write segments []) →
            ∃ whole, load settings alone single = .ok whole ∧ SameLoad loaded whole) ∧
    ∀ (disk : Disk) now config folder trace text frames, disk.read trace = .ok text →
      Controller.trace? text = some frames → frames.length < Frame.largest.toNat →
      (Cli.record disk now config folder trace).failure = none →
      let recorded := Recorder.recordAll frames
      let written := write recorded.segments (Cli.traceHeader trace recorded)
      (Cli.record disk now config folder trace).disk.read
        (Path.join folder (now.unix ++ config.recordingExtension)) = .ok written ∧
      Writable 1 recorded.segments ∧
      (IsQuiet trace → library root = .ok written →
        ∃ loaded, load settings library name = .ok loaded ∧ loaded.diagnostics = [] ∧
          List.Forall₂ (fun input frame => input.finite.numEq frame) frames
            loaded.store.expand) := by
  intro root
  refine ⟨fun segments header hw hname => ⟨fun hheader => ?_, fun loaded hload => ?_⟩, ?_⟩
  · exact load_of_isQuiet hw hheader hname
  · exact sameLoad_of_header hw hname hload
  · intro disk now config folder trace text frames hread htrace hroom hdone recorded written
    exact ⟨Cli.read_record hread htrace hdone, writable_recordAll hroom, fun hquiet hname =>
      load_recordAll hroom hquiet hname⟩

theorem writable_singleton {s : Segment} (hfirst : s.first = 1) (hfilled : 1 ≤ s.last.toNat)
    (hbelow : s.last.toNat < Frame.largest.toNat) (hfinite : ∀ a, (s.input.axes.get a).isFinite) :
    Writable 1 [s] := by
  refine ⟨.cons (by rw [hfirst]; rfl) (by rwa [hfirst]) (.nil _), fun t ht => ?_, fun t ht => ?_⟩
  · rwa [List.mem_singleton.mp ht]
  · rwa [List.mem_singleton.mp ht]

/-- A comment and a row after a line break in the header, and a recorded frame. -/
theorem header_plays_after_line_breaks_of_second_lines :
    let segments : List Segment :=
      [{ first := 1, last := 2, source := default, input := ⟨.ofButton .square, {}⟩ }]
    let under (header : List String) : Library := fun _ => .ok (write segments header)
    let disk : Disk := ({} : Disk).put ["t.json"] (.file (some "[\x7b\x7d]"))
    let report := Cli.record disk ⟨"7", ""⟩ {} "tas" "t.json"
    let recording := write (Recorder.recordAll [{}]).segments ["Recorded from t.json", "1 frames"]
    (∃ loaded, load {} (under ["recorded\n# by hand"]) "" = .ok loaded ∧
      loaded.diagnostics = [] ∧ List.Forall₂ SamePlay segments loaded.store.segments) ∧
    (∃ loaded whole, load {} (under ["recorded\n5,X"]) "" = .ok loaded ∧
      load {} (fun _ => .ok ("5,X\n" ++ write segments [])) "" = .ok whole ∧
      SameLoad loaded whole ∧ loaded.store.frameCount = 7) ∧
    ∃ loaded, report.disk.read "tas/7.recording.jaktas" = .ok recording ∧
      load {} (fun _ => .ok recording) "" = .ok loaded ∧ loaded.store.expand.length = 1 := by
  intro segments under disk report recording
  have hw : Writable 1 segments :=
    writable_singleton rfl (by decide) (by decide) (by rintro ⟨⟩ <;> rfl)
  refine ⟨?_, ?_, ?_⟩
  · obtain ⟨loaded, hload, hreports, hsame, -⟩ :=
      ((header_plays_after_line_breaks {} (under ["recorded\n# by hand"]) "").1 segments
        ["recorded\n# by hand"] hw rfl).1 (by decide +kernel)
    exact ⟨loaded, hload, hreports, hsame⟩
  · have hview : (load {} (under ["recorded\n5,X"]) "").toOption.map
        (fun loaded => loaded.store.frameCount) = some 7 := by
      decide +kernel
    obtain ⟨loaded, hload, hcount⟩ := load_of_view hview
    obtain ⟨further, hfurther, hwhole⟩ :=
      ((header_plays_after_line_breaks {} (under ["recorded\n5,X"]) "").1 segments
        ["recorded\n5,X"] hw rfl).2 loaded hload
    have hlines : ["recorded\n5,X"].flatMap furtherLines = ["5,X".toList] := by decide
    rw [hlines] at hfurther
    obtain rfl := hfurther.unique (.plain (by decide) .nil)
    obtain ⟨whole, hload', hsame⟩ := hwhole (fun _ => .ok ("5,X\n" ++ write segments [])) "" rfl
    exact ⟨loaded, whole, hload, hload', hsame, hcount⟩
  · obtain ⟨hfile, -, hquiet⟩ := (header_plays_after_line_breaks {} (fun _ => .ok recording) "").2
      disk ⟨"7", ""⟩ {} "tas" "t.json" "[\x7b\x7d]" [{}] (by decide +kernel) (by decide +kernel)
      (by decide) (by decide +kernel)
    have hpath : Path.join "tas" ("7" ++ ({} : Config).recordingExtension) =
        "tas/7.recording.jaktas" := by
      decide +kernel
    obtain ⟨loaded, hload, -, hframes⟩ := hquiet (by decide) rfl
    exact ⟨loaded, hpath ▸ hfile, hload, hframes.length_eq.symm⟩

/-- A row in a header text is played, before the two frames that were written. -/
theorem header_row_is_played :
    ¬ ∀ (segments : List Segment) (header : List String), Writable 1 segments →
      ∃ loaded, load {} (fun _ => .ok (write segments header)) "" = .ok loaded ∧
        loaded.diagnostics = [] ∧ List.Forall₂ SamePlay segments loaded.store.segments := by
  intro hall
  let s : Segment :=
    { first := 1, last := 2, source := default, input := ⟨.ofButton .square, {}⟩ }
  have hw : Writable 1 [s] :=
    writable_singleton rfl (by decide) (by decide) (by rintro ⟨⟩ <;> rfl)
  obtain ⟨loaded, hload, -, hsame⟩ := hall [s] ["recorded\n5,X"] hw
  have hview : (load {} (fun _ => .ok (write [s] ["recorded\n5,X"])) "").toOption.map
      (fun loaded => loaded.store.size) = some 2 := by
    decide +kernel
  obtain ⟨played, hplayed, hsize⟩ := load_of_view hview
  obtain rfl := Except.ok.inj (hload.symm.trans hplayed)
  exact absurd (hsame.length_eq.trans hsize) (by decide)

end Script
end PadScript
