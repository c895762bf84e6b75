import PadScript.Cli.Execute
import PadScript.Proofs.DiskFiles
import PadScript.Proofs.SettingsLines

/-!
# Settings that were saved are loaded again

The lines of a settings file make its entries one after the other, since no key appears twice in
its table. So the settings that are written are the settings that are read, and a file that was
saved has them all.
-/
namespace PadScript

namespace Toml

def keys (entries : Entries) : List String := entries.map Prod.fst

/-- One assignment for each entry, in their order. -/
def assignments (entries : Entries) : List Statement :=
  entries.map fun (key, v) => .assignment [key] v

namespace Entries

variable {key : String} {entries : Entries}

theorem alter?_append (h : key ∉ keys entries) (rest : Entries)
    (f : Option Toml → Option Toml) :
    alter? key f (entries ++ rest) = (alter? key f rest).map (entries ++ ·) := by
  induction entries with
  | nil => simp
  | cons e entries ih =>
    obtain ⟨hne, hrest⟩ := not_or.mp (List.mem_cons.not.mp h)
    rw [List.cons_append, alter?, if_neg (Ne.symm hne), ih hrest, Option.map_map]
    rfl

theorem alter?_of_not_mem (h : key ∉ keys entries) (f : Option Toml → Option Toml) :
    entries.alter? key f = (f none).map fun v => entries ++ [(key, v)] := by
  simpa [alter?, Function.comp_def] using alter?_append h [] f

theorem alter?_concat (h : key ∉ keys entries) (v : Toml) (f : Option Toml → Option Toml) :
    alter? key f (entries ++ [(key, v)]) = (f (some v)).map fun w => entries ++ [(key, w)] := by
  simpa [alter?, Function.comp_def] using alter?_append h [(key, v)] f

theorem assign?_of_not_mem (h : key ∉ keys entries) (v : Toml) :
    entries.assign? [key] v = some (entries ++ [(key, v)]) :=
  alter?_of_not_mem h fun found => if found.isSome then none else some v

end Entries

namespace Document

variable {key top : String} {entries inner : Entries}

theorem take?_assignment (h : key ∉ keys entries) (v : Toml) :
    take? ⟨entries, []⟩ (.assignment [key] v) = some ⟨entries ++ [(key, v)], []⟩ := by
  have hassign := Entries.assign?_of_not_mem h v
  simp [take?, Entries.assignBelow?, Entries.within?, hassign]

theorem take?_heading (h : key ∉ keys entries) (heading : List String) :
    take? ⟨entries, heading⟩ (.heading [key]) =
      some ⟨entries ++ [(key, .table .heading [])], [key]⟩ := by
  simp [take?, Entries.open?, Entries.within?, Entries.alter?_of_not_mem h]

theorem take?_below (htop : top ∉ keys entries) (h : key ∉ keys inner) (v : Toml) :
    take? ⟨entries ++ [(top, .table .heading inner)], [top]⟩ (.assignment [key] v) =
      some ⟨entries ++ [(top, .table .heading (inner ++ [(key, v)]))], [top]⟩ := by
  have hassign := Entries.assign?_of_not_mem h v
  simp [take?, Entries.assignBelow?, Entries.within?, Entries.alter?_concat htop, hassign]

/-- Where an assignment makes one more entry of a table, wherever that stands in the document, a
list of them makes all entries, as long as no key appears twice. -/
theorem foldlM_assignments (place : Entries → Document)
    (hplace : ∀ {inner key}, key ∉ keys inner → ∀ v,
      (place inner).take? (.assignment [key] v) = some (place (inner ++ [(key, v)])))
    (inner : Entries) (h : (keys (inner ++ entries)).Nodup) :
    (assignments entries).foldlM take? (place inner) = some (place (inner ++ entries)) := by
  -- `inner` holds what the assignments before have made
  induction entries generalizing inner with
  | nil => simp [assignments]
  | cons e entries ih =>
    obtain ⟨key, v⟩ := e
    have hfree : key ∉ keys inner := by
      rw [keys, List.map_append, List.nodup_append] at h
      exact fun hmem => h.2.2 key hmem key List.mem_cons_self rfl
    rw [List.append_cons] at h ⊢
    rw [← ih _ h]
    simp [assignments, hplace hfree]

theorem foldlM_file (htop : top ∉ keys entries) (h : (keys entries).Nodup)
    (hinner : (keys inner).Nodup) :
    (assignments entries ++ .heading [top] :: assignments inner).foldlM take? {} =
      some ⟨entries ++ [(top, .table .heading inner)], [top]⟩ := by
  have hentries : (assignments entries).foldlM take? {} = some ⟨entries, []⟩ :=
    foldlM_assignments (fun entries => ⟨entries, []⟩) take?_assignment [] h
  have hbelow : (assignments inner).foldlM take? ⟨entries ++ [(top, .table .heading [])], [top]⟩ =
      some ⟨entries ++ [(top, .table .heading inner)], [top]⟩ :=
    foldlM_assignments (fun inner => ⟨entries ++ [(top, .table .heading inner)], [top]⟩)
      (take?_below htop) [] hinner
  rw [List.foldlM_append, hentries]
  simp [take?_heading htop, hbelow]

end Document

theorem Reads.textLine {key value : String} {rest : List Char} {ss : List Statement}
    (hkey : IsBare key) (h : Reads rest ss) :
    Reads ((Config.textLine key value).toList ++ rest)
      (.assignment [key] (.string value) :: ss) := by
  have hline := h.line (states_assignment hkey (tells_quoteList value))
  simpa [Config.textLine, quote] using hline

theorem Reads.numberLine {key : String} {value : Nat} {rest : List Char} {ss : List Statement}
    (hkey : IsBare key) (hvalue : value < UInt64.size) (h : Reads rest ss) :
    Reads ((Config.numberLine key value).toList ++ rest)
      (.assignment [key] (.integer value) :: ss) := by
  have hline := h.line (states_assignment hkey (tells_decimal hvalue))
  simpa [Config.numberLine, Text.decimal] using hline

theorem Reads.headingLine {key : String} {rest : List Char} {ss : List Statement}
    (hkey : IsBare key) (h : Reads rest ss) :
    Reads (("\n[" ++ key ++ "]\n").toList ++ rest) (.heading [key] :: ss) := by
  have hline := (h.line (states_heading hkey)).blank
  simpa using hline

end Toml

theorem Toml.below?_integer {n bound : Nat} (h : n < bound) :
    below? bound (.integer n) = some n := by
  simp [below?, h]

def TriggerTexts.entries (t : TriggerTexts) : Toml.Entries := [
  ("start_playback", .string t.startPlayback), ("cancel_playback", .string t.cancelPlayback),
  ("start_recording", .string t.startRecording), ("stop_recording", .string t.stopRecording)]

theorem TriggerTexts.ofEntries?_entries (t : TriggerTexts) : ofEntries? t.entries = some t := by
  simp [ofEntries?, entries, Toml.entriesReadable_eq_all, Toml.isReadable, Toml.field, Toml.string?,
    List.lookup_cons]

namespace Config

def entries (c : Config) : Toml.Entries := [
  ("folder", .string c.folder), ("main_script", .string c.mainScript),
  ("script_extension", .string c.scriptExtension),
  ("recording_extension", .string c.recordingExtension),
  ("results_extension", .string c.resultsExtension),
  ("default_frame_rate", .integer c.rate.toNat), ("max_import_depth", .integer c.importDepth.toNat)]

theorem ofEntries?_entries (c : Config) :
    ofEntries? (c.entries ++ [("triggers", .table .heading c.triggers.entries)]) = some c := by
  have hrate := Toml.below?_integer c.rate.toNat_lt
  have hdepth := Toml.below?_integer c.importDepth.toNat_lt
  have htriggers : TriggerTexts.ofToml? (.table .heading c.triggers.entries) = some c.triggers :=
    c.triggers.ofEntries?_entries
  simp [ofEntries?, entries, Toml.entriesReadable_eq_all, Toml.isReadable, Toml.field, Toml.string?,
    List.lookup_cons, hrate, hdepth, htriggers]

theorem reads_text (c : Config) : Toml.Reads c.text.toList
    (Toml.assignments c.entries ++ .heading ["triggers"] ::
      Toml.assignments c.triggers.entries) := by
  have hrate : c.rate.toNat < UInt64.size := c.rate.toNat_lt.trans (by decide)
  have hheading : "\n[triggers]\n" = "\n[" ++ "triggers" ++ "]\n" := rfl
  simp only [text, String.toList_join, List.flatMap_cons, List.flatMap_nil, entries,
    TriggerTexts.entries, Toml.assignments, List.map_cons, List.map_nil, List.cons_append,
    List.nil_append, hheading]
  refine .textLine (by decide) <| .textLine (by decide) <| .textLine (by decide) <|
    .textLine (by decide) <| .textLine (by decide) <| .numberLine (by decide) hrate <|
    .numberLine (by decide) c.importDepth.toNat_lt <| .headingLine (by decide) ?_
  exact .textLine (by decide) <| .textLine (by decide) <| .textLine (by decide) <|
    .textLine (by decide) Toml.reads_nil

theorem dropMark_text (c : Config) : Toml.dropMark c.text.toList = c.text.toList := by
  obtain ⟨rest, htext⟩ : ∃ rest, c.text.toList = 'f' :: rest := by
    simp [text, textLine]
  rw [htext]
  rfl

theorem parse?_text (c : Config) : Toml.parse? c.text =
    some (c.entries ++ [("triggers", .table .heading c.triggers.entries)]) := by
  have htop : "triggers" ∉ Toml.keys c.entries := by simp [Toml.keys, entries]
  have hnodup : (Toml.keys c.entries).Nodup := by simp [Toml.keys, entries]
  have hinner : (Toml.keys c.triggers.entries).Nodup := by simp [Toml.keys, TriggerTexts.entries]
  have hread := c.reads_text _ le_rfl
  unfold Toml.parse?
  dsimp only
  rw [dropMark_text, hread]
  dsimp only
  rw [Toml.Document.foldlM_file htop hnodup hinner]
  rfl

/-- The settings that are written are read. -/
theorem ofText_text (c : Config) : ofText c.text = c := by
  rw [ofText, parse?_text, Option.bind_some, ofEntries?_entries, Option.getD_some]

theorem read_save {c : Config} {disk after : Disk} {path : String}
    (h : c.save disk path = (.ok (), after)) : after.read path = .ok c.text := by
  unfold save at h
  split at h
  · cases h
  next made _ =>
    split at h
    · cases h
    next written hwrite =>
      obtain rfl := (Prod.mk.inj h).2
      exact Disk.read_write hwrite

theorem save_outcome (c other : Config) (disk : Disk) (path : String) :
    (c.save disk path).1 = (other.save disk path).1 := by
  unfold save
  cases disk.ensureFolder (Path.folderOf path) with
  | mk outcome made =>
  cases outcome with
  | error err => rfl
  | ok _ =>
  have hsame := made.write_outcome path c.text other.text
  dsimp only
  split <;> split <;> simp_all [Except.map]

/-- Settings are saved and loaded again, whatever texts and numbers they hold. What is written is
read as the same settings; no settings are refused where others can be saved; and once a file was
saved, at whatever path and with folders to be made or not, the settings that are loaded from it
are those that were saved. -/
theorem saved_settings_load_back (c : Config) :
    ofText c.text = c ∧ ∀ (disk : Disk) (path : String),
      (∀ other : Config, (other.save disk path).1 = (c.save disk path).1) ∧
      ∀ after, c.save disk path = (.ok (), after) →
        after.read path = .ok c.text ∧ Cli.settingsOf after (some path) = c := by
  refine ⟨ofText_text c, fun disk path => ⟨fun other => save_outcome other c disk path, ?_⟩⟩
  intro after hsave
  have hread := read_save hsave
  refine ⟨hread, ?_⟩
  simp only [Cli.settingsOf, Option.map_some, hread]
  exact ofText_text c

/-- Quotes of both kinds, backslashes, line breaks and control characters, so that all forms are
written, and the largest depth. -/
theorem saved_settings_load_back_of_quotes :
    let c : Config :=
      { folder := "", mainScript := "'''\n\"\"\"\"", scriptExtension := "\\'"
        recordingExtension := "\"\t\x01\"\"\"", resultsExtension := "a\"b\\"
        rate := 4294967295, importDepth := 18446744073709551615
        triggers := { startPlayback := "\r\n", cancelPlayback := "\"'" } }
    let after := (c.save {} "nested/tas.toml").2
    c.save {} "nested/tas.toml" = (.ok (), after) ∧ after.read "nested/tas.toml" = .ok c.text ∧
      Cli.settingsOf after (some "nested/tas.toml") = c := by
  intro c after
  have hsaved : (c.save {} "nested/tas.toml").1 = .ok () := by decide +kernel
  have hafter : c.save {} "nested/tas.toml" = (.ok (), after) := Prod.ext hsaved rfl
  obtain ⟨-, hdisk⟩ := saved_settings_load_back c
  exact ⟨hafter, (hdisk {} "nested/tas.toml").2 after hafter⟩

end Config
end PadScript
