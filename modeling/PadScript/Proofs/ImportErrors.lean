import PadScript.Proofs.FramePartition
import PadScript.Proofs.Inlining

/-!
# Refused imports

Import lines lead down from a script to further scripts. A script is refused when it stands around
itself or when too many scripts stand around it, and a load fails exactly if some way down ends at
a refused script; the error is that of the first such way in reading order. Ways down are compared
by the places of their lines, word by word, so that a way comes before those that go on from it.
-/
namespace PadScript.Script

/-- The script in which an import line stands, its place among the lines there, counted from zero,
and the script for which it asks. -/
structure ImportLine where
  file : String
  place : Nat
  imported : String
  deriving DecidableEq, Repr

namespace ImportLine

def source (l : ImportLine) : Location := ⟨l.file, .ofNat (l.place + 1)⟩

/-- The script can be read and the line is found in it. -/
def StandsIn (library : Library) (l : ImportLine) : Prop :=
  ∃ text e, library l.file = .ok text ∧ (lines l.file text)[l.place]? = some e ∧
    e.reading.import? = some l.imported

end ImportLine

/-- The import lines lead down from the script, each one standing in the script for which the one
before asks. -/
inductive Descent (library : Library) : String → List ImportLine → Prop
  | stay (name : String) : Descent library name []
  | down {l : ImportLine} {rest : List ImportLine} (stands : l.StandsIn library)
      (further : Descent library l.imported rest) : Descent library l.file (l :: rest)

namespace Descent

def target (name : String) : List ImportLine → String
  | [] => name
  | l :: rest => target l.imported rest

/-- Where the last script is asked for, when the first one is asked for at `source`. -/
def askedAt (source : Location) : List ImportLine → Location
  | [] => source
  | l :: rest => askedAt l.source rest

@[simp] theorem target_nil (name : String) : target name [] = name := rfl

@[simp] theorem target_cons (name : String) (l : ImportLine) (rest : List ImportLine) :
    target name (l :: rest) = target l.imported rest := rfl

theorem target_snoc (name : String) (path : List ImportLine) (l : ImportLine) :
    target name (path ++ [l]) = l.imported := by
  induction path generalizing name with
  | nil => rfl
  | cons first rest ih => exact ih first.imported

theorem askedAt_snoc (source : Location) (path : List ImportLine) (l : ImportLine) :
    askedAt source (path ++ [l]) = l.source := by
  induction path generalizing source with
  | nil => rfl
  | cons first rest ih => exact ih first.source

theorem mono {library wider : Library}
    (h : ∀ name text, library name = .ok text → wider name = .ok text) {name : String}
    {path : List ImportLine} (hpath : Descent library name path) : Descent wider name path := by
  induction hpath with
  | stay name => exact .stay name
  | down stands _ ih =>
    obtain ⟨text, e, hread, he, himport⟩ := stands
    exact .down ⟨text, e, h _ _ hread, he, himport⟩ ih

theorem stands_of_mem {library : Library} {name : String} {path : List ImportLine}
    (h : Descent library name path) {l : ImportLine} (hl : l ∈ path) : l.StandsIn library := by
  induction h with
  | stay => cases hl
  | down stands _ ih =>
    rcases List.mem_cons.mp hl with rfl | hl
    · exact stands
    · exact ih hl

theorem exists_line {library : Library} {name text : String} {path : List ImportLine}
    (hread : library name = .ok text) (h : Descent library name path) (hne : path ≠ []) :
    ∃ place e imported rest, path = ⟨name, place, imported⟩ :: rest ∧
      (lines name text)[place]? = some e ∧ e.reading.import? = some imported ∧
      Descent library imported rest := by
  cases h with
  | stay => exact absurd rfl hne
  | @down l rest stands further =>
    obtain ⟨text', e, hread', he, himport⟩ := stands
    obtain rfl : text = text' := Except.ok.inj (hread.symm.trans hread')
    exact ⟨l.place, e, l.imported, rest, rfl, he, himport, further⟩

theorem eq_nil {library : Library} {name : String} {error : StorageError}
    {path : List ImportLine} (hunread : library name = .error error)
    (h : Descent library name path) : path = [] := by
  cases h with
  | stay => rfl
  | down stands _ =>
    obtain ⟨text, e, hread, -⟩ := stands
    cases hunread.symm.trans hread

end Descent

/-- Inside the scripts `around`, a script is refused which is one of them, and any script when
they are too many. -/
def Refuses (limit : Nat) (around : List String) (name : String) : Prop :=
  name ∈ around ∨ limit < around.length

theorem Refuses.mono {limit wider : Nat} (h : limit ≤ wider) {around : List String} {name : String}
    (hrefused : Refuses wider around name) : Refuses limit around name :=
  hrefused.imp id h.trans_lt

def LoadError.refusal (limit : Nat) (around : List String) (source : Location) (name : String) :
    LoadError :=
  if name ∈ around then .importCycle (around ++ [name]) source
  else .importDepthExceeded name limit source

open Descent

/-- No way down from `name`, inside the scripts `around`, ends at a refused script. -/
def Passes (library : Library) (limit : Nat) (around : List String) (name : String) : Prop :=
  ∀ path, Descent library name path →
    ¬ Refuses limit (around ++ path.map ImportLine.file) (target name path)

theorem Passes.mono {library fewer : Library} {limit wider : Nat} {around : List String}
    {name : String} (h : Passes library limit around name)
    (hfewer : ∀ script text, fewer script = .ok text → library script = .ok text)
    (hwider : limit ≤ wider) : Passes fewer wider around name :=
  fun path hpath hrefused => h path (hpath.mono hfewer) (hrefused.mono hwider)

/-- The way down from `name`, inside the scripts `around`, is the first one in reading order that
ends at a refused script, and `error` is the error there. -/
structure FirstRefused (library : Library) (limit : Nat) (around : List String)
    (source : Location) (name : String) (path : List ImportLine) (error : LoadError) : Prop where
  descent : Descent library name path
  refused : Refuses limit (around ++ path.map ImportLine.file) (target name path)
  first : ∀ other, Descent library name other →
    Refuses limit (around ++ other.map ImportLine.file) (target name other) →
    other = path ∨ path.map ImportLine.place < other.map ImportLine.place
  distinct : (around ++ path.map ImportLine.file).Nodup
  depth : (around ++ path.map ImportLine.file).length ≤ limit + 1
  error : error = .refusal limit (around ++ path.map ImportLine.file) (askedAt source path)
    (target name path)

namespace Flat

variable {library : Library} {limit : Nat} {around : List String} {source : Location}
  {name : String}

theorem firstRefused_stay (hrefused : Refuses limit around name) (hdistinct : around.Nodup)
    (hdepth : around.length ≤ limit + 1) :
    FirstRefused library limit around source name [] (.refusal limit around source name) := by
  have haround : around ++ ([] : List ImportLine).map ImportLine.file = around := by simp
  refine ⟨.stay name, by rwa [haround], fun other _ _ => ?_, by rwa [haround], by rwa [haround],
    by rw [haround]; rfl⟩
  cases other with
  | nil => exact .inl rfl
  | cons l rest => exact .inr (List.nil_lt_cons _ _)

theorem not_refuses_of_room (hname : name ∉ around) (hroom : around.length ≤ limit) :
    ¬ Refuses limit around name := by
  rintro (hmem | hlt)
  · exact hname hmem
  · omega

theorem exists_of_flatMapM_error {f : Entry → Except LoadError (List Entry)}
    {entries : List Entry} {err : LoadError} (h : entries.flatMapM f = .error err) :
    ∃ before e after, entries = before ++ e :: after ∧
      (∀ b ∈ before, ∃ made, f b = .ok made) ∧ f e = .error err := by
  induction entries with
  | nil => cases h
  | cons e rest ih =>
    rw [List.flatMapM_cons] at h
    cases he : f e with
    | error err' =>
      rw [he] at h
      obtain rfl : err' = err := Except.error.inj h
      exact ⟨[], e, rest, rfl, by simp, he⟩
    | ok made =>
      cases hrest : rest.flatMapM f with
      | ok flat => rw [he, hrest] at h; cases h
      | error err' =>
        rw [he, hrest] at h
        obtain rfl : err' = err := Except.error.inj h
        obtain ⟨before, e', after, rfl, hbefore, he'⟩ := ih hrest
        exact ⟨e :: before, e', after, rfl, List.forall_mem_cons.mpr ⟨⟨made, he⟩, hbefore⟩, he'⟩

theorem exists_of_flatMapM_ok {f : Entry → Except LoadError (List Entry)} {entries : List Entry}
    {flat : List Entry} (h : entries.flatMapM f = .ok flat) :
    ∀ e ∈ entries, ∃ made, f e = .ok made := by
  induction entries generalizing flat with
  | nil => simp
  | cons e rest ih =>
    rw [List.flatMapM_cons] at h
    cases he : f e with
    | error err => rw [he] at h; cases h
    | ok made =>
      cases hrest : rest.flatMapM f with
      | error err => rw [he, hrest] at h; cases h
      | ok flat' => exact List.forall_mem_cons.mpr ⟨⟨made, he⟩, ih hrest⟩

variable {fetch : Location → String → Except LoadError (List Entry)} {e : Entry}

theorem fetch_of_visit_ok {made : List Entry} {imported : String} (h : visit fetch e = .ok made)
    (himport : e.reading.import? = some imported) :
    ∃ inner, fetch e.source imported = .ok inner := by
  simp only [visit, himport] at h
  cases hfetch : fetch e.source imported with
  | ok inner => exact ⟨inner, rfl⟩
  | error err => rw [hfetch] at h; cases h

theorem fetch_of_visit_error {err : LoadError} (h : visit fetch e = .error err) :
    ∃ imported, e.reading.import? = some imported ∧ fetch e.source imported = .error err := by
  unfold visit at h
  cases himport : e.reading.import? with
  | none => rw [himport] at h; cases h
  | some imported =>
    refine ⟨imported, rfl, ?_⟩
    cases hfetch : fetch e.source imported with
    | ok inner => simp [himport, hfetch, Except.map] at h
    | error err' => simpa [himport, hfetch, Except.map] using h

theorem source_of_lines {file text : String} {place : Nat} {e : Entry}
    (h : (lines file text)[place]? = some e) : e.source = ⟨file, .ofNat (place + 1)⟩ := by
  simp only [lines, List.getElem?_mapIdx, Option.map_eq_some_iff] at h
  obtain ⟨cs, -, rfl⟩ := h
  rfl

/-- The first way down through a script leads through the first of its lines that does not pass. -/
theorem firstRefused_down {text : String} {before after : List Entry} {imported : String}
    {path : List ImportLine} {error : LoadError} (hread : library name = .ok text)
    (hname : ¬ Refuses limit around name) (hlines : lines name text = before ++ e :: after)
    (hbefore : ∀ b ∈ before, ∀ imported, b.reading.import? = some imported →
      Passes library limit (around ++ [name]) imported)
    (himport : e.reading.import? = some imported)
    (h : FirstRefused library limit (around ++ [name]) e.source imported path error) :
    FirstRefused library limit around source name (⟨name, before.length, imported⟩ :: path)
      error := by
  have hplace : (lines name text)[before.length]? = some e := by
    rw [hlines, List.getElem?_append_right le_rfl, Nat.sub_self, List.getElem?_cons_zero]
  have haround : ∀ place imported (rest : List ImportLine),
      around ++ (⟨name, place, imported⟩ :: rest : List ImportLine).map ImportLine.file =
        around ++ [name] ++ rest.map ImportLine.file := by
    simp
  have hsource : e.source = (⟨name, before.length, imported⟩ : ImportLine).source :=
    source_of_lines hplace
  have hstands : (⟨name, before.length, imported⟩ : ImportLine).StandsIn library :=
    ⟨text, e, hread, hplace, himport⟩
  refine ⟨.down hstands h.descent, ?_, fun other hother hrefused => ?_, ?_, ?_, ?_⟩
  · rw [haround]
    exact h.refused
  · by_cases hne : other = []
    · subst hne
      exact absurd hrefused (by simpa using hname)
    obtain ⟨place, e', imported', rest, rfl, he', himport', hrest⟩ := hother.exists_line hread hne
    rw [haround] at hrefused
    rcases lt_trichotomy place before.length with hlt | rfl | hgt
    · -- the lines before pass
      rw [hlines, List.getElem?_append_left hlt] at he'
      exact absurd hrefused (hbefore e' (List.mem_of_getElem? he') imported' himport' rest hrest)
    · obtain rfl : e = e' := Option.some.inj (hplace.symm.trans he')
      obtain rfl : imported = imported' := Option.some.inj (himport.symm.trans himport')
      rcases h.first rest hrest hrefused with rfl | hlt
      · exact .inl rfl
      · exact .inr (List.cons_lt_cons_iff.mpr (.inr ⟨rfl, hlt⟩))
    · exact .inr (List.cons_lt_cons_iff.mpr (.inl hgt))
  · rw [haround]
    exact h.distinct
  · rw [haround]
    exact h.depth
  · rw [haround, h.error, hsource]
    rfl

theorem passes_of_lines {text : String} (hread : library name = .ok text)
    (hname : ¬ Refuses limit around name)
    (hlines : ∀ e ∈ lines name text, ∀ imported, e.reading.import? = some imported →
      Passes library limit (around ++ [name]) imported) : Passes library limit around name := by
  intro path hpath
  by_cases hne : path = []
  · subst hne
    simpa using hname
  obtain ⟨place, e, imported, rest, rfl, he, himport, hrest⟩ := hpath.exists_line hread hne
  have hpass := hlines e (List.mem_of_getElem? he) imported himport rest hrest
  simpa using hpass

theorem passes_of_unread {error : StorageError} (hunread : library name = .error error)
    (hname : ¬ Refuses limit around name) : Passes library limit around name := by
  intro path hpath
  rw [hpath.eq_nil hunread]
  simpa using hname

/-- What is read passes, and an error is that of the first refused script. -/
theorem descend_spec (library : Library) (limit : Nat) {room : Nat} {around : List String}
    (source : Location) (name : String) (hdistinct : around.Nodup)
    (hroom : around.length + room = limit + 1) :
    (∀ flat, descend library limit room around source name = .ok flat →
      Passes library limit around name) ∧
    (∀ error, descend library limit room around source name = .error error →
      ∃ path, FirstRefused library limit around source name path error) := by
  induction room generalizing around source name with
  | zero =>
    have hrefused : Refuses limit around name := .inr (by omega)
    have hdescend : descend library limit 0 around source name =
        .error (.refusal limit around source name) := by
      unfold descend LoadError.refusal
      split <;> rfl
    rw [hdescend]
    refine ⟨fun flat h => ?_, fun error h => ⟨[], ?_⟩⟩
    · cases h
    · rw [← Except.error.inj h]
      exact firstRefused_stay hrefused hdistinct (by omega)
  | succ room ih =>
    by_cases hmem : name ∈ around
    · have hdescend : descend library limit (room + 1) around source name =
          .error (.refusal limit around source name) := by
        simp [descend, LoadError.refusal, hmem]
      rw [hdescend]
      refine ⟨fun flat h => ?_, fun error h => ⟨[], ?_⟩⟩
      · cases h
      · rw [← Except.error.inj h]
        exact firstRefused_stay (.inl hmem) hdistinct (by omega)
    have hname : ¬ Refuses limit around name := not_refuses_of_room hmem (by omega)
    cases hread : library name with
    | error error =>
      have hdescend : descend library limit (room + 1) around source name =
          .ok [.unreadable source name error] := by
        simp [descend, hmem, hread, Entry.unreadable]
      rw [hdescend]
      refine ⟨fun flat _ => passes_of_unread hread hname, fun error h => ?_⟩
      cases h
    | ok text =>
      have hdescend : descend library limit (room + 1) around source name =
          (lines name text).flatMapM (visit (descend library limit room (around ++ [name]))) := by
        simp only [descend, hmem, hread, if_false]
        rfl
      have hinner : (around ++ [name]).Nodup := by
        rw [List.nodup_append_comm]
        exact List.nodup_cons.mpr ⟨hmem, hdistinct⟩
      have hspec := fun source imported => ih source imported hinner (by simp; omega)
      rw [hdescend]
      refine ⟨fun flat h => passes_of_lines hread hname fun e he imported himport => ?_,
        fun error h => ?_⟩
      · obtain ⟨made, hvisit⟩ := exists_of_flatMapM_ok h e he
        obtain ⟨inner, hfetch⟩ := fetch_of_visit_ok hvisit himport
        exact (hspec _ _).1 inner hfetch
      · obtain ⟨before, e, after, hlines, hbefore, hvisit⟩ := exists_of_flatMapM_error h
        obtain ⟨imported, himport, hfetch⟩ := fetch_of_visit_error hvisit
        obtain ⟨path, hpath⟩ := (hspec _ _).2 error hfetch
        refine ⟨_, firstRefused_down hread hname hlines (fun b hb imported himport => ?_) himport
          hpath⟩
        obtain ⟨made, hmade⟩ := hbefore b hb
        obtain ⟨inner, hinner⟩ := fetch_of_visit_ok hmade himport
        exact (hspec _ _).1 inner hinner

theorem ofScript_error {error : LoadError} (h : ofScript library limit name = .error error) :
    ∃ path, FirstRefused library limit [] ⟨name, 0⟩ name path error :=
  (descend_spec library limit _ name List.nodup_nil (Nat.zero_add _)).2 error h

theorem ofScript_ok_iff :
    (∃ flat, ofScript library limit name = .ok flat) ↔ Passes library limit [] name := by
  constructor
  · rintro ⟨flat, h⟩
    exact (descend_spec library limit _ name List.nodup_nil (Nat.zero_add _)).1 flat h
  · intro hpass
    cases h : ofScript library limit name with
    | ok flat => exact ⟨flat, rfl⟩
    | error error =>
      obtain ⟨path, hpath⟩ := ofScript_error h
      exact absurd hpath.refused (hpass path hpath.descent)

theorem ofScript_mono {wider : Nat} (hle : limit ≤ wider) {flat : List Entry}
    (h : ofScript library limit name = .ok flat) : ofScript library wider name = .ok flat := by
  have hpass := ofScript_ok_iff.mp ⟨flat, h⟩
  obtain ⟨other, hother⟩ := ofScript_ok_iff.mpr (hpass.mono (fun _ _ => id) hle)
  rw [hother, (flattens_of_ofScript hother).unique (flattens_of_ofScript h)]

end Flat

theorem load_eq_error {settings : Settings} {library : Library} {name : String}
    {error : LoadError} (h : load settings library name = .error error) :
    Flat.ofScript library settings.importDepth
      (if name = "" then settings.mainScript else name) = .error error := by
  unfold load at h
  cases hf : Flat.ofScript library settings.importDepth
      (if name = "" then settings.mainScript else name) with
  | ok flat => simp [hf, Except.map] at h
  | error other => simpa [hf, Except.map] using h

theorem load_ok_iff {settings : Settings} {library : Library} {name : String} :
    (∃ loaded, load settings library name = .ok loaded) ↔
      Passes library settings.importDepth [] (if name = "" then settings.mainScript else name) := by
  rw [← Flat.ofScript_ok_iff]
  constructor
  · rintro ⟨loaded, h⟩
    obtain ⟨flat, hflat, -⟩ := load_eq_ok h
    exact ⟨flat, hflat⟩
  · rintro ⟨flat, hflat⟩
    exact ⟨assemble settings.rate flat, by simp [load, hflat, Except.map]⟩

/-- The first script is not refused, so that an import line stands at the end of the way. -/
theorem FirstRefused.exists_snoc {library : Library} {limit : Nat} {source : Location}
    {root : String} {path : List ImportLine} {error : LoadError}
    (h : FirstRefused library limit [] source root path error) :
    ∃ before l, path = before ++ [l] := by
  rcases List.eq_nil_or_concat' path with rfl | hsnoc
  · rcases h.refused with hmem | hlt
    · cases hmem
    · exact absurd hlt (Nat.not_lt_zero _)
  · exact hsnoc

/-- What the error says of the way down to the line `l`, on which a script is refused. -/
def LoadError.Tells (limit : Nat) (path : List ImportLine) (l : ImportLine) : LoadError → Prop
  | .importCycle chain source =>
    chain = path.map ImportLine.file ++ [l.imported] ∧ (path.map ImportLine.file).Nodup ∧
      l.imported ∈ path.map ImportLine.file ∧ source = l.source
  | .importDepthExceeded name bound source =>
    name = l.imported ∧ path.length = limit + 1 ∧ bound = limit ∧ source = l.source

theorem FirstRefused.tells {library : Library} {limit : Nat} {source : Location}
    {root : String} {before : List ImportLine} {l : ImportLine} {error : LoadError}
    (h : FirstRefused library limit [] source root (before ++ [l]) error) :
    error.Tells limit (before ++ [l]) l := by
  have hdepth : (before ++ [l]).length ≤ limit + 1 := by simpa using h.depth
  have hrefused : Refuses limit ((before ++ [l]).map ImportLine.file) l.imported := by
    simpa only [List.nil_append, target_snoc] using h.refused
  rw [h.error, target_snoc, askedAt_snoc, List.nil_append, LoadError.refusal]
  split
  · next hmem => exact ⟨rfl, h.distinct, hmem, rfl⟩
  · next hmem =>
    have hlong : limit < (before ++ [l]).length := by
      simpa only [List.length_map] using hrefused.resolve_left hmem
    exact ⟨rfl, by omega, rfl, rfl⟩

/-- A load fails exactly if some import lines lead down from the script to one that stands around
itself or is nested too deeply. The error is that of the first such way down in reading order and
tells the scripts on it and the place of its last line. What cannot be read is never the reason:
a load that succeeds still does when scripts are missing. Nor does a load that succeeds depend on
the limit: it gives the same under any wider one. -/
theorem load_fails_at_first_refused_import (settings : Settings) (library : Library)
    (name : String) :
    let root := if name = "" then settings.mainScript else name
    let limit := settings.importDepth
    ((∃ error, load settings library name = .error error) ↔
      ∃ path, Descent library root path ∧
        Refuses limit (path.map ImportLine.file) (target root path)) ∧
    (∀ error, load settings library name = .error error →
      ∃ before l, FirstRefused library limit [] ⟨root, 0⟩ root (before ++ [l]) error ∧
        error.Tells limit (before ++ [l]) l ∧
        ∀ text, library l.file = .ok text → text.toList.length < Frame.largest.toNat →
          l.source.line.toNat = l.place + 1) ∧
    (∀ fewer : Library, (∀ script text, fewer script = .ok text → library script = .ok text) →
      (∃ loaded, load settings library name = .ok loaded) →
      ∃ loaded, load settings fewer name = .ok loaded) ∧
    ∀ loaded, load settings library name = .ok loaded → ∀ depth, limit ≤ depth →
      load { settings with importDepth := depth } library name = .ok loaded := by
  intro root limit
  refine ⟨⟨?_, ?_⟩, fun error herror => ?_, fun fewer hfewer hok => ?_,
    fun loaded hloaded depth hdepth => ?_⟩
  · rintro ⟨error, herror⟩
    obtain ⟨path, hpath⟩ := Flat.ofScript_error (load_eq_error herror)
    exact ⟨path, hpath.descent, hpath.refused⟩
  · rintro ⟨path, hpath, hrefused⟩
    cases hload : load settings library name with
    | error error => exact ⟨error, rfl⟩
    | ok loaded => exact absurd hrefused (load_ok_iff.mp ⟨loaded, hload⟩ path hpath)
  · obtain ⟨path, hpath⟩ := Flat.ofScript_error (load_eq_error herror)
    obtain ⟨before, l, rfl⟩ := hpath.exists_snoc
    refine ⟨before, l, hpath, hpath.tells, fun text hread hlength => ?_⟩
    obtain ⟨text', e, hread', he, -⟩ := hpath.descent.stands_of_mem (l := l) (by simp)
    obtain rfl : text = text' := Except.ok.inj (hread.symm.trans hread')
    have hline := line_of_lines hlength he
    rwa [Flat.source_of_lines he] at hline
  · exact load_ok_iff.mpr ((load_ok_iff.mp hok).mono hfewer le_rfl)
  · obtain ⟨flat, hflat, rfl⟩ := load_eq_ok hloaded
    have hwider : Flat.ofScript library depth root = .ok flat := Flat.ofScript_mono hdepth hflat
    show (Flat.ofScript library depth root).map (assemble settings.rate) = _
    rw [hwider]
    rfl

/-- A cycle is told by its chain and the line that closes it; when imports may not be nested, the
second one is refused before that. -/
theorem load_fails_at_first_refused_import_of_cycle :
    let scripts : Texts := [("main", "1,X\nimport=a"), ("a", "import=b"), ("b", "1\nimport=a")]
    let library : Library := Storage.read (MemoryStorage.mk scripts [])
    (∃ before l, FirstRefused library 32 [] ⟨"main", 0⟩ "main" (before ++ [l])
        (.importCycle ["main", "a", "b", "a"] ⟨"b", 2⟩) ∧
      l.source = ⟨"b", 2⟩ ∧ (before ++ [l]).map ImportLine.file = ["main", "a", "b"]) ∧
    ∃ before l, FirstRefused library 1 [] ⟨"main", 0⟩ "main" (before ++ [l])
        (.importDepthExceeded "b" 1 ⟨"a", 1⟩) ∧
      l.imported = "b" ∧ (before ++ [l]).length = 2 := by
  intro scripts library
  have hcycle : load {} library "" = .error (.importCycle ["main", "a", "b", "a"] ⟨"b", 2⟩) := by
    decide +kernel
  have hdepth : load { importDepth := 1 } library "" =
      .error (.importDepthExceeded "b" 1 ⟨"a", 1⟩) := by
    decide +kernel
  obtain ⟨before, l, hfirst, ⟨hchain, -, -, hsource⟩, -⟩ :=
    (load_fails_at_first_refused_import {} library "").2.1 _ hcycle
  obtain ⟨before', l', hfirst', ⟨himported, hlength, -⟩, -⟩ :=
    (load_fails_at_first_refused_import { importDepth := 1 } library "").2.1 _ hdepth
  refine ⟨⟨before, l, hfirst, hsource.symm, ?_⟩, before', l', hfirst', himported.symm, hlength⟩
  exact (List.append_inj_left' hchain.symm rfl : _ = ["main", "a", "b"])

end PadScript.Script
