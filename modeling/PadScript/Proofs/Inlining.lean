import Mathlib.Tactic
import PadScript.Script.Load

/-!
# Imports in place

`Inlined` says, as a relation and without regard to cycles and depth, which flat list of lines a
script stands for: its lines in order, and after an import line the flat list of the imported
script. `flattens_of_ofScript` shows that a list made by `Flat.ofScript` is that list.
-/
namespace PadScript.Script

def Entry.unreadable (source : Location) (name : String) (error : StorageError) : Entry :=
  ⟨source, .skipped (.scriptNotFound name error.message)⟩

/-- The first lines stand for the second ones, every import being followed by what it imports. -/
inductive Inlined (library : Library) : List Entry → List Entry → Prop
  | nil : Inlined library [] []
  | plain {e : Entry} {rest flat : List Entry}
      (plain : e.reading.import? = none)
      (following : Inlined library rest flat) :
      Inlined library (e :: rest) (e :: flat)
  | missing {e : Entry} {rest flat : List Entry} {name : String} {error : StorageError}
      (imports : e.reading.import? = some name)
      (unread : library name = .error error)
      (following : Inlined library rest flat) :
      Inlined library (e :: rest) (e :: .unreadable e.source name error :: flat)
  | imported {e : Entry} {rest inner flat : List Entry} {name text : String}
      (imports : e.reading.import? = some name)
      (read : library name = .ok text)
      (inside : Inlined library (lines name text) inner)
      (following : Inlined library rest flat) :
      Inlined library (e :: rest) (e :: inner ++ flat)

/-- The script `name`, asked for at `source`, stands for the lines `flat`. -/
inductive Flattens (library : Library) (source : Location) (name : String) : List Entry → Prop
  | unreadable {error : StorageError} (unread : library name = .error error) :
      Flattens library source name [.unreadable source name error]
  | script {text : String} {flat : List Entry} (read : library name = .ok text)
      (inside : Inlined library (lines name text) flat) : Flattens library source name flat

theorem Inlined.import {library : Library} {e : Entry} {rest inner flat : List Entry}
    {name : String} (imports : e.reading.import? = some name)
    (script : Flattens library e.source name inner) (following : Inlined library rest flat) :
    Inlined library (e :: rest) (e :: inner ++ flat) := by
  cases script with
  | unreadable unread => exact .missing imports unread following
  | script read inside => exact .imported imports read inside following

theorem Inlined.unique {library : Library} {entries flat other : List Entry}
    (h : Inlined library entries flat) (k : Inlined library entries other) : flat = other := by
  induction h generalizing other with
  | nil => cases k; rfl
  | plain plain _ ih =>
    cases k with
    | plain _ following => rw [ih following]
    | missing imports | imported imports => simp [plain] at imports
  | missing imports unread _ ih =>
    cases k with
    | plain plain => simp [imports] at plain
    | missing imports' unread' following =>
      obtain rfl := Option.some.inj (imports.symm.trans imports')
      obtain rfl := Except.error.inj (unread.symm.trans unread')
      rw [ih following]
    | imported imports' read =>
      obtain rfl := Option.some.inj (imports.symm.trans imports')
      simp [unread] at read
  | imported imports read _ _ ihInside ih =>
    cases k with
    | plain plain => simp [imports] at plain
    | missing imports' unread =>
      obtain rfl := Option.some.inj (imports.symm.trans imports')
      simp [read] at unread
    | imported imports' read' inside following =>
      obtain rfl := Option.some.inj (imports.symm.trans imports')
      obtain rfl := Except.ok.inj (read.symm.trans read')
      rw [ihInside inside, ih following]

theorem Flattens.unique {library : Library} {source : Location} {name : String}
    {flat other : List Entry} (h : Flattens library source name flat)
    (k : Flattens library source name other) : flat = other := by
  cases h with
  | unreadable unread =>
    cases k with
    | unreadable unread' => rw [Except.error.inj (unread.symm.trans unread')]
    | script read => simp [unread] at read
  | script read inside =>
    cases k with
    | unreadable unread => simp [read] at unread
    | script read' inside' =>
      obtain rfl := Except.ok.inj (read.symm.trans read')
      exact inside.unique inside'

namespace Flat

def visit (fetch : Location → String → Except LoadError (List Entry)) (e : Entry) :
    Except LoadError (List Entry) :=
  match e.reading.import? with
  | none => .ok [e]
  | some name => (fetch e.source name).map (e :: ·)

theorem inlined_of_flatMapM {library : Library}
    {fetch : Location → String → Except LoadError (List Entry)}
    (hfetch : ∀ source name inner, fetch source name = .ok inner →
      Flattens library source name inner)
    {entries flat : List Entry} (h : entries.flatMapM (visit fetch) = .ok flat) :
    Inlined library entries flat := by
  induction entries generalizing flat with
  | nil =>
    obtain rfl := Except.ok.inj h
    exact .nil
  | cons e rest ih =>
    rw [List.flatMapM_cons] at h
    cases hv : visit fetch e with
    | error err => rw [hv] at h; cases h
    | ok here =>
      cases hr : rest.flatMapM (visit fetch) with
      | error err => rw [hv, hr] at h; cases h
      | ok flat' =>
        rw [hv, hr] at h
        obtain rfl : here ++ flat' = flat := Except.ok.inj h
        have following := ih hr
        unfold visit at hv
        cases himport : e.reading.import? with
        | none =>
          rw [himport] at hv
          obtain rfl := Except.ok.inj hv
          exact .plain himport following
        | some name =>
          rw [himport] at hv
          cases hf : fetch e.source name with
          | error err => simp [hf, Except.map] at hv
          | ok inner =>
            simp only [hf, Except.map, Except.ok.injEq] at hv
            obtain rfl := hv
            exact .import himport (hfetch _ _ _ hf) following

theorem flattens_of_descend {library : Library} {limit room : Nat} {around : List String}
    {source : Location} {name : String} {flat : List Entry}
    (h : descend library limit room around source name = .ok flat) :
    Flattens library source name flat := by
  induction room generalizing around source name flat with
  | zero =>
    unfold descend at h
    split at h <;> cases h
  | succ room ih =>
    unfold descend at h
    split at h
    · cases h
    · cases hl : library name with
      | error error =>
        simp only [hl] at h
        obtain rfl := Except.ok.inj h
        exact .unreadable hl
      | ok text =>
        simp only [hl] at h
        have hvisit : (lines name text).flatMapM
            (visit (descend library limit room (around ++ [name]))) = .ok flat := h
        exact .script hl (inlined_of_flatMapM (fun _ _ _ => ih) hvisit)

/-- The lines of a load are the script with its imports in place. -/
theorem flattens_of_ofScript {library : Library} {limit : Nat} {name : String} {flat : List Entry}
    (h : ofScript library limit name = .ok flat) : Flattens library ⟨name, 0⟩ name flat :=
  flattens_of_descend h

end Flat

theorem load_eq_ok {settings : Settings} {library : Library} {name : String} {loaded : Loaded}
    (h : load settings library name = .ok loaded) :
    ∃ flat, Flat.ofScript library settings.importDepth
        (if name = "" then settings.mainScript else name) = .ok flat ∧
      loaded = assemble settings.rate flat := by
  unfold load at h
  cases hf : Flat.ofScript library settings.importDepth
      (if name = "" then settings.mainScript else name) with
  | error err => simp [hf, Except.map] at h
  | ok flat =>
    simp only [hf, Except.map, Except.ok.injEq] at h
    exact ⟨flat, rfl, h.symm⟩

/-- What can be computed of a load holds of what was loaded. -/
theorem load_of_view {α : Type} {settings : Settings} {library : Library} {name : String}
    {view : Loaded → α} {seen : α}
    (h : (load settings library name).toOption.map view = some seen) :
    ∃ loaded, load settings library name = .ok loaded ∧ view loaded = seen := by
  cases hload : load settings library name with
  | error err => simp [hload, Except.toOption] at h
  | ok loaded =>
    rw [hload] at h
    exact ⟨loaded, rfl, Option.some.inj h⟩

end PadScript.Script
