import PadScript.Toml.Quoted
import PadScript.Toml.Scalar

/-!
# Reading a settings file

A file is a sequence of headings and assignments. `Entries.assign?` and the functions beside it
say what may be added to which table: nothing is defined twice, a table between braces is
complete, and a table that has a heading is not added to by a key with dots.
-/
namespace PadScript.Toml

namespace Entries

/-- The entry under a key is changed by `f`, or made by it. -/
def alter? (key : String) (f : Option Toml → Option Toml) : Entries → Option Entries
  | [] => (f none).map fun v => [(key, v)]
  | (k, v) :: r =>
    if k = key then (f (some v)).map fun v => (k, v) :: r
    else (alter? key f r).map ((k, v) :: ·)

/-- A change at the end of a path of tables, of which missing ones are made. A heading goes
through all tables but those between braces, and enters the latest of a list of tables; dots do
not enter a table that has a heading. The change is told how the table came about; a latest table
of a list has a heading. -/
def within? (dotted : Bool) (change : TableOrigin → Entries → Option Entries) :
    (origin : TableOrigin) → (path : List String) → Entries → Option Entries
  | origin, [], entries => change origin entries
  | _, key :: path, entries =>
    entries.alter? key fun found =>
      match found with
      | none =>
        let origin := if dotted then .dotted else .above
        (within? dotted change origin path []).map (.table origin)
      | some (.table origin inner) =>
        if origin = .inline || (dotted && origin = .heading) then none
        else (within? dotted change origin path inner).map (.table origin)
      | some (.tables elements) =>
        match elements.getLast? with
        | none => none
        | some latest => (within? dotted change .heading path latest).map fun latest =>
          .tables (elements.dropLast ++ [latest])
      | some _ => none

/-- A value is put under a key that has none. -/
def add? (key : String) (value : Toml) (entries : Entries) : Option Entries :=
  entries.alter? key fun found => if found.isSome then none else some value

/-- An assignment to a key with dots: the table that it adds to is either the one in which it
stands, or one that such keys have made. -/
def assign? (path : List String) (value : Toml) (entries : Entries) : Option Entries :=
  match path.getLast? with
  | none => none
  | some key =>
    let above := path.dropLast
    entries.within? true (fun origin inner =>
      if above.isEmpty || origin = .dotted then inner.add? key value else none) .heading above

def open? (path : List String) (entries : Entries) : Option Entries :=
  match path.getLast? with
  | none => none
  | some key =>
    entries.within? false (fun _ inner => inner.alter? key fun found =>
      match found with
      | none => some (.table .heading [])
      | some (.table .above inner) => some (.table .heading inner)
      | some _ => none) .heading path.dropLast

def append? (path : List String) (entries : Entries) : Option Entries :=
  match path.getLast? with
  | none => none
  | some key =>
    entries.within? false (fun _ inner => inner.alter? key fun found =>
      match found with
      | none => some (.tables [[]])
      | some (.tables elements) => some (.tables (elements ++ [[]]))
      | some _ => none) .heading path.dropLast

/-- An assignment below a heading; the tables on the way are there. -/
def assignBelow? (heading path : List String) (value : Toml) (entries : Entries) : Option Entries :=
  entries.within? false (fun _ inner => inner.assign? path value) .heading heading

end Entries

def isKeyChar (c : Char) : Bool := c.isAlphanum || c == '_' || c == '-'

def skipBlanks (cs : List Char) : List Char := cs.dropWhile isBlank

def keyPart? (cs : List Char) : Option (String × List Char) :=
  match cs with
  | '"' :: r => (basic? r).map fun (s, rest) => (String.ofList s, rest)
  | '\'' :: r => (literal? r).map fun (s, rest) => (String.ofList s, rest)
  | cs =>
    let part := cs.takeWhile isKeyChar
    if part.isEmpty then none else some (String.ofList part, cs.dropWhile isKeyChar)

def mostParts : Nat := 80

/-- A key of at most `parts` parts between dots. -/
def key? : (parts : Nat) → List Char → Option (List String × List Char)
  | 0, _ => none
  | parts + 1, cs =>
    match keyPart? (skipBlanks cs) with
    | none => none
    | some (part, r) =>
      match skipBlanks r with
      | '.' :: r => (key? parts r).map fun (path, rest) => (part :: path, rest)
      | r => some ([part], r)

/-- The text after a comment and after all of the line but its break; a comment holds plain
characters only. -/
def afterComment? (cs : List Char) : Option (List Char) :=
  match cs with
  | '#' :: r =>
    let rest := r.dropWhile isPlain
    if rest.isEmpty || (afterBreak? rest).isSome then some rest else none
  | cs => some cs

/-- Blanks, line breaks and comments are passed over, at most `room` lines of them. -/
def skipAtMost? : (room : Nat) → List Char → Option (List Char)
  | 0, cs => some cs
  | room + 1, cs =>
    match afterComment? (skipBlanks cs) with
    | none => none
    | some r =>
      match afterBreak? r with
      | some r => skipAtMost? room r
      | none => some r

def skipLines? (cs : List Char) : Option (List Char) := skipAtMost? cs.length cs

/-- The key and value of an assignment; `gap?` passes over what may stand on both sides of the
equals sign. -/
def pair? (gap? : List Char → Option (List Char)) (value? : List Char → Option (Toml × List Char))
    (cs : List Char) : Option ((List String × Toml) × List Char) := do
  let (path, r) ← key? mostParts cs
  match ← gap? r with
  | '=' :: r =>
    let (v, rest) ← value? (← gap? r)
    return ((path, v), rest)
  | _ => none

/-- Items between commas up to a closing sign; a comma may stand after the last one. Lines may be
broken anywhere between them. -/
def items? {α : Type} (item? : List Char → Option (α × List Char)) (closing : Char) :
    (room : Nat) → List Char → Option (List α × List Char)
  | 0, _ => none
  | room + 1, cs =>
    match skipLines? cs with
    | none => none
    | some [] => none
    | some (c :: r) =>
      if c = closing then some ([], r)
      else match item? (c :: r) with
        | none => none
        | some (x, r) =>
          match skipLines? r with
          | some (',' :: r) => (items? item? closing room r).map fun (xs, rest) => (x :: xs, rest)
          | some (c :: r) => if c = closing then some ([x], r) else none
          | _ => none

/-- Lists and tables between braces nest up to this depth. -/
def deepest : Nat := 80

/-- The value at the front of a text, in which `depth` further levels are allowed. Between braces
lines may be broken on both sides of an equals sign too. -/
def value? : (depth : Nat) → List Char → Option (Toml × List Char)
  | depth, cs =>
    match cs, depth with
    | '[' :: _, 0 => none
    | '[' :: r, depth + 1 =>
      (items? (value? depth) ']' r.length r).map fun (xs, rest) => (list xs, rest)
    | '\x7b' :: _, 0 => none
    | '\x7b' :: r, depth + 1 =>
      match items? (pair? skipLines? (value? depth)) '\x7d' r.length r with
      | none => none
      | some (pairs, rest) =>
        (pairs.foldlM (fun (entries : Entries) (path, v) => entries.assign? path v) []).map
          fun entries => (table .inline entries, rest)
    | '"' :: _, _ => (quoted? cs).map fun (s, rest) => (string (String.ofList s), rest)
    | '\'' :: _, _ => (quoted? cs).map fun (s, rest) => (string (String.ofList s), rest)
    | cs, _ =>
      let scalar := scalarChars cs
      (ofScalar? scalar).map fun v => (v, cs.drop scalar.length)

inductive Statement
  | heading (path : List String)
  | listHeading (path : List String)
  | assignment (path : List String) (value : Toml)

def statement? (cs : List Char) : Option (Statement × List Char) :=
  match cs with
  | '[' :: '[' :: r =>
    match key? mostParts r with
    | some (path, ']' :: ']' :: r) => some (.listHeading path, r)
    | _ => none
  | '[' :: r =>
    match key? mostParts r with
    | some (path, ']' :: r) => some (.heading path, r)
    | _ => none
  | cs =>
    (pair? (some ∘ skipBlanks) (value? deepest) cs).map fun ((path, v), r) => (.assignment path v, r)

/-- Nothing but blanks and a comment may follow a statement in its line. -/
def afterLine? (cs : List Char) : Option (List Char) :=
  match afterComment? (skipBlanks cs) with
  | none => none
  | some [] => some []
  | some r => afterBreak? r

/-- The statements of a text with at most `room` of them. -/
def statements? : (room : Nat) → List Char → Option (List Statement)
  | room, cs =>
    match skipLines? cs, room with
    | none, _ => none
    | some [], _ => some []
    | _, 0 => none
    | some cs, room + 1 =>
      match statement? cs with
      | none => none
      | some (s, r) =>
        match afterLine? r with
        | none => none
        | some r => (statements? room r).map (s :: ·)

/-- The tables so far, and the heading under which assignments stand. -/
structure Document where
  entries : Entries := []
  heading : List String := []

namespace Document

def take? (d : Document) : Statement → Option Document
  | .heading path => (d.entries.open? path).map fun entries => ⟨entries, path⟩
  | .listHeading path => (d.entries.append? path).map fun entries => ⟨entries, path⟩
  | .assignment path v =>
    (d.entries.assignBelow? d.heading path v).map fun entries => { d with entries }

end Document

/-- A mark of the byte order at the start of a file does not count. -/
def dropMark : List Char → List Char
  | '\ufeff' :: r => r
  | r => r

def parse? (text : String) : Option Entries :=
  let cs := dropMark text.toList
  match statements? cs.length cs with
  | none => none
  | some ss => (ss.foldlM Document.take? {}).map Document.entries

end PadScript.Toml
