/-!
# Values of a settings file

The values of the TOML format. A table remembers how it came about, because that decides what may
be added to it later in the file.
-/
namespace PadScript

/-- A table is written between braces, is opened by a heading of its own, stands above one that
is, or is made by a key with dots. -/
inductive TableOrigin
  | inline | heading | above | dotted
  deriving DecidableEq, Repr

/-- Numbers with a fraction and moments of time are kept as they are written. `unreadable` has the
outline of a number and no value: it is out of range, its base has no digits behind it, or its
groups of digits hold something else as well. `tables` is a list of tables of which each has a
heading. -/
inductive Toml
  | string (s : String)
  | integer (n : Int)
  | real (text : String)
  | unreadable (text : String)
  | boolean (b : Bool)
  | moment (text : String)
  | list (items : List Toml)
  | table (origin : TableOrigin) (entries : List (String × Toml))
  | tables (elements : List (List (String × Toml)))
  deriving Inhabited

namespace Toml

abbrev Entries := List (String × Toml)

mutual

/-- A file may hold an unreadable number; it is at fault once somebody looks at that number. -/
def isReadable : Toml → Bool
  | unreadable _ => false
  | list items => listReadable items
  | table _ entries => entriesReadable entries
  | tables elements => elementsReadable elements
  | _ => true

def listReadable : List Toml → Bool
  | [] => true
  | v :: r => v.isReadable && listReadable r

def entriesReadable : List (String × Toml) → Bool
  | [] => true
  | (_, v) :: r => v.isReadable && entriesReadable r

def elementsReadable : List (List (String × Toml)) → Bool
  | [] => true
  | entries :: r => entriesReadable entries && elementsReadable r

end

theorem entriesReadable_eq_all (entries : Entries) :
    entriesReadable entries = entries.all fun e => e.2.isReadable := by
  induction entries with
  | nil => rfl
  | cons e r ih => simp [entriesReadable, ih]

def isBlank (c : Char) : Bool := c == ' ' || c == '\t'

/-- Characters that may stand as they are in strings and comments. -/
def isPlain (c : Char) : Bool := c == '\t' || (0x20 ≤ c.toNat && c.toNat ≠ 0x7F)

def afterBreak? : List Char → Option (List Char)
  | '\n' :: r => some r
  | '\r' :: '\n' :: r => some r
  | _ => none

end Toml
end PadScript
