import PadScript.Text

/-!
# JSON values

Values keep what a typed reader may still ask for: the digits of a number, the order and the
repetitions of members, and whether the escapes of a string make up characters at all.
-/
namespace PadScript

namespace Json

/-- A number as it is written: digits before and after the point, and the exponent if any. -/
structure Number where
  negative : Bool
  whole : List Char
  fraction : List Char
  exponent : Option Int
  deriving DecidableEq, Repr

def Number.isInteger (n : Number) : Bool := n.fraction.isEmpty && n.exponent.isNone

def Number.ofNat (n : Nat) : Number := ⟨false, Text.decimal n, [], none⟩

/-- A string, or nothing where half a surrogate pair is escaped. -/
abbrev Chars := Option String

end Json

inductive Json
  | null
  | bool (b : Bool)
  | number (n : Json.Number)
  | chars (s : Json.Chars)
  | list (items : List Json)
  | object (members : List (Json.Chars × Json))
  deriving Inhabited

namespace Json

def ofString (s : String) : Json := .chars (some s)

def ofNat (n : Nat) : Json := .number (.ofNat n)

/-- The value of a natural number below `bound` that is written with digits only. -/
def natural? (bound : Nat) : Json → Option Nat
  | number n =>
    if n.isInteger && !n.negative then (Text.natural? n.whole).filter (· < bound) else none
  | _ => none

def bool? : Json → Option Bool
  | bool b => some b
  | _ => none

def string? : Json → Option String
  | chars s => s
  | _ => none

def list? : Json → Option (List Json)
  | list items => some items
  | _ => none

theorem natural?_ofNat {bound n : Nat} (h : n < bound) : (ofNat n).natural? bound = some n := by
  simp [ofNat, natural?, Number.ofNat, Number.isInteger, Text.natural?_decimal, h]

end Json
end PadScript
