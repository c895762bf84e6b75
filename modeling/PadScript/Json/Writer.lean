import PadScript.Json.Basic

/-!
# Writing JSON

One printer with two layouts: compact on a single line, and pretty with two blanks for each level.
-/
namespace PadScript.Json

/-- What stands before an item at a level, and between a key and its value. -/
structure Layout where
  lineBreak : Nat → String
  colon : String

namespace Layout

def compact : Layout := ⟨fun _ => "", ":"⟩

def pretty : Layout := ⟨fun level => "\n" ++ String.ofList (List.replicate (2 * level) ' '), ": "⟩

end Layout

def hexDigit (n : Nat) : Char := (Nat.toDigits 16 n).headD '0'

/-- Quotes, backslashes and control characters are escaped, all else stands as it is. -/
def escape (c : Char) : List Char :=
  match c with
  | '"' => ['\\', '"']
  | '\\' => ['\\', '\\']
  | '\x08' => ['\\', 'b']
  | '\t' => ['\\', 't']
  | '\n' => ['\\', 'n']
  | '\x0c' => ['\\', 'f']
  | '\r' => ['\\', 'r']
  | c =>
    if c.toNat < 0x20 then
      ['\\', 'u', '0', '0', hexDigit (c.toNat / 16), hexDigit (c.toNat % 16)]
    else [c]

/-- A string between quotes; what has no characters is written as half a surrogate pair. -/
def Chars.quoted : Chars → String
  | some s => String.ofList ('"' :: s.toList.flatMap escape ++ ['"'])
  | none => "\"\\ud800\""

def Number.text (n : Number) : String :=
  let sign := if n.negative then ['-'] else []
  let fraction := if n.fraction.isEmpty then [] else '.' :: n.fraction
  let exponent := match n.exponent with
    | none => []
    | some e => 'e' :: (if e < 0 then '-' else '+') :: Text.decimal e.natAbs
  String.ofList (sign ++ n.whole ++ fraction ++ exponent)

mutual

/-- The pieces of the text of a value at a level. -/
def render (layout : Layout) (level : Nat) : Json → List String
  | null => ["null"]
  | bool true => ["true"]
  | bool false => ["false"]
  | number n => [n.text]
  | chars s => [s.quoted]
  | list [] => ["[]"]
  | list (v :: vs) =>
    "[" :: layout.lineBreak (level + 1) :: render layout (level + 1) v ++
      renderItems layout (level + 1) vs ++ [layout.lineBreak level, "]"]
  | object [] => ["\x7b\x7d"]
  | object ((k, v) :: ms) =>
    "\x7b" :: layout.lineBreak (level + 1) :: k.quoted :: layout.colon ::
      render layout (level + 1) v ++ renderMembers layout (level + 1) ms ++
      [layout.lineBreak level, "\x7d"]

def renderItems (layout : Layout) (level : Nat) : List Json → List String
  | [] => []
  | v :: vs => "," :: layout.lineBreak level :: render layout level v ++ renderItems layout level vs

def renderMembers (layout : Layout) (level : Nat) : List (Chars × Json) → List String
  | [] => []
  | (k, v) :: ms =>
    "," :: layout.lineBreak level :: k.quoted :: layout.colon :: render layout level v ++
      renderMembers layout level ms

end

def compact (v : Json) : String := String.join (render .compact 0 v)

def pretty (v : Json) : String := String.join (render .pretty 0 v)

end PadScript.Json
