import PadScript.Json.Basic

/-!
# JSON tokens

The text of a JSON document is cut into tokens. Cutting is greedy and never looks at what is
between the tokens but blanks; what may follow what is decided where tokens make up values.
-/
namespace PadScript.Json

inductive Token
  | openList | closeList | openObject | closeObject | comma | colon
  | null
  | bool (b : Bool)
  | number (n : Number)
  | chars (s : Chars)
  deriving DecidableEq, Repr

/-- A character of a string literal, or the code unit of an escape with four digits. -/
inductive Glyph
  | char (c : Char)
  | unit (n : Nat)
  deriving DecidableEq, Repr

namespace Glyph

def pair (high low : Nat) : Char := Char.ofNat (0x10000 + (high - 0xD800) * 0x400 + (low - 0xDC00))

def isHigh (n : Nat) : Bool := 0xD800 ≤ n && n < 0xDC00

def isLow (n : Nat) : Bool := 0xDC00 ≤ n && n < 0xE000

/-- The text of a literal, if every surrogate in it belongs to a pair. -/
def text? : List Glyph → Option (List Char)
  | [] => some []
  | char c :: r => (text? r).map (c :: ·)
  | [unit n] => if isHigh n || isLow n then none else some [Char.ofNat n]
  | unit n :: char c :: r =>
    if isHigh n || isLow n then none else (text? r).map fun t => Char.ofNat n :: c :: t
  | unit n :: unit m :: r =>
    if isHigh n then if isLow m then (text? r).map (pair n m :: ·) else none
    else if isLow n then none
    else (text? (unit m :: r)).map (Char.ofNat n :: ·)

end Glyph

namespace Token

def escaped? : Char → Option Char
  | '"' => some '"'
  | '\\' => some '\\'
  | '/' => some '/'
  | 'b' => some '\x08'
  | 'f' => some '\x0c'
  | 'n' => some '\n'
  | 'r' => some '\r'
  | 't' => some '\t'
  | _ => none

/-- The rest of a string literal up to its closing quote, and what follows that. -/
def glyphs? : List Char → Option (List Glyph × List Char)
  | [] => none
  | '"' :: r => some ([], r)
  | '\\' :: 'u' :: a :: b :: c :: d :: r =>
    match Text.hex? [a, b, c, d], glyphs? r with
    | some n, some (gs, rest) => some (.unit n :: gs, rest)
    | _, _ => none
  | '\\' :: e :: r =>
    match escaped? e, glyphs? r with
    | some c, some (gs, rest) => some (.char c :: gs, rest)
    | _, _ => none
  | c :: r =>
    if c.toNat < 0x20 then none
    else match glyphs? r with
      | some (gs, rest) => some (.char c :: gs, rest)
      | none => none

/-- Digits before the point: a single zero, or no zero in front. -/
def whole? (cs : List Char) : Option (List Char × List Char) :=
  match cs with
  | '0' :: r => some (['0'], r)
  | c :: r => if c.isDigit then some (c :: r.takeWhile Char.isDigit, r.dropWhile Char.isDigit)
    else none
  | [] => none

def digits? (cs : List Char) : Option (List Char × List Char) :=
  let ds := cs.takeWhile Char.isDigit
  if ds.isEmpty then none else some (ds, cs.dropWhile Char.isDigit)

def fraction? : List Char → Option (List Char × List Char)
  | '.' :: r => digits? r
  | r => some ([], r)

def exponent? : List Char → Option (Option Int × List Char)
  | [] => some (none, [])
  | e :: r =>
    if e ≠ 'e' ∧ e ≠ 'E' then some (none, e :: r)
    else
      let (negative, r) := match r with
        | '-' :: r => (true, r)
        | '+' :: r => (false, r)
        | r => (false, r)
      (digits? r).map fun (ds, rest) =>
        let n : Int := Nat.ofDigitChars 10 ds 0
        (some (if negative then -n else n), rest)

def number? (cs : List Char) : Option (Number × List Char) :=
  let (negative, r) := match cs with
    | '-' :: r => (true, r)
    | r => (false, r)
  match whole? r with
  | none => none
  | some (whole, r) =>
    match fraction? r with
    | none => none
    | some (fraction, r) => (exponent? r).map fun (exponent, r) =>
      (⟨negative, whole, fraction, exponent⟩, r)

/-- The first token of a text that begins with no blank, and what follows it. -/
def first? : List Char → Option (Token × List Char)
  | '[' :: r => some (openList, r)
  | ']' :: r => some (closeList, r)
  | '\x7b' :: r => some (openObject, r)
  | '\x7d' :: r => some (closeObject, r)
  | ',' :: r => some (comma, r)
  | ':' :: r => some (colon, r)
  | 'n' :: 'u' :: 'l' :: 'l' :: r => some (null, r)
  | 't' :: 'r' :: 'u' :: 'e' :: r => some (bool true, r)
  | 'f' :: 'a' :: 'l' :: 's' :: 'e' :: r => some (bool false, r)
  | '"' :: r => (glyphs? r).map fun (gs, rest) => (chars ((Glyph.text? gs).map String.ofList), rest)
  | cs => (number? cs).map fun (n, rest) => (number n, rest)

def isSpace (c : Char) : Bool := c == ' ' || c == '\t' || c == '\n' || c == '\r'

/-- The tokens of a text in which there are at most `room` of them. -/
def scan : (room : Nat) → List Char → Option (List Token)
  | room, cs =>
    match cs.dropWhile isSpace, room with
    | [], _ => some []
    | _, 0 => none
    | c :: r, room + 1 => (first? (c :: r)).bind fun (t, rest) => (scan room rest).map (t :: ·)

/-- The tokens of a text. A token has at least one character, so there is always room. -/
def ofText (text : String) : Option (List Token) := scan text.toList.length text.toList

end Token
end PadScript.Json
