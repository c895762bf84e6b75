import PadScript.Binary
import PadScript.Decimal
import PadScript.Text
import PadScript.Toml.Basic

/-!
# Numbers and moments of a settings file

A scalar is a run of characters that are no delimiters. It is read as a word, an integer, a number
with a fraction or an exponent, or a date, a time or both.
-/
namespace PadScript.Toml

/-- Blanks, line breaks and the signs between values end a scalar; quotes do not. -/
def isScalarChar (c : Char) : Bool :=
  !isBlank c && c != '\n' && c != '\r' && c != '#' && c != '=' && c != ',' &&
    c != '[' && c != ']' && c != '\x7b' && c != '\x7d'

/-- Digits with single underscores between them; the digits alone. -/
def grouped? (isDigit : Char → Bool) : List Char → Option (List Char)
  | [] => none
  | [c] => if isDigit c then some [c] else none
  | c :: '_' :: r => if isDigit c then (grouped? isDigit r).map (c :: ·) else none
  | c :: r => if isDigit c then (grouped? isDigit r).map (c :: ·) else none

def inBase? (base : Nat) (cs : List Char) : Option Nat :=
  let isDigit (c : Char) : Bool := (Text.hexValue? c).any (· < base)
  (grouped? isDigit cs).map fun ds => ds.foldl (fun n c => n * base + (Text.hexValue? c).getD 0) 0

def decimalDigits? (cs : List Char) : Option (List Char) :=
  (grouped? Char.isDigit cs).filter fun ds => ds.length = 1 || ds.head? ≠ some '0'

/-- A sign is taken off; the answer is whether it was a minus. -/
def unsign : List Char → Bool × List Char
  | '-' :: r => (true, r)
  | '+' :: r => (false, r)
  | r => (false, r)

/-- Integers take a sign only in decimal notation. -/
def integer? (cs : List Char) : Option Int :=
  match cs with
  | '0' :: 'x' :: r => (inBase? 16 r).map Int.ofNat
  | '0' :: 'o' :: r => (inBase? 8 r).map Int.ofNat
  | '0' :: 'b' :: r => (inBase? 2 r).map Int.ofNat
  | cs =>
    let (negative, r) := unsign cs
    (decimalDigits? r).map fun ds =>
      let n : Int := Nat.ofDigitChars 10 ds 0
      if negative then -n else n

def fitsInteger (n : Int) : Bool := -Int.pow 2 127 ≤ n && n < Int.pow 2 128

/-- An exponent after its letter; leading zeros are fine. -/
def exponent? (cs : List Char) : Option Int :=
  let (negative, r) := unsign cs
  (grouped? Char.isDigit r).map fun ds =>
    let n : Int := Nat.ofDigitChars 10 ds 0
    if negative then -n else n

/-- A number with a fraction, an exponent or both. -/
def decimal? (cs : List Char) : Option Decimal :=
  let isMark (c : Char) : Bool := c == 'e' || c == 'E'
  let mantissa := cs.takeWhile fun c => !isMark c
  let power := cs.drop (mantissa.length + 1)
  let whole := mantissa.takeWhile (· != '.')
  let fraction := mantissa.drop (whole.length + 1)
  let hasPower := mantissa.length < cs.length
  let hasFraction := whole.length < mantissa.length
  let fractionDigits := if hasFraction then grouped? Char.isDigit fraction else some []
  let exponent := if hasPower then exponent? power else some 0
  if !hasPower && !hasFraction then none
  else match decimalDigits? whole, fractionDigits, exponent with
    | some w, some f, some e => some ⟨Nat.ofDigitChars 10 (w ++ f) 0, e - f.length⟩
    | _, _, _ => none

def fitsReal (d : Decimal) : Bool :=
  let (num, den) := d.clamp.ratio
  Binary.double.isFinite (Binary.double.round num den)

def isBareBase (cs : List Char) : Bool :=
  cs = "0x".toList || cs = "0o".toList || cs = "0b".toList

def isHexDigit (c : Char) : Bool := (Text.hexValue? c).isSome

/-- Groups behind an underscore have a hexadecimal digit wherever they touch one. -/
def areGroups : List (List Char) → Bool
  | [] => true
  | [g] => g.head?.any isHexDigit
  | g :: r => g.head?.any isHexDigit && g.getLast?.any isHexDigit && areGroups r

/-- An integer in groups by its outline: the first group is a decimal number, and no mark of a
fraction or an exponent stands in the others, nor a space. What else stands inside them does not
matter to the outline. -/
def isGrouped (cs : List Char) : Bool :=
  match Text.pieces '_' (unsign cs).2 with
  | first :: g :: r =>
    first.head?.any (· != '0') && first.all Char.isDigit && areGroups (g :: r) &&
      (g :: r).all fun g => g.all fun c => c != '.' && c != 'e' && c != 'E' && c != ' '
  | _ => false

/-- A number. One that has the outline of a number but no value is kept as unreadable. -/
def number? (cs : List Char) : Option Toml :=
  let text := String.ofList cs
  let body := (unsign cs).2
  match integer? cs with
  | some n => some (if fitsInteger n then .integer n else .unreadable text)
  | none =>
    if isBareBase cs || isGrouped cs then some (.unreadable text)
    else if body = "inf".toList || body = "nan".toList then some (.real text)
    else (decimal? body).map fun d => if fitsReal d then .real text else .unreadable text

def fixed? (width : Nat) (cs : List Char) : Option (Nat × List Char) :=
  let ds := cs.take width
  if ds.length = width && ds.all Char.isDigit then some (Nat.ofDigitChars 10 ds 0, cs.drop width)
  else none

def isLeapYear (year : Nat) : Bool := year % 4 = 0 && (year % 100 ≠ 0 || year % 400 = 0)

def daysIn (year month : Nat) : Nat :=
  if month = 2 then (if isLeapYear year then 29 else 28)
  else if month = 4 || month = 6 || month = 9 || month = 11 then 30
  else 31

def afterDate? (cs : List Char) : Option (List Char) :=
  match fixed? 4 cs with
  | some (year, '-' :: r) =>
    match fixed? 2 r with
    | some (month, '-' :: r) =>
      match fixed? 2 r with
      | some (day, r) =>
        if 1 ≤ month && month ≤ 12 && 1 ≤ day && day ≤ daysIn year month then some r else none
      | none => none
    | _ => none
  | _ => none

def afterMinutes? (cs : List Char) : Option (List Char) :=
  match fixed? 2 cs with
  | some (hour, ':' :: r) =>
    match fixed? 2 r with
    | some (minute, r) => if hour ≤ 23 && minute ≤ 59 then some r else none
    | none => none
  | _ => none

def afterTime? (cs : List Char) : Option (List Char) :=
  match afterMinutes? cs with
  | some (':' :: r) =>
    match fixed? 2 r with
    | some (second, r) =>
      if 60 < second then none
      else match r with
        | '.' :: f =>
          if (f.takeWhile Char.isDigit).isEmpty then none else some (f.dropWhile Char.isDigit)
        | r => some r
    | none => none
  | other => other

def isOffset : List Char → Bool
  | ['Z'] => true
  | ['z'] => true
  | '+' :: r => afterMinutes? r = some []
  | '-' :: r => afterMinutes? r = some []
  | _ => false

/-- A date, a time, or a date with a time and perhaps an offset. -/
def isMoment (cs : List Char) : Bool :=
  match afterDate? cs with
  | some [] => true
  | some (c :: r) =>
    (c == 'T' || c == 't' || c == ' ') &&
      match afterTime? r with
      | some rest => rest.isEmpty || isOffset rest
      | none => false
  | none => afterTime? cs = some []

/-- A scalar may be in parts with blanks between them, as a date and a time are; no part after the
first begins with a quote. -/
def startsPart (cs : List Char) : Bool :=
  cs.head?.any fun c => isScalarChar c && c != '"' && c != '\''

def scalarChars : List Char → List Char
  | [] => []
  | c :: r =>
    if isScalarChar c || isBlank c && startsPart (r.dropWhile isBlank) then c :: scalarChars r
    else []

def ofScalar? (cs : List Char) : Option Toml :=
  if cs = "true".toList then some (.boolean true)
  else if cs = "false".toList then some (.boolean false)
  else match number? cs with
    | some v => some v
    | none => if isMoment cs then some (.moment (String.ofList cs)) else none

example : integer? "1_000".toList = some 1000 ∧ integer? "0x3F".toList = some 63 := by decide
example : integer? "01".toList = none ∧ integer? "1__0".toList = none := by decide
example : (number? "1e5".toList).map isReadable = some true ∧
    (number? "1e400".toList).map isReadable = some false := by decide +kernel
example : number? "0x".toList = some (.unreadable "0x") ∧ number? "0x_".toList = none ∧
    number? "-inf".toList = some (.real "-inf") ∧ number? "1.".toList = none := by
  refine ⟨by rfl, by rfl, by rfl, by rfl⟩
example : isGrouped "1_0Z".toList ∧ isGrouped "-1_a_f:".toList ∧ !isGrouped "1_0Z_1".toList ∧
    !isGrouped "1_0e".toList ∧ !isGrouped "+_1".toList ∧ !isGrouped "0_1".toList := by decide
example : isMoment "1979-05-27T07:32:00Z".toList ∧ !isMoment "1979-02-29".toList := by decide

end PadScript.Toml
