import PadScript.Single.Shortest

/-!
# Numbers in scripts

Scripts write a number in plain positional notation, as the shortest decimal that reads back, and
read any decimal notation, rounded once and exactly.
-/
namespace PadScript.Single

/-- The notation of scripts; of two shortest decimals equally near, the larger is written. -/
def toText (x : Single) : String :=
  let sign := if x.negative then "-" else ""
  if x.isNaN then "NaN"
  else if !x.isFinite then sign ++ "inf"
  else if x.isZero then sign ++ "0"
  else sign ++ String.ofList (shortest .up x.magnitude.val).positional

/-- An exponent is a letter `e`, perhaps a sign, and digits. -/
def exponent? : List Char → Option Int
  | [] => some 0
  | e :: r =>
    if e ≠ 'e' ∧ e ≠ 'E' then none
    else match r with
      | '+' :: ds => (Text.natural? ds).map Int.ofNat
      | '-' :: ds => (Text.natural? ds).map fun n => -Int.ofNat n
      | ds => (Text.natural? ds).map Int.ofNat

/-- Digits with at most one point among or beside them, then perhaps an exponent. -/
def decimal? (cs : List Char) : Option Decimal :=
  let whole := cs.takeWhile Char.isDigit
  let rest := cs.dropWhile Char.isDigit
  let (fraction, tail) := match rest with
    | '.' :: r => (r.takeWhile Char.isDigit, r.dropWhile Char.isDigit)
    | r => ([], r)
  match Text.natural? (whole ++ fraction), exponent? tail with
  | some n, some e => some ⟨n, e - fraction.length⟩
  | _, _ => none

/-- The words for what is no finite number, in small letters or capitals. -/
def special? (cs : List Char) : Option (Fin 2147483648) :=
  let word := cs.map Char.toLower
  if word = "inf".toList ∨ word = "infinity".toList then some ⟨infinity, by decide⟩
  else if word = "nan".toList then some ⟨0x7FC00000, by decide⟩
  else none

/-- A number in decimal notation: perhaps a sign, then a special word or a decimal. -/
def ofText? (text : String) : Option Single :=
  let (negative, body) := match text.toList with
    | '-' :: r => (true, r)
    | '+' :: r => (false, r)
    | r => (false, r)
  match special? body with
  | some m => some ⟨negative, m⟩
  | none => (decimal? body).map (ofDecimal negative)

example : ofText? "90" = some ⟨false, 0x42B40000⟩ := by decide +kernel
example : ofText? "-0" = some ⟨true, 0⟩ ∧ toText ⟨true, 0⟩ = "-0" := by decide +kernel
example : ofText? "1e39" = some ⟨false, 0x7F800000⟩ := by decide +kernel
example : ofText? "." = none ∧ ofText? "" = none ∧ ofText? "1e" = none := by decide +kernel
example : toText ⟨false, 0x3DCCCCCD⟩ = "0.1" := by decide +kernel

end PadScript.Single
