import PadScript.Text
import PadScript.Toml.Basic

/-!
# Strings of a settings file

Four quoted forms are read: basic strings with escapes, literal ones without, and of each a form
over several lines. `quote` picks the form that needs the fewest escapes.
-/
namespace PadScript.Toml

def scalar? (n : Nat) : Option Char := if h : n.isValidChar then some (Char.ofNatAux n h) else none

/-- What a backslash and the letter after it stand for, when that takes no digits. -/
def escaped? : Char → Option Char
  | 'b' => some '\x08'
  | 't' => some '\t'
  | 'n' => some '\n'
  | 'f' => some '\x0c'
  | 'r' => some '\r'
  | 'e' => some '\x1b'
  | '"' => some '"'
  | '\\' => some '\\'
  | _ => none

/-- A text in front of what follows it. -/
abbrev Scanned := List Char × List Char

def Scanned.push (c : Char) (s : Scanned) : Scanned := (c :: s.1, s.2)

/-- The character of the hexadecimal digits `ds` goes in front. -/
def pushHex (ds : List Char) (s : Option Scanned) : Option Scanned :=
  match (Text.hex? ds).bind scalar?, s with
  | some c, some s => some (s.push c)
  | _, _ => none

def basic? : List Char → Option Scanned
  | [] => none
  | '"' :: r => some ([], r)
  | '\\' :: 'x' :: a :: b :: r => pushHex [a, b] (basic? r)
  | '\\' :: 'u' :: a :: b :: c :: d :: r => pushHex [a, b, c, d] (basic? r)
  | '\\' :: 'U' :: a :: b :: c :: d :: e :: f :: g :: h :: r =>
    pushHex [a, b, c, d, e, f, g, h] (basic? r)
  | '\\' :: e :: r =>
    match escaped? e with
    | some c => (basic? r).map (·.push c)
    | none => none
  | c :: r => if isPlain c then (basic? r).map (·.push c) else none

def literal? : List Char → Option Scanned
  | [] => none
  | '\'' :: r => some ([], r)
  | c :: r => if isPlain c then (literal? r).map (·.push c) else none

/-- A basic string over several lines, after its opening quotes. While `skipping`, after a
backslash at the end of a line, blanks and line breaks are passed over; other line breaks are kept
as they are written. Up to two quotes may stand before the closing ones. -/
def multiBasic? : (skipping : Bool) → List Char → Option Scanned
  | _, [] => none
  | true, ' ' :: r => multiBasic? true r
  | true, '\t' :: r => multiBasic? true r
  | skipping, '\n' :: r =>
    if skipping then multiBasic? true r else (multiBasic? false r).map (·.push '\n')
  | skipping, '\r' :: '\n' :: r =>
    if skipping then multiBasic? true r
    else (multiBasic? false r).map fun s => (s.push '\n').push '\r'
  | _, '"' :: '"' :: '"' :: '"' :: '"' :: r => some (['"', '"'], r)
  | _, '"' :: '"' :: '"' :: '"' :: r => some (['"'], r)
  | _, '"' :: '"' :: '"' :: r => some ([], r)
  | _, '\\' :: 'x' :: a :: b :: r => pushHex [a, b] (multiBasic? false r)
  | _, '\\' :: 'u' :: a :: b :: c :: d :: r => pushHex [a, b, c, d] (multiBasic? false r)
  | _, '\\' :: 'U' :: a :: b :: c :: d :: e :: f :: g :: h :: r =>
    pushHex [a, b, c, d, e, f, g, h] (multiBasic? false r)
  | _, '\\' :: e :: r =>
    match escaped? e with
    | some c => (multiBasic? false r).map (·.push c)
    | none =>
      if (afterBreak? ((e :: r).dropWhile isBlank)).isSome then multiBasic? true r else none
  | _, c :: r => if isPlain c then (multiBasic? false r).map (·.push c) else none

/-- A literal string over several lines, after its opening quotes; line breaks are kept as they are
written. -/
def multiLiteral? : List Char → Option Scanned
  | [] => none
  | '\r' :: '\n' :: r => (multiLiteral? r).map fun s => (s.push '\n').push '\r'
  | '\'' :: '\'' :: '\'' :: '\'' :: '\'' :: r => some (['\'', '\''], r)
  | '\'' :: '\'' :: '\'' :: '\'' :: r => some (['\''], r)
  | '\'' :: '\'' :: '\'' :: r => some ([], r)
  | c :: r => if c == '\n' || isPlain c then (multiLiteral? r).map (·.push c) else none

/-- A line break right after the opening quotes does not count. -/
def dropBreak (cs : List Char) : List Char := (afterBreak? cs).getD cs

def quoted? : List Char → Option Scanned
  | '"' :: '"' :: '"' :: r => multiBasic? false (dropBreak r)
  | '\'' :: '\'' :: '\'' :: r => multiLiteral? (dropBreak r)
  | '"' :: r => basic? r
  | '\'' :: r => literal? r
  | _ => none

/-- Control characters that only an escape can express on every line. -/
def needsEscape (c : Char) : Bool :=
  (c.toNat < 0x20 && c != '\t' && c != '\n') || c.toNat == 0x7F

/-- The length of the longest run of `c`, when `current` of them stand right before the text. -/
def longestRun (c : Char) (current longest : Nat) : List Char → Nat
  | [] => longest
  | x :: r =>
    if x = c then longestRun c (current + 1) (max longest (current + 1)) r
    else longestRun c 0 longest r

inductive Form
  | basic | literal | multiBasic | multiLiteral
  deriving DecidableEq, Repr

/-- The form with the fewest escapes; forms on one line are preferred, and double quotes. -/
def formOf (cs : List Char) : Form :=
  let control := cs.any needsEscape
  let backslash := cs.contains '\\'
  let lines := cs.contains '\n'
  let singles := longestRun '\'' 0 0 cs
  let doubles := longestRun '"' 0 0 cs
  if !control && !backslash && !lines && doubles == 0 then .basic
  else if !control && !lines && singles == 0 then .literal
  else if !control && !backslash && doubles ≤ 2 then .multiBasic
  else if !control && singles ≤ 2 then .multiLiteral
  else if lines then .multiBasic
  else .basic

def hexDigit (n : Nat) : Char := Char.toUpper ((Nat.toDigits 16 n).headD '0')

def unicodeEscape (c : Char) : List Char :=
  let n := c.toNat
  ['\\', 'u', hexDigit (n / 4096 % 16), hexDigit (n / 256 % 16), hexDigit (n / 16 % 16),
    hexDigit (n % 16)]

/-- The escape of a character other than a quote or a line break. -/
def escape (c : Char) : List Char :=
  match c with
  | '\x08' => ['\\', 'b']
  | '\t' => ['\\', 't']
  | '\x0c' => ['\\', 'f']
  | '\r' => ['\\', 'r']
  | '\\' => ['\\', '\\']
  | c => if needsEscape c then unicodeEscape c else [c]

/-- The text between double quotes. On several lines a run may have up to `bare` quotes before one
has to be escaped, and line breaks stand as they are; `run` quotes stand before the text. -/
def escapeAll (multi : Bool) (bare : Nat) : (run : Nat) → List Char → List Char
  | _, [] => []
  | run, '"' :: r =>
    if run < bare then '"' :: escapeAll multi bare (run + 1) r
    else '\\' :: '"' :: escapeAll multi bare 0 r
  | _, '\n' :: r => (if multi then ['\n'] else ['\\', 'n']) ++ escapeAll multi bare 0 r
  | _, c :: r => escape c ++ escapeAll multi bare 0 r

def quoteList (cs : List Char) : List Char :=
  let opening := if cs.contains '\n' then ['\n'] else []
  match formOf cs with
  | .basic => '"' :: escapeAll false 0 0 cs ++ ['"']
  | .literal => '\'' :: cs ++ ['\'']
  | .multiBasic => '"' :: '"' :: '"' :: opening ++ escapeAll true 2 0 cs ++ ['"', '"', '"']
  | .multiLiteral => '\'' :: '\'' :: '\'' :: opening ++ cs ++ ['\'', '\'', '\'']

def quote (s : String) : String := String.ofList (quoteList s.toList)

end PadScript.Toml
