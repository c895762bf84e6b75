/-!
# Text

Blank characters, the pieces of a text between separators, and the decimal notation of whole
numbers, as functions on lists of characters.
-/
namespace PadScript.Text

/-- The ranges of characters with Unicode's property White_Space. -/
def blankRanges : List (Nat × Nat) :=
  [(0x9, 0xD), (0x20, 0x20), (0x85, 0x85), (0xA0, 0xA0), (0x1680, 0x1680), (0x2000, 0x200A),
    (0x2028, 0x2029), (0x202F, 0x202F), (0x205F, 0x205F), (0x3000, 0x3000)]

def isBlank (c : Char) : Bool :=
  blankRanges.any fun (first, last) => first ≤ c.toNat && c.toNat ≤ last

def squeeze (cs : List Char) : List Char := cs.filter fun c => !isBlank c

def trim (cs : List Char) : List Char :=
  ((cs.dropWhile isBlank).reverse.dropWhile isBlank).reverse

/-- The pieces of a text between the occurrences of `sep`; there is always one more piece than
there are separators. -/
def pieces (sep : Char) : List Char → List (List Char)
  | [] => [[]]
  | c :: r =>
    if c = sep then [] :: pieces sep r
    else match pieces sep r with
      | [] => [[c]]
      | p :: ps => (c :: p) :: ps

/-- What follows `start` in a text that begins with it. -/
def after? (start cs : List Char) : Option (List Char) :=
  if start.isPrefixOf cs then some (cs.drop start.length) else none

/-- A text of digits only, with at least one of them, is read as a decimal number. -/
def natural? (cs : List Char) : Option Nat :=
  if cs.isEmpty || cs.any (fun c => !c.isDigit) then none else some (Nat.ofDigitChars 10 cs 0)

/-- A number below `bound`: digits, which one plus sign may precede. -/
def unsigned? (bound : Nat) (cs : List Char) : Option Nat :=
  let digits := match cs with
    | '+' :: r => r
    | r => r
  (natural? digits).filter (· < bound)

def hexValue? (c : Char) : Option Nat :=
  if c.isDigit then some (c.toNat - '0'.toNat)
  else if 'a' ≤ c ∧ c ≤ 'f' then some (c.toNat - 'a'.toNat + 10)
  else if 'A' ≤ c ∧ c ≤ 'F' then some (c.toNat - 'A'.toNat + 10)
  else none

def hex? (cs : List Char) : Option Nat :=
  cs.foldlM (fun n c => (hexValue? c).map (n * 16 + ·)) 0

def decimal (n : Nat) : List Char := Nat.toDigits 10 n

def padLeft (width : Nat) (s : String) : String :=
  String.ofList (List.replicate (width - s.length) ' ') ++ s

def padRight (width : Nat) (s : String) : String :=
  s ++ String.ofList (List.replicate (width - s.length) ' ')

example : (blankRanges.map fun (first, last) => last + 1 - first).sum = 25 := by decide

theorem pieces_ne_nil (sep : Char) (cs : List Char) : pieces sep cs ≠ [] := by
  induction cs with
  | nil => simp [pieces]
  | cons c r ih =>
    unfold pieces
    split
    · simp
    · split <;> simp

theorem isDigit_of_mem_decimal {n : Nat} {c : Char} (h : c ∈ decimal n) : c.isDigit :=
  Nat.isDigit_of_mem_toDigits (by decide) (by decide) h

theorem natural?_decimal (n : Nat) : natural? (decimal n) = some n := by
  have hd : (decimal n).any (fun c => !c.isDigit) = false := by
    simpa using fun c => isDigit_of_mem_decimal
  have he : (decimal n).isEmpty = false := by simp [decimal, Nat.toDigits_ne_nil]
  rw [natural?, he, hd]
  simp [decimal, Nat.ofDigitChars_ten_toDigits]

end PadScript.Text
