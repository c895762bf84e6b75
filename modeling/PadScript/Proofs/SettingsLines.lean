import PadScript.Proofs.NumberGrammar
import PadScript.Proofs.QuotedForms
import PadScript.Toml.Reader

/-!
# Lines of a settings file are read as they were written

A quoted text or a decimal number at the end of a line is read as the value that it was written
for, a key of key characters as itself, and so a line as one statement. The statements of a file
are those of its lines.
-/
namespace PadScript.Toml

theorem ne_of_kind {p : Char → Bool} {c d : Char} (h : p c) (hd : p d = false) : c ≠ d := by
  rintro rfl
  exact Bool.eq_false_iff.mp hd h

theorem isScalarChar_of_isDigit {c : Char} (h : c.isDigit) : isScalarChar c := by
  simp [isScalarChar, isBlank, ne_of_kind h]

theorem grouped?_of_forall {isDigit : Char → Bool} (hmark : isDigit '_' = false) {cs : List Char}
    (hne : cs ≠ []) (h : ∀ c ∈ cs, isDigit c) : grouped? isDigit cs = some cs := by
  induction cs with
  | nil => exact absurd rfl hne
  | cons c cs ih =>
    obtain ⟨hc, hcs⟩ := List.forall_mem_cons.mp h
    cases cs with
    | nil => simp [grouped?, hc]
    | cons d cs =>
      have hd : d ≠ '_' := by
        rintro rfl
        exact Bool.eq_false_iff.mp hmark (hcs _ List.mem_cons_self)
      simp [grouped?, hc, hd, ih (by simp) hcs]

theorem decimalDigits?_decimal (n : Nat) :
    decimalDigits? (Text.decimal n) = some (Text.decimal n) := by
  have hgrouped : grouped? Char.isDigit (Text.decimal n) = some (Text.decimal n) :=
    grouped?_of_forall rfl (Text.decimal_ne_nil n) fun _ => Text.isDigit_of_mem_decimal
  rw [decimalDigits?, hgrouped]
  by_cases hzero : n = 0
  · subst hzero
    rfl
  · obtain ⟨c, ds, hdecimal, hc⟩ := Text.exists_head_decimal hzero
    simp [hdecimal, hc]

theorem integer?_decimal (n : Nat) : integer? (Text.decimal n) = some (n : Int) := by
  have hnot : ∀ {c : Char}, c.isDigit = false → c ∉ Text.decimal n := fun hc hmem =>
    Bool.eq_false_iff.mp hc (Text.isDigit_of_mem_decimal hmem)
  have hplain : unsign (Text.decimal n) = (false, Text.decimal n) := by
    obtain ⟨c, ds, hdecimal, hc⟩ := (Text.digits_decimal n).exists_head
    rw [hdecimal]
    simp [unsign, ne_of_kind hc]
  unfold integer?
  split
  · next heq => exact absurd (heq ▸ by simp) (hnot (c := 'x') rfl)
  · next heq => exact absurd (heq ▸ by simp) (hnot (c := 'o') rfl)
  · next heq => exact absurd (heq ▸ by simp) (hnot (c := 'b') rfl)
  · rw [hplain]
    simp only [decimalDigits?_decimal]
    simp [Text.decimal, Nat.ofDigitChars_ten_toDigits]

theorem ofScalar?_decimal {n : Nat} (h : n < UInt64.size) :
    ofScalar? (Text.decimal n) = some (.integer n) := by
  have hword : ∀ word : List Char, (∃ c ∈ word, c.isDigit = false) → Text.decimal n ≠ word := by
    rintro word ⟨c, hc, hdigit⟩ rfl
    exact Bool.eq_false_iff.mp hdigit (Text.isDigit_of_mem_decimal hc)
  have hfits : fitsInteger n := by
    have hlow : (0 : Int) ≤ Int.pow 2 127 := by decide
    have hhigh : (UInt64.size : Int) < Int.pow 2 128 := by decide
    simp only [fitsInteger, Bool.and_eq_true, decide_eq_true_eq]
    omega
  have htrue : Text.decimal n ≠ "true".toList := hword _ ⟨'t', by simp, rfl⟩
  have hfalse : Text.decimal n ≠ "false".toList := hword _ ⟨'f', by simp, rfl⟩
  rw [ofScalar?, if_neg htrue, if_neg hfalse, number?, integer?_decimal]
  simp [hfits]

/-- The text is read as the value up to the line break behind it. -/
structure Tells (text : List Char) (v : Toml) : Prop where
  head : ∃ c r, text = c :: r ∧ isBlank c = false
  read : ∀ depth rest, value? depth (text ++ '\n' :: rest) = some (v, '\n' :: rest)

theorem scalarChars_append {cs : List Char} (h : ∀ c ∈ cs, isScalarChar c) (rest : List Char) :
    scalarChars (cs ++ '\n' :: rest) = cs := by
  induction cs with
  | nil => rfl
  | cons c cs ih =>
    obtain ⟨hc, hcs⟩ := List.forall_mem_cons.mp h
    simp [scalarChars, hc, ih hcs]

theorem value?_of_digit {c : Char} (hc : c.isDigit) (depth : Nat) (cs : List Char) :
    value? depth (c :: cs) = (ofScalar? (scalarChars (c :: cs))).map fun v =>
      (v, (c :: cs).drop (scalarChars (c :: cs)).length) := by
  unfold value?
  simp [ne_of_kind hc]

theorem tells_decimal {n : Nat} (h : n < UInt64.size) : Tells (Text.decimal n) (.integer n) := by
  obtain ⟨c, ds, hdecimal, hc⟩ := (Text.digits_decimal n).exists_head
  refine ⟨⟨c, ds, hdecimal, by simp [isBlank, ne_of_kind hc]⟩, fun depth rest => ?_⟩
  have hscalar : scalarChars (Text.decimal n ++ '\n' :: rest) = Text.decimal n :=
    scalarChars_append (fun d hd => isScalarChar_of_isDigit (Text.isDigit_of_mem_decimal hd)) rest
  rw [hdecimal, List.cons_append, value?_of_digit hc, ← List.cons_append, ← hdecimal, hscalar,
    ofScalar?_decimal h]
  simp

theorem exists_head_quoteList (cs : List Char) :
    ∃ c r, quoteList cs = c :: r ∧ (c = '"' ∨ c = '\'') := by
  unfold quoteList
  dsimp only
  split
  · exact ⟨_, _, rfl, .inl rfl⟩
  · exact ⟨_, _, rfl, .inr rfl⟩
  · exact ⟨_, _, rfl, .inl rfl⟩
  · exact ⟨_, _, rfl, .inr rfl⟩

theorem tells_quoteList (s : String) : Tells (quoteList s.toList) (.string s) := by
  obtain ⟨c, r, hquote, hc⟩ := exists_head_quoteList s.toList
  refine ⟨⟨c, r, hquote, by rcases hc with rfl | rfl <;> rfl⟩, fun depth rest => ?_⟩
  have hread : quoted? (quoteList s.toList ++ '\n' :: rest) = some (s.toList, '\n' :: rest) :=
    quoted?_quoteList (by simp) (by simp)
  rw [hquote, List.cons_append] at hread ⊢
  rcases hc with rfl | rfl <;> simp [value?, hread]

/-- A key that needs no quotes. -/
def IsBare (key : String) : Prop := key.toList ≠ [] ∧ ∀ c ∈ key.toList, isKeyChar c

instance (key : String) : Decidable (IsBare key) :=
  decidable_of_iff (key.toList ≠ [] ∧ key.toList.all isKeyChar) (by simp [IsBare])

theorem IsBare.exists_head {key : String} (h : IsBare key) :
    ∃ c r, key.toList = c :: r ∧ isKeyChar c := by
  cases hkey : key.toList with
  | nil => exact absurd hkey h.1
  | cons c r => exact ⟨c, r, rfl, h.2 c (hkey ▸ List.mem_cons_self)⟩

theorem keyPart?_append {key : String} {rest : List Char} (h : IsBare key)
    (hrest : ∀ c ∈ rest.head?, isKeyChar c = false) :
    keyPart? (key.toList ++ rest) = some (key, rest) := by
  obtain ⟨c, r, hkey, hc⟩ := h.exists_head
  obtain ⟨htake, hdrop⟩ := Text.takeWhile_append_of_stop h.2 hrest
  unfold keyPart?
  split
  · next heq =>
    rw [hkey] at heq
    exact absurd (List.cons.inj heq).1 (ne_of_kind hc rfl)
  · next heq =>
    rw [hkey] at heq
    exact absurd (List.cons.inj heq).1 (ne_of_kind hc rfl)
  · simp [htake, hdrop, h.1]

theorem key?_append {key : String} {rest : List Char} (h : IsBare key)
    (hrest : ∀ c ∈ rest.head?, isKeyChar c = false) (hdot : (skipBlanks rest).head? ≠ some '.')
    (parts : Nat) : key? (parts + 1) (key.toList ++ rest) = some ([key], skipBlanks rest) := by
  obtain ⟨c, r, hkey, hc⟩ := h.exists_head
  have hblanks : skipBlanks (key.toList ++ rest) = key.toList ++ rest := by
    have hblank : isBlank c = false := by simp [isBlank, isKeyChar, ne_of_kind hc]
    rw [hkey]
    simp [skipBlanks, hblank]
  rw [key?, hblanks, keyPart?_append h hrest]
  dsimp only
  split
  · next heq => exact absurd (congrArg List.head? heq) hdot
  · rfl

/-- Characters that are not passed over before a statement. -/
def isOpening (c : Char) : Bool := !isBlank c && c != '#' && c != '\n' && c != '\r'

theorem isOpening_of_isKeyChar {c : Char} (h : isKeyChar c) : isOpening c := by
  simp [isOpening, isBlank, isKeyChar, ne_of_kind h]

/-- The text is one statement, which a line break ends. -/
structure States (text : List Char) (s : Statement) : Prop where
  head : ∃ c r, text = c :: r ∧ isOpening c
  read : ∀ rest, statement? (text ++ '\n' :: rest) = some (s, '\n' :: rest)

theorem states_assignment {key : String} {text : List Char} {v : Toml} (hkey : IsBare key)
    (h : Tells text v) :
    States (key.toList ++ ' ' :: '=' :: ' ' :: text) (.assignment [key] v) := by
  obtain ⟨c, r, hhead, hc⟩ := hkey.exists_head
  refine ⟨⟨c, _, by rw [hhead, List.cons_append], isOpening_of_isKeyChar hc⟩, fun rest => ?_⟩
  obtain ⟨d, t, htext, hd⟩ := h.head
  have hpath : key? mostParts (key.toList ++ ' ' :: '=' :: ' ' :: (text ++ '\n' :: rest)) =
      some ([key], '=' :: ' ' :: (text ++ '\n' :: rest)) :=
    key?_append hkey (by simp [isKeyChar]) (by simp [skipBlanks, isBlank]) 79
  have hgap : skipBlanks ('=' :: ' ' :: (text ++ '\n' :: rest)) =
      '=' :: ' ' :: (text ++ '\n' :: rest) := rfl
  have hvalue : skipBlanks (' ' :: (text ++ '\n' :: rest)) = text ++ '\n' :: rest := by
    have hblank : isBlank ' ' := rfl
    rw [htext]
    simp [skipBlanks, hblank, hd]
  have hpair : pair? (some ∘ skipBlanks) (value? deepest)
      (key.toList ++ ' ' :: '=' :: ' ' :: (text ++ '\n' :: rest)) =
        some (([key], v), '\n' :: rest) := by
    simp [pair?, hpath, hgap, hvalue, h.read]
  rw [List.append_assoc, List.cons_append, List.cons_append, List.cons_append]
  rw [hhead, List.cons_append] at hpair ⊢
  have hopen : c ≠ '[' := ne_of_kind hc rfl
  simp [statement?, hopen, hpair]

theorem states_heading {key : String} (hkey : IsBare key) :
    States ('[' :: (key.toList ++ [']'])) (.heading [key]) := by
  refine ⟨⟨_, _, rfl, rfl⟩, fun rest => ?_⟩
  obtain ⟨c, r, hhead, hc⟩ := hkey.exists_head
  have hopen : c ≠ '[' := ne_of_kind hc rfl
  have hpath : key? mostParts (key.toList ++ ']' :: '\n' :: rest) =
      some ([key], ']' :: '\n' :: rest) :=
    key?_append hkey (by simp [isKeyChar]) (by simp [skipBlanks, isBlank]) 79
  rw [List.cons_append, List.append_assoc, List.singleton_append]
  rw [hhead, List.cons_append] at hpath ⊢
  simp [statement?, hopen, hpath]

/-- The text is cut into these statements, whatever room there is for more. -/
def Reads (cs : List Char) (ss : List Statement) : Prop :=
  ∀ room, cs.length ≤ room → statements? room cs = some ss

theorem skipLines?_cons {c : Char} (h : isOpening c) (cs : List Char) :
    skipLines? (c :: cs) = some (c :: cs) := by
  simp only [isOpening, Bool.and_eq_true, Bool.not_eq_true', bne_iff_ne] at h
  obtain ⟨⟨⟨hblank, hcomment⟩, hbreak⟩, hreturn⟩ := h
  simp [skipLines?, skipAtMost?, skipBlanks, hblank, afterComment?, hcomment, afterBreak?, hbreak,
    hreturn]

theorem reads_nil : Reads [] [] := by
  intro room _
  cases room <;> rfl

theorem Reads.blank {cs : List Char} {ss : List Statement} (h : Reads cs ss) :
    Reads ('\n' :: cs) ss := by
  intro room hroom
  have hread := h room ((Nat.le_succ _).trans hroom)
  have hskip : skipLines? ('\n' :: cs) = skipLines? cs := rfl
  unfold statements? at hread ⊢
  rwa [hskip]

theorem Reads.line {text rest : List Char} {s : Statement} {ss : List Statement}
    (hs : States text s) (h : Reads rest ss) : Reads (text ++ '\n' :: rest) (s :: ss) := by
  obtain ⟨c, r, htext, hc⟩ := hs.head
  intro room hroom
  rw [List.length_append, List.length_cons] at hroom
  cases room with
  | zero => omega
  | succ room =>
    have hskip : skipLines? (text ++ '\n' :: rest) = some (text ++ '\n' :: rest) := by
      rw [htext, List.cons_append, skipLines?_cons hc]
    have hafter : afterLine? ('\n' :: rest) = some rest := rfl
    have hread := hs.read rest
    have hrest := h room (by omega)
    unfold statements?
    rw [hskip]
    rw [htext, List.cons_append] at hread ⊢
    simp [hread, hafter, hrest]

end PadScript.Toml
