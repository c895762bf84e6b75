import PadScript.Json.Token
import PadScript.Json.Writer
import PadScript.Proofs.NumberText

/-!
# JSON tokens are read as they were written

A number, a string or a mark that is written is cut from the text as itself, whatever follows that
does not go on with a number. The tokens of a text are those of its written pieces, blanks between
them passed over.
-/
namespace PadScript.Json

/-- A number that stands before the text ends there. -/
def Boundary (rest : List Char) : Prop :=
  ∀ c ∈ rest.head?, c.isDigit = false ∧ c ≠ '.' ∧ c ≠ 'e' ∧ c ≠ 'E'

theorem boundary_nil : Boundary [] := by simp [Boundary]

theorem boundary_cons {c : Char} {rest : List Char}
    (h : c.isDigit = false ∧ c ≠ '.' ∧ c ≠ 'e' ∧ c ≠ 'E') : Boundary (c :: rest) := by
  simpa [Boundary] using h

/-- Nothing or something other than a digit comes next. -/
def NoDigit (rest : List Char) : Prop := ∀ c ∈ rest.head?, c.isDigit = false

theorem noDigit_cons {c : Char} {rest : List Char} (h : c.isDigit = false) :
    NoDigit (c :: rest) := by
  simpa [NoDigit] using h

theorem Boundary.noDigit {rest : List Char} (h : Boundary rest) : NoDigit rest :=
  fun c hc => (h c hc).1

namespace Number

/-- The number is one that JSON has a notation for: its whole part begins with a zero only if that
is all of it. -/
structure WellFormed (n : Number) : Prop where
  leading : n.whole = ['0'] ∨ ∃ c ds, n.whole = c :: ds ∧ c ≠ '0'
  whole : ∀ c ∈ n.whole, c.isDigit
  fraction : ∀ c ∈ n.fraction, c.isDigit

def signText (n : Number) : List Char := if n.negative then ['-'] else []

def fractionText (n : Number) : List Char := if n.fraction.isEmpty then [] else '.' :: n.fraction

def exponentText (n : Number) : List Char :=
  match n.exponent with
  | none => []
  | some e => 'e' :: (if e < 0 then '-' else '+') :: Text.decimal e.natAbs

theorem toList_text (n : Number) :
    n.text.toList = n.signText ++ (n.whole ++ (n.fractionText ++ n.exponentText)) := by
  rw [← List.append_assoc, ← List.append_assoc]
  exact String.toList_ofList

theorem WellFormed.exists_head {n : Number} (h : n.WellFormed) :
    ∃ c cs, n.text.toList = c :: cs ∧ (c = '-' ∨ c.isDigit) := by
  rw [toList_text, signText]
  by_cases hnegative : n.negative = true
  · rw [if_pos hnegative]
    exact ⟨_, _, rfl, .inl rfl⟩
  · rw [if_neg hnegative]
    cases hw : n.whole with
    | nil =>
      rcases h.leading with hzero | ⟨c, ds, hcons, -⟩
      · exact absurd (hw ▸ hzero) (by simp)
      · exact absurd (hw ▸ hcons) (by simp)
    | cons c ds => exact ⟨c, _, rfl, .inr (h.whole c (by simp [hw]))⟩

end Number

namespace Token

theorem whole?_append {n : Number} (h : n.WellFormed) {rest : List Char} (hrest : NoDigit rest) :
    whole? (n.whole ++ rest) = some (n.whole, rest) := by
  rcases h.leading with hzero | ⟨c, ds, hcons, hc⟩
  · rw [hzero]
    rfl
  · have hdigits : ∀ d ∈ c :: ds, d.isDigit := hcons ▸ h.whole
    obtain ⟨htake, hdrop⟩ :=
      Text.takeWhile_append_of_stop (fun d hd => hdigits d (List.mem_cons_of_mem c hd)) hrest
    rw [hcons, List.cons_append]
    unfold whole?
    split
    · next heq => exact absurd (List.cons.inj heq).1 hc
    · next heq =>
      obtain ⟨rfl, rfl⟩ := List.cons.inj heq
      rw [if_pos (hdigits c List.mem_cons_self), htake, hdrop]
    · next heq => cases heq

theorem digits?_append {ds rest : List Char} (hne : ds ≠ []) (hds : ∀ c ∈ ds, c.isDigit)
    (hrest : NoDigit rest) : digits? (ds ++ rest) = some (ds, rest) := by
  obtain ⟨htake, hdrop⟩ := Text.takeWhile_append_of_stop hds hrest
  have hempty : ds.isEmpty = false := by simpa using hne
  rw [digits?, htake, hdrop]
  simp [hempty]

theorem fraction?_append {n : Number} (h : n.WellFormed) {rest : List Char}
    (hrest : NoDigit rest) (hdot : ∀ c ∈ rest.head?, c ≠ '.') :
    fraction? (n.fractionText ++ rest) = some (n.fraction, rest) := by
  unfold Number.fractionText
  cases hf : n.fraction with
  | nil =>
    rw [List.isEmpty_nil, if_pos rfl, List.nil_append]
    unfold fraction?
    split
    · next r => exact absurd rfl (hdot '.' rfl)
    · rfl
  | cons c ds =>
    have hdigits : ∀ d ∈ c :: ds, d.isDigit := hf ▸ h.fraction
    exact digits?_append (by simp) hdigits hrest

theorem exponent?_append (n : Number) {rest : List Char} (hrest : Boundary rest) :
    exponent? (n.exponentText ++ rest) = some (n.exponent, rest) := by
  unfold Number.exponentText
  cases n.exponent with
  | none =>
    cases rest with
    | nil => rfl
    | cons c rest =>
      obtain ⟨-, -, he, hE⟩ := hrest c rfl
      simp [exponent?, he, hE]
  | some e =>
    have hdigits : digits? (Text.decimal e.natAbs ++ rest) = some (Text.decimal e.natAbs, rest) :=
      digits?_append (Text.decimal_ne_nil _) (fun _ => Text.isDigit_of_mem_decimal) hrest.noDigit
    have hvalue : Nat.ofDigitChars 10 (Text.decimal e.natAbs) 0 = e.natAbs :=
      Nat.ofDigitChars_ten_toDigits
    have hsize : (e.natAbs : Int) = if e < 0 then -e else e := by split <;> omega
    by_cases hneg : e < 0
    · rw [if_pos hneg] at hsize
      simp [hneg, exponent?, hdigits, hvalue, hsize]
    · rw [if_neg hneg] at hsize
      simp [hneg, exponent?, hdigits, hvalue, hsize]

theorem noDigit_exponentText (n : Number) {rest : List Char} (hrest : Boundary rest) :
    NoDigit (n.exponentText ++ rest) ∧ ∀ c ∈ (n.exponentText ++ rest).head?, c ≠ '.' := by
  unfold Number.exponentText
  cases n.exponent with
  | none => exact ⟨hrest.noDigit, fun c hc => (hrest c hc).2.1⟩
  | some e => exact ⟨noDigit_cons (by decide), by simp⟩

theorem noDigit_fractionText (n : Number) {rest : List Char} (hrest : NoDigit rest) :
    NoDigit (n.fractionText ++ rest) := by
  unfold Number.fractionText
  split
  · exact hrest
  · exact noDigit_cons (by decide)

theorem number?_append {n : Number} (h : n.WellFormed) {rest : List Char}
    (hrest : Boundary rest) : number? (n.text.toList ++ rest) = some (n, rest) := by
  obtain ⟨hexponent, hdot⟩ := noDigit_exponentText n hrest
  have hwhole := whole?_append h (noDigit_fractionText n hexponent)
  have hparts : n.text.toList ++ rest =
      n.signText ++ (n.whole ++ (n.fractionText ++ (n.exponentText ++ rest))) := by
    simp only [Number.toList_text, List.append_assoc]
  have hsign : ∀ r, n.whole ++ (n.fractionText ++ (n.exponentText ++ rest)) ≠ '-' :: r := by
    intro r heq
    rw [heq] at hwhole
    cases hwhole
  have hself : (⟨n.negative, n.whole, n.fraction, n.exponent⟩ : Number) = n := rfl
  rw [hparts]
  unfold number? Number.signText
  cases hnegative : n.negative with
  | true =>
    rw [hnegative] at hself
    simp only [if_true, List.singleton_append, hwhole, fraction?_append h hexponent hdot,
      exponent?_append n hrest, Option.map_some, hself]
  | false =>
    rw [hnegative] at hself
    rw [if_neg (by decide), List.nil_append]
    split
    next negative r heq =>
      split at heq
      · next hminus => exact absurd hminus (hsign _)
      · cases heq
        simp only [hwhole, fraction?_append h hexponent hdot, exponent?_append n hrest,
          Option.map_some, hself]

end Token

theorem escape_cases (c : Char) :
    (∃ e, escape c = ['\\', e] ∧ Token.escaped? e = some c) ∨
    (c.toNat < 0x20 ∧
      escape c = ['\\', 'u', '0', '0', hexDigit (c.toNat / 16), hexDigit (c.toNat % 16)]) ∨
    (c ≠ '"' ∧ c ≠ '\\' ∧ 0x20 ≤ c.toNat ∧ escape c = [c]) := by
  unfold escape
  split
  iterate 7 exact .inl ⟨_, rfl, rfl⟩
  next hquote hbackslash _ _ _ _ _ =>
    split
    · next hcontrol => exact .inr (.inl ⟨hcontrol, rfl⟩)
    · next hplain => exact .inr (.inr ⟨hquote, hbackslash, Nat.le_of_not_lt hplain, rfl⟩)

theorem hex?_control :
    ∀ n < 0x20, Text.hex? ['0', '0', hexDigit (n / 16), hexDigit (n % 16)] = some n := by
  decide

theorem Glyph.text?_unit {n : Nat} (h : n < 0xD800) (gs : List Glyph) :
    text? (.unit n :: gs) = (text? gs).map (Char.ofNat n :: ·) := by
  have hhigh : isHigh n = false := by simp [isHigh]; omega
  have hlow : isLow n = false := by simp [isLow]; omega
  cases gs with
  | nil => simp [text?, hhigh, hlow]
  | cons g gs =>
    cases g with
    | char c => cases h : text? gs <;> simp [text?, hhigh, hlow, h]
    | unit m => simp [text?, hhigh, hlow]

theorem exists_glyph (c : Char) : ∃ g : Glyph,
    (∀ r, Token.glyphs? (escape c ++ r) =
      (Token.glyphs? r).map fun (gs, rest) => (g :: gs, rest)) ∧
    ∀ gs, Glyph.text? (g :: gs) = (Glyph.text? gs).map (c :: ·) := by
  rcases escape_cases c with ⟨e, htext, he⟩ | ⟨hcontrol, htext⟩ | ⟨hquote, hbackslash, hle, htext⟩
  · have hu : e ≠ 'u' := by
      rintro rfl
      cases he
    refine ⟨.char c, fun r => ?_, fun gs => rfl⟩
    rw [htext]
    cases h : Token.glyphs? r <;> simp [Token.glyphs?, hu, he, h]
  · refine ⟨.unit c.toNat, fun r => ?_, fun gs => ?_⟩
    · rw [htext]
      cases h : Token.glyphs? r <;> simp [Token.glyphs?, hex?_control _ hcontrol, h]
    · rw [Glyph.text?_unit (by omega), Char.ofNat_toNat]
  · refine ⟨.char c, fun r => ?_, fun gs => rfl⟩
    rw [htext]
    cases h : Token.glyphs? r <;> simp [Token.glyphs?, hbackslash, Nat.not_lt.mpr hle, h]

/-- The rest of a written string is read as its characters, up to the closing quote. -/
theorem glyphs?_flatMap_escape (cs rest : List Char) : ∃ gs,
    Token.glyphs? (cs.flatMap escape ++ '"' :: rest) = some (gs, rest) ∧
    Glyph.text? gs = some cs := by
  induction cs with
  | nil => exact ⟨[], rfl, rfl⟩
  | cons c cs ih =>
    obtain ⟨gs, hglyphs, htext⟩ := ih
    obtain ⟨g, hread, hstands⟩ := exists_glyph c
    refine ⟨g :: gs, ?_, ?_⟩
    · rw [List.flatMap_cons, List.append_assoc, hread, hglyphs]
      rfl
    · rw [hstands, htext]
      rfl

/-- The text is cut off as one token from what follows it. -/
structure Lexeme (cs : List Char) (t : Token) (rest : List Char) : Prop where
  begins : ∃ c r, cs = c :: r ∧ Token.isSpace c = false
  first : Token.first? (cs ++ rest) = some (t, rest)

theorem lexeme_quoted (s : Chars) (rest : List Char) :
    Lexeme s.quoted.toList (.chars s) rest := by
  cases s with
  | none => exact ⟨⟨_, _, rfl, rfl⟩, rfl⟩
  | some s =>
    have htext : (Chars.quoted (some s)).toList = '"' :: (s.toList.flatMap escape ++ ['"']) :=
      String.toList_ofList
    rw [htext]
    refine ⟨⟨_, _, rfl, rfl⟩, ?_⟩
    obtain ⟨gs, hglyphs, hchars⟩ := glyphs?_flatMap_escape s.toList rest
    simp [Token.first?, hglyphs, hchars]

theorem lexeme_number {n : Number} (h : n.WellFormed) {rest : List Char} (hrest : Boundary rest) :
    Lexeme n.text.toList (.number n) rest := by
  obtain ⟨c, cs, htext, hc⟩ := h.exists_head
  have hother : ∀ d, (d ≠ '-' ∧ d.isDigit = false) → c ≠ d := by
    rintro d ⟨hminus, hdigit⟩ rfl
    rcases hc with hc | hc
    · exact hminus hc
    · exact Bool.eq_false_iff.mp hdigit hc
  refine ⟨⟨c, cs, htext, ?_⟩, ?_⟩
  · simp only [Token.isSpace, Bool.or_eq_false_iff, beq_eq_false_iff_ne]
    exact ⟨⟨⟨hother _ (by decide), hother _ (by decide)⟩, hother _ (by decide)⟩,
      hother _ (by decide)⟩
  · have hnumber := Token.number?_append h hrest
    rw [htext, List.cons_append] at hnumber ⊢
    unfold Token.first?
    split
    iterate 10 next heq => exact absurd (List.cons.inj heq).1 (hother _ (by decide))
    rw [hnumber]
    rfl

/-- The text is cut into these tokens, whatever room there is for more. -/
def Reads (cs : List Char) (ts : List Token) : Prop :=
  ∀ room, cs.length ≤ room → Token.scan room cs = some ts

theorem reads_nil : Reads [] [] := by
  intro room _
  cases room <;> rfl

theorem Reads.blanks {bs cs : List Char} {ts : List Token} (hbs : ∀ b ∈ bs, Token.isSpace b)
    (h : Reads cs ts) : Reads (bs ++ cs) ts := by
  intro room hroom
  rw [List.length_append] at hroom
  have hscan := h room (by omega)
  have hdrop : (bs ++ cs).dropWhile Token.isSpace = cs.dropWhile Token.isSpace :=
    List.dropWhile_append_of_pos hbs
  unfold Token.scan at hscan ⊢
  rw [hdrop]
  exact hscan

theorem Lexeme.reads {tok cs : List Char} {t : Token} {ts : List Token} (htok : Lexeme tok t cs)
    (h : Reads cs ts) : Reads (tok ++ cs) (t :: ts) := by
  obtain ⟨⟨c, r, rfl, hc⟩, hfirst⟩ := htok
  intro room hroom
  have hdrop : (c :: (r ++ cs)).dropWhile Token.isSpace = c :: (r ++ cs) :=
    List.dropWhile_cons_of_neg (by simp [hc])
  rw [List.cons_append] at hroom hfirst ⊢
  cases room with
  | zero => simp at hroom
  | succ room =>
    have hscan := h room (by simp at hroom; omega)
    unfold Token.scan
    simp only [hdrop, hfirst, Option.bind_some, hscan, Option.map_some]

theorem Reads.mark {cs : List Char} {ts : List Token} (h : Reads cs ts) (tok : List Char) (t : Token)
    (htok : Lexeme tok t cs) : Reads (tok ++ cs) (t :: ts) :=
  htok.reads h

theorem Reads.ofText {text : String} {ts : List Token} (h : Reads text.toList ts) :
    Token.ofText text = some ts :=
  h _ le_rfl

end PadScript.Json
