import Mathlib.Data.List.TakeWhile
import Mathlib.Tactic.IntervalCases
import PadScript.Single.Text

/-!
# Notations of numbers

Which texts stand for a frame count and which for a value of an axis, as rules of their own beside
the functions that read them: the functions take the texts of the rules and no others.
-/
namespace PadScript

namespace Text

/-- Digits, at least one of them, that make up a number. -/
structure Digits (n : Nat) (cs : List Char) : Prop where
  nonempty : cs ≠ []
  digits : ∀ c ∈ cs, c.isDigit
  value : Nat.ofDigitChars 10 cs 0 = n

/-- A whole number: digits, which one plus sign may precede. -/
inductive Numeral (n : Nat) : List Char → Prop
  | plain {cs : List Char} (h : Digits n cs) : Numeral n cs
  | plus {cs : List Char} (h : Digits n cs) : Numeral n ('+' :: cs)

variable {n bound : Nat} {cs : List Char}

theorem natural?_eq_some_iff : natural? cs = some n ↔ Digits n cs := by
  constructor
  · intro h
    unfold natural? at h
    obtain ⟨hnot, hvalue⟩ := Option.ite_none_left_eq_some.mp h
    rw [Bool.or_eq_true, not_or] at hnot
    exact ⟨by simpa using hnot.1, by simpa using hnot.2, Option.some.inj hvalue⟩
  · rintro ⟨hne, hdigits, rfl⟩
    have hany : cs.any (fun c => !c.isDigit) = false := by simpa using hdigits
    have hempty : cs.isEmpty = false := by simpa using hne
    rw [natural?, hany, hempty]
    rfl

theorem Digits.exists_head (h : Digits n cs) : ∃ c rest, cs = c :: rest ∧ c.isDigit := by
  cases hcs : cs with
  | nil => exact absurd hcs h.nonempty
  | cons c rest => exact ⟨c, rest, rfl, h.digits c (by rw [hcs]; exact List.mem_cons_self)⟩

theorem decimal_ne_nil (n : Nat) : decimal n ≠ [] := Nat.toDigits_ne_nil

theorem digits_decimal (n : Nat) : Digits n (decimal n) where
  nonempty := decimal_ne_nil n
  digits := fun _ => isDigit_of_mem_decimal
  value := Nat.ofDigitChars_ten_toDigits

theorem exists_head_decimal {n : Nat} (h : n ≠ 0) : ∃ c ds, decimal n = c :: ds ∧ c ≠ '0' := by
  induction n using Nat.strong_induction_on with
  | _ n ih =>
    by_cases hsmall : n < 10
    · refine ⟨Nat.digitChar n, [], Nat.toDigits_of_lt_base hsmall, ?_⟩
      interval_cases n <;> first | exact absurd rfl h | decide
    · obtain ⟨c, ds, hdigits, hc⟩ := ih (n / 10) (by omega) (by omega)
      refine ⟨c, ds ++ [Nat.digitChar (n % 10)], ?_, hc⟩
      rw [decimal, Nat.toDigits_of_base_le (by decide) (by omega), ← decimal, hdigits,
        List.cons_append]

theorem unsigned?_eq_some_iff : unsigned? bound cs = some n ↔ Numeral n cs ∧ n < bound := by
  unfold unsigned?
  rw [Option.filter_eq_some_iff, natural?_eq_some_iff, decide_eq_true_eq]
  refine and_congr_left fun _ => ⟨fun h => ?_, fun h => ?_⟩
  · split at h
    · exact .plus h
    · exact .plain h
  · cases h with
    | plus h => exact h
    | plain h =>
      split
      · exact absurd (h.digits '+' List.mem_cons_self) (by decide)
      · exact h

theorem Numeral.exists_head (h : Numeral n cs) :
    ∃ c rest, cs = c :: rest ∧ (c.isDigit ∨ c = '+') := by
  cases h with
  | plain h =>
    obtain ⟨c, rest, hcs, hc⟩ := h.exists_head
    exact ⟨c, rest, hcs, .inl hc⟩
  | plus h => exact ⟨'+', _, rfl, .inr rfl⟩

theorem takeWhile_append_of_stop {p : Char → Bool} {front rest : List Char}
    (h : ∀ c ∈ front, p c) (hrest : ∀ c ∈ rest.head?, p c = false) :
    (front ++ rest).takeWhile p = front ∧ (front ++ rest).dropWhile p = rest := by
  rw [List.takeWhile_append_of_pos h, List.dropWhile_append_of_pos h]
  cases rest with
  | nil => exact ⟨List.append_nil _, rfl⟩
  | cons c rest =>
    have hc : ¬ p c := by simp [hrest c rfl]
    rw [List.takeWhile_cons_of_neg hc, List.dropWhile_cons_of_neg hc]
    exact ⟨List.append_nil _, rfl⟩

theorem head?_dropWhile_digits (cs : List Char) :
    ∀ c ∈ (cs.dropWhile Char.isDigit).head?, c.isDigit = false := by
  intro c hc
  have hhead := List.head?_dropWhile_not Char.isDigit cs
  rw [Option.mem_def.mp hc] at hhead
  exact hhead

end Text

namespace Single

/-- What stands before the digits of a number below zero, and of another one. -/
inductive Sign : Bool → List Char → Prop
  | missing : Sign false []
  | plus : Sign false ['+']
  | minus : Sign true ['-']

/-- The power of ten after the digits. -/
inductive Exponent : Int → List Char → Prop
  | missing : Exponent 0 []
  | given {e : Char} {negative : Bool} {sign digits : List Char} {n : Nat}
      (he : e = 'e' ∨ e = 'E') (hsign : Sign negative sign) (h : Text.Digits n digits) :
      Exponent (if negative then -n else n) (e :: (sign ++ digits))

/-- Digits and perhaps a point, with a digit before or after it. -/
inductive Spells : Decimal → List Char → Prop
  | whole {n : Nat} {e : Int} {digits tail : List Char} (h : Text.Digits n digits)
      (htail : Exponent e tail) : Spells ⟨n, e⟩ (digits ++ tail)
  | point {n : Nat} {e : Int} {before after tail : List Char}
      (h : Text.Digits n (before ++ after)) (htail : Exponent e tail) :
      Spells ⟨n, e - after.length⟩ (before ++ '.' :: (after ++ tail))

/-- The value of a number in decimal notation is the nearest one of the format. -/
inductive Denotes : Single → List Char → Prop
  | number {negative : Bool} {d : Decimal} {sign body : List Char} (hsign : Sign negative sign)
      (h : Spells d body) : Denotes (ofDecimal negative d) (sign ++ body)

variable {e : Int} {d : Decimal} {v : Single} {cs : List Char}

theorem exponent?_eq_some_iff : exponent? cs = some e ↔ Exponent e cs := by
  constructor
  · intro h
    cases cs with
    | nil =>
      obtain rfl := Option.some.inj h
      exact .missing
    | cons letter rest =>
      unfold exponent? at h
      obtain ⟨hletter, h⟩ := Option.ite_none_left_eq_some.mp h
      have he : letter = 'e' ∨ letter = 'E' := by
        rw [not_and_or, not_ne_iff, not_ne_iff] at hletter
        exact hletter
      split at h
      · obtain ⟨n, hn, rfl⟩ := Option.map_eq_some_iff.mp h
        exact .given he .plus (Text.natural?_eq_some_iff.mp hn)
      · obtain ⟨n, hn, rfl⟩ := Option.map_eq_some_iff.mp h
        exact .given he .minus (Text.natural?_eq_some_iff.mp hn)
      · obtain ⟨n, hn, rfl⟩ := Option.map_eq_some_iff.mp h
        exact .given he .missing (Text.natural?_eq_some_iff.mp hn)
  · intro h
    cases h with
    | missing => rfl
    | @given letter negative sign digits n he hsign h =>
      have hn := Text.natural?_eq_some_iff.mpr h
      have hletter : ¬ (letter ≠ 'e' ∧ letter ≠ 'E') := fun hnot => he.elim hnot.1 hnot.2
      cases hsign with
      | plus => exact (if_neg hletter).trans (Option.map_eq_some_iff.mpr ⟨n, hn, rfl⟩)
      | minus => exact (if_neg hletter).trans (Option.map_eq_some_iff.mpr ⟨n, hn, rfl⟩)
      | missing =>
        refine (if_neg hletter).trans ?_
        rw [List.nil_append]
        split
        · exact absurd (h.digits '+' List.mem_cons_self) (by decide)
        · exact absurd (h.digits '-' List.mem_cons_self) (by decide)
        · exact Option.map_eq_some_iff.mpr ⟨n, hn, rfl⟩

theorem Exponent.head (h : Exponent e cs) : ∀ c ∈ cs.head?, c.isDigit = false ∧ c ≠ '.' := by
  intro c hc
  cases h with
  | missing => cases hc
  | given he _ _ =>
    obtain rfl := Option.some.inj hc
    rcases he with rfl | rfl <;> decide

theorem decimal?_whole {digits tail : List Char} (h : ∀ c ∈ digits, c.isDigit)
    (hstop : ∀ c ∈ tail.head?, c.isDigit = false) (hpoint : tail.head? ≠ some '.') :
    decimal? (digits ++ tail) = some d ↔
      ∃ n e, Text.natural? digits = some n ∧ exponent? tail = some e ∧ d = ⟨n, e⟩ := by
  obtain ⟨htake, hdrop⟩ := Text.takeWhile_append_of_stop h hstop
  have hnone : ∀ r, tail = '.' :: r → False := fun r hr => hpoint (by rw [hr]; rfl)
  unfold decimal?
  simp only [htake, hdrop, List.append_nil, List.length_nil, Int.natCast_zero, Int.sub_zero]
  cases Text.natural? digits with
  | none => simp
  | some n =>
    cases exponent? tail with
    | none => simp
    | some e => simp [eq_comm]

theorem decimal?_point {before after tail : List Char} (hbefore : ∀ c ∈ before, c.isDigit)
    (hafter : ∀ c ∈ after, c.isDigit) (hstop : ∀ c ∈ tail.head?, c.isDigit = false) :
    decimal? (before ++ '.' :: (after ++ tail)) = some d ↔
      ∃ n e, Text.natural? (before ++ after) = some n ∧ exponent? tail = some e ∧
        d = ⟨n, e - after.length⟩ := by
  have hdot : ∀ c ∈ ('.' :: (after ++ tail)).head?, c.isDigit = false := by
    intro c hc
    obtain rfl := Option.some.inj hc
    decide
  obtain ⟨htake, hdrop⟩ := Text.takeWhile_append_of_stop hbefore hdot
  obtain ⟨htake', hdrop'⟩ := Text.takeWhile_append_of_stop hafter hstop
  unfold decimal?
  simp only [htake, hdrop, htake', hdrop']
  cases Text.natural? (before ++ after) with
  | none => simp
  | some n =>
    cases exponent? tail with
    | none => simp
    | some e => simp [eq_comm]

theorem decimal?_eq_some_iff : decimal? cs = some d ↔ Spells d cs := by
  constructor
  · intro h
    have hdigits : ∀ l : List Char, ∀ c ∈ l.takeWhile Char.isDigit, c.isDigit :=
      fun l c hc => List.mem_takeWhile_imp hc
    have hsplit : ∀ l : List Char, l.takeWhile Char.isDigit ++ l.dropWhile Char.isDigit = l :=
      fun l => List.takeWhile_append_dropWhile
    rw [← hsplit cs] at h ⊢
    by_cases hpoint : (cs.dropWhile Char.isDigit).head? = some '.'
    · obtain ⟨rest, hrest⟩ := List.head?_eq_some_iff.mp hpoint
      rw [hrest, ← hsplit rest] at h ⊢
      obtain ⟨n, e, hn, he, rfl⟩ :=
        (decimal?_point (hdigits cs) (hdigits rest) (Text.head?_dropWhile_digits rest)).mp h
      exact .point (Text.natural?_eq_some_iff.mp hn) (exponent?_eq_some_iff.mp he)
    · obtain ⟨n, e, hn, he, rfl⟩ :=
        (decimal?_whole (hdigits cs) (Text.head?_dropWhile_digits cs) hpoint).mp h
      exact .whole (Text.natural?_eq_some_iff.mp hn) (exponent?_eq_some_iff.mp he)
  · intro h
    cases h with
    | @whole n e digits tail h htail =>
      have hpoint : tail.head? ≠ some '.' := fun hdot => (htail.head _ hdot).2 rfl
      exact (decimal?_whole h.digits (fun c hc => (htail.head c hc).1) hpoint).mpr
        ⟨n, e, Text.natural?_eq_some_iff.mpr h, exponent?_eq_some_iff.mpr htail, rfl⟩
    | @point n e before after tail h htail =>
      have hdigits := List.forall_mem_append.mp h.digits
      exact (decimal?_point hdigits.1 hdigits.2 fun c hc => (htail.head c hc).1).mpr
        ⟨n, e, Text.natural?_eq_some_iff.mpr h, exponent?_eq_some_iff.mpr htail, rfl⟩

theorem Spells.exists_head (h : Spells d cs) :
    ∃ c rest, cs = c :: rest ∧ (c.isDigit ∨ c = '.') := by
  cases h with
  | whole h _ =>
    obtain ⟨c, rest, rfl, hc⟩ := h.exists_head
    exact ⟨c, _, rfl, .inl hc⟩
  | @point _ _ before _ _ h _ =>
    cases before with
    | nil => exact ⟨'.', _, rfl, .inr rfl⟩
    | cons c rest => exact ⟨c, _, rfl, .inl (h.digits c (by simp))⟩

theorem special?_of_digit {c : Char} {rest : List Char} (h : c.isDigit) :
    special? (c :: rest) = none := by
  have hlower : c.toLower = c := by
    have hsmall : c.toNat ≤ 57 := (Char.isDigit_iff_toNat.mp h).2
    refine dif_neg fun hupper => ?_
    have hlarge : 65 ≤ c.toNat := UInt32.le_iff_toNat_le.mp hupper.1
    omega
  have hi : c ≠ 'i' := by rintro rfl; exact absurd h (by decide)
  have hn : c ≠ 'n' := by rintro rfl; exact absurd h (by decide)
  simp [special?, hlower, hi, hn]

theorem Spells.special?_eq_none (h : Spells d cs) : special? cs = none := by
  obtain ⟨c, rest, rfl, hc | rfl⟩ := h.exists_head
  · exact special?_of_digit hc
  · have hlower : ('.').toLower = '.' := by decide
    simp [special?, hlower]

def Unsigned (body : List Char) : Prop := body.head? ≠ some '-' ∧ body.head? ≠ some '+'

theorem Spells.unsigned (h : Spells d cs) : Unsigned cs := by
  obtain ⟨c, rest, rfl, hc⟩ := h.exists_head
  have hne : c ≠ '-' ∧ c ≠ '+' := by
    constructor
    · rintro rfl
      exact absurd hc (by decide)
    · rintro rfl
      exact absurd hc (by decide)
  exact ⟨fun hhead => hne.1 (Option.some.inj hhead), fun hhead => hne.2 (Option.some.inj hhead)⟩

theorem exists_sign (cs : List Char) : ∃ negative sign body,
    Sign negative sign ∧ (sign = [] → Unsigned body) ∧ cs = sign ++ body := by
  by_cases hminus : cs.head? = some '-'
  · obtain ⟨body, rfl⟩ := List.head?_eq_some_iff.mp hminus
    exact ⟨true, _, body, .minus, nofun, rfl⟩
  by_cases hplus : cs.head? = some '+'
  · obtain ⟨body, rfl⟩ := List.head?_eq_some_iff.mp hplus
    exact ⟨false, _, body, .plus, nofun, rfl⟩
  · exact ⟨false, [], cs, .missing, fun _ => ⟨hminus, hplus⟩, rfl⟩

theorem ofText?_signed {negative : Bool} {sign body : List Char} (hsign : Sign negative sign)
    (hbody : sign = [] → Unsigned body) :
    ofText? (String.ofList (sign ++ body)) =
      ((special? body).map (Single.mk negative)).or ((decimal? body).map (ofDecimal negative)) := by
  unfold ofText?
  rw [String.toList_ofList]
  cases hsign with
  | plus =>
    simp only [List.cons_append, List.nil_append]
    cases special? body <;> rfl
  | minus =>
    simp only [List.cons_append, List.nil_append]
    cases special? body <;> rfl
  | missing =>
    have hminus : ∀ rest, body = '-' :: rest → False := fun rest hrest =>
      (hbody rfl).1 (by rw [hrest]; rfl)
    have hplus : ∀ rest, body = '+' :: rest → False := fun rest hrest =>
      (hbody rfl).2 (by rw [hrest]; rfl)
    simp only [List.nil_append]
    cases special? body <;> rfl

theorem isFinite_of_special? {m : Fin 2147483648} (h : special? cs = some m) (negative : Bool) :
    (Single.mk negative m).isFinite = false := by
  unfold special? at h
  dsimp only at h
  split at h
  · obtain rfl := Option.some.inj h
    rfl
  · obtain ⟨-, h⟩ := Option.ite_none_right_eq_some.mp h
    obtain rfl := Option.some.inj h
    rfl

/-- The finite values are read from the texts that denote them: the words are for the others. -/
theorem ofText?_eq_some_iff (hv : v.isFinite) :
    ofText? (String.ofList cs) = some v ↔ Denotes v cs := by
  constructor
  · intro h
    obtain ⟨negative, sign, body, hsign, hbody, rfl⟩ := exists_sign cs
    rw [ofText?_signed hsign hbody, Option.or_eq_some_iff] at h
    rcases h with h | ⟨-, h⟩
    · obtain ⟨m, hm, rfl⟩ := Option.map_eq_some_iff.mp h
      rw [isFinite_of_special? hm] at hv
      cases hv
    · obtain ⟨d, hd, rfl⟩ := Option.map_eq_some_iff.mp h
      exact .number hsign (decimal?_eq_some_iff.mp hd)
  · rintro ⟨hsign, h⟩
    rw [ofText?_signed hsign fun _ => h.unsigned, h.special?_eq_none, decimal?_eq_some_iff.mpr h]
    rfl

theorem Denotes.ne_nil (h : Denotes v cs) : cs ≠ [] := by
  obtain ⟨hsign, h⟩ := h
  obtain ⟨c, rest, rfl, -⟩ := h.exists_head
  exact List.append_ne_nil_of_right_ne_nil _ (List.cons_ne_nil c rest)

end Single
end PadScript
