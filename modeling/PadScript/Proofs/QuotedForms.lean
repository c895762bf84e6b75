import Mathlib.Tactic
import PadScript.Toml.Quoted

/-!
# Quoted texts are read as they were written

Whatever form `quoteList` chooses, the text between the quotes is a sequence of bare quotes, never
too many of them together, and of characters that are spelled in some other way. A reader that
takes each spelling for its character reads such a text back, up to the quotes that end it.
-/
namespace PadScript.Toml

/-- The reader takes `w` for `c`, and `w` is nothing that begins with a quote. -/
structure Spells (read : List Char → Option Scanned) (quote c : Char) (w : List Char) : Prop where
  nonempty : w ≠ []
  head : w.head? ≠ some quote
  read_append : ∀ rest, read (w ++ rest) = (read rest).map (·.push c)

/-- How a text stands between its quotes: at most `most` bare quotes together, and all else
spelled. -/
inductive Written (read : List Char → Option Scanned) (quote : Char) (most : Nat) :
    List Char → List Char → Prop
  | quotes {k : Nat} (hk : k ≤ most) :
      Written read quote most (List.replicate k quote) (List.replicate k quote)
  | cons {k : Nat} {c : Char} {w cs ws : List Char} (hk : k ≤ most) (hc : Spells read quote c w)
      (hcs : Written read quote most cs ws) :
      Written read quote most (List.replicate k quote ++ c :: cs)
        (List.replicate k quote ++ (w ++ ws))

/-- The reader passes over `most` quotes at the most; one more of them ends the text, also when
bare ones stand right before. -/
structure Ends (read : List Char → Option Scanned) (quote : Char) (most : Nat) : Prop where
  pass : ∀ k ≤ most, ∀ rest, rest.head? ≠ some quote →
    read (List.replicate k quote ++ rest) =
      (read rest).map fun s => (List.replicate k quote ++ s.1, s.2)
  stop : ∀ k ≤ most, ∀ rest, rest.head? ≠ some quote →
    read (List.replicate k quote ++ (List.replicate (most + 1) quote ++ rest)) =
      some (List.replicate k quote, rest)

section

variable {read : List Char → Option Scanned} {quote c : Char} {most : Nat}
  {w ws cs rest : List Char}

theorem Spells.head_append (h : Spells read quote c w) (rest : List Char) :
    (w ++ rest).head? ≠ some quote := by
  rw [List.head?_append_of_ne_nil _ h.nonempty]
  exact h.head

theorem Written.read_append (h : Written read quote most cs ws) (hread : Ends read quote most)
    (hrest : rest.head? ≠ some quote) :
    read (ws ++ (List.replicate (most + 1) quote ++ rest)) = some (cs, rest) := by
  induction h with
  | quotes hk => exact hread.stop _ hk rest hrest
  | cons hk hc hcs ih =>
    rw [List.append_assoc, List.append_assoc, hread.pass _ hk _ (hc.head_append _),
      hc.read_append, ih]
    rfl

/-- Where no bare quote may stand, a written text and its closing quote do not begin with two
quotes. -/
theorem Written.ne_cons_cons (h : Written read quote 0 cs ws) (hrest : rest.head? ≠ some quote)
    (r : List Char) : ws ++ quote :: rest ≠ quote :: quote :: r := by
  intro heq
  cases h with
  | quotes hk =>
    obtain rfl := Nat.le_zero.mp hk
    obtain rfl := (List.cons.inj heq).2
    exact hrest rfl
  | cons hk hc hcs =>
    obtain rfl := Nat.le_zero.mp hk
    rw [List.replicate_zero, List.nil_append, List.append_assoc] at heq
    exact hc.head_append _ (congrArg List.head? heq)

end

theorem isPlain_of_not_needsEscape {c : Char} (h : ¬ needsEscape c) (hbreak : c ≠ '\n') :
    isPlain c := by
  by_cases htab : c = '\t'
  · simp [isPlain, htab]
  · simp only [needsEscape, Bool.or_eq_true, Bool.and_eq_true, decide_eq_true_eq, bne_iff_ne,
      beq_iff_eq, not_or, not_and] at h
    have hcontrol : 0x20 ≤ c.toNat := Nat.le_of_not_lt fun hlt => h.1 ⟨hlt, htab⟩ hbreak
    simp [isPlain, hcontrol, h.2]

theorem ne_break_of_isPlain {c : Char} (h : isPlain c) : c ≠ '\n' ∧ c ≠ '\r' := by
  constructor <;> rintro rfl <;> cases h

theorem escape_cases {c : Char} (hbreak : c ≠ '\n') :
    (∃ e, escape c = ['\\', e] ∧ escaped? e = some c) ∨
    (needsEscape c ∧ escape c = unicodeEscape c) ∨
    (c ≠ '\\' ∧ isPlain c ∧ escape c = [c]) := by
  unfold escape
  split
  iterate 5 exact .inl ⟨_, rfl, rfl⟩
  next hbackslash =>
    split
    · next hneeds => exact .inr (.inl ⟨hneeds, rfl⟩)
    · next hneeds =>
      exact .inr (.inr ⟨hbackslash, isPlain_of_not_needsEscape hneeds hbreak, rfl⟩)

theorem hex?_unicodeEscape : ∀ n < 0x80,
    Text.hex? [hexDigit (n / 4096 % 16), hexDigit (n / 256 % 16), hexDigit (n / 16 % 16),
      hexDigit (n % 16)] = some n := by
  decide

theorem scalar?_toNat (c : Char) : scalar? c.toNat = some c := by
  have hvalid : c.toNat.isValidChar := c.valid
  rw [scalar?, dif_pos hvalid]
  rfl

theorem pushHex_eq_map {ds : List Char} {c : Char} (h : Text.hex? ds = some c.toNat)
    (s : Option Scanned) : pushHex ds s = s.map (·.push c) := by
  cases s <;> simp [pushHex, h, scalar?_toNat]

/-- A reader to which escapes mean what they mean between double quotes. -/
structure Unescapes (read : List Char → Option Scanned) : Prop where
  letter : ∀ {e c : Char}, escaped? e = some c → ∀ rest,
    read ('\\' :: e :: rest) = (read rest).map (·.push c)
  code : ∀ a b c d rest,
    read ('\\' :: 'u' :: a :: b :: c :: d :: rest) = pushHex [a, b, c, d] (read rest)
  plain : ∀ {c : Char}, isPlain c → c ≠ '"' → c ≠ '\\' → ∀ rest,
    read (c :: rest) = (read rest).map (·.push c)

theorem Unescapes.spells_escape {read : List Char → Option Scanned} (h : Unescapes read) {c : Char}
    (hquote : c ≠ '"') (hbreak : c ≠ '\n') : Spells read '"' c (escape c) := by
  rcases escape_cases hbreak with ⟨e, htext, he⟩ | ⟨hneeds, htext⟩ | ⟨hbackslash, hplain, htext⟩
  · rw [htext]
    exact ⟨by simp, by simp, h.letter he⟩
  · rw [htext]
    refine ⟨by simp [unicodeEscape], by simp [unicodeEscape], fun rest => ?_⟩
    have hlow : c.toNat < 0x80 := by
      simp only [needsEscape, Bool.or_eq_true, Bool.and_eq_true, decide_eq_true_eq, beq_iff_eq]
        at hneeds
      omega
    exact (h.code _ _ _ _ rest).trans (pushHex_eq_map (hex?_unicodeEscape _ hlow) _)
  · rw [htext]
    exact ⟨by simp, by simpa using hquote, h.plain hplain hquote hbackslash⟩

/-- What stands between double quotes is written in the sense above, also when `run` bare quotes
stand before it. -/
theorem written_escapeAll {read : List Char → Option Scanned} {most : Nat} (multi : Bool)
    (h : Unescapes read) (hbreak : Spells read '"' '\n' (if multi then ['\n'] else ['\\', 'n']))
    (run : Nat) (hrun : run ≤ most) (cs : List Char) :
    Written read '"' most (List.replicate run '"' ++ cs)
      (List.replicate run '"' ++ escapeAll multi most run cs) := by
  -- the run goes along, since a reader sees a run as a whole and the writer one quote at a time
  induction cs generalizing run with
  | nil => simpa [escapeAll] using Written.quotes hrun
  | cons c cs ih =>
    by_cases hquote : c = '"'
    · subst hquote
      by_cases hroom : run < most
      · have hmore := ih (run + 1) hroom
        rw [List.replicate_succ', List.append_assoc, List.append_assoc] at hmore
        simpa [escapeAll, hroom] using hmore
      · have hspells : Spells read '"' '"' ['\\', '"'] := ⟨by simp, by simp, h.letter rfl⟩
        simpa [escapeAll, hroom] using Written.cons hrun hspells (ih 0 (Nat.zero_le most))
    · by_cases hline : c = '\n'
      · subst hline
        simpa [escapeAll] using Written.cons hrun hbreak (ih 0 (Nat.zero_le most))
      · simpa [escapeAll, hquote, hline] using
          Written.cons hrun (h.spells_escape hquote hline) (ih 0 (Nat.zero_le most))

theorem le_longestRun (c : Char) (current longest : Nat) (cs : List Char) :
    longest ≤ longestRun c current longest cs := by
  induction cs generalizing current longest with
  | nil => exact le_rfl
  | cons x cs ih =>
    rw [longestRun]
    split
    · exact (le_max_left _ _).trans (ih _ _)
    · exact ih _ _

/-- What stands between single quotes stands as it is, and is written in the sense above as long as
its runs of quotes are no longer than `most`. -/
theorem written_literal {read : List Char → Option Scanned} {most longest : Nat} {cs : List Char}
    (h : ∀ c ∈ cs, c ≠ '\'' → Spells read '\'' c [c]) (run : Nat) (hrun : run ≤ most)
    (hlongest : longestRun '\'' run longest cs ≤ most) :
    Written read '\'' most (List.replicate run '\'' ++ cs) (List.replicate run '\'' ++ cs) := by
  induction cs generalizing run longest with
  | nil => simpa using Written.quotes hrun
  | cons c cs ih =>
    obtain ⟨hc, hcs⟩ := List.forall_mem_cons.mp h
    rw [longestRun] at hlongest
    by_cases hquote : c = '\''
    · subst hquote
      rw [if_pos rfl] at hlongest
      have hroom : run + 1 ≤ most :=
        (le_max_right _ _).trans ((le_longestRun _ _ _ _).trans hlongest)
      have hmore := ih hcs (run + 1) hroom hlongest
      rw [List.replicate_succ', List.append_assoc] at hmore
      exact hmore
    · rw [if_neg hquote] at hlongest
      exact .cons hrun (hc hquote) (ih hcs 0 (Nat.zero_le most) hlongest)

theorem ne_code_of_escaped? {e c : Char} (h : escaped? e = some c) :
    e ≠ 'x' ∧ e ≠ 'u' ∧ e ≠ 'U' := by
  refine ⟨?_, ?_, ?_⟩ <;> rintro rfl <;> cases h

theorem unescapes_basic? : Unescapes basic? where
  letter := by
    intro e c he rest
    obtain ⟨hx, hu, hU⟩ := ne_code_of_escaped? he
    simp [basic?, hx, hu, hU, he]
  code := fun _ _ _ _ _ => rfl
  plain := by
    intro c hplain hquote hbackslash rest
    simp [basic?, hplain, hbackslash]

theorem unescapes_multiBasic? : Unescapes (multiBasic? false) where
  letter := by
    intro e c he rest
    obtain ⟨hx, hu, hU⟩ := ne_code_of_escaped? he
    simp [multiBasic?, hx, hu, hU, he]
  code := fun _ _ _ _ _ => rfl
  plain := by
    intro c hplain hquote hbackslash rest
    obtain ⟨hbreak, hreturn⟩ := ne_break_of_isPlain hplain
    simp [multiBasic?, hplain, hquote, hbackslash, hreturn]

theorem ends_of_single {read : List Char → Option Scanned} {quote : Char}
    (h : ∀ rest, read (quote :: rest) = some ([], rest)) : Ends read quote 0 where
  pass := by
    intro k hk rest _
    obtain rfl := Nat.le_zero.mp hk
    simp
  stop := by
    intro k hk rest _
    obtain rfl := Nat.le_zero.mp hk
    exact h rest

theorem ends_multiBasic? : Ends (multiBasic? false) '"' 2 where
  pass := by
    intro k hk rest hrest
    cases rest with
    | nil => interval_cases k <;> simp [multiBasic?, isPlain]
    | cons c rest =>
      have hc : c ≠ '"' := by simpa using hrest
      interval_cases k <;> simp [multiBasic?, isPlain, hc, Scanned.push, Function.comp_def]
  stop := by
    intro k hk rest hrest
    cases rest with
    | nil => interval_cases k <;> simp [multiBasic?]
    | cons c rest =>
      have hc : c ≠ '"' := by simpa using hrest
      interval_cases k <;> simp [multiBasic?, hc]

theorem ends_multiLiteral? : Ends multiLiteral? '\'' 2 where
  pass := by
    intro k hk rest hrest
    cases rest with
    | nil => interval_cases k <;> simp [multiLiteral?, isPlain]
    | cons c rest =>
      have hc : c ≠ '\'' := by simpa using hrest
      interval_cases k <;> simp [multiLiteral?, isPlain, hc, Scanned.push, Function.comp_def]
  stop := by
    intro k hk rest hrest
    cases rest with
    | nil => interval_cases k <;> simp [multiLiteral?]
    | cons c rest =>
      have hc : c ≠ '\'' := by simpa using hrest
      interval_cases k <;> simp [multiLiteral?, hc]

theorem spells_plain {read : List Char → Option Scanned} {quote c : Char} (hquote : c ≠ quote)
    (h : ∀ rest, read (c :: rest) = (read rest).map (·.push c)) : Spells read quote c [c] :=
  ⟨by simp, by simpa using hquote, h⟩

theorem spells_literal? {c : Char} (hplain : isPlain c) (hquote : c ≠ '\'') :
    Spells literal? '\'' c [c] :=
  spells_plain hquote fun rest => by simp [literal?, hplain]

theorem spells_multiLiteral? {c : Char} (h : c = '\n' ∨ isPlain c) (hquote : c ≠ '\'') :
    Spells multiLiteral? '\'' c [c] := by
  have hreturn : c ≠ '\r' := by
    rintro rfl
    rcases h with h | h <;> cases h
  exact spells_plain hquote fun rest => by simp [multiLiteral?, h, hreturn, hquote]

theorem of_formOf_literal {cs : List Char} (h : formOf cs = .literal) :
    (∀ c ∈ cs, isPlain c) ∧ longestRun '\'' 0 0 cs ≤ 0 := by
  have hchosen : cs.any needsEscape = false ∧ cs.contains '\n' = false ∧
      longestRun '\'' 0 0 cs = 0 := by grind [formOf]
  obtain ⟨hcontrol, hlines, hsingles⟩ := hchosen
  refine ⟨fun c hc => isPlain_of_not_needsEscape ?_ ?_, hsingles.le⟩
  · exact List.any_eq_false.mp hcontrol c hc
  · rintro rfl
    simp [hc] at hlines

theorem of_formOf_multiLiteral {cs : List Char} (h : formOf cs = .multiLiteral) :
    (∀ c ∈ cs, c = '\n' ∨ isPlain c) ∧ longestRun '\'' 0 0 cs ≤ 2 := by
  have hchosen : cs.any needsEscape = false ∧ longestRun '\'' 0 0 cs ≤ 2 := by grind [formOf]
  refine ⟨fun c hc => or_iff_not_imp_left.mpr fun hline => ?_, hchosen.2⟩
  exact isPlain_of_not_needsEscape (List.any_eq_false.mp hchosen.1 c hc) hline

theorem written_basic (cs : List Char) : Written basic? '"' 0 cs (escapeAll false 0 0 cs) :=
  written_escapeAll false unescapes_basic? ⟨by simp, by simp, unescapes_basic?.letter rfl⟩ 0
    le_rfl cs

theorem written_multiBasic (cs : List Char) :
    Written (multiBasic? false) '"' 2 cs (escapeAll true 2 0 cs) :=
  written_escapeAll true unescapes_multiBasic?
    ⟨by simp, by simp, fun rest => by simp [multiBasic?]⟩ 0 (Nat.zero_le 2) cs

/-- Two forms begin with one quote, so that nothing behind it may look like two more. -/
theorem quoted?_basic {w : List Char} (h : ∀ r, w ≠ '"' :: '"' :: r) :
    quoted? ('"' :: w) = basic? w := by
  simp [quoted?]

theorem quoted?_literal {w : List Char} (h : ∀ r, w ≠ '\'' :: '\'' :: r) :
    quoted? ('\'' :: w) = literal? w := by
  simp [quoted?]

theorem dropBreak_opening (cs : List Char) {w : List Char}
    (h : '\n' ∉ cs → ∀ c ∈ w.head?, isPlain c) :
    dropBreak ((if cs.contains '\n' then ['\n'] else []) ++ w) = w := by
  by_cases hline : '\n' ∈ cs
  · simp [hline, dropBreak, afterBreak?]
  · have hhead := h hline
    cases w with
    | nil => simp [hline, dropBreak, afterBreak?]
    | cons c w =>
      obtain ⟨hbreak, hreturn⟩ := ne_break_of_isPlain (hhead c rfl)
      simp [hline, dropBreak, afterBreak?, hbreak, hreturn]

theorem isPlain_head_escapeAll {cs : List Char} (h : '\n' ∉ cs) (rest : List Char) :
    ∀ c ∈ (escapeAll true 2 0 cs ++ '"' :: rest).head?, isPlain c := by
  cases cs with
  | nil => simp [escapeAll, isPlain]
  | cons c cs =>
    obtain ⟨hbreak, -⟩ := not_or.mp (List.mem_cons.not.mp h)
    by_cases hquote : c = '"'
    · simp [hquote, escapeAll, isPlain]
    · have htext : escapeAll true 2 0 (c :: cs) = escape c ++ escapeAll true 2 0 cs := by
        simp [escapeAll, Ne.symm hbreak]
      rw [htext]
      rcases escape_cases (Ne.symm hbreak) with ⟨e, hc, -⟩ | ⟨-, hc⟩ | ⟨-, hplain, hc⟩
      · simp [hc, isPlain]
      · simp [hc, unicodeEscape, isPlain]
      · simpa [hc] using hplain

theorem isPlain_head_literal {cs : List Char} (hplain : ∀ c ∈ cs, c = '\n' ∨ isPlain c)
    (h : '\n' ∉ cs) (rest : List Char) : ∀ c ∈ (cs ++ '\'' :: rest).head?, isPlain c := by
  cases cs with
  | nil => simp [isPlain]
  | cons c cs =>
    obtain ⟨hbreak, -⟩ := not_or.mp (List.mem_cons.not.mp h)
    simpa using (hplain c List.mem_cons_self).resolve_left (Ne.symm hbreak)

/-- A quoted text is read as the text, whatever follows that is no quote. -/
theorem quoted?_quoteList {cs rest : List Char} (hdouble : rest.head? ≠ some '"')
    (hsingle : rest.head? ≠ some '\'') : quoted? (quoteList cs ++ rest) = some (cs, rest) := by
  unfold quoteList
  dsimp only
  split
  next hform =>
    have hread := (written_basic cs).read_append (ends_of_single fun _ => rfl) hdouble
    simpa [quoted?_basic ((written_basic cs).ne_cons_cons hdouble)] using hread
  next hform =>
    obtain ⟨hplain, hrun⟩ := of_formOf_literal hform
    have hwritten : Written literal? '\'' 0 cs cs :=
      written_literal (fun c hc => spells_literal? (hplain c hc)) 0 le_rfl hrun
    have hread := hwritten.read_append (ends_of_single fun _ => rfl) hsingle
    simpa [quoted?_literal (hwritten.ne_cons_cons hsingle)] using hread
  next hform =>
    have hread := (written_multiBasic cs).read_append ends_multiBasic? hdouble
    have hopening := dropBreak_opening cs fun h => isPlain_head_escapeAll h ('"' :: '"' :: rest)
    simp only [List.cons_append, List.append_assoc, List.nil_append]
    rw [quoted?, hopening]
    exact hread
  next hform =>
    obtain ⟨hplain, hrun⟩ := of_formOf_multiLiteral hform
    have hwritten : Written multiLiteral? '\'' 2 cs cs :=
      written_literal (fun c hc => spells_multiLiteral? (hplain c hc)) 0 (Nat.zero_le 2) hrun
    have hread := hwritten.read_append ends_multiLiteral? hsingle
    have hopening := dropBreak_opening cs fun h =>
      isPlain_head_literal hplain h ('\'' :: '\'' :: rest)
    simp only [List.cons_append, List.append_assoc, List.nil_append]
    rw [quoted?, hopening]
    exact hread

end PadScript.Toml
