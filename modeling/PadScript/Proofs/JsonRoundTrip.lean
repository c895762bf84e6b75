import PadScript.Json.Reader
import PadScript.Proofs.JsonText

/-!
# A value is read back from its text

Every value whose numbers are well formed is read back from its text. The text is cut into its
tokens, and the machine that reads these ends up with the value.
-/
namespace PadScript.Json

/-- A layout that puts nothing but blanks between the tokens. -/
structure Layout.Blank (layout : Layout) : Prop where
  lineBreak : ∀ level, ∀ c ∈ (layout.lineBreak level).toList, Token.isSpace c
  colon : ∃ bs, layout.colon.toList = ':' :: bs ∧ ∀ b ∈ bs, Token.isSpace b

theorem Layout.blank_pretty : pretty.Blank := by
  refine ⟨fun level c hc => ?_, [' '], rfl, by simp [Token.isSpace]⟩
  have htext : (pretty.lineBreak level).toList = '\n' :: List.replicate (2 * level) ' ' := by
    simp [pretty]
  rw [htext] at hc
  rcases List.mem_cons.mp hc with rfl | hc
  · rfl
  · obtain rfl := List.eq_of_mem_replicate hc
    rfl

theorem Boundary.blanks {bs rest : List Char} (hbs : ∀ b ∈ bs, Token.isSpace b)
    (h : Boundary rest) : Boundary (bs ++ rest) := by
  cases bs with
  | nil => exact h
  | cons b bs =>
    refine boundary_cons ?_
    have hb := hbs b List.mem_cons_self
    simp only [Token.isSpace, Bool.or_eq_true, beq_iff_eq] at hb
    rcases hb with ((rfl | rfl) | rfl) | rfl <;> decide

mutual

def tokens : Json → List Token
  | null => [.null]
  | bool b => [.bool b]
  | number n => [.number n]
  | chars s => [.chars s]
  | list [] => [.openList, .closeList]
  | list (v :: vs) => .openList :: tokens v ++ itemTokens vs ++ [.closeList]
  | object [] => [.openObject, .closeObject]
  | object ((k, v) :: ms) =>
    .openObject :: .chars k :: .colon :: tokens v ++ memberTokens ms ++ [.closeObject]

def itemTokens : List Json → List Token
  | [] => []
  | v :: vs => .comma :: tokens v ++ itemTokens vs

def memberTokens : List (Chars × Json) → List Token
  | [] => []
  | (k, v) :: ms => .comma :: .chars k :: .colon :: tokens v ++ memberTokens ms

end

/-- Every number among the tokens is well formed. -/
def Proper (ts : List Token) : Prop := ∀ n, Token.number n ∈ ts → n.WellFormed

theorem proper_nil : Proper [] := by simp [Proper]

theorem proper_append {ts us : List Token} : Proper (ts ++ us) ↔ Proper ts ∧ Proper us := by
  simp only [Proper, List.mem_append, or_imp, forall_and]

theorem proper_cons {t : Token} {ts : List Token} :
    Proper (t :: ts) ↔ (∀ n, t = .number n → n.WellFormed) ∧ Proper ts := by
  simp only [Proper, List.mem_cons, or_imp, forall_and, eq_comm]

def spell (pieces : List String) : List Char := pieces.flatMap String.toList

theorem spell_cons (piece : String) (pieces : List String) :
    spell (piece :: pieces) = piece.toList ++ spell pieces := rfl

theorem spell_append (ps qs : List String) : spell (ps ++ qs) = spell ps ++ spell qs :=
  List.flatMap_append

theorem spell_nil : spell [] = [] := rfl

section
variable {layout : Layout} {rest : List Char} {ts : List Token}

theorem boundary_items (layout : Layout) (level : Nat) (vs : List Json) (h : Boundary rest) :
    Boundary (spell (renderItems layout level vs) ++ rest) := by
  cases vs with
  | nil => rwa [renderItems]
  | cons v vs =>
    rw [renderItems]
    exact boundary_cons (by decide)

theorem boundary_members (layout : Layout) (level : Nat) (ms : List (Chars × Json))
    (h : Boundary rest) : Boundary (spell (renderMembers layout level ms) ++ rest) := by
  cases ms with
  | nil => rwa [renderMembers]
  | cons m ms =>
    rw [renderMembers]
    exact boundary_cons (by decide)

theorem Layout.Blank.reads_colon (hl : layout.Blank) (h : Reads rest ts) :
    Reads (layout.colon.toList ++ rest) (.colon :: ts) := by
  obtain ⟨bs, hcolon, hbs⟩ := hl.colon
  rw [hcolon]
  exact (h.blanks hbs).mark [':'] .colon ⟨⟨_, _, rfl, rfl⟩, rfl⟩

theorem Layout.Blank.reads_key (hl : layout.Blank) (key : Chars) (h : Reads rest ts) :
    Reads (key.quoted.toList ++ (layout.colon.toList ++ rest)) (.chars key :: .colon :: ts) :=
  (lexeme_quoted key _).reads (hl.reads_colon h)

theorem Layout.Blank.reads_close (hl : layout.Blank) (level : Nat) (tok : List Char) (t : Token)
    (htok : Lexeme tok t rest) (h : Reads rest ts) :
    Reads ((layout.lineBreak level).toList ++ (tok ++ rest)) (t :: ts) :=
  (htok.reads h).blanks (hl.lineBreak level)

end

mutual

theorem reads_render {layout : Layout} (hl : layout.Blank) : ∀ (level : Nat) (v : Json),
    Proper v.tokens → ∀ {rest : List Char} {ts : List Token}, Boundary rest → Reads rest ts →
      Reads (spell (render layout level v) ++ rest) (v.tokens ++ ts)
  | _, null, _, _, _, _, h => by
    rw [render, tokens]
    exact h.mark "null".toList .null ⟨⟨_, _, rfl, rfl⟩, rfl⟩
  | _, bool true, _, _, _, _, h => by
    rw [render, tokens]
    exact h.mark "true".toList (.bool true) ⟨⟨_, _, rfl, rfl⟩, rfl⟩
  | _, bool false, _, _, _, _, h => by
    rw [render, tokens]
    exact h.mark "false".toList (.bool false) ⟨⟨_, _, rfl, rfl⟩, rfl⟩
  | _, number n, hproper, rest, _, hrest, h => by
    rw [tokens] at hproper
    rw [render, tokens, spell_cons, spell_nil, List.append_nil]
    exact (lexeme_number (hproper n List.mem_cons_self) hrest).reads h
  | _, chars s, _, rest, _, _, h => by
    rw [render, tokens, spell_cons, spell_nil, List.append_nil]
    exact (lexeme_quoted s rest).reads h
  | _, list [], _, rest, _, _, h => by
    rw [render, tokens]
    exact (h.mark [']'] .closeList ⟨⟨_, _, rfl, rfl⟩, rfl⟩).mark ['['] .openList
      ⟨⟨_, _, rfl, rfl⟩, rfl⟩
  | level, list (v :: vs), hproper, rest, ts, hrest, h => by
    simp only [tokens, List.cons_append, proper_cons, proper_append] at hproper
    obtain ⟨-, ⟨hv, hvs⟩, -⟩ := hproper
    have hclose := hl.reads_close level "]".toList .closeList ⟨⟨_, _, rfl, rfl⟩, rfl⟩ h
    have hboundary : Boundary ((layout.lineBreak level).toList ++ ("]".toList ++ rest)) :=
      Boundary.blanks (hl.lineBreak level) (boundary_cons (by decide))
    have hitems := reads_items hl (level + 1) vs hvs hboundary hclose
    have hvalue := reads_render hl (level + 1) v hv
      (boundary_items layout (level + 1) vs hboundary) hitems
    have hopen := (hvalue.blanks (hl.lineBreak (level + 1))).mark "[".toList .openList
      ⟨⟨_, _, rfl, rfl⟩, rfl⟩
    rw [render, tokens]
    simpa only [spell_cons, spell_append, spell_nil, List.append_assoc, List.cons_append,
      List.nil_append] using hopen
  | _, object [], _, _, _, _, h => by
    rw [render, tokens]
    exact (h.mark ['\x7d'] .closeObject ⟨⟨_, _, rfl, rfl⟩, rfl⟩).mark ['\x7b'] .openObject
      ⟨⟨_, _, rfl, rfl⟩, rfl⟩
  | level, object ((k, v) :: ms), hproper, rest, ts, hrest, h => by
    simp only [tokens, List.cons_append, proper_cons, proper_append] at hproper
    obtain ⟨-, -, -, ⟨hv, hms⟩, -⟩ := hproper
    have hclose := hl.reads_close level "\x7d".toList .closeObject ⟨⟨_, _, rfl, rfl⟩, rfl⟩ h
    have hboundary : Boundary ((layout.lineBreak level).toList ++ ("\x7d".toList ++ rest)) :=
      Boundary.blanks (hl.lineBreak level) (boundary_cons (by decide))
    have hmembers := reads_members hl (level + 1) ms hms hboundary hclose
    have hvalue := reads_render hl (level + 1) v hv
      (boundary_members layout (level + 1) ms hboundary) hmembers
    have hopen := ((hl.reads_key k hvalue).blanks (hl.lineBreak (level + 1))).mark "\x7b".toList
      .openObject ⟨⟨_, _, rfl, rfl⟩, rfl⟩
    rw [render, tokens]
    simpa only [spell_cons, spell_append, spell_nil, List.append_assoc, List.cons_append,
      List.nil_append] using hopen

theorem reads_items {layout : Layout} (hl : layout.Blank) : ∀ (level : Nat) (vs : List Json),
    Proper (itemTokens vs) → ∀ {rest : List Char} {ts : List Token}, Boundary rest →
      Reads rest ts → Reads (spell (renderItems layout level vs) ++ rest) (itemTokens vs ++ ts)
  | _, [], _, _, _, _, h => by rwa [renderItems, itemTokens]
  | level, v :: vs, hproper, rest, ts, hrest, h => by
    simp only [itemTokens, List.cons_append, proper_cons, proper_append] at hproper
    obtain ⟨-, hv, hvs⟩ := hproper
    have hitems := reads_items hl level vs hvs hrest h
    have hvalue := reads_render hl level v hv (boundary_items layout level vs hrest) hitems
    have hcomma := (hvalue.blanks (hl.lineBreak level)).mark ",".toList .comma
      ⟨⟨_, _, rfl, rfl⟩, rfl⟩
    rw [renderItems, itemTokens]
    simpa only [spell_cons, spell_append, List.append_assoc, List.cons_append] using hcomma

theorem reads_members {layout : Layout} (hl : layout.Blank) :
    ∀ (level : Nat) (ms : List (Chars × Json)), Proper (memberTokens ms) →
      ∀ {rest : List Char} {ts : List Token}, Boundary rest → Reads rest ts →
        Reads (spell (renderMembers layout level ms) ++ rest) (memberTokens ms ++ ts)
  | _, [], _, _, _, _, h => by rwa [renderMembers, memberTokens]
  | level, (k, v) :: ms, hproper, rest, ts, hrest, h => by
    simp only [memberTokens, List.cons_append, proper_cons, proper_append] at hproper
    obtain ⟨-, -, -, hv, hms⟩ := hproper
    have hmembers := reads_members hl level ms hms hrest h
    have hvalue := reads_render hl level v hv (boundary_members layout level ms hrest) hmembers
    have hcomma := ((hl.reads_key k hvalue).blanks (hl.lineBreak level)).mark ",".toList .comma
      ⟨⟨_, _, rfl, rfl⟩, rfl⟩
    rw [renderMembers, memberTokens]
    simpa only [spell_cons, spell_append, List.append_assoc, List.cons_append] using hcomma

end

theorem ofText_join_render {layout : Layout} (hl : layout.Blank) (level : Nat) {v : Json}
    (hv : Proper v.tokens) : Token.ofText (String.join (render layout level v)) = some v.tokens := by
  refine Reads.ofText ?_
  have h := reads_render hl level v hv boundary_nil reads_nil
  rwa [List.append_nil, List.append_nil, spell, ← String.toList_join] at h

/-- No value begins with the bracket that would end an empty list. -/
theorem step_firstItem {t : Token} (ht : t ≠ .closeList) (outer : List Frame) :
    State.step (.firstItem outer) t = State.step (.value (.items [] :: outer)) t := by
  cases t <;> first | rfl | exact absurd rfl ht

theorem exists_head_tokens (v : Json) : ∃ t ts, v.tokens = t :: ts ∧ t ≠ .closeList := by
  cases v with
  | null | bool b | number n | chars s => exact ⟨_, _, rfl, by simp⟩
  | list items =>
    cases items with
    | nil => exact ⟨_, _, rfl, by simp⟩
    | cons v vs => exact ⟨_, _, rfl, by simp⟩
  | object members =>
    cases members with
    | nil => exact ⟨_, _, rfl, by simp⟩
    | cons m ms => exact ⟨_, _, rfl, by simp⟩

theorem foldlM_cons_of_step {s s' : State} {t : Token} (h : State.step s t = some s')
    (ts : List Token) : (t :: ts).foldlM State.step s = ts.foldlM State.step s' := by
  rw [List.foldlM_cons, h]
  rfl

mutual

theorem foldlM_tokens : ∀ (v : Json) (outer : List Frame) (ts : List Token),
    (v.tokens ++ ts).foldlM State.step (.value outer) =
      ts.foldlM State.step (State.deliver v outer)
  | null, _, _ => rfl
  | bool _, _, _ => rfl
  | number _, _, _ => rfl
  | chars _, _, _ => rfl
  | list [], _, _ => rfl
  | list (v :: vs), outer, ts => by
    obtain ⟨t, us, htokens, ht⟩ := exists_head_tokens v
    have hopen : State.step (.value outer) .openList = some (.firstItem outer) := rfl
    have hvalue := foldlM_tokens v (.items [] :: outer) (itemTokens vs ++ .closeList :: ts)
    have hitems := foldlM_itemTokens vs [v] outer ts
    rw [htokens, List.cons_append, List.foldlM_cons, ← step_firstItem ht, ← List.foldlM_cons,
      ← List.cons_append, ← htokens] at hvalue
    rw [tokens]
    simp only [List.cons_append, List.append_assoc, List.nil_append]
    rw [foldlM_cons_of_step hopen, hvalue]
    exact hitems
  | object [], _, _ => rfl
  | object ((k, v) :: ms), outer, ts => by
    have hvalue := foldlM_tokens v (.members [] k :: outer) (memberTokens ms ++ .closeObject :: ts)
    have hmembers := foldlM_memberTokens ms [(k, v)] outer ts
    rw [tokens]
    simp only [List.cons_append, List.append_assoc, List.nil_append]
    exact hvalue.trans hmembers

theorem foldlM_itemTokens : ∀ (vs before : List Json) (outer : List Frame) (ts : List Token),
    (itemTokens vs ++ .closeList :: ts).foldlM State.step (.afterItem before outer) =
      ts.foldlM State.step (State.deliver (.list (before.reverse ++ vs)) outer)
  | [], before, outer, ts => by
    rw [itemTokens, List.append_nil]
    rfl
  | v :: vs, before, outer, ts => by
    have hvalue := foldlM_tokens v (.items before :: outer) (itemTokens vs ++ .closeList :: ts)
    have hitems := foldlM_itemTokens vs (v :: before) outer ts
    rw [List.reverse_cons, List.append_assoc] at hitems
    rw [itemTokens]
    simp only [List.cons_append, List.append_assoc]
    exact hvalue.trans hitems

theorem foldlM_memberTokens : ∀ (ms before : List (Chars × Json)) (outer : List Frame)
    (ts : List Token),
    (memberTokens ms ++ .closeObject :: ts).foldlM State.step (.afterMember before outer) =
      ts.foldlM State.step (State.deliver (.object (before.reverse ++ ms)) outer)
  | [], before, outer, ts => by
    rw [memberTokens, List.append_nil]
    rfl
  | (k, v) :: ms, before, outer, ts => by
    have hvalue := foldlM_tokens v (.members before k :: outer)
      (memberTokens ms ++ .closeObject :: ts)
    have hmembers := foldlM_memberTokens ms ((k, v) :: before) outer ts
    rw [List.reverse_cons, List.append_assoc] at hmembers
    rw [memberTokens]
    simp only [List.cons_append, List.append_assoc]
    exact hvalue.trans hmembers

end

theorem ofTokens_tokens (v : Json) : ofTokens v.tokens = some v := by
  have h := foldlM_tokens v [] []
  rw [List.append_nil] at h
  rw [ofTokens, h]
  rfl

/-- A value is read back from its text in any layout of blanks. -/
theorem parse_render {layout : Layout} (hl : layout.Blank) {v : Json} (hv : Proper v.tokens) :
    parse (String.join (render layout 0 v)) = some v := by
  rw [parse, ofText_join_render hl 0 hv]
  exact ofTokens_tokens v

theorem parse_pretty {v : Json} (hv : Proper v.tokens) : parse v.pretty = some v :=
  parse_render Layout.blank_pretty hv

end PadScript.Json
