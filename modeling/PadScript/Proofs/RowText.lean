import PadScript.Proofs.NumberText
import PadScript.Script.Writer

/-!
# Written rows are read back

The text of a row that the writer makes is one line, and it is read as a frame count and exactly
the fields that were written.
-/
namespace PadScript

namespace Text

theorem pieces_of_not_mem {sep : Char} {cs : List Char} (h : sep ∉ cs) : pieces sep cs = [cs] := by
  induction cs with
  | nil => rfl
  | cons c rest ih =>
    obtain ⟨hc, hrest⟩ := not_or.mp (mt List.mem_cons.mpr h)
    rw [pieces, if_neg (Ne.symm hc), ih hrest]

theorem pieces_append_cons (sep : Char) (cs rest : List Char) :
    pieces sep (cs ++ sep :: rest) = pieces sep cs ++ pieces sep rest := by
  induction cs with
  | nil => simp [pieces]
  | cons c others ih =>
    rw [List.cons_append, pieces, pieces]
    split
    · rw [ih, List.cons_append]
    · rw [ih]
      cases hpieces : pieces sep others with
      | nil => exact absurd hpieces (pieces_ne_nil sep others)
      | cons first more => rfl

theorem pieces_append {sep : Char} {piece rest : List Char} (h : sep ∉ piece) :
    pieces sep (piece ++ sep :: rest) = piece :: pieces sep rest := by
  rw [pieces_append_cons, pieces_of_not_mem h, List.singleton_append]

theorem pieces_separated {sep : Char} {first : List Char} {rest : List (List Char)}
    (h : ∀ p ∈ first :: rest, sep ∉ p) :
    pieces sep (first ++ rest.flatMap (sep :: ·)) = first :: rest := by
  induction rest generalizing first with
  | nil =>
    rw [List.flatMap_nil, List.append_nil]
    exact pieces_of_not_mem (h first (by simp))
  | cons second rest ih =>
    rw [List.flatMap_cons, List.cons_append, pieces_append (h first (by simp)),
      ih fun p hp => h p (List.mem_cons_of_mem _ hp)]

theorem not_mem_pieces {sep : Char} {cs p : List Char} (hp : p ∈ pieces sep cs) : sep ∉ p := by
  induction cs generalizing p with
  | nil =>
    rw [pieces, List.mem_singleton] at hp
    simp [hp]
  | cons c rest ih =>
    rw [pieces] at hp
    split at hp
    · rcases List.mem_cons.mp hp with rfl | hp
      · simp
      · exact ih hp
    · next hc =>
      split at hp
      · next hnil => exact absurd hnil (pieces_ne_nil sep rest)
      · next first others hcons =>
        rw [hcons] at ih
        rcases List.mem_cons.mp hp with rfl | hp
        · exact List.not_mem_cons_of_ne_of_not_mem (Ne.symm hc) (ih List.mem_cons_self)
        · exact ih (List.mem_cons_of_mem _ hp)

theorem pieces_eq_cons_iff {sep : Char} {cs first : List Char} {rest : List (List Char)} :
    pieces sep cs = first :: rest ↔
      cs = first ++ rest.flatMap (sep :: ·) ∧ ∀ p ∈ first :: rest, sep ∉ p := by
  constructor
  · intro h
    refine ⟨?_, fun p hp => not_mem_pieces (h ▸ hp)⟩
    induction cs generalizing first rest with
    | nil =>
      obtain ⟨rfl, rfl⟩ := List.cons.inj h
      rfl
    | cons c others ih =>
      obtain ⟨second, more, hothers⟩ := List.exists_cons_of_ne_nil (pieces_ne_nil sep others)
      rw [pieces, hothers] at h
      split at h
      · next hc =>
        obtain ⟨rfl, rfl⟩ := List.cons.inj h
        rw [List.nil_append, List.flatMap_cons, List.cons_append, ← ih hothers, hc]
      · obtain ⟨rfl, rfl⟩ := List.cons.inj h
        rw [List.cons_append, ← ih hothers]
  · rintro ⟨rfl, hpieces⟩
    exact pieces_separated hpieces

/-- Texts with a separator after each have the pieces of each, and an empty one. -/
theorem pieces_flatMap (sep : Char) (texts : List (List Char)) :
    pieces sep (texts.flatMap (· ++ [sep])) = texts.flatMap (pieces sep) ++ [[]] := by
  induction texts with
  | nil => rfl
  | cons first rest ih =>
    rw [List.flatMap_cons, List.flatMap_cons, List.append_assoc, List.append_assoc,
      List.singleton_append, pieces_append_cons, ih]

theorem pieces_terminated {sep : Char} {texts : List (List Char)} (h : ∀ p ∈ texts, sep ∉ p) :
    pieces sep (texts.flatMap (· ++ [sep])) = texts ++ [[]] := by
  rw [pieces_flatMap, List.flatMap_congr fun p hp => pieces_of_not_mem (h p hp)]
  exact congrArg (· ++ [[]]) (List.flatMap_singleton' texts)

/-- A character that may stand between the commas of a row. -/
def isPlain (c : Char) : Bool := !isBlank c && c != ','

theorem isPlain_of_isDigit {c : Char} (h : c.isDigit) : isPlain c := by
  have hne : c ≠ ',' := by rintro rfl; exact absurd h (by decide)
  obtain ⟨hlow, hhigh⟩ : 48 ≤ c.toNat ∧ c.toNat ≤ 57 := Char.isDigit_iff_toNat.mp h
  simp [isPlain, isBlank, blankRanges, hne]
  omega

theorem isAlpha_of_isDigit {c : Char} (h : c.isDigit) : c.isAlpha = false := by
  have hdigit : c.toNat ≤ 57 := (Char.isDigit_iff_toNat.mp h).2
  have hletter : ∀ first : Char, 57 < first.toNat → ¬ first.val ≤ c.val := fun first hfirst hle => by
    have : first.toNat ≤ c.toNat := UInt32.le_iff_toNat_le.mp hle
    omega
  have hupper : c.isUpper = false := decide_eq_false fun hc => hletter 'A' (by decide) hc.1
  have hlower : c.isLower = false :=
    Bool.and_eq_false_iff.mpr (.inl (decide_eq_false (hletter 'a' (by decide))))
  exact Bool.or_eq_false_iff.mpr ⟨hupper, hlower⟩

theorem isBlank_of_isPlain {c : Char} (h : isPlain c) : isBlank c = false ∧ c ≠ ',' := by
  simpa [isPlain] using h

theorem Numeral.isPlain {n : Nat} {cs : List Char} (h : Numeral n cs) {c : Char} (hc : c ∈ cs) :
    isPlain c := by
  cases h with
  | plain h => exact isPlain_of_isDigit (h.digits c hc)
  | plus h =>
    rcases List.mem_cons.mp hc with rfl | hc
    · decide
    · exact isPlain_of_isDigit (h.digits c hc)

theorem squeeze_eq_self {cs : List Char} (h : ∀ c ∈ cs, isBlank c = false) : squeeze cs = cs := by
  unfold squeeze
  rw [List.filter_eq_self]
  intro c hc
  simp [h c hc]

theorem after?_eq_some_iff {start cs rest : List Char} :
    after? start cs = some rest ↔ cs = start ++ rest := by
  constructor
  · intro h
    obtain ⟨hstart, hdrop⟩ := Option.ite_none_right_eq_some.mp h
    obtain ⟨tail, rfl⟩ := List.isPrefixOf_iff_prefix.mp hstart
    rw [List.drop_left] at hdrop
    rw [Option.some.inj hdrop]
  · rintro rfl
    simp [after?]

theorem append_cons_inj {sep : Char} {first other rest tail : List Char} (hfirst : sep ∉ first)
    (hother : sep ∉ other) (h : first ++ sep :: rest = other ++ sep :: tail) :
    first = other ∧ rest = tail := by
  have hpieces := congrArg (pieces sep) h
  rw [pieces_append hfirst, pieces_append hother] at hpieces
  obtain ⟨rfl, -⟩ := List.cons.inj hpieces
  exact ⟨rfl, (List.cons.inj (List.append_cancel_left h)).2⟩

end Text

namespace Single

variable {e : Int} {d : Decimal} {v : Single} {cs : List Char}

theorem Sign.isPlain {negative : Bool} (h : Sign negative cs) {c : Char} (hc : c ∈ cs) :
    Text.isPlain c := by
  cases h with
  | missing => cases hc
  | plus =>
    obtain rfl := List.mem_singleton.mp hc
    decide
  | minus =>
    obtain rfl := List.mem_singleton.mp hc
    decide

theorem Exponent.isPlain (h : Exponent e cs) {c : Char} (hc : c ∈ cs) : Text.isPlain c := by
  cases h with
  | missing => cases hc
  | given he hsign h =>
    rcases List.mem_cons.mp hc with rfl | hc
    · rcases he with rfl | rfl <;> decide
    · rcases List.mem_append.mp hc with hc | hc
      · exact hsign.isPlain hc
      · exact Text.isPlain_of_isDigit (h.digits c hc)

theorem Spells.isPlain (h : Spells d cs) {c : Char} (hc : c ∈ cs) : Text.isPlain c := by
  cases h with
  | whole h htail =>
    rcases List.mem_append.mp hc with hc | hc
    · exact Text.isPlain_of_isDigit (h.digits c hc)
    · exact htail.isPlain hc
  | point h htail =>
    simp only [List.mem_append, List.mem_cons] at hc
    rcases hc with hc | rfl | hc | hc
    · exact Text.isPlain_of_isDigit (h.digits c (List.mem_append_left _ hc))
    · decide
    · exact Text.isPlain_of_isDigit (h.digits c (List.mem_append_right _ hc))
    · exact htail.isPlain hc

theorem Denotes.isPlain (h : Denotes v cs) {c : Char} (hc : c ∈ cs) : Text.isPlain c := by
  obtain ⟨hsign, h⟩ := h
  rcases List.mem_append.mp hc with hc | hc
  · exact hsign.isPlain hc
  · exact h.isPlain hc

end Single

namespace Script

theorem valueOf?_eq_some_iff {key : String} {text value : List Char} :
    valueOf? key text = some value ↔ text = key.toList ++ '=' :: value ∧ value ≠ [] := by
  rw [valueOf?, Option.filter_eq_some_iff, Option.bind_eq_some_iff]
  simp only [Text.after?_eq_some_iff, List.singleton_append]
  constructor
  · rintro ⟨⟨rest, rfl, rfl⟩, hvalue⟩
    exact ⟨rfl, by simpa using hvalue⟩
  · rintro ⟨rfl, hvalue⟩
    exact ⟨⟨_, rfl, rfl⟩, by simpa using hvalue⟩

variable {α : Type} {name : α → String} {keys : List α}

theorem setting?_eq_none_iff {text : List Char} : setting? name keys text = none ↔
    ∀ key ∈ keys, ∀ value, value ≠ [] → text ≠ (name key).toList ++ '=' :: value := by
  unfold setting?
  rw [List.findSome?_eq_none_iff]
  refine forall₂_congr fun key _ => ?_
  rw [Option.map_eq_none_iff, Option.eq_none_iff_forall_ne_some]
  refine forall_congr' fun value => ?_
  rw [ne_eq, valueOf?_eq_some_iff, not_and', ne_eq]

/-- Names that differ and have no equals sign in them do not hide each other. -/
theorem setting?_eq_some_iff (hsign : ∀ key, '=' ∉ (name key).toList)
    (hname : name.Injective) (hkeys : ∀ key, key ∈ keys) {key : α}
    {text value : List Char} :
    setting? name keys text = some (key, value) ↔
      text = (name key).toList ++ '=' :: value ∧ value ≠ [] := by
  have hset : ∀ {key value}, setting? name keys text = some (key, value) →
      text = (name key).toList ++ '=' :: value ∧ value ≠ [] := by
    intro key value h
    obtain ⟨other, -, hother⟩ := List.exists_of_findSome?_eq_some h
    obtain ⟨_, hvalue, heq⟩ := Option.map_eq_some_iff.mp hother
    cases heq
    exact valueOf?_eq_some_iff.mp hvalue
  refine ⟨hset, fun ⟨htext, hvalue⟩ => ?_⟩
  cases hother : setting? name keys text with
  | none => exact absurd htext (setting?_eq_none_iff.mp hother key (hkeys key) value hvalue)
  | some other =>
    obtain ⟨hkey, hrest⟩ :=
      Text.append_cons_inj (hsign key) (hsign other.1) (htext.symm.trans (hset hother).1)
    obtain rfl := hname (String.toList_inj.mp hkey)
    rw [hrest]

namespace Field

def text : Field → List Char
  | .button b => b.name.toList
  | .axis a value => a.name.toList ++ '=' :: value.toText.toList

def IsFinite : Field → Prop
  | .button _ => True
  | .axis _ value => value.isFinite

theorem isPlain_of_mem_name {b : Button} {c : Char} (hc : c ∈ b.name.toList) : Text.isPlain c := by
  have hname : b.name.toList.all Text.isPlain := by cases b <;> rfl
  exact List.all_eq_true.mp hname c hc

theorem isPlain_of_mem_setting {a : Axis} {value : List Char}
    (hvalue : ∀ c ∈ value, Text.isPlain c) {c : Char} (hc : c ∈ a.name.toList ++ '=' :: value) :
    Text.isPlain c := by
  have hname : a.name.toList.all Text.isPlain := by cases a <;> rfl
  rcases List.mem_append.mp hc with hc | hc
  · exact List.all_eq_true.mp hname c hc
  · rcases List.mem_cons.mp hc with rfl | hc
    · decide
    · exact hvalue c hc

theorem isPlain_of_mem_text {f : Field} (hf : f.IsFinite) {c : Char} (hc : c ∈ f.text) :
    Text.isPlain c := by
  cases f with
  | button b => exact isPlain_of_mem_name hc
  | axis a value => exact isPlain_of_mem_setting (fun c => (Single.denotes_toText hf).isPlain) hc

theorem setting?_axis_eq_some_iff {a : Axis} {text value : List Char} :
    setting? Axis.name Axis.all text = some (a, value) ↔
      text = a.name.toList ++ '=' :: value ∧ value ≠ [] := by
  refine setting?_eq_some_iff (fun a => ?_) (fun a b h => ?_) Axis.mem_all
  · cases a <;> decide
  · cases a <;> cases b <;> first | rfl | exact absurd h (by decide)

theorem ofName?_axis (a : Axis) (value : List Char) :
    Button.ofName? (String.ofList (a.name.toList ++ '=' :: value)) = none := by
  cases h : Button.ofName? (String.ofList (a.name.toList ++ '=' :: value)) with
  | none => rfl
  | some b =>
    have hname := congrArg String.toList (Button.name_of_ofName? h)
    rw [String.toList_ofList] at hname
    have hmem : '=' ∈ b.name.toList := by simp [hname]
    have hnone : '=' ∉ b.name.toList := by cases b <;> decide
    exact absurd hmem hnone

theorem ofText_text {f : Field} (hf : f.IsFinite) : ofText f.text = .ok f := by
  cases f with
  | button b => simp [ofText, text, Button.ofName?_name]
  | axis a value =>
    have hvalue : axisValue? value.toText.toList = some value := by
      rw [axisValue?, String.ofList_toList, Single.ofText?_toText hf]
      exact if_pos hf
    unfold ofText text
    rw [ofName?_axis, setting?_axis_eq_some_iff.mpr ⟨rfl, (Single.denotes_toText hf).ne_nil⟩]
    simp only [hvalue]

theorem gather_texts {fields : List Field} (h : ∀ f ∈ fields, f.IsFinite) :
    gather (fields.map text) = (fields, []) := by
  induction fields with
  | nil => rfl
  | cons f rest ih =>
    have hf := ofText_text (h f (by simp))
    have hrest := ih fun g hg => h g (List.mem_cons_of_mem _ hg)
    simp [gather, hf, hrest]

end Field

def rowFields (previous : Option Axes) (s : Segment) : List Field :=
  s.input.buttons.toList.map .button ++
    (changedAxes previous s.input.axes).map fun a => .axis a (s.input.axes.get a)

def rowLine (previous : Option Axes) (s : Segment) : List Char :=
  Text.decimal s.frameCount ++ ((rowFields previous s).map Field.text).flatMap (',' :: ·)

theorem toList_rowText (previous : Option Axes) (s : Segment) :
    (rowText previous s).toList = rowLine previous s ++ ['\n'] := by
  simp [rowText, rowLine, rowFields, Field.text, String.toList_join, List.flatMap_map,
    List.map_map, Text.decimal, Nat.toString_eq_repr, Nat.toList_repr]

theorem isFinite_of_mem_rowFields {previous : Option Axes} {s : Segment}
    (h : ∀ a, (s.input.axes.get a).isFinite) : ∀ f ∈ rowFields previous s, f.IsFinite := by
  intro f hf
  rcases List.mem_append.mp hf with hf | hf
  · obtain ⟨b, -, rfl⟩ := List.mem_map.mp hf
    trivial
  · obtain ⟨a, -, rfl⟩ := List.mem_map.mp hf
    exact h a

theorem isBlank_of_mem_rowLine {previous : Option Axes} {s : Segment}
    (h : ∀ a, (s.input.axes.get a).isFinite) {c : Char} (hc : c ∈ rowLine previous s) :
    Text.isBlank c = false := by
  rcases List.mem_append.mp hc with hc | hc
  · exact (Text.isBlank_of_isPlain (Text.isPlain_of_isDigit (Text.isDigit_of_mem_decimal hc))).1
  · obtain ⟨text, htext, hc⟩ := List.mem_flatMap.mp hc
    obtain ⟨f, hf, rfl⟩ := List.mem_map.mp htext
    rcases List.mem_cons.mp hc with rfl | hc
    · decide
    · exact (Text.isBlank_of_isPlain
        (Field.isPlain_of_mem_text (isFinite_of_mem_rowFields h f hf) hc)).1

theorem pieces_rowLine {previous : Option Axes} {s : Segment}
    (h : ∀ a, (s.input.axes.get a).isFinite) :
    Text.pieces ',' (rowLine previous s) =
      Text.decimal s.frameCount :: (rowFields previous s).map Field.text := by
  refine Text.pieces_separated fun p hp hcomma => ?_
  have hplain : Text.isPlain ',' := by
    rcases List.mem_cons.mp hp with rfl | hp
    · exact Text.isPlain_of_isDigit (Text.isDigit_of_mem_decimal hcomma)
    · obtain ⟨f, hf, rfl⟩ := List.mem_map.mp hp
      exact Field.isPlain_of_mem_text (isFinite_of_mem_rowFields h f hf) hcomma
  exact absurd hplain (by decide)

theorem setting?_keyword_of_isAlpha {c : Char} (rest : List Char) (h : c.isAlpha = false) :
    setting? Keyword.name Keyword.all (c :: rest) = none := by
  refine setting?_eq_none_iff.mpr fun key _ value _ htext => ?_
  have hname : key.name.toList.head?.any Char.isAlpha := by cases key <;> decide
  have hhead := congrArg List.head? htext
  rw [List.head?_cons, List.head?_append] at hhead
  cases hkey : key.name.toList.head? with
  | none => simp [hkey] at hname
  | some k =>
    rw [hkey] at hname hhead
    obtain rfl := Option.some.inj hhead
    exact absurd hname (by simp [h])

theorem ofSqueezed_rowLine {previous : Option Axes} {s : Segment}
    (h : ∀ a, (s.input.axes.get a).isFinite) (hne : s.frameCount ≠ 0)
    (hlt : s.frameCount < UInt64.size) :
    Reading.ofSqueezed (Text.squeeze (rowLine previous s)) =
      .of (.row (UInt64.ofNat s.frameCount) (rowFields previous s)) := by
  have hcount : frameCount? (Text.decimal s.frameCount) = some (UInt64.ofNat s.frameCount) := by
    rw [frameCount?, Text.unsigned?_eq_some_iff.mpr ⟨.plain (Text.digits_decimal _), hlt⟩,
      Option.map_some]
  have hframes : UInt64.ofNat s.frameCount ≠ 0 := by
    rw [ne_eq, ← UInt64.toNat_inj, UInt64.toNat_ofNat_of_lt' hlt, UInt64.toNat_zero]
    exact hne
  have hrow : Reading.ofRow (rowLine previous s) =
      .of (.row (UInt64.ofNat s.frameCount) (rowFields previous s)) := by
    unfold Reading.ofRow
    rw [pieces_rowLine h]
    simp only [hcount, if_neg hframes, Field.gather_texts (isFinite_of_mem_rowFields h)]
    rfl
  obtain ⟨c, rest, hcons, hdigit⟩ := (Text.digits_decimal s.frameCount).exists_head
  have hline : rowLine previous s =
      c :: (rest ++ ((rowFields previous s).map Field.text).flatMap (',' :: ·)) := by
    rw [rowLine, hcons, List.cons_append]
  have hcomment : c ≠ commentSign := by rintro rfl; exact absurd hdigit (by decide)
  rw [Text.squeeze_eq_self fun c hc => isBlank_of_mem_rowLine h hc, ← hrow, hline]
  simp [Reading.ofSqueezed, hcomment,
    setting?_keyword_of_isAlpha _ (Text.isAlpha_of_isDigit hdigit)]

end Script
end PadScript
