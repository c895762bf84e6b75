import PadScript.Proofs.RowText

/-!
# The grammar of lines

The rules of the notation, stated apart from the functions that read it: how a directive, a field
and a row are written, and which issue a text earns that is no field. Lines are read as these rules
say, and nothing else is read as a directive or as a row without issues.
-/
namespace PadScript

namespace Text

/-- A text with blanks put in anywhere. -/
inductive Spread : List Char → List Char → Prop
  | nil : Spread [] []
  | keep {text spread : List Char} (c : Char) (h : Spread text spread) :
      Spread (c :: text) (c :: spread)
  | blank {text spread : List Char} {c : Char} (hc : isBlank c) (h : Spread text spread) :
      Spread text (c :: spread)

theorem Spread.squeeze_eq {text spread : List Char} (h : Spread text spread) :
    squeeze spread = squeeze text := by
  unfold squeeze
  induction h with
  | nil => rfl
  | keep c _ ih => rw [List.filter_cons, List.filter_cons, ih]
  | blank hc _ ih => rw [List.filter_cons_of_neg (by simp [hc]), ih]

theorem spread_squeeze (cs : List Char) : Spread (squeeze cs) cs := by
  unfold squeeze
  induction cs with
  | nil => exact .nil
  | cons c rest ih =>
    by_cases hc : isBlank c
    · rw [List.filter_cons_of_neg (by simp [hc])]
      exact .blank hc ih
    · rw [List.filter_cons_of_pos (by simp [hc])]
      exact .keep c ih

theorem isBlank_of_mem_squeeze {cs : List Char} {c : Char} (hc : c ∈ squeeze cs) :
    isBlank c = false := by
  simpa using (List.mem_filter.mp hc).2

end Text

namespace Script

/-- A value without blanks, of which there is something. -/
def IsWord (value : String) : Prop := value ≠ "" ∧ ∀ c ∈ value.toList, Text.isBlank c = false

/-- How directives are written. -/
inductive Directive.WrittenAs : Directive → List Char → Prop
  | importScript {name : String} (h : IsWord name) :
      WrittenAs (.importScript name) ("import".toList ++ '=' :: name.toList)
  | frameRate {rate : UInt32} {text : List Char} (h : Text.Numeral rate.toNat text) :
      WrittenAs (.frameRate rate) ("frame-rate".toList ++ '=' :: text)
  | marker {name : String} (h : IsWord name) :
      WrittenAs (.marker name) ("marker".toList ++ '=' :: name.toList)
  | saveResults (on : Bool) :
      WrittenAs (.saveResults on)
        ("save-results".toList ++ '=' :: (if on then "true" else "false").toList)
  | skipMovies (on : Bool) :
      WrittenAs (.skipMovies on)
        ("skip-spool-movies".toList ++ '=' :: (if on then "true" else "false").toList)

/-- How fields are written: the names of buttons, and finite values of axes. -/
inductive Field.WrittenAs : Field → List Char → Prop
  | button (b : Button) : WrittenAs (.button b) b.name.toList
  | axis (a : Axis) {v : Single} {value : List Char} (h : Single.Denotes v value)
      (hfinite : v.isFinite) : WrittenAs (.axis a v) (a.name.toList ++ '=' :: value)

/-- What is reported of a text that is no field: that the value of an axis is no finite number, or
that the text is neither a button nor sets an axis to anything. -/
inductive Issue.Blames : Issue → List Char → Prop
  | value (a : Axis) {value : List Char} (hne : value ≠ [])
      (h : ∀ v, Single.Denotes v value → v.isFinite = false) :
      Blames (.malformedValue a.name (String.ofList value)) (a.name.toList ++ '=' :: value)
  | unknown {text : List Char} (hbutton : ∀ b : Button, text ≠ b.name.toList)
      (haxis : ∀ (a : Axis) (value : List Char), value ≠ [] →
        text ≠ a.name.toList ++ '=' :: value) :
      Blames (.unknownField (String.ofList text)) text

/-- Each text is written for one of the fields or to blame for one of the issues, and these stand
in the order of their texts. -/
inductive Sorts : List (List Char) → List Field → List Issue → Prop
  | nil : Sorts [] [] []
  | field {text : List Char} {texts : List (List Char)} {f : Field} {fields : List Field}
      {issues : List Issue} (h : f.WrittenAs text) (hrest : Sorts texts fields issues) :
      Sorts (text :: texts) (f :: fields) issues
  | issue {text : List Char} {texts : List (List Char)} {fields : List Field} {i : Issue}
      {issues : List Issue} (h : i.Blames text) (hrest : Sorts texts fields issues) :
      Sorts (text :: texts) fields (i :: issues)

/-- A count and texts, each after a comma. -/
structure IsRow (frames : UInt64) (texts : List (List Char)) (text : List Char) : Prop where
  nonzero : frames ≠ 0
  exists_count : ∃ count, Text.Numeral frames.toNat count ∧
    text = count ++ texts.flatMap (',' :: ·)
  noComma : ∀ t ∈ texts, ',' ∉ t

/-- How lines are written, blanks apart. -/
inductive Line.WrittenAs : Line → List Char → Prop
  | directive {d : Directive} {text : List Char} (h : d.WrittenAs text) :
      WrittenAs (.directive d) text
  | row {frames : UInt64} {fields : List Field} {texts : List (List Char)} {text : List Char}
      (h : IsRow frames texts text) (hfields : List.Forall₂ Field.WrittenAs fields texts) :
      WrittenAs (.row frames fields) text

theorem frameCount?_eq_some_iff {text : List Char} {frames : UInt64} :
    frameCount? text = some frames ↔ Text.Numeral frames.toNat text := by
  rw [frameCount?, Option.map_eq_some_iff]
  constructor
  · rintro ⟨n, hn, rfl⟩
    obtain ⟨h, hlt⟩ := Text.unsigned?_eq_some_iff.mp hn
    rwa [UInt64.toNat_ofNat_of_lt' hlt]
  · exact fun h => ⟨_, Text.unsigned?_eq_some_iff.mpr ⟨h, frames.toNat_lt⟩, UInt64.ofNat_toNat⟩

theorem frameRate?_eq_some_iff {text : List Char} {rate : UInt32} :
    frameRate? text = some rate ↔ Text.Numeral rate.toNat text := by
  rw [frameRate?, Option.map_eq_some_iff]
  constructor
  · rintro ⟨n, hn, rfl⟩
    obtain ⟨h, hlt⟩ := Text.unsigned?_eq_some_iff.mp hn
    rwa [UInt32.toNat_ofNat_of_lt' hlt]
  · exact fun h => ⟨_, Text.unsigned?_eq_some_iff.mpr ⟨h, rate.toNat_lt⟩, UInt32.ofNat_toNat⟩

theorem axisValue?_eq_some_iff {text : List Char} {v : Single} :
    axisValue? text = some v ↔ Single.Denotes v text ∧ v.isFinite := by
  rw [axisValue?, Option.filter_eq_some_iff]
  exact and_congr_left Single.ofText?_eq_some_iff

namespace Field

variable {f : Field} {i : Issue} {text : List Char}

theorem ofName?_eq_some_iff {b : Button} :
    Button.ofName? (String.ofList text) = some b ↔ text = b.name.toList := by
  constructor
  · intro h
    rw [Button.name_of_ofName? h, String.toList_ofList]
  · rintro rfl
    rw [String.ofList_toList, Button.ofName?_name]

theorem ofName?_eq_none_iff :
    Button.ofName? (String.ofList text) = none ↔ ∀ b : Button, text ≠ b.name.toList := by
  rw [Option.eq_none_iff_forall_ne_some]
  exact forall_congr' fun b => not_congr ofName?_eq_some_iff

theorem axisValue?_eq_none_iff {value : List Char} : axisValue? value = none ↔
    ∀ v, Single.Denotes v value → v.isFinite = false := by
  rw [Option.eq_none_iff_forall_ne_some]
  refine forall_congr' fun v => ?_
  rw [ne_eq, axisValue?_eq_some_iff, not_and, Bool.not_eq_true]

/-- A text is read as a field that is so written, or to blame for the issue it earns. -/
theorem writtenAs_or_blames (text : List Char) :
    (∃ f, ofText text = .ok f ∧ f.WrittenAs text) ∨
      ∃ i, ofText text = .error i ∧ i.Blames text := by
  unfold ofText
  cases hbutton : Button.ofName? (String.ofList text) with
  | some b =>
    obtain rfl := ofName?_eq_some_iff.mp hbutton
    exact .inl ⟨.button b, rfl, .button b⟩
  | none =>
    cases haxis : setting? Axis.name Axis.all text with
    | none =>
      exact .inr ⟨_, rfl, .unknown (ofName?_eq_none_iff.mp hbutton) fun a =>
        setting?_eq_none_iff.mp haxis a a.mem_all⟩
    | some setting =>
      obtain ⟨rfl, hne⟩ := setting?_axis_eq_some_iff.mp haxis
      cases hvalue : axisValue? setting.2 with
      | none =>
        refine .inr ⟨.malformedValue setting.1.name (String.ofList setting.2), ?_,
          .value setting.1 hne (axisValue?_eq_none_iff.mp hvalue)⟩
        simp only [hvalue]
      | some v =>
        obtain ⟨hdenotes, hfinite⟩ := axisValue?_eq_some_iff.mp hvalue
        refine .inl ⟨.axis setting.1 v, ?_, .axis setting.1 hdenotes hfinite⟩
        simp only [hvalue]

theorem ofText_eq_ok_iff : ofText text = .ok f ↔ f.WrittenAs text := by
  constructor
  · intro h
    obtain ⟨g, hok, hwritten⟩ | ⟨i, herror, -⟩ := writtenAs_or_blames text
    · obtain rfl := Except.ok.inj (hok.symm.trans h)
      exact hwritten
    · cases herror.symm.trans h
  · intro h
    unfold ofText
    cases h with
    | button b => simp only [ofName?_eq_some_iff.mpr rfl]
    | axis a h hfinite =>
      simp only [ofName?_axis, setting?_axis_eq_some_iff.mpr ⟨rfl, h.ne_nil⟩,
        axisValue?_eq_some_iff.mpr ⟨h, hfinite⟩]

theorem ofText_eq_error_iff : ofText text = .error i ↔ i.Blames text := by
  constructor
  · intro h
    obtain ⟨f, hok, -⟩ | ⟨j, herror, hblames⟩ := writtenAs_or_blames text
    · cases hok.symm.trans h
    · obtain rfl := Except.error.inj (herror.symm.trans h)
      exact hblames
  · intro h
    unfold ofText
    cases h with
    | value a hne h =>
      simp only [ofName?_axis, setting?_axis_eq_some_iff.mpr ⟨rfl, hne⟩,
        axisValue?_eq_none_iff.mpr h]
    | unknown hbutton haxis =>
      simp only [ofName?_eq_none_iff.mpr hbutton,
        setting?_eq_none_iff.mpr fun a _ => haxis a]

theorem gather_eq_iff {texts : List (List Char)} {fields : List Field} {issues : List Issue} :
    gather texts = (fields, issues) ↔ Sorts texts fields issues := by
  constructor
  · intro h
    induction texts generalizing fields issues with
    | nil =>
      obtain ⟨rfl, rfl⟩ := Prod.mk.inj h
      exact .nil
    | cons text rest ih =>
      unfold gather at h
      cases htext : ofText text with
      | ok f =>
        simp only [htext] at h
        obtain ⟨rfl, rfl⟩ := Prod.mk.inj h
        exact .field (ofText_eq_ok_iff.mp htext) (ih rfl)
      | error i =>
        simp only [htext] at h
        obtain ⟨rfl, rfl⟩ := Prod.mk.inj h
        exact .issue (ofText_eq_error_iff.mp htext) (ih rfl)
  · intro h
    induction h with
    | nil => rfl
    | field h _ ih => simp only [gather, ih, ofText_eq_ok_iff.mpr h]
    | issue h _ ih => simp only [gather, ih, ofText_eq_error_iff.mpr h]

theorem sorts_nil_iff {texts : List (List Char)} {fields : List Field} :
    Sorts texts fields [] ↔ List.Forall₂ WrittenAs fields texts := by
  constructor
  · intro h
    induction texts generalizing fields with
    | nil =>
      cases h
      exact .nil
    | cons text rest ih =>
      cases h with
      | field h hrest => exact .cons h (ih hrest)
  · intro h
    induction h with
    | nil => exact .nil
    | cons h _ ih => exact .field h ih

theorem WrittenAs.isPlain (h : f.WrittenAs text) {c : Char} (hc : c ∈ text) : Text.isPlain c := by
  cases h with
  | button b => exact isPlain_of_mem_name hc
  | axis a h _ => exact isPlain_of_mem_setting (fun c => h.isPlain) hc

theorem isPlain_of_forall₂ {fields : List Field} {texts : List (List Char)}
    (h : List.Forall₂ WrittenAs fields texts) : ∀ t ∈ texts, ∀ c ∈ t, Text.isPlain c := by
  induction h with
  | nil => exact fun t ht => absurd ht List.not_mem_nil
  | cons hf _ ih => exact List.forall_mem_cons.mpr ⟨fun c hc => hf.isPlain hc, ih⟩

end Field

namespace Directive

theorem setting?_keyword_eq_some_iff {key : Keyword} {text value : List Char} :
    setting? Keyword.name Keyword.all text = some (key, value) ↔
      text = key.name.toList ++ '=' :: value ∧ value ≠ [] := by
  refine setting?_eq_some_iff (fun key => ?_) (fun key other h => ?_) Keyword.mem_all
  · cases key <;> decide
  · cases key <;> cases other <;> first | rfl | exact absurd h (by decide)

theorem switch?_eq_some_iff {on : Bool} {text : List Char} :
    switch? text = some on ↔ text = (if on then "true" else "false").toList := by
  have hwords : "false".toList ≠ "true".toList := by decide
  unfold switch?
  constructor
  · intro h
    split at h
    · next htext =>
      obtain rfl := Option.some.inj h
      exact htext
    · obtain ⟨htext, h⟩ := Option.ite_none_right_eq_some.mp h
      obtain rfl := Option.some.inj h
      exact htext
  · rintro rfl
    cases on with
    | true => exact if_pos rfl
    | false => exact (if_neg hwords).trans (if_pos rfl)

variable {d : Directive} {text : List Char}

theorem WrittenAs.of_value {key : Keyword} {value : List Char} (h : of? key value = some d)
    (hne : value ≠ []) (hplain : ∀ c ∈ value, Text.isBlank c = false) :
    d.WrittenAs (key.name.toList ++ '=' :: value) := by
  obtain ⟨word, rfl⟩ : ∃ word : String, value = word.toList :=
    ⟨String.ofList value, String.toList_ofList.symm⟩
  have hword : IsWord word := ⟨mt String.toList_eq_nil_iff.mpr hne, hplain⟩
  cases key with
  | importScript =>
    rw [of?, String.ofList_toList] at h
    obtain rfl := Option.some.inj h
    exact .importScript hword
  | frameRate =>
    obtain ⟨rate, hrate, rfl⟩ := Option.map_eq_some_iff.mp h
    exact .frameRate (frameRate?_eq_some_iff.mp hrate)
  | marker =>
    rw [of?, String.ofList_toList] at h
    obtain rfl := Option.some.inj h
    exact .marker hword
  | saveResults =>
    obtain ⟨on, hon, rfl⟩ := Option.map_eq_some_iff.mp h
    rw [switch?_eq_some_iff.mp hon]
    exact .saveResults on
  | skipMovies =>
    obtain ⟨on, hon, rfl⟩ := Option.map_eq_some_iff.mp h
    rw [switch?_eq_some_iff.mp hon]
    exact .skipMovies on

theorem WrittenAs.exists_value (h : d.WrittenAs text) : ∃ key : Keyword, ∃ value,
    text = key.name.toList ++ '=' :: value ∧ value ≠ [] ∧ of? key value = some d := by
  cases h with
  | @importScript name h =>
    exact ⟨.importScript, name.toList, rfl, mt String.toList_eq_nil_iff.mp h.1,
      by rw [of?, String.ofList_toList]⟩
  | @frameRate rate digits h =>
    obtain ⟨c, rest, rfl, -⟩ := h.exists_head
    exact ⟨.frameRate, c :: rest, rfl, List.cons_ne_nil c rest,
      Option.map_eq_some_iff.mpr ⟨rate, frameRate?_eq_some_iff.mpr h, rfl⟩⟩
  | @marker name h =>
    exact ⟨.marker, name.toList, rfl, mt String.toList_eq_nil_iff.mp h.1,
      by rw [of?, String.ofList_toList]⟩
  | saveResults on =>
    exact ⟨.saveResults, _, rfl, by cases on <;> decide,
      Option.map_eq_some_iff.mpr ⟨on, switch?_eq_some_iff.mpr rfl, rfl⟩⟩
  | skipMovies on =>
    exact ⟨.skipMovies, _, rfl, by cases on <;> decide,
      Option.map_eq_some_iff.mpr ⟨on, switch?_eq_some_iff.mpr rfl, rfl⟩⟩

theorem isBlank_append_cons {name value : List Char} (hname : name.all Text.isPlain)
    (hvalue : ∀ c ∈ value, Text.isBlank c = false) :
    ∀ c ∈ name ++ '=' :: value, Text.isBlank c = false := by
  refine List.forall_mem_append.mpr ⟨fun c hc => ?_, List.forall_mem_cons.mpr ⟨by decide, hvalue⟩⟩
  exact (Text.isBlank_of_isPlain (List.all_eq_true.mp hname c hc)).1

theorem isBlank_switch (on : Bool) :
    ∀ c ∈ (if on then "true" else "false").toList, Text.isBlank c = false := by
  have hplain : (if on then "true" else "false").toList.all Text.isPlain := by cases on <;> rfl
  exact fun c hc => (Text.isBlank_of_isPlain (List.all_eq_true.mp hplain c hc)).1

theorem WrittenAs.isBlank_eq_false (h : d.WrittenAs text) :
    ∀ c ∈ text, Text.isBlank c = false := by
  cases h with
  | importScript h => exact isBlank_append_cons rfl h.2
  | frameRate h =>
    exact isBlank_append_cons rfl fun c hc => (Text.isBlank_of_isPlain (h.isPlain hc)).1
  | marker h => exact isBlank_append_cons rfl h.2
  | saveResults on => exact isBlank_append_cons rfl (isBlank_switch on)
  | skipMovies on => exact isBlank_append_cons rfl (isBlank_switch on)

end Directive

theorem IsRow.exists_head {frames : UInt64} {texts : List (List Char)} {text : List Char}
    (h : IsRow frames texts text) : ∃ c rest, text = c :: rest ∧ (c.isDigit ∨ c = '+') := by
  obtain ⟨count, hcount, rfl⟩ := h.exists_count
  obtain ⟨c, rest, rfl, hc⟩ := hcount.exists_head
  exact ⟨c, _, rfl, hc⟩

theorem Line.WrittenAs.isBlank_eq_false {line : Line} {text : List Char}
    (h : line.WrittenAs text) : ∀ c ∈ text, Text.isBlank c = false := by
  cases h with
  | directive h => exact h.isBlank_eq_false
  | @row frames fields texts _ h hfields =>
    obtain ⟨count, hcount, rfl⟩ := h.exists_count
    refine List.forall_mem_append.mpr ⟨fun c hc => ?_, fun c hc => ?_⟩
    · exact (Text.isBlank_of_isPlain (hcount.isPlain hc)).1
    · obtain ⟨t, ht, hc⟩ := List.mem_flatMap.mp hc
      rcases List.mem_cons.mp hc with rfl | hc
      · decide
      · exact (Text.isBlank_of_isPlain (Field.isPlain_of_forall₂ hfields t ht c hc)).1

namespace Reading

variable {frames : UInt64} {fields : List Field} {issues : List Issue} {d : Directive}
  {text : List Char}

theorem ofRow_eq_row_iff : ofRow text = ⟨some (.row frames fields), issues⟩ ∧ frames ≠ 0 ↔
    ∃ texts, IsRow frames texts text ∧ Sorts texts fields issues := by
  constructor
  · rintro ⟨h, hframes⟩
    obtain ⟨count, texts, hpieces⟩ := List.exists_cons_of_ne_nil (Text.pieces_ne_nil ',' text)
    obtain ⟨htext, hcommas⟩ := Text.pieces_eq_cons_iff.mp hpieces
    unfold ofRow at h
    simp only [hpieces] at h
    cases hcount : frameCount? count with
    | none =>
      simp only [hcount] at h
      cases h
    | some n =>
      simp only [hcount] at h
      split at h
      · cases h
        exact absurd rfl hframes
      · cases h
        exact ⟨texts, ⟨hframes, ⟨count, frameCount?_eq_some_iff.mp hcount, htext⟩,
          fun t ht => hcommas t (List.mem_cons_of_mem _ ht)⟩, Field.gather_eq_iff.mp rfl⟩
  · rintro ⟨texts, ⟨hframes, ⟨count, hcount, htext⟩, hcommas⟩, hsorts⟩
    have hpieces : Text.pieces ',' text = count :: texts := by
      refine Text.pieces_eq_cons_iff.mpr ⟨htext, List.forall_mem_cons.mpr ⟨fun hc => ?_, hcommas⟩⟩
      exact (Text.isBlank_of_isPlain (hcount.isPlain hc)).2 rfl
    refine ⟨?_, hframes⟩
    unfold ofRow
    simp only [hpieces, frameCount?_eq_some_iff.mpr hcount, if_neg hframes,
      Field.gather_eq_iff.mpr hsorts]

/-- A text that sets a keyword is a directive, or skipped with its value. -/
theorem ofSqueezed_of_setting {key : Keyword} {value : List Char}
    (h : setting? Keyword.name Keyword.all text = some (key, value)) :
    ofSqueezed text = (Directive.of? key value).elim
      (skipped (.malformedValue key.name (String.ofList value))) fun d => of (.directive d) := by
  have hblank : ¬ (text.isEmpty || text.head? = some commentSign) := by
    intro hblank
    cases text with
    | nil => cases h
    | cons c rest =>
      obtain rfl : c = commentSign := by simpa using hblank
      rw [setting?_keyword_of_isAlpha rest (by decide)] at h
      cases h
  rw [ofSqueezed, if_neg hblank]
  simp only [h]
  cases Directive.of? key value <;> rfl

theorem ofSqueezed_directive (h : d.WrittenAs text) : ofSqueezed text = of (.directive d) := by
  obtain ⟨key, value, htext, hne, hvalue⟩ := h.exists_value
  rw [ofSqueezed_of_setting (Directive.setting?_keyword_eq_some_iff.mpr ⟨htext, hne⟩), hvalue]
  rfl

theorem ofSqueezed_of_no_setting (h : setting? Keyword.name Keyword.all text = none) :
    ofSqueezed text = of .blank ∨ ofSqueezed text = ofRow text := by
  unfold ofSqueezed
  split
  · exact .inl rfl
  · rw [h]
    exact .inr rfl

theorem ofSqueezed_eq_row_iff : ofSqueezed text = ⟨some (.row frames fields), issues⟩ ∧ frames ≠ 0 ↔
    ∃ texts, IsRow frames texts text ∧ Sorts texts fields issues := by
  rw [← ofRow_eq_row_iff]
  constructor
  · rintro ⟨h, hframes⟩
    refine ⟨?_, hframes⟩
    cases hsetting : setting? Keyword.name Keyword.all text with
    | none =>
      rcases ofSqueezed_of_no_setting hsetting with hblank | hrow
      · cases hblank.symm.trans h
      · exact hrow.symm.trans h
    | some setting =>
      rw [ofSqueezed_of_setting hsetting] at h
      cases hvalue : Directive.of? setting.1 setting.2 <;> rw [hvalue] at h <;> cases h
  · intro h
    obtain ⟨texts, hrow, -⟩ := ofRow_eq_row_iff.mp h
    obtain ⟨c, rest, rfl, hc⟩ := hrow.exists_head
    have hletter : c.isAlpha = false ∧ c ≠ commentSign := by
      rcases hc with hc | rfl
      · exact ⟨Text.isAlpha_of_isDigit hc, by rintro rfl; exact absurd hc (by decide)⟩
      · decide
    refine ⟨?_, h.2⟩
    rw [← h.1]
    simp [ofSqueezed, hletter.2, setting?_keyword_of_isAlpha rest hletter.1]

theorem ofRow_line_ne_directive (text : List Char) (d : Directive) :
    (ofRow text).line ≠ some (.directive d) := by
  intro h
  unfold ofRow at h
  split at h
  · cases h
  · split at h
    · cases h
    · split at h
      · cases h
      · cases h

theorem directive_of_ofSqueezed (hplain : ∀ c ∈ text, Text.isBlank c = false)
    (h : (ofSqueezed text).line = some (.directive d)) :
    (ofSqueezed text).issues = [] ∧ d.WrittenAs text := by
  cases hsetting : setting? Keyword.name Keyword.all text with
  | none =>
    rcases ofSqueezed_of_no_setting hsetting with hblank | hrow
    · rw [hblank] at h
      cases h
    · rw [hrow] at h
      exact absurd h (ofRow_line_ne_directive text d)
  | some setting =>
    obtain ⟨rfl, hne⟩ := Directive.setting?_keyword_eq_some_iff.mp hsetting
    rw [ofSqueezed_of_setting hsetting] at h ⊢
    cases hvalue : Directive.of? setting.1 setting.2 with
    | none =>
      rw [hvalue] at h
      cases h
    | some other =>
      rw [hvalue] at h
      cases h
      refine ⟨rfl, .of_value hvalue hne fun c hc => hplain c ?_⟩
      exact List.mem_append_right _ (List.mem_cons_of_mem _ hc)

theorem ofSqueezed_of_writtenAs {line : Line} (h : line.WrittenAs text) :
    ofSqueezed text = of line := by
  cases h with
  | directive h => exact ofSqueezed_directive h
  | row h hfields =>
    exact (ofSqueezed_eq_row_iff.mpr ⟨_, h, Field.sorts_nil_iff.mpr hfields⟩).1

/-- Lines are read by the grammar, and by nothing else. With any blanks put in anywhere, what is
written for a directive or a row is read as that directive or row, without issues. The other way
round, a text that is read as a directive, or as a row of some frames without issues, is written
for it once its blanks are taken out; and a text is read as a row of some frames with some fields
and issues just if, blanks apart, it is a count and texts between commas of which each is written
for one of the fields or to blame for one of the issues, in their order. -/
theorem ofText_follows_grammar :
    (∀ line written spread, Line.WrittenAs line written → Text.Spread written spread →
      ofText (String.ofList spread) = of line) ∧
    ∀ text,
      (∀ d, (ofText text).line = some (.directive d) →
        (ofText text).issues = [] ∧ Line.WrittenAs (.directive d) (Text.squeeze text.toList)) ∧
      (∀ frames fields, ofText text = of (.row frames fields) → frames ≠ 0 →
        Line.WrittenAs (.row frames fields) (Text.squeeze text.toList)) ∧
      ∀ frames fields issues,
        ofText text = ⟨some (.row frames fields), issues⟩ ∧ frames ≠ 0 ↔
          ∃ texts, IsRow frames texts (Text.squeeze text.toList) ∧ Sorts texts fields issues := by
  refine ⟨fun line written spread hwritten hspread => ?_, fun text => ⟨fun d h => ?_,
    fun frames fields h hframes => ?_, fun frames fields issues => ofSqueezed_eq_row_iff⟩⟩
  · rw [ofText, String.toList_ofList, hspread.squeeze_eq,
      Text.squeeze_eq_self hwritten.isBlank_eq_false]
    exact ofSqueezed_of_writtenAs hwritten
  · obtain ⟨hissues, hdirective⟩ :=
      directive_of_ofSqueezed (fun c hc => Text.isBlank_of_mem_squeeze hc) h
    exact ⟨hissues, .directive hdirective⟩
  · obtain ⟨texts, hrow, hsorts⟩ := ofSqueezed_eq_row_iff.mp ⟨h, hframes⟩
    exact .row hrow (Field.sorts_nil_iff.mp hsorts)

/-- A row with a plus sign, an exponent and a button held twice, blanks among all of it, and a row
of which two fields are skipped. -/
theorem ofText_follows_grammar_of_rows :
    let fields : List Field :=
      [.button .circle, .axis .playerAngle ⟨false, 0x42B40000⟩, .button .circle]
    let written := "+2,Circle,player-angle=9e1,Circle".toList
    let spread := " + 2,Cir cle, player-angle = 9 e1 ,Circle".toList
    Line.WrittenAs (.row 2 fields) written ∧ Text.Spread written spread ∧
      ofText (String.ofList spread) = of (.row 2 fields) ∧
      ∃ texts, IsRow 4 texts "4,X,Jump,camera-zoom=far".toList ∧
        Sorts texts [.button .x] [.unknownField "Jump", .malformedValue "camera-zoom" "far"] := by
  intro fields written spread
  obtain ⟨hreads, hread⟩ := ofText_follows_grammar
  have hdigit : ∀ c : Char, c.isDigit → Text.Digits (Nat.ofDigitChars 10 [c] 0) [c] :=
    fun c hc => ⟨List.cons_ne_nil _ _, List.forall_mem_singleton.mpr hc, rfl⟩
  have hangle : Single.Denotes ⟨false, 0x42B40000⟩ ['9', 'e', '1'] := by
    have hvalue : Single.ofDecimal false ⟨9, 1⟩ = ⟨false, 0x42B40000⟩ := by decide +kernel
    have hone : Single.Exponent 1 ['e', '1'] := .given (.inl rfl) .missing (hdigit '1' rfl)
    rw [← hvalue]
    exact .number .missing (.whole (hdigit '9' rfl) hone)
  have hrow : IsRow 2 ["Circle".toList, "player-angle=9e1".toList, "Circle".toList] written :=
    ⟨by decide, ⟨"+2".toList, .plus (hdigit '2' rfl), rfl⟩, by decide⟩
  have hwritten : Line.WrittenAs (.row 2 fields) written :=
    .row hrow (.cons (.button .circle) (.cons (.axis .playerAngle hangle (by decide))
      (.cons (.button .circle) .nil)))
  have hspread : Text.Spread written spread := Text.spread_squeeze spread
  refine ⟨hwritten, hspread, hreads _ _ _ hwritten hspread, ?_⟩
  obtain ⟨-, -, hrows⟩ := hread "4,X,Jump,camera-zoom=far"
  exact (hrows 4 [.button .x] [.unknownField "Jump", .malformedValue "camera-zoom" "far"]).mp
    ⟨by decide +kernel, by decide⟩

end Reading

end Script
end PadScript
