import PadScript.Exchange
import PadScript.Proofs.JsonRoundTrip

/-!
# Records are read by their keys

The numbers that are written are well formed, so that a record of them is read back from its text,
and each field is found under its key.
-/
namespace PadScript

namespace Json

namespace Number

theorem wellFormed_ofNat (n : Nat) : (ofNat n).WellFormed := by
  refine ⟨?_, fun _ => Text.isDigit_of_mem_decimal, by simp [ofNat]⟩
  by_cases hzero : n = 0
  · subst hzero
    exact .inl rfl
  · exact .inr (Text.exists_head_decimal hzero)

/-- Wherever the point is put among digits that do not begin with a zero, and with zeros added to
fill up, the number is well formed. -/
theorem wellFormed_ofFinite (negative : Bool) {magnitude : Nat}
    (h : (Single.shortest .even magnitude).coefficient ≠ 0) :
    (ofFinite negative magnitude).WellFormed := by
  obtain ⟨c, ds, hdecimal, hc⟩ := Text.exists_head_decimal h
  have hdigits : ∀ d ∈ c :: ds, d.isDigit := by
    rw [← hdecimal]
    exact fun _ => Text.isDigit_of_mem_decimal
  unfold ofFinite
  dsimp only
  rw [hdecimal]
  split
  · split
    · refine ⟨.inr ⟨c, _, rfl, hc⟩, fun d hd => ?_, by simp⟩
      exact (List.mem_append.mp hd).elim (hdigits d) Text.isDigit_of_mem_zeros
    · refine ⟨?_, fun d hd => ?_, fun d hd => ?_⟩
      · dsimp only
        split
        · exact .inl rfl
        · next hsplit =>
          obtain ⟨k, hk⟩ := Nat.exists_eq_succ_of_ne_zero hsplit
          rw [hk]
          exact .inr ⟨c, _, List.take_succ_cons, hc⟩
      · dsimp only at hd
        split at hd
        · obtain rfl := List.mem_singleton.mp hd
          rfl
        · exact hdigits d (List.mem_of_mem_take hd)
      · exact (List.mem_append.mp hd).elim Text.isDigit_of_mem_zeros
          fun hd => hdigits d (List.mem_of_mem_drop hd)
  · refine ⟨.inr ⟨c, [], rfl, hc⟩, fun d hd => ?_, fun d hd => ?_⟩
    · exact hdigits d (List.mem_of_mem_take hd)
    · exact hdigits d (List.mem_of_mem_drop hd)

end Number

theorem proper_ofNat (n : Nat) : Proper (ofNat n).tokens := by
  intro m hm
  obtain rfl : m = .ofNat n := by simpa [ofNat, tokens] using hm
  exact Number.wellFormed_ofNat n

theorem proper_ofSingle (x : Single) : Proper (ofSingle x).tokens := by
  intro m hm
  unfold ofSingle at hm
  split at hm
  · simp [tokens] at hm
  · next hfinite =>
    split at hm
    · obtain rfl : m = ⟨x.negative, ['0'], ['0'], none⟩ := by simpa [tokens] using hm
      exact ⟨.inl rfl, by simp, by simp⟩
    · next hzero =>
      obtain rfl : m = .ofFinite x.negative x.magnitude.val := by simpa [tokens] using hm
      refine Number.wellFormed_ofFinite _ (Single.coefficient_shortest .even ?_ ?_)
      · rw [Single.infinity_eq]
        simpa [Single.isFinite] using hfinite
      · simpa [Single.isZero] using hzero

theorem proper_itemTokens {vs : List Json} (h : ∀ v ∈ vs, Proper v.tokens) :
    Proper (itemTokens vs) := by
  induction vs with
  | nil => simp [itemTokens, Proper]
  | cons v vs ih =>
    obtain ⟨hv, hvs⟩ := List.forall_mem_cons.mp h
    simp [itemTokens, proper_cons, proper_append, hv, ih hvs]

theorem proper_list {vs : List Json} (h : ∀ v ∈ vs, Proper v.tokens) :
    Proper (list vs).tokens := by
  cases vs with
  | nil => simp [tokens, Proper]
  | cons v vs =>
    obtain ⟨hv, hvs⟩ := List.forall_mem_cons.mp h
    simp [tokens, proper_cons, proper_append, proper_nil, hv, proper_itemTokens hvs]

theorem proper_memberTokens {ms : List (Chars × Json)} (h : ∀ m ∈ ms, Proper m.2.tokens) :
    Proper (memberTokens ms) := by
  induction ms with
  | nil => simp [memberTokens, Proper]
  | cons m ms ih =>
    obtain ⟨hm, hms⟩ := List.forall_mem_cons.mp h
    simp [memberTokens, proper_cons, proper_append, hm, ih hms]

theorem proper_object {ms : List (Chars × Json)} (h : ∀ m ∈ ms, Proper m.2.tokens) :
    Proper (object ms).tokens := by
  cases ms with
  | nil => simp [tokens, Proper]
  | cons m ms =>
    obtain ⟨hm, hms⟩ := List.forall_mem_cons.mp h
    simp [tokens, proper_cons, proper_append, proper_nil, hm, proper_memberTokens hms]

theorem proper_record {members : List (String × Json)} (h : ∀ m ∈ members, Proper m.2.tokens) :
    Proper (record members).tokens := by
  refine proper_object fun m hm => ?_
  obtain ⟨n, hn, rfl⟩ := List.mem_map.mp hm
  exact h n hn

theorem proper_bool (b : Bool) : Proper (bool b).tokens := by simp [tokens, Proper]

theorem proper_ofString (s : String) : Proper (ofString s).tokens := by
  simp [ofString, tokens, Proper]

theorem slots_record (keys : List String) (members : List (String × Json)) :
    (record members).slots keys = keys.mapM (slotOf members) := by
  have hrecord : record members = object (members.map fun m => (some m.1, m.2)) := rfl
  have hnamed : (members.map fun m => ((some m.1 : Chars), m.2)).mapM named? = some members := by
    clear hrecord
    induction members with
    | nil => rfl
    | cons m ms ih => simp [List.mapM_cons, named?, ih]
  rw [hrecord, slots, hnamed]
  rfl

theorem mapM_map_eq_some {α β : Type} {xs : List α} {write : α → Json} {read : Json → Option β}
    {value : α → β} (h : ∀ x ∈ xs, read (write x) = some (value x)) :
    (xs.map write).mapM read = some (xs.map value) := by
  induction xs with
  | nil => rfl
  | cons x xs ih =>
    obtain ⟨hx, hxs⟩ := List.forall_mem_cons.mp h
    simp [List.mapM_cons, hx, ih hxs]

theorem mapM_eq_none {β : Type} {vs : List Json} {read : Json → Option β} {v : Json} (hv : v ∈ vs)
    (h : read v = none) : vs.mapM read = none := by
  induction vs with
  | nil => cases hv
  | cons w vs ih =>
    rw [List.mapM_cons]
    rcases List.mem_cons.mp hv with rfl | hvs
    · rw [h]
      rfl
    · rw [ih hvs]
      cases read w <;> rfl

end Json
end PadScript
