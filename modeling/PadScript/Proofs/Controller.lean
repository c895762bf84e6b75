import Mathlib.Data.Nat.Bitwise
import Mathlib.Tactic
import PadScript.Controller

/-!
# Sets of buttons and equal numbers

A set of buttons is determined by the buttons in it, and equality of numbers may be used as an
equation between axes.
-/
namespace PadScript

namespace Buttons

theorem mask_ofButton (b : Button) : (ofButton b).mask.toNat = 2 ^ b.index.toNat := by
  cases b <;> rfl

theorem testBit_ofButton (b : Button) (i : Nat) :
    (ofButton b).mask.toNat.testBit i = decide (b.index.toNat = i) := by
  rw [mask_ofButton, Nat.testBit_two_pow]

theorem holds_iff (s : Buttons) (b : Button) : s.holds b ↔ s.mask.toNat.testBit b.index.toNat := by
  rw [holds, beq_iff_eq, ← UInt16.toNat_inj, UInt16.toNat_and, mask_ofButton, Nat.and_two_pow]
  cases s.mask.toNat.testBit b.index.toNat <;> simp [(Nat.two_pow_pos _).ne]

theorem testBit_ofList (bs : List Button) (i : Nat) :
    (ofList bs).mask.toNat.testBit i = true ↔ ∃ b ∈ bs, b.index.toNat = i := by
  have hfold : ∀ s : Buttons, (bs.foldl (fun s b => s.union (ofButton b)) s).mask.toNat.testBit i =
      true ↔ s.mask.toNat.testBit i ∨ ∃ b ∈ bs, b.index.toNat = i := by
    induction bs with
    | nil => simp
    | cons b rest ih =>
      intro s
      rw [List.foldl_cons, ih, union, UInt16.toNat_or, Nat.testBit_or, testBit_ofButton]
      simp [or_assoc]
  rw [ofList, hfold]
  simp [empty]

theorem exists_index {i : Nat} (h : i < 16) : ∃ b : Button, b.index.toNat = i := by
  have hall : ∀ i : Fin 16, ∃ b ∈ Button.all, b.index.toNat = i := by decide
  obtain ⟨b, -, hb⟩ := hall ⟨i, h⟩
  exact ⟨b, hb⟩

theorem ofList_toList (s : Buttons) : ofList s.toList = s := by
  have hbits : ∀ i, (ofList s.toList).mask.toNat.testBit i = s.mask.toNat.testBit i := by
    intro i
    rw [Bool.eq_iff_iff, testBit_ofList]
    constructor
    · rintro ⟨b, hb, rfl⟩
      exact (holds_iff s b).mp (mem_toList.mp hb)
    · intro hi
      have hsmall : i < 16 := by
        by_contra hge
        have : s.mask.toNat < 2 ^ i :=
          s.mask.toNat_lt.trans_le (Nat.pow_le_pow_right two_pos (not_lt.mp hge))
        rw [Nat.testBit_lt_two_pow this] at hi
        simp at hi
      obtain ⟨b, rfl⟩ := exists_index hsmall
      exact ⟨b, mem_toList.mpr ((holds_iff s b).mpr hi), rfl⟩
  exact congrArg Buttons.mk (UInt16.toNat_inj.mp (Nat.eq_of_testBit_eq hbits))

end Buttons

theorem Single.numEq_congr {x x' y y' : Single} (hx : x.numEq x') (hy : y.numEq y') :
    x.numEq y = x'.numEq y' := by
  rw [Bool.eq_iff_iff]
  constructor
  · intro h
    rw [numEq_comm] at hx
    exact numEq_trans hx (numEq_trans h hy)
  · intro h
    rw [numEq_comm] at hy
    exact numEq_trans hx (numEq_trans h hy)

theorem Axes.numEq_iff {a b : Axes} : a.numEq b ↔ ∀ x, (a.get x).numEq (b.get x) := by
  simp [numEq]

namespace Controller

theorem numEq_iff {a b : Controller} :
    a.numEq b ↔ a.buttons = b.buttons ∧ ∀ x, (a.axes.get x).numEq (b.axes.get x) := by
  rw [numEq, Bool.and_eq_true, decide_eq_true_eq, Axes.numEq_iff]

theorem numEq_comm (a b : Controller) : a.numEq b = b.numEq a := by
  have hswap : ∀ {a b : Controller}, a.numEq b → b.numEq a := by
    intro a b h
    obtain ⟨hbuttons, haxes⟩ := numEq_iff.mp h
    exact numEq_iff.mpr ⟨hbuttons.symm, fun x => by rw [Single.numEq_comm]; exact haxes x⟩
  exact Bool.eq_iff_iff.mpr ⟨hswap, hswap⟩

theorem numEq_trans {a b c : Controller} (h : a.numEq b) (k : b.numEq c) : a.numEq c := by
  obtain ⟨hbuttons, haxes⟩ := numEq_iff.mp h
  obtain ⟨kbuttons, kaxes⟩ := numEq_iff.mp k
  exact numEq_iff.mpr
    ⟨hbuttons.trans kbuttons, fun x => Single.numEq_trans (haxes x) (kaxes x)⟩

theorem numEq_self {c : Controller} (h : ∀ a, (c.axes.get a).isFinite) : c.numEq c :=
  numEq_iff.mpr ⟨rfl, fun a => Single.numEq_self (Single.isNaN_of_isFinite (h a))⟩

end Controller

theorem Controller.finite_axes (c : Controller) (a : Axis) : (c.finite.axes.get a).isFinite := by
  rw [finite, Axes.get_map]
  exact (c.axes.get a).isFinite_finiteOrZero

end PadScript
