import PadScript.Text

/-!
# Buttons

The sixteen buttons of the pad and the set of them that is held, kept as the pad's button word.
-/
namespace PadScript

/-- The buttons in the order of their bits, the lowest first. -/
inductive Button
  | select | l3 | r3 | start | up | right | down | left
  | l2 | r2 | l1 | r1 | triangle | circle | x | square
  deriving DecidableEq, Repr

namespace Button

def all : List Button :=
  [.select, .l3, .r3, .start, .up, .right, .down, .left,
    .l2, .r2, .l1, .r1, .triangle, .circle, .x, .square]

def name : Button → String
  | select => "Select"
  | l3 => "L3"
  | r3 => "R3"
  | start => "Start"
  | up => "Up"
  | right => "Right"
  | down => "Down"
  | left => "Left"
  | l2 => "L2"
  | r2 => "R2"
  | l1 => "L1"
  | r1 => "R1"
  | triangle => "Triangle"
  | circle => "Circle"
  | x => "X"
  | square => "Square"

def ofName? (name : String) : Option Button := all.find? fun b => b.name = name

def index : Button → UInt16
  | select => 0
  | l3 => 1
  | r3 => 2
  | start => 3
  | up => 4
  | right => 5
  | down => 6
  | left => 7
  | l2 => 8
  | r2 => 9
  | l1 => 10
  | r1 => 11
  | triangle => 12
  | circle => 13
  | x => 14
  | square => 15

@[simp] theorem mem_all (b : Button) : b ∈ all := by cases b <;> decide

theorem ofName?_name (b : Button) : ofName? b.name = some b := by cases b <;> decide

theorem name_of_ofName? {s : String} {b : Button} (h : ofName? s = some b) : b.name = s := by
  simpa using List.find?_some h

example : all.map index = (List.range 16).map UInt16.ofNat := by decide

end Button

/-- A set of buttons as the pad's button word. -/
structure Buttons where
  mask : UInt16
  deriving DecidableEq, Repr

namespace Buttons

def empty : Buttons := ⟨0⟩

instance : Inhabited Buttons := ⟨empty⟩

def ofButton (b : Button) : Buttons := ⟨1 <<< b.index⟩

def union (a b : Buttons) : Buttons := ⟨a.mask ||| b.mask⟩

def holds (s : Buttons) (b : Button) : Bool := s.mask &&& (ofButton b).mask == (ofButton b).mask

def toList (s : Buttons) : List Button := Button.all.filter s.holds

def ofList (bs : List Button) : Buttons := bs.foldl (fun s b => s.union (ofButton b)) empty

def isEmpty (s : Buttons) : Bool := s.mask == 0

def text (s : Buttons) : String :=
  if s.isEmpty then "none" else "+".intercalate (s.toList.map Button.name)

/-- A combination names buttons between plus signs; blanks around a name and empty places do not
count. The first unknown name is the error. -/
def ofCombo (combo : String) : Except String Buttons :=
  let names := ((Text.pieces '+' combo.toList).map Text.trim).filter fun n => !n.isEmpty
  names.foldlM (fun s cs =>
    match Button.ofName? (String.ofList cs) with
    | some b => .ok (s.union (ofButton b))
    | none => .error (String.ofList cs)) empty

@[simp] theorem mem_toList {s : Buttons} {b : Button} : b ∈ s.toList ↔ s.holds b := by
  simp [toList]

example : ofCombo " L1 + R1+" = .ok ⟨0xC00⟩ := by rfl
example : ofCombo "L3+Home" = .error "Home" := by rfl
example : (⟨0x4010⟩ : Buttons).text = "Up+X" := by decide +kernel

end Buttons
end PadScript
