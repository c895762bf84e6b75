import PadScript.Json.Basic

/-!
# Records in JSON

A record is an object with one member for each field, or a list of the fields in order. Members
with other keys are passed over; a field that appears twice makes the record unreadable, and so
does a list with too many items.
-/
namespace PadScript.Json

/-- What a record holds for a field: a value, no member of that key, or a list that ended before
it. -/
inductive Slot
  | given (v : Json)
  | absent
  | beyond

namespace Slot

def required {α : Type} (read : Json → Option α) : Slot → Option α
  | given v => read v
  | _ => none

def orElse {α : Type} (default : α) (read : Json → Option α) : Slot → Option α
  | given v => read v
  | _ => some default

/-- A null or a missing member is no value, but a list has to hold an item. -/
def optional {α : Type} (read : Json → Option α) : Slot → Option (Option α)
  | given .null => some none
  | given v => (read v).map some
  | absent => some none
  | beyond => none

end Slot

/-- The slot of a key among the members of an object. -/
def slotOf (members : List (String × Json)) (key : String) : Option Slot :=
  match members.filter fun m => m.1 = key with
  | [] => some .absent
  | [m] => some (.given m.2)
  | _ => none

def named? (member : Chars × Json) : Option (String × Json) := member.1.map (·, member.2)

/-- The slots of a record with the fields `keys`. -/
def slots (keys : List String) : Json → Option (List Slot)
  | object members =>
    (members.mapM named?).bind fun named => keys.mapM (slotOf named)
  | list items =>
    if items.length ≤ keys.length then
      some (items.map .given ++ List.replicate (keys.length - items.length) .beyond)
    else none
  | _ => none

def record (members : List (String × Json)) : Json :=
  object (members.map fun (k, v) => (some k, v))

end PadScript.Json
