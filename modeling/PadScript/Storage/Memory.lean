import PadScript.Storage.Basic

/-!
# Storage in memory

Scripts and outputs are kept apart, so that what is written is never read back as a script.
-/
namespace PadScript

/-- Texts by name, each name once. -/
abbrev Texts := List (String × String)

def Texts.put (name text : String) (texts : Texts) : Texts :=
  (name, text) :: texts.filter fun entry => entry.1 ≠ name

theorem Texts.lookup_put (texts : Texts) (name other text : String) :
    List.lookup other (texts.put name text) =
      if other = name then some text else texts.lookup other := by
  unfold Texts.put
  by_cases h : other = name
  · simp [h]
  · have hb : (other == name) = false := by simpa using h
    simp only [List.lookup_cons, hb, if_neg h]
    induction texts with
    | nil => rfl
    | cons t r ih => grind [List.filter]

structure MemoryStorage where
  scripts : Texts := []
  outputs : Texts := []
  deriving DecidableEq, Repr, Inhabited

namespace MemoryStorage

def insertScript (s : MemoryStorage) (name text : String) : MemoryStorage :=
  { s with scripts := s.scripts.put name text }

def outputEndingWith? (s : MemoryStorage) (ending : String) : Option (String × String) :=
  s.outputs.find? fun entry => entry.1.endsWith ending

instance : Storage MemoryStorage where
  read s name := match s.scripts.lookup name with
    | some text => .ok text
    | none => .error (.notFound name)
  write s name contents := (.ok (), { s with outputs := s.outputs.put name contents })
  location _ name := name

end MemoryStorage
end PadScript
