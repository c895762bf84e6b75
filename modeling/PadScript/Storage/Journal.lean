import PadScript.Storage.Basic

/-!
# Observed storage

A journal notes every attempt to write, and can be told to refuse them.
-/
namespace PadScript

structure Attempt where
  name : String
  contents : String
  succeeded : Bool
  deriving DecidableEq, Repr

/-- The storage `inner`, with all attempts so far in order. -/
structure Journal (σ : Type) where
  inner : σ
  refusing : Bool := false
  attempts : List Attempt := []

namespace Journal

variable {σ : Type}

def refusal : StorageError := .invalidName "write refused"

def written (j : Journal σ) : List Attempt := j.attempts.filter Attempt.succeeded

instance [Storage σ] : Storage (Journal σ) where
  read j name := Storage.read j.inner name
  write j name contents :=
    if j.refusing then
      (.error refusal, { j with attempts := j.attempts ++ [⟨name, contents, false⟩] })
    else
      let (outcome, inner) := Storage.write j.inner name contents
      (outcome, { j with inner, attempts := j.attempts ++ [⟨name, contents, outcome.isOk⟩] })
  location j name := Storage.location j.inner name

end Journal
end PadScript
