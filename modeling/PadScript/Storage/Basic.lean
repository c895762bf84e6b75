/-!
# Storages

A storage holds scripts by name and takes output files. Everything else reaches scripts and
outputs through this class only.
-/
namespace PadScript

inductive StorageError
  | notFound (path : String)
  | invalidName (name : String)
  | failed (path cause : String)
  deriving DecidableEq, Repr

namespace StorageError

def message : StorageError → String
  | notFound path => "no script at " ++ path
  | invalidName name => "invalid script name '" ++ name ++ "'"
  | failed path cause => path ++ ": " ++ cause

def chain (e : StorageError) : List String :=
  match e with
  | failed _ cause => [e.message, cause]
  | _ => [e.message]

end StorageError

class Storage (σ : Type) where
  /-- The text of a script, which is named without folder and extension. -/
  read : σ → String → Except StorageError String
  /-- An output file is written; the storage afterwards is given even when that failed. -/
  write : σ → (name contents : String) → Except StorageError Unit × σ
  /-- Where a script is looked for, as text for a reader. -/
  location : σ → String → String

end PadScript
