import PadScript.Disk
import PadScript.Storage.Basic

/-!
# Storage in a folder

Scripts lie below a folder and have an extension. Names that could lead out of the folder are
refused. Outputs are written into the folder, which is made when it is not there.
-/
namespace PadScript

structure FolderStorage where
  disk : Disk
  root : String
  extension : String
  deriving DecidableEq, Repr, Inhabited

namespace FolderStorage

def scriptPath (s : FolderStorage) (name : String) : Except StorageError String :=
  if Path.isInner name then .ok (Path.join s.root (name ++ s.extension))
  else .error (.invalidName name)

def read (s : FolderStorage) (name : String) : Except StorageError String := do
  let path ← s.scriptPath name
  match s.disk.read path with
  | .ok text => .ok text
  | .error .missing => .error (.notFound path)
  | .error e => .error (.failed path e.message)

def write (s : FolderStorage) (name contents : String) : Except StorageError Unit × FolderStorage :=
  let path := Path.join s.root name
  match s.disk.ensureFolder s.root with
  | (.error e, disk) => (.error (.failed path e.message), { s with disk })
  | (.ok (), disk) =>
    match disk.write path contents with
    | .error e => (.error (.failed path e.message), { s with disk })
    | .ok disk => (.ok (), { s with disk })

def location (s : FolderStorage) (name : String) : String :=
  match s.scriptPath name with
  | .ok path => path
  | .error _ => name

instance : Storage FolderStorage := ⟨read, write, location⟩

end FolderStorage
end PadScript
