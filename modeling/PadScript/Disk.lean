import PadScript.Path

/-!
# Files and folders

A disk as a value: what lies at each place, and the folder from which relative paths lead. Reading
and writing fail with the causes that a disk has.
-/
namespace PadScript

inductive FileError
  | missing | exists | notFolder | isFolder | nameTooLong | nulByte | notText
  deriving DecidableEq, Repr

def FileError.message : FileError → String
  | missing => "No such file or directory (os error 2)"
  | .exists => "File exists (os error 17)"
  | notFolder => "Not a directory (os error 20)"
  | isFolder => "Is a directory (os error 21)"
  | nameTooLong => "File name too long (os error 36)"
  | nulByte => "file name contained an unexpected NUL byte"
  | notText => "stream did not contain valid UTF-8"

/-- A file has a text unless its bytes are not UTF-8. -/
inductive Node
  | folder
  | file (text : Option String)
  deriving DecidableEq, Repr

abbrev Place := List String

/-- Every place but the top appears at most once in `nodes`; `here` is the working folder. -/
structure Disk where
  nodes : List (Place × Node) := []
  here : Place := []
  deriving DecidableEq, Repr, Inhabited

namespace Disk

def longestName : Nat := 255

def longestPath : Nat := 4095

def node? (d : Disk) (place : Place) : Option Node :=
  if place.isEmpty then some .folder else d.nodes.lookup place

def put (d : Disk) (place : Place) (node : Node) : Disk :=
  { d with nodes := (place, node) :: d.nodes.filter fun entry => entry.1 ≠ place }

/-- The folders on the way to a place are made as well. -/
def plant (d : Disk) (place : Place) (node : Node) : Disk :=
  let folders := (List.range place.length).map place.take
  let missing := folders.filter fun p => (d.node? p).isNone
  (missing.foldl (fun d p => d.put p .folder) d).put place node

def folderAt (d : Disk) (place : Place) : Except FileError Unit :=
  match d.node? place with
  | none => .error .missing
  | some (.file _) => .error .notFolder
  | some .folder => .ok ()

/-- The place to which pieces lead; what lies there need not exist, but all before it. -/
def walk (d : Disk) (place : Place) : List String → Except FileError Place
  | [] => .ok place
  | p :: rest => do
    d.folderAt place
    if Path.isStay p then d.walk place rest
    else if p = ".." then d.walk place.dropLast rest
    else if longestName < p.utf8ByteSize then .error .nameTooLong
    else d.walk (place ++ [p]) rest

def start (d : Disk) (path : String) : Place := if Path.isAbsolute path then [] else d.here

def checkPath (path : String) : Except FileError Unit :=
  if path.toList.contains '\x00' then .error .nulByte
  else if path = "" then .error .missing
  else if longestPath < path.utf8ByteSize then .error .nameTooLong
  else .ok ()

def find (d : Disk) (path : String) : Except FileError Node := do
  checkPath path
  let place ← d.walk (d.start path) (Path.pieces path)
  match d.node? place with
  | none => .error .missing
  | some node => .ok node

def read (d : Disk) (path : String) : Except FileError String := do
  match ← d.find path with
  | .folder => .error .isFolder
  | .file none => .error .notText
  | .file (some text) => .ok text

/-- Where the last piece of a path would be made. A last piece that only moves makes nothing. -/
def target (d : Disk) (place : Place) (ps : List String) (moved : FileError) :
    Except FileError Place := do
  match ps.getLast? with
  | none => .error moved
  | some last =>
    let folder ← d.walk place ps.dropLast
    d.folderAt folder
    if Path.isName last then .ok (folder ++ [last]) else .error moved

def checkName (place : Place) : Except FileError Unit :=
  if longestName < (place.getLast?.getD "").utf8ByteSize then .error .nameTooLong else .ok ()

def dropSlashes (ps : List String) : List String := (ps.reverse.dropWhile (· = "")).reverse

/-- A file is made or its text replaced; all folders on the way have to be there. -/
def write (d : Disk) (path text : String) : Except FileError Disk := do
  checkPath path
  let ps := Path.pieces path
  let place ← d.target (d.start path) (dropSlashes ps) .isFolder
  if ps.getLast? = some "" then .error .isFolder
  else
    checkName place
    if d.node? place = some .folder then .error .isFolder
    else .ok (d.put place (.file (some text)))

def makeFolder (d : Disk) (place : Place) (ps : List String) : Except FileError Disk := do
  let place ← d.target place (dropSlashes ps) .exists
  checkName place
  if (d.node? place).isSome then .error .exists else .ok (d.put place .folder)

def isFolder (d : Disk) (place : Place) (ps : List String) : Bool :=
  match d.walk place ps with
  | .ok p => d.node? p == some .folder
  | .error _ => false

/-- A folder is made together with those above it, of which there may be `levels`; one that is
there already is fine. -/
def makeFolders (place : Place) : (levels : Nat) → List String → Disk → Except FileError Unit × Disk
  | levels, ps, d =>
    if Path.trimEnd ps = [] then (.ok (), d)
    else match d.makeFolder place ps, levels with
      | .ok d, _ => (.ok (), d)
      | .error .missing, levels + 1 =>
        match makeFolders place levels (Path.parent ps) d with
        | (.error e, d) => (.error e, d)
        | (.ok (), d) =>
          match d.makeFolder place ps with
          | .ok d => (.ok (), d)
          | .error e => (if d.isFolder place ps then .ok () else .error e, d)
      | .error e, _ => (if d.isFolder place ps then .ok () else .error e, d)

def ensureFolder (d : Disk) (path : String) : Except FileError Unit × Disk :=
  if path = "" then (.ok (), d)
  else match checkPath path with
    | .error e => (.error e, d)
    | .ok () =>
      let ps := Path.pieces path
      makeFolders (d.start path) ps.length ps d

def changes (before after : Disk) : List (Place × String) :=
  after.nodes.filterMap fun (place, node) =>
    match node with
    | .file (some text) => if before.node? place = some node then none else some (place, text)
    | _ => none

end Disk
end PadScript
