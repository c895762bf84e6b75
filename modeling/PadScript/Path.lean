import PadScript.Text

/-!
# Paths

A path is a text; slashes cut it into pieces, of which the empty ones and the dots stay where they
are, two dots go up and all others go down.
-/
namespace PadScript.Path

def pieces (path : String) : List String := (Text.pieces '/' path.toList).map String.ofList

def isAbsolute (path : String) : Bool := path.toList.head? = some '/'

def isName (piece : String) : Bool := piece ≠ "" && piece ≠ "." && piece ≠ ".."

def isStay (piece : String) : Bool := piece = "" || piece = "."

def join (root path : String) : String :=
  if isAbsolute path || root = "" then path
  else if root.endsWith "/" then root ++ path
  else root ++ "/" ++ path

/-- Pieces that stay at the end of a path do not count for its parent. -/
def trimEnd (ps : List String) : List String := (ps.reverse.dropWhile isStay).reverse

def parent (ps : List String) : List String := trimEnd (trimEnd ps).dropLast

/-- The path of the folder of what lies at a path; it is empty right below the working folder and
the top. -/
def folderOf (path : String) : String := String.intercalate "/" (parent (pieces path))

/-- What a path leads through. -/
inductive Component
  | top | here | up
  | name (piece : String)
  deriving DecidableEq, Repr

namespace Component

def isName : Component → Bool
  | name _ => true
  | _ => false

def ofPiece? (piece : String) : Option Component :=
  if isStay piece then none else if piece = ".." then some .up else some (.name piece)

end Component

/-- Pieces that stay lead through nothing, but for a dot at the start of a relative path. -/
def components (path : String) : List Component :=
  let first := if isAbsolute path then [Component.top]
    else if (pieces path).head? = some "." then [.here]
    else []
  first ++ (pieces path).filterMap Component.ofPiece?

/-- Paths that lead through names only, and through something. -/
def isInner (path : String) : Bool := path ≠ "" && (components path).all Component.isName

example : components "./a//b/./../c" = [.here, .name "a", .name "b", .up, .name "c"] := by decide
example : folderOf "/a//b/./" = "/a" ∧ folderOf "a/.." = "a" ∧ folderOf "/a" = "" := by decide
example : isInner "a/./b" ∧ isInner "a//b" ∧ isInner "a/" := by decide
example : isInner "./a" = false ∧ isInner "a/../b" = false ∧ isInner "" = false := by decide

end PadScript.Path
