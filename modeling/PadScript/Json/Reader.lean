import PadScript.Json.Token

/-!
# Reading JSON

Values are made up from tokens by a machine that keeps the lists and objects around the present
place on a stack, so that the depth of a document is not bounded.
-/
namespace PadScript.Json

/-- A list or an object around a value that is being read, with what came before, latest first. -/
inductive Frame
  | items (before : List Json)
  | members (before : List (Chars × Json)) (key : Chars)

/-- What may come next, inside the frames `outer`, innermost first. -/
inductive State
  | value (outer : List Frame)
  | firstItem (outer : List Frame)
  | firstKey (outer : List Frame)
  | nextKey (before : List (Chars × Json)) (outer : List Frame)
  | colon (before : List (Chars × Json)) (key : Chars) (outer : List Frame)
  | afterItem (before : List Json) (outer : List Frame)
  | afterMember (before : List (Chars × Json)) (outer : List Frame)
  | complete (v : Json)

namespace State

/-- A value is complete and takes its place. -/
def deliver (v : Json) : List Frame → State
  | [] => complete v
  | .items before :: outer => afterItem (v :: before) outer
  | .members before key :: outer => afterMember ((key, v) :: before) outer

def begin (outer : List Frame) : Token → Option State
  | .null => some (deliver .null outer)
  | .bool b => some (deliver (.bool b) outer)
  | .number n => some (deliver (.number n) outer)
  | .chars s => some (deliver (.chars s) outer)
  | .openList => some (firstItem outer)
  | .openObject => some (firstKey outer)
  | _ => none

def step : State → Token → Option State
  | value outer, t => begin outer t
  | firstItem outer, .closeList => some (deliver (.list []) outer)
  | firstItem outer, t => begin (.items [] :: outer) t
  | firstKey outer, .closeObject => some (deliver (.object []) outer)
  | firstKey outer, .chars key => some (colon [] key outer)
  | nextKey before outer, .chars key => some (colon before key outer)
  | colon before key outer, .colon => some (value (.members before key :: outer))
  | afterItem before outer, .comma => some (value (.items before :: outer))
  | afterItem before outer, .closeList => some (deliver (.list before.reverse) outer)
  | afterMember before outer, .comma => some (nextKey before outer)
  | afterMember before outer, .closeObject => some (deliver (.object before.reverse) outer)
  | _, _ => none

end State

def ofTokens (tokens : List Token) : Option Json :=
  match tokens.foldlM State.step (.value []) with
  | some (.complete v) => some v
  | _ => none

def parse (text : String) : Option Json := (Token.ofText text).bind ofTokens

end PadScript.Json
