import Parsing.Failure
import Parsing.Text.Quoted

set_option autoImplicit false

/-! # Parse errors

A parse error tells that no way of reading the text was found: the furthest place that any
alternative reached, what stood there, and the labels of what would have been accepted. `message`
is its wording in one line. -/

namespace Parsing

/-- No way of parsing a text was found. -/
structure ParseError where
  position : Position
  found : Option Char
  expected : List String
  deriving DecidableEq, Repr

namespace ParseError

/-- The error that a failure stands for: its labels in order. -/
def ofFailure (f : Failure) : ParseError := ⟨f.position, f.found, f.expected.toList⟩

/-- The error of a parse that left no failure behind. -/
def unexplained : ParseError := ⟨.start, none, []⟩

/-- The error of a parse without success whose furthest failure is `furthest`. -/
def ofFurthest : Option Failure → ParseError
  | some f => ofFailure f
  | none => unexplained

/-- Labels separated by commas. -/
def commaSeparated : List String → String
  | [] => ""
  | [label] => label
  | label :: labels => label ++ ", " ++ commaSeparated labels

/-- The labels as alternatives: `nothing`, `A`, `A or B`, `A, B or C`. -/
def describeExpected (labels : List String) : String :=
  match labels.getLast? with
  | none => "nothing"
  | some last =>
    match labels.dropLast with
    | [] => last
    | first => commaSeparated first ++ " or " ++ last

/-- The character that stood in the way. -/
def describeFound : Option Char → String
  | some c => Quoted.char c
  | none => "end of input"

/-- The error in one line. -/
def message (e : ParseError) : String :=
  e.position.toText ++ ": expected " ++ describeExpected e.expected
    ++ ", found " ++ describeFound e.found

end ParseError

end Parsing
