import Parsing.ParseError

set_option autoImplicit false

/-! # Errors over their texts

A parse error is shown over the text it came from by a renderer, which is asked to mark the
character at which the error happened (`ParseError.request`). An error at the end of the text has no
such character, so one space is added to the text. Where the renderer cannot write, the error in one
line stands for its report.

Which renderer that is does not matter here: `ParseError.reportBy` takes it as an argument. -/

namespace Parsing

/-- What a renderer is asked for: a message, and a label at the characters from `start` up to
    `stop`. -/
structure Request where
  start : Nat
  stop : Nat
  message : String
  label : String
  deriving DecidableEq, Repr

/-- A renderer of reports: the lines that it cuts a source into, and what it writes for a request
    over a source, if it can write at all. -/
structure Renderer where
  lines : List Char → List (List Char)
  write : Request → String → Option String

namespace ParseError

/-- What is asked for to show an error: its message, and a label at one character. -/
def request (e : ParseError) : Request where
  start := e.position.offset
  stop := e.position.offset + 1
  message := e.message
  label := "expected " ++ describeExpected e.expected

/-- The error over the text it came from. -/
def reportBy (renderer : Renderer) (e : ParseError) (source : String) : String :=
  match renderer.write e.request (source ++ " ") with
  | some report => report
  | none => e.message

end ParseError

end Parsing
