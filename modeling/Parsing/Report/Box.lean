import Parsing.Report.Lines
import Parsing.Report.Renderer
import Parsing.Text.Blank
import Parsing.Text.Width

set_option autoImplicit false

/-! # Boxes

The renderer `boxed` shows the line in which a span starts, in a box with the line's number, and
below it a marker under the first character of the span. A span that starts behind the end of the
source leaves nothing to show but the message. -/

namespace Parsing.Report

/-! ## Columns -/

/-- The line without the white space at its end. -/
def trimmed (line : List Char) : List Char := (line.reverse.dropWhile isBlank).reverse

/-- The number of screen columns of the cell with the index `i` that holds `c`: a tab reaches to
    the next multiple of four, counted in characters. -/
def cellWidth (i : Nat) (c : Char) : Nat :=
  if c = '\t' then (i / 4 + 1) * 4 - i
  else if isBlank c then 1
  else columnsOf c

/-- What is drawn in the cell with the index `i` that holds `c`. -/
def cellText (i : Nat) (c : Char) : List Char :=
  if isBlank c then List.replicate (cellWidth i c) ' ' else [c]

/-- The cells of a line from the index `i` on, as they are drawn. -/
def drawFrom (i : Nat) : List Char → List Char
  | [] => []
  | c :: cs => cellText i c ++ drawFrom (i + 1) cs

/-- The width of the cell with the index `i` of a line: behind its end, cells have one column. -/
def widthAt (line : List Char) (i : Nat) : Nat :=
  match line.drop i with
  | c :: _ => cellWidth i c
  | [] => 1

/-! ## Markers -/

/-- A cell of `width` columns that starts with `head`, drawn on with `tail`. -/
def cell (head tail : Char) : Nat → List Char
  | 0 => []
  | width + 1 => head :: List.replicate width tail

/-- The cells up to two behind the marked one, where cell `i` is drawn by `draw i`. -/
def markerRow (column : Nat) (draw : Nat → List Char) : List Char :=
  (List.range (column + 3)).flatMap draw

/-- The row that points at the character in column `column` of a line. -/
def pointerRow (line : List Char) (column : Nat) : List Char :=
  markerRow column fun i =>
    if i = column then cell '┬' '─' (widthAt line i) else cell ' ' ' ' (widthAt line i)

/-- The row that leads from there to the message. -/
def leaderRow (line : List Char) (column : Nat) : List Char :=
  markerRow column fun i =>
    if i < column then cell ' ' ' ' (widthAt line i)
    else if i = column then cell '╰' '─' (widthAt line i)
    else cell '─' '─' (widthAt line i)

/-! ## The box -/

/-- A line of the report. -/
def row (cs : List Char) : String := String.ofList cs ++ "\n"

/-- The number of a line or column as it is shown: counted from one. -/
def ordinal (n : Nat) : String := toString (n + 1)

/-- The place in the source as it is shown. -/
def location (spot : Spot) : String := ordinal spot.line ++ ":" ++ ordinal spot.column

/-- The rows between the top and the bottom of the box: the line, and the marker with its message.
    At the very end of the source there is nothing to mark. -/
def body (margin : String) (spot : Spot) (atEnd : Bool) (message : String) : String :=
  if atEnd then margin ++ "│ \n"
  else
    let line := trimmed spot.text
    " " ++ ordinal spot.line ++ " │ " ++ row (drawFrom 0 line)
      ++ margin ++ "│ " ++ row (pointerRow line spot.column)
      ++ margin ++ "│ " ++ String.ofList (leaderRow line spot.column) ++ " " ++ message ++ "\n"

/-- The box around a place in a source. -/
def box (spot : Spot) (atEnd : Bool) (message : String) : String :=
  let width := (ordinal spot.line).length + 2
  let margin := String.ofList (List.replicate width ' ')
  margin ++ "╭─[ <unknown>:" ++ location spot ++ " ]\n" ++ margin ++ "│\n"
    ++ body margin spot atEnd message
    ++ row (List.replicate width '─' ++ ['╯'])

/-- The message, and below it the box around the place where the span starts. -/
def write (request : Request) (source : String) : String :=
  let heading := "Error: " ++ request.message ++ "\n"
  if source.toList.length < request.start then heading
  else
    heading ++ box (locate source.toList request.start)
      (decide (request.start = source.toList.length)) request.label

/-- The renderer that draws boxes. It can always write. -/
def boxed : Renderer := ⟨linesOf, fun request source => some (write request source)⟩

end Parsing.Report

namespace Parsing.ParseError

/-- The error over the text it came from, in a box. -/
def report (e : ParseError) (source : String) : String := e.reportBy Report.boxed source

end Parsing.ParseError
