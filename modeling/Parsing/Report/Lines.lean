set_option autoImplicit false

/-! # Lines of a source

A source is cut into lines behind each line terminator: line feed, carriage return with or without
a line feed after it, vertical tab, form feed, next line, line separator and paragraph separator.
Nothing is lost: the lines joined are the source (`flatten_linesOf`). `locate` finds the line and
the column of an offset. -/

namespace Parsing.Report

/-- `c` ends a line, where it is not the first half of a terminator of two characters. -/
def isTerminator (c : Char) : Bool :=
  c == '\n' || c == '\r' || c == '\x0b' || c == '\x0c' || c == '\u0085' || c == '\u2028'
    || c == '\u2029'

/-- `c` in front of the first line. -/
def consLine (c : Char) : List (List Char) → List (List Char)
  | [] => [[c]]
  | line :: lines => (c :: line) :: lines

/-- The lines of a source, each with its terminator. -/
def linesOf : List Char → List (List Char)
  | [] => []
  | '\r' :: '\n' :: rest => ['\r', '\n'] :: linesOf rest
  | c :: rest => if isTerminator c then [c] :: linesOf rest else consLine c (linesOf rest)

theorem flatten_consLine (c : Char) (lines : List (List Char)) :
    (consLine c lines).flatten = c :: lines.flatten := by
  cases lines <;> rfl

theorem flatten_linesOf (source : List Char) : (linesOf source).flatten = source := by
  fun_induction linesOf source with
  | case1 => rfl
  | case2 rest ih => simp [ih]
  | case3 c rest _ h ih => simp [ih]
  | case4 c rest _ h ih => rw [flatten_consLine, ih]

/-- A place in a source: the number of its line from zero, the number of characters before it in
    that line, and the line. -/
structure Spot where
  line : Nat
  column : Nat
  text : List Char
  deriving DecidableEq, Repr

/-- The place `offset` characters on from the start of line `number`, where `lines` are the lines
    from there on: it is in the last line that starts there or before. -/
def locateFrom (number offset : Nat) : List (List Char) → Spot
  | [] => ⟨number, offset, []⟩
  | [line] => ⟨number, offset, line⟩
  | line :: lines =>
    if line.length ≤ offset then locateFrom (number + 1) (offset - line.length) lines
    else ⟨number, offset, line⟩

/-- The place `offset` characters into a source. -/
def locate (source : List Char) (offset : Nat) : Spot := locateFrom 0 offset (linesOf source)

end Parsing.Report
