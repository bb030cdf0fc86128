import Parsing.Run

set_option autoImplicit false

/-! # Parsers

A parser is a function from a cursor to a run. It keeps no state, so it can be applied any number
of times and anywhere. This file has the parsers for single characters and fixed texts, and the
combinators that put parsers together without repeating any of them.

* `bind` continues with a parser chosen by each value, `sequence` with a fixed one.
* `orElse` is committed: its second parser runs only where the first has no success, and from where
  the first one started.
* `label` names what is expected where a parser starts. -/

namespace Parsing

/-- A function from a place in a text to what can be read there. -/
def Parser (α : Type) : Type := Cursor → Run α

namespace Parser

variable {α β γ : Type}

/-! ## Parsers for nothing, a character, a text, the end -/

/-- Reads nothing and gives `value`. -/
def succeed (value : α) : Parser α := fun c => .quiet (.success value c)

/-- Always fails, where `label` was expected. -/
def fail (label : String) : Parser α := fun c => .quiet (.failure (.missing c label))

/-- Has no success and gives no reason. -/
def never : Parser α := fun _ => .empty

/-- Reads a character that passes the test; otherwise `label` was expected. -/
def charWhere (test : Char → Bool) (label : String) : Parser Char := fun c =>
  match c.unread with
  | [] => fail label c
  | x :: _ => if test x then succeed x c.next else fail label c

/-- Reads the characters `xs` and gives `text`; fails at the first one that differs, which is then
    the one expected. -/
def literalFrom (text : String) : List Char → Parser String
  | [] => succeed text
  | x :: xs => fun c =>
    match c.unread with
    | [] => fail (Quoted.char x) c
    | y :: _ => if y = x then literalFrom text xs c.next else fail (Quoted.char x) c

/-- Reads exactly `text`. -/
def literal (text : String) : Parser String := literalFrom text text.toList

/-- Succeeds where nothing is left to read. -/
def endOfInput : Parser Unit := fun c =>
  match c.unread with
  | [] => succeed () c
  | _ :: _ => fail "end of input" c

/-- Reads nothing and leaves `records` in the log. -/
def record (records : List Record) : Parser Unit := fun c =>
  ⟨.success () c, records.map .record⟩

/-! ## Combinators -/

/-- Continues each success of `p` with the parser that its value chooses. -/
def bind (p : Parser α) (f : α → Parser β) : Parser β := fun c =>
  (p c).andThen fun x => f x.value x.rest

/-- Changes every value. -/
def map (f : α → β) (p : Parser α) : Parser β := fun c => (p c).map f

/-- `p` where it has a success, and otherwise `q` from the same place. The failure of `p` still
    counts. -/
def orElse (p q : Parser α) : Parser α := fun c =>
  let r := p c
  if r.outcome.isSuccess then r
  else
    let s := q c
    ⟨s.outcome.withFailure r.outcome.furthest, r.events ++ s.events⟩

/-- `p` and then `q` on what each success of `p` leaves, their values joined. -/
def sequence (join : α → β → γ) (p : Parser α) (q : Parser β) : Parser γ := fun c =>
  (p c).andThen fun x => (q x.rest).map (join x.value)

/-- The successes of `p` and then those of `q`, both from the same place. -/
def union (p q : Parser α) : Parser α := fun c => (p c).append (q c)

/-- A failure of `p` where it started is told as `name`; one further on is left as it is. -/
def label (name : String) (p : Parser α) : Parser α := fun c =>
  let r := p c
  ⟨⟨r.outcome.successes, r.outcome.furthest.map (·.relabel c name)⟩, r.events⟩

/-- `p`, with `label` recorded as expected here whether it succeeds or not. -/
def note (label : String) (p : Parser α) : Parser α := fun c =>
  let r := p c
  ⟨r.outcome.withFailure (some (.missing c label)), r.events⟩

/-- `p` without reading: its successes leave the input as it was. -/
def look (p : Parser α) : Parser α := fun c =>
  let r := p c
  ⟨⟨r.outcome.successes.map fun x => ⟨x.value, c⟩, r.outcome.furthest⟩, r.events⟩

/-! ## Characters -/

/-- Reads a character that passes the test. -/
def satisfy (test : Char → Bool) : Parser Char := charWhere test "matching character"

/-- Reads the character `x`. -/
def character (x : Char) : Parser Char := charWhere (· == x) (Quoted.char x)

/-- Reads an ASCII digit. -/
def digit : Parser Char := charWhere Char.isDigit "digit"

/-- The number that an ASCII digit stands for. -/
def digitValue (x : Char) : Nat := x.toNat - '0'.toNat

/-- Reads an ASCII digit as a number. -/
def decimalDigit : Parser Nat := digit.map digitValue

/-- Reads any character. -/
def anyChar : Parser Char := charWhere (fun _ => true) "any character"

/-- Reads one of the characters of `choices`. -/
def oneOf (choices : String) : Parser Char :=
  charWhere choices.toList.contains ("one of " ++ Quoted.string choices)

/-! ## Sequences of two -/

/-- `p` and then `q`, with both values. -/
def pair (p : Parser α) (q : Parser β) : Parser (α × β) := sequence Prod.mk p q

/-- `p` and then `q`, with the value of `p`. -/
def thenIgnore (p : Parser α) (q : Parser β) : Parser α := sequence (fun a _ => a) p q

/-- `p` and then `q`, with the value of `q`. -/
def ignoreThen (p : Parser α) (q : Parser β) : Parser β := sequence (fun _ b => b) p q

/-- `p` if it succeeds, and otherwise nothing. -/
def optional (p : Parser α) : Parser (Option α) := orElse (map some p) (succeed none)

/-! ## Whole texts -/

/-- Applies `p` at the start of `text`. -/
def applyText (p : Parser α) (text : String) : Run α := p (.ofString text)

/-- A parser as it is shown: nothing can be seen of it. -/
def describe (_ : Parser α) : String := "Parser"

end Parser

end Parsing
