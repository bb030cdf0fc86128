import Parsing.IndexedCursor
import Parsing.Script.Term

set_option autoImplicit false

/-! # Registers of cursors

A row of cursors that steps look at, move and add to. Reading a text makes a source of its own each
time; moving forward or copying stays in the source. Only `next` and `nth` move the cursor in its
register: every other step leaves the registers as they were, apart from those it appends. -/

namespace Parsing

namespace Registers

open Script

/-- A row of cursors, and how many sources have been read. -/
structure Cursors where
  row : List IndexedCursor
  sources : Nat
  deriving Repr

/-- A step on one cursor. -/
inductive CursorStep where
  /-- Reads a text, as a source of its own. -/
  | read (text : String)
  | copy
  | peek
  | uncons
  | next
  | nth (n : Nat)
  | collect
  | offset
  | isEmpty
  | text
  | describe
  | sizeHint
  | isSuffixOf (other : Nat)
  | equals (other : Nat)
  | apply (parser : Term)

/-- What a step answers. -/
inductive CursorReply where
  | nothing
  | located (x : Option Located)
  | all (xs : List Located)
  | number (n : Nat)
  | flag (b : Bool)
  | text (s : String)
  /-- The least and the greatest number of characters still to come. -/
  | bounds (least greatest : Nat)
  | run (r : Logged (Except Fault (Outcome Value)))

namespace Cursors

/-- One cursor at the start of a text. -/
def start (text : String) : Cursors := ⟨[.ofSource 0 text], 1⟩

/-- The cursors with more of them at the end. -/
def push (cs : Cursors) (more : List IndexedCursor) : Cursors := { cs with row := cs.row ++ more }

/-- The cursors with `c` in register `s`. -/
def set (cs : Cursors) (s : Nat) (c : IndexedCursor) : Cursors := { cs with row := cs.row.set s c }

/-- Whether `test` holds between `c` and the cursor in another register. -/
def relates (cs : Cursors) (test : IndexedCursor → IndexedCursor → Bool) (c : IndexedCursor)
    (other : Nat) : Bool :=
  match cs.row[other]? with
  | some d => test c d
  | none => false

/-- One step on the cursor `c`, which is in register `s`: the registers after it, and its answer. -/
def stepOn (cs : Cursors) (s : Nat) (c : IndexedCursor) :
    CursorStep → Cursors × CursorReply
  | .read text => ({ cs.push [.ofSource cs.sources text] with sources := cs.sources + 1 }, .nothing)
  | .copy => (cs.push [c], .nothing)
  | .peek => (cs, .located c.peek)
  | .uncons =>
    match c.uncons with
    | none => (cs, .located none)
    | some (x, rest) => (cs.push [rest], .located (some x))
  | .next => (cs.set s c.next.2, .located c.next.1)
  | .nth n => (cs.set s (c.nth n).2, .located (c.nth n).1)
  | .collect => (cs, .all c.toList)
  | .offset => (cs, .number c.offset)
  | .isEmpty => (cs, .flag c.isEmpty)
  | .text => (cs, .text c.text)
  | .describe => (cs, .text c.describe)
  | .sizeHint => (cs, .bounds c.sizeHint.1 c.sizeHint.2)
  | .isSuffixOf other => (cs, .flag (cs.relates IndexedCursor.isSuffixOf c other))
  | .equals other => (cs, .flag (cs.relates IndexedCursor.same c other))
  | .apply parser =>
    let run := parser.grammar.parser c.cursor
    (cs.push (run.outcome.successes.map fun x => c.seek x.rest.offset), .run run.logged)

/-- One step on register `s`: the registers after it, and its answer. Nothing happens where there
    is no such register. -/
def step (cs : Cursors) (s : Nat) (action : CursorStep) : Cursors × CursorReply :=
  match cs.row[s]? with
  | some c => cs.stepOn s c action
  | none => (cs, .nothing)

end Cursors

end Registers

end Parsing
