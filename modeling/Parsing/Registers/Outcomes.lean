import Parsing.Script.Operation
import Parsing.Outcome

set_option autoImplicit false

/-! # Registers of outcomes

A row of outcomes over one text that steps look at and add to. Places in the text are given by
offsets; one past the end means the end. -/

namespace Parsing.Registers

open Script

/-- A failure given by a place in the text and labels, where the position and the character found
    may be overridden. -/
structure FailureSpec where
  place : Nat
  labels : List String
  position : Option Position
  found : Option (Option Char)
  deriving Repr

/-- The failure that is meant. -/
def FailureSpec.failure (text : Cursor) (spec : FailureSpec) : Failure :=
  let f := (Failure.here (text.drop spec.place)).expectAll spec.labels
  { f with position := spec.position.getD f.position, found := spec.found.getD f.found }

/-- A step on outcomes, which are named by the numbers of their registers. -/
inductive OutcomeStep where
  | success (value : Value) (place : Nat)
  | failure (spec : FailureSpec)
  | ofSuccesses (xs : List (Value × Nat))
  | withFailure (a : Nat) (spec : Option FailureSpec)
  | append (a b : Nat)
  | map (a : Nat) (change : Change)
  | merge (x y : FailureSpec)
  | equals (a b : Nat)
  | summary (a : Nat)
  | first (a : Nat)
  | successes (a : Nat)
  | result (a : Nat)

/-- What a step answers. -/
inductive OutcomeReply where
  | outcome (o : Outcome Value)
  | failure (f : Failure)
  | flag (b : Bool)
  | summary (size : Nat) (isEmpty isSuccess isFailure : Bool)
  | first (x : Option (Success Value))
  | successes (xs : List (Success Value))
  | result (r : Except ParseError Value)

/-- A row of outcomes over one text. -/
structure Outcomes where
  text : Cursor
  row : List (Outcome Value)
  deriving Repr

namespace Outcomes

/-- No outcomes yet over `text`. -/
def start (text : String) : Outcomes := ⟨.ofString text, []⟩

/-- The outcome in a register. -/
def get (os : Outcomes) (a : Nat) : Outcome Value := (os.row[a]?).getD .empty

/-- Appends an outcome and answers it. -/
def push (os : Outcomes) (o : Outcome Value) : Outcomes × OutcomeReply :=
  ({ os with row := os.row ++ [o] }, .outcome o)

/-- One step: the registers after it, and its answer. -/
def step (os : Outcomes) : OutcomeStep → Outcomes × OutcomeReply
  | .success value place => os.push (.success value (os.text.drop place))
  | .failure spec => os.push (.failure (spec.failure os.text))
  | .ofSuccesses xs => os.push (.ofSuccesses (xs.map fun x => ⟨x.1, os.text.drop x.2⟩))
  | .withFailure a spec => os.push ((os.get a).withFailure (spec.map (·.failure os.text)))
  | .append a b => os.push ((os.get a).append (os.get b))
  | .map a change => os.push ((os.get a).map change.apply)
  | .merge x y => (os, .failure ((x.failure os.text).merge (y.failure os.text)))
  | .equals a b => (os, .flag (decide (os.get a = os.get b)))
  | .summary a =>
    let o := os.get a
    (os, .summary o.size o.isFailure o.isSuccess o.isFailure)
  | .first a => (os, .first (os.get a).first?)
  | .successes a => (os, .successes (os.get a).successes)
  | .result a => (os, .result (os.get a).result)

end Outcomes

end Parsing.Registers
