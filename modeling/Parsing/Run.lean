import Parsing.Outcome

set_option autoImplicit false

/-! # Runs

A run is what happens when a parser is applied: its outcome, and on the way to it a list of events.
An event is a record for the log or a fault. A fault is a mistake in the way a parser was put
together that comes to light only when the parser is applied; the run is worth nothing then, and
`settle` answers with the first fault and the records before it.

Runs are put together by `append`, and `andThen` continues a run from each of its successes. -/

namespace Parsing

/-- How much attention a record asks for. -/
inductive Level where
  | debug
  | trace
  deriving DecidableEq, Repr

/-- A line of the log. -/
structure Record where
  level : Level
  message : String
  deriving DecidableEq, Repr

/-- Written to the log when a definition is supplied. -/
def Record.defined : Record := ⟨.trace, "deferred parser defined"⟩

/-- A mistake in the way a parser was put together. -/
inductive Fault where
  /-- A handle was applied while its definition was still missing. -/
  | undefined
  /-- A handle was applied when nothing held its definition any more. -/
  | dropped
  /-- A rule was entered again where it was entered already, with nothing read in between. -/
  | leftRecursion
  deriving DecidableEq, Repr

/-- The wording of a fault. -/
def Fault.message : Fault → String
  | .undefined => "deferred parser applied before it was defined"
  | .dropped => "deferred parser applied after its definition was dropped"
  | .leftRecursion => "rule entered again with nothing read in between"

/-- What can happen while a parser runs. -/
inductive Event where
  | record (r : Record)
  | fault (f : Fault)
  deriving DecidableEq, Repr

/-- What a parser made of its input, and what happened on the way. -/
structure Run (α : Type) where
  outcome : Outcome α
  events : List Event
  deriving DecidableEq, Repr

namespace Run

variable {α β : Type}

/-! ## Making runs -/

/-- A run without events. -/
def quiet (o : Outcome α) : Run α := ⟨o, []⟩

/-- Nothing was tried. -/
def empty : Run α := quiet .empty

/-- A run that a fault made worthless. -/
def faulty (f : Fault) : Run α := ⟨.empty, [.fault f]⟩

/-! ## Combining runs -/

/-- One run, then another: successes and events in order, and the further of the failures. -/
def append (r q : Run α) : Run α := ⟨r.outcome.append q.outcome, r.events ++ q.events⟩

/-- Every value is replaced by its image. -/
def map (f : α → β) (r : Run α) : Run β := ⟨r.outcome.map f, r.events⟩

/-- The failure and the events of a run, without its successes. -/
def barren (r : Run α) : Run β := ⟨⟨[], r.outcome.furthest⟩, r.events⟩

/-- The runs that start at the successes given, one after the other. -/
def gather (next : Success α → Run β) : List (Success α) → Run β
  | [] => empty
  | x :: xs => (next x).append (gather next xs)

/-- A run continued from each of its successes in order. -/
def andThen (r : Run α) (next : Success α → Run β) : Run β :=
  r.barren.append (gather next r.outcome.successes)

@[simp] theorem outcome_append (r q : Run α) :
    (r.append q).outcome = r.outcome.append q.outcome := rfl

@[simp] theorem events_append (r q : Run α) : (r.append q).events = r.events ++ q.events := rfl

@[simp] theorem outcome_map (f : α → β) (r : Run α) : (r.map f).outcome = r.outcome.map f := rfl

@[simp] theorem events_map (f : α → β) (r : Run α) : (r.map f).events = r.events := rfl

@[simp] theorem append_empty (r : Run α) : r.append empty = r := by
  obtain ⟨o, es⟩ := r
  simp [append, empty, quiet]

@[simp] theorem empty_append (r : Run α) : empty.append r = r := rfl

@[simp] theorem gather_nil (next : Success α → Run β) : gather next [] = empty := rfl

@[simp] theorem gather_cons (next : Success α → Run β) (x : Success α) (xs : List (Success α)) :
    gather next (x :: xs) = (next x).append (gather next xs) := rfl

/-! ## What a run comes to -/

/-- The records before the first fault, and the fault if there is one. -/
def settleEvents : List Event → List Record × Option Fault
  | [] => ([], none)
  | .record r :: es => ((settleEvents es).map (r :: ·) id)
  | .fault f :: _ => ([], some f)

/-- What is logged and what comes out: the first fault, or the outcome. -/
def settle (r : Run α) : List Record × Except Fault (Outcome α) :=
  let (records, fault) := settleEvents r.events
  (records, match fault with
    | some f => .error f
    | none => .ok r.outcome)

end Run

end Parsing
