import Parsing.ParseError

set_option autoImplicit false

/-! # Outcomes

Applying a parser somewhere gives an outcome: its successes in order, each a value with the cursor
left after it, and the furthest failure on the way. No success is a failure of the parser, several
mean that the text was ambiguous there. Outcomes are put together by `append`. -/

namespace Parsing

/-- One way of reading the input: a value and what is left unread. -/
structure Success (α : Type) where
  value : α
  rest : Cursor
  deriving DecidableEq, Repr

/-- What a parser made of its input. -/
structure Outcome (α : Type) where
  /-- The ways of reading the input, in order. -/
  successes : List (Success α)
  /-- The furthest failure on the way to them. -/
  furthest : Option Failure
  deriving DecidableEq, Repr

/-- The same way of reading, with another value. -/
def Success.map {α β : Type} (f : α → β) (x : Success α) : Success β := ⟨f x.value, x.rest⟩

namespace Outcome

variable {α β : Type}

/-! ## Making outcomes -/

/-- One success. -/
def success (value : α) (rest : Cursor) : Outcome α := ⟨[⟨value, rest⟩], none⟩

/-- No success, for the reason given. -/
def failure (f : Failure) : Outcome α := ⟨[], some f⟩

/-- The successes given, and no failure recorded. -/
def ofSuccesses (xs : List (Success α)) : Outcome α := ⟨xs, none⟩

/-- No success and no reason. -/
def empty : Outcome α := ofSuccesses []

/-! ## Combining outcomes -/

/-- One more failure is taken into account. -/
def withFailure (o : Outcome α) (f : Option Failure) : Outcome α :=
  ⟨o.successes, Failure.mergeOptions o.furthest f⟩

/-- The successes of both, in order, and the further of their failures. -/
def append (o q : Outcome α) : Outcome α :=
  ⟨o.successes ++ q.successes, Failure.mergeOptions o.furthest q.furthest⟩

/-- Every value is replaced by its image. -/
def map (f : α → β) (o : Outcome α) : Outcome β := ⟨o.successes.map (Success.map f), o.furthest⟩

/-! ## Looking at outcomes -/

/-- There is no success. -/
def isFailure (o : Outcome α) : Bool := o.successes.isEmpty

/-- There is a success. -/
def isSuccess (o : Outcome α) : Bool := !o.isFailure

/-- The number of successes. -/
def size (o : Outcome α) : Nat := o.successes.length

/-- The first success. -/
def first? (o : Outcome α) : Option (Success α) := o.successes.head?

/-- The first success's value, or the furthest failure as an error. -/
def result (o : Outcome α) : Except ParseError α :=
  match o.successes with
  | x :: _ => .ok x.value
  | [] => .error (.ofFurthest o.furthest)

/-! ## What combining does to each part -/

@[simp] theorem successes_append (o q : Outcome α) :
    (o.append q).successes = o.successes ++ q.successes := rfl

@[simp] theorem furthest_append (o q : Outcome α) :
    (o.append q).furthest = Failure.mergeOptions o.furthest q.furthest := rfl

@[simp] theorem successes_withFailure (o : Outcome α) (f : Option Failure) :
    (o.withFailure f).successes = o.successes := rfl

@[simp] theorem furthest_withFailure (o : Outcome α) (f : Option Failure) :
    (o.withFailure f).furthest = Failure.mergeOptions o.furthest f := rfl

@[simp] theorem successes_map (f : α → β) (o : Outcome α) :
    (o.map f).successes = o.successes.map (Success.map f) := rfl

@[simp] theorem furthest_map (f : α → β) (o : Outcome α) : (o.map f).furthest = o.furthest := rfl

@[simp] theorem append_empty (o : Outcome α) : o.append empty = o := by
  obtain ⟨xs, f⟩ := o
  simp [append, empty, ofSuccesses]

@[simp] theorem empty_append (o : Outcome α) : empty.append o = o := rfl

end Outcome

end Parsing
