import Parsing.Run

set_option autoImplicit false

/-! # Values that come with log records

What a step leaves in the log stands beside its value. Steps one after the other leave their
records in that order. -/

namespace Parsing

/-- A value, and the records written on the way to it. -/
structure Logged (α : Type) where
  records : List Record
  value : α
  deriving Repr

namespace Logged

/-- A value without records. -/
def silent {α : Type} (value : α) : Logged α := ⟨[], value⟩

/-- One step after another. -/
def andThen {α β : Type} (x : Logged α) (f : α → Logged β) : Logged β :=
  ⟨x.records ++ (f x.value).records, (f x.value).value⟩

instance : Monad Logged where
  pure := silent
  bind := andThen

end Logged

/-- What is left in the log by a run, and its outcome unless a fault came first. -/
def Run.logged {α : Type} (r : Run α) : Logged (Except Fault (Outcome α)) :=
  ⟨r.settle.1, r.settle.2⟩

end Parsing
