import Parsing.Cursor
import Parsing.LabelSet

set_option autoImplicit false

/-! # Failures

A failure says where a parser gave up, what stood there and what it would have accepted. Of two
failures the one further on tells more; two at the same offset pool their labels (`merge`). -/

namespace Parsing

/-- Where a parser gave up, the character there (none at the end of the text), and the labels of
    what was expected. -/
structure Failure where
  position : Position
  found : Option Char
  expected : LabelSet
  deriving DecidableEq, Repr

namespace Failure

/-- A failure at the cursor, with nothing expected yet. -/
def here (c : Cursor) : Failure := ⟨c.position, c.unread.head?, .empty⟩

/-- The failure with one more label. -/
def expect (f : Failure) (label : String) : Failure :=
  { f with expected := f.expected.insert label }

/-- The failure with all of `labels` added. -/
def expectAll (f : Failure) (labels : List String) : Failure :=
  { f with expected := f.expected.insertAll labels }

/-- A failure at the cursor that expected `label`. -/
def missing (c : Cursor) (label : String) : Failure := (here c).expect label

/-- The failure further on; of two at one offset the first, with the labels of both. -/
def merge (f g : Failure) : Failure :=
  if g.position.offset < f.position.offset then f
  else if f.position.offset < g.position.offset then g
  else { f with expected := f.expected.union g.expected }

/-- Two recorded failures merged; where one side has none, the other stays. -/
def mergeOptions : Option Failure → Option Failure → Option Failure
  | some f, some g => some (f.merge g)
  | some f, none => some f
  | none, g => g

/-- The failure as it is told under the name `label`: a failure that happened where the named
    parser started expected just that, and one further on is left as it is. -/
def relabel (start : Cursor) (label : String) (f : Failure) : Failure :=
  if f.position.offset = start.offset then { f with expected := .singleton label } else f

@[simp] theorem mergeOptions_none_left (g : Option Failure) : mergeOptions none g = g := rfl

@[simp] theorem mergeOptions_none_right (f : Option Failure) : mergeOptions f none = f := by
  cases f <;> rfl

@[simp] theorem mergeOptions_some (f g : Failure) :
    mergeOptions (some f) (some g) = some (f.merge g) := rfl

@[simp] theorem position_relabel (c : Cursor) (name : String) (f : Failure) :
    (f.relabel c name).position = f.position := by
  unfold relabel
  split <;> rfl

@[simp] theorem found_relabel (c : Cursor) (name : String) (f : Failure) :
    (f.relabel c name).found = f.found := by
  unfold relabel
  split <;> rfl

end Failure

end Parsing
