set_option autoImplicit false

/-! # Positions in a text

A position counts lines and columns from one and characters from zero. Only a line feed starts a
new line: tabs and carriage returns are characters like any other. -/

namespace Parsing

/-- A place in a text: its line and column, both from one, and the number of characters before
    it. -/
structure Position where
  line : Nat
  column : Nat
  offset : Nat
  deriving DecidableEq, Inhabited, Repr

namespace Position

/-- The place of the first character of any text. -/
def start : Position := ⟨1, 1, 0⟩

/-- The place after `c` when `c` stands at `p`. -/
def advance (p : Position) (c : Char) : Position :=
  if c = '\n' then ⟨p.line + 1, 1, p.offset + 1⟩ else ⟨p.line, p.column + 1, p.offset + 1⟩

/-- The place after all of `cs` when they start at `p`. -/
def advanceAll (p : Position) (cs : List Char) : Position := cs.foldl advance p

/-- The places of the characters of `cs` from `p` on, and the one after the last. -/
def trail (p : Position) : List Char → List Position
  | [] => [p]
  | c :: cs => p :: trail (p.advance c) cs

/-- A position is shown as `line:column`. -/
def toText (p : Position) : String := toString p.line ++ ":" ++ toString p.column

@[simp] theorem offset_advance (p : Position) (c : Char) : (p.advance c).offset = p.offset + 1 := by
  unfold advance; split <;> rfl

@[simp] theorem advanceAll_nil (p : Position) : p.advanceAll [] = p := rfl

@[simp] theorem advanceAll_cons (p : Position) (c : Char) (cs : List Char) :
    p.advanceAll (c :: cs) = (p.advance c).advanceAll cs := rfl

theorem offset_advanceAll (p : Position) (cs : List Char) :
    (p.advanceAll cs).offset = p.offset + cs.length := by
  induction cs generalizing p with
  | nil => rfl
  | cons c cs ih => simp [ih, Nat.add_assoc, Nat.add_comm 1]

end Position

end Parsing
