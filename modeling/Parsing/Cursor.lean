import Parsing.Position

set_option autoImplicit false

/-! # Cursors

A cursor reads a text from some place on. It holds what is still unread, where the next character
stands, and which source it belongs to: two readings of equal texts are different sources, and
their cursors are never related. Moving forward makes a new cursor and leaves the old one as it
was, so alternatives can read the same input again.

`isSuffixOf` compares sources and offsets only. -/

namespace Parsing

/-- A character and the place it was read from. -/
structure Located where
  char : Char
  position : Position
  deriving DecidableEq, Repr

/-- A place in one source, with the text from there on. -/
structure Cursor where
  /-- Which reading of a text the cursor belongs to. -/
  source : Nat
  /-- Where the next character stands, or where the text ends. -/
  position : Position
  /-- The characters from the cursor on. -/
  unread : List Char
  deriving DecidableEq, Repr

namespace Cursor

/-- The start of `text`, read as the source numbered `source`. -/
def ofSource (source : Nat) (text : String) : Cursor := ⟨source, .start, text.toList⟩

/-- The start of `text`, where one source is enough. -/
def ofString (text : String) : Cursor := ofSource 0 text

/-! ## Looking -/

/-- The next character, left unread. -/
def peek (c : Cursor) : Option Located := c.unread.head?.map (⟨·, c.position⟩)

/-- The number of characters behind the cursor. -/
def offset (c : Cursor) : Nat := c.position.offset

/-- The number of characters left to read. -/
def length (c : Cursor) : Nat := c.unread.length

/-- Nothing is left to read. -/
def isEmpty (c : Cursor) : Bool := c.unread.isEmpty

/-- The text from the cursor on. -/
def text (c : Cursor) : String := String.ofList c.unread

/-- `c` reads the same source as `d`, from the same place or from further on. -/
def isSuffixOf (c d : Cursor) : Bool := c.source == d.source && decide (d.offset ≤ c.offset)

/-! ## Moving -/

/-- The next character and the cursor behind it. -/
def uncons (c : Cursor) : Option (Located × Cursor) :=
  match c.unread with
  | [] => none
  | x :: rest => some (⟨x, c.position⟩, ⟨c.source, c.position.advance x, rest⟩)

/-- The cursor behind the next character; at the end it stays. -/
def next (c : Cursor) : Cursor :=
  match c.unread with
  | [] => c
  | x :: rest => ⟨c.source, c.position.advance x, rest⟩

/-- The cursor `n` characters on, or at the end if there are fewer. -/
def drop : Nat → Cursor → Cursor
  | 0, c => c
  | n + 1, c => if c.isEmpty then c else drop n c.next

/-- The characters of a text that starts at `p`, each with its place. -/
def locatedFrom (p : Position) : List Char → List Located
  | [] => []
  | x :: rest => ⟨x, p⟩ :: locatedFrom (p.advance x) rest

/-- Every character from the cursor on, each with its place. -/
def toList (c : Cursor) : List Located := locatedFrom c.position c.unread

/-! ## Small laws -/

@[simp] theorem uncons_nil (s : Nat) (p : Position) : uncons ⟨s, p, []⟩ = none := rfl

@[simp] theorem uncons_cons (s : Nat) (p : Position) (x : Char) (rest : List Char) :
    uncons ⟨s, p, x :: rest⟩ = some (⟨x, p⟩, ⟨s, p.advance x, rest⟩) := rfl

@[simp] theorem next_nil (s : Nat) (p : Position) : next ⟨s, p, []⟩ = ⟨s, p, []⟩ := rfl

@[simp] theorem next_cons (s : Nat) (p : Position) (x : Char) (rest : List Char) :
    next ⟨s, p, x :: rest⟩ = ⟨s, p.advance x, rest⟩ := rfl

@[simp] theorem source_next (c : Cursor) : c.next.source = c.source := by
  unfold next; split <;> rfl

theorem uncons_eq_peek_map (c : Cursor) : c.uncons = c.peek.map (·, c.next) := by
  obtain ⟨s, p, _ | ⟨x, rest⟩⟩ := c <;> rfl

end Cursor

end Parsing
