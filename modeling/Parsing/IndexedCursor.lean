import Parsing.ParseError

set_option autoImplicit false

/-! # Cursors kept as an index

A text is read once: one pass gives each character its place, and where the text ends is kept beside
the characters. All cursors of a source share what was read, so each of them is kept as the number
of characters behind it. Moving forward changes that number only.

`IndexedCursor.cursor` is what a parser reads from such a cursor on. -/

namespace Parsing

/-- A cursor as it is kept: an index into all that its source has. -/
structure IndexedCursor where
  /-- Which reading of a text the cursor belongs to. -/
  source : Nat
  /-- The characters of the source, each with its place. -/
  buffer : Array Located
  /-- Where the text ends. -/
  stop : Position
  /-- The number of characters behind the cursor. -/
  index : Nat
  deriving DecidableEq, Repr

namespace IndexedCursor

/-! ## Reading a text -/

/-- One more character is read: it stands where those before it end. -/
def locate (read : Array Located × Position) (x : Char) : Array Located × Position :=
  (read.1.push ⟨x, read.2⟩, read.2.advance x)

/-- The start of `text`, read as the source numbered `source`. -/
def ofSource (source : Nat) (text : String) : IndexedCursor :=
  let read := text.toList.foldl locate (#[], .start)
  ⟨source, read.1, read.2, 0⟩

/-- The start of `text`, where one source is enough. -/
def ofString (text : String) : IndexedCursor := ofSource 0 text

/-! ## Looking -/

/-- The next character, left unread. -/
def peek (s : IndexedCursor) : Option Located := s.buffer[s.index]?

/-- Where the next character stands, or where the text ends. -/
def position (s : IndexedCursor) : Position :=
  match s.peek with
  | some x => x.position
  | none => s.stop

/-- The number of characters behind the cursor. -/
def offset (s : IndexedCursor) : Nat := s.index

/-- The number of characters left to read. An index beyond the buffer would be cut off here. -/
def length (s : IndexedCursor) : Nat := s.buffer.size - s.index

/-- Nothing is left to read. -/
def isEmpty (s : IndexedCursor) : Bool := s.length == 0

/-- The least and the greatest number of characters still to come. -/
def sizeHint (s : IndexedCursor) : Nat × Nat := (s.length, s.length)

/-- Every character from the cursor on, each with its place. -/
def toList (s : IndexedCursor) : List Located := s.buffer.toList.drop s.index

/-- The text from the cursor on. -/
def text (s : IndexedCursor) : String := String.ofList (s.toList.map (·.char))

/-- The cursor as it is shown: its place, and the next character. -/
def describe (s : IndexedCursor) : String :=
  s.position.toText ++ ": " ++ ParseError.describeFound (s.peek.map (·.char))

/-- `s` reads the same source as `t`, from the same place or from further on. -/
def isSuffixOf (s t : IndexedCursor) : Bool := s.source == t.source && decide (t.index ≤ s.index)

/-- `s` reads the same source as `t`, from the same place. -/
def same (s t : IndexedCursor) : Bool := s.source == t.source && s.index == t.index

/-- What a parser reads from the cursor on. -/
def cursor (s : IndexedCursor) : Cursor := ⟨s.source, s.position, s.toList.map (·.char)⟩

/-! ## Moving -/

/-- The cursor of the same source with `n` characters behind it. -/
def seek (s : IndexedCursor) (n : Nat) : IndexedCursor := { s with index := n }

/-- The cursor `n` characters on, or at the end if there are fewer. -/
def advanced (s : IndexedCursor) (n : Nat) : IndexedCursor :=
  s.seek (min (s.index + n) s.buffer.size)

/-- The next character and the cursor behind it. -/
def uncons (s : IndexedCursor) : Option (Located × IndexedCursor) := s.peek.map (·, s.advanced 1)

/-- Takes the next character, if there is one. -/
def next (s : IndexedCursor) : Option Located × IndexedCursor :=
  match s.peek with
  | some x => (some x, s.seek (s.index + 1))
  | none => (none, s)

/-- Takes characters until `n` have been passed and one more taken, or until there are none. -/
def nth : Nat → IndexedCursor → Option Located × IndexedCursor
  | 0, s => s.next
  | n + 1, s =>
    match s.next with
    | (some _, s) => nth n s
    | (none, s) => (none, s)

end IndexedCursor

end Parsing
