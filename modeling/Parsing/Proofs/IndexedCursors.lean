import Parsing.IndexedCursor
import Parsing.Proofs.FailurePlace
import Parsing.Proofs.Translation

set_option autoImplicit false

/-! # What an indexed cursor tells

The places of all characters come from one pass over the text, and the end of the text is kept
beside them. A cursor that was moved about by any of its routines still is the start of its text
with another index, at most the length of the text (`StandsAt`). From the index and the text alone
follows what the cursor tells (`StandsAt.tells`) and where it moves (`StandsAt.moves`); and it
answers as the cursor does that parsers read from (`StandsAt.answersAs`). -/

namespace Parsing

/-! ## Characters with their places -/

/-- Where character number `i` of `text` stands, or where the text ends if there are `i` of them. -/
def Position.ofIndex (text : List Char) (i : Nat) : Position :=
  ⟨1 + (text.take i).count '\n', 1 + lastLine (text.take i), i⟩

theorem Position.advanceAll_take {text : List Char} {i : Nat} (h : i ≤ text.length) :
    start.advanceAll (text.take i) = ofIndex text i := by
  rw [advanceAll_start, behind, ofIndex, List.length_take_of_le h]
  simp only [start, if_true, Nat.zero_add]

namespace Cursor

@[simp] theorem length_locatedFrom (p : Position) (cs : List Char) :
    (locatedFrom p cs).length = cs.length := by
  induction cs generalizing p with
  | nil => rfl
  | cons x xs ih => rw [locatedFrom, List.length_cons, ih, List.length_cons]

@[simp] theorem map_char_locatedFrom (p : Position) (cs : List Char) :
    (locatedFrom p cs).map (·.char) = cs := by
  induction cs generalizing p with
  | nil => rfl
  | cons x xs ih => rw [locatedFrom, List.map_cons, ih]

@[simp] theorem head?_locatedFrom (p : Position) (cs : List Char) :
    (locatedFrom p cs).head? = cs.head?.map (⟨·, p⟩) := by
  cases cs with
  | nil => rfl
  | cons x xs => rfl

/-- Without the first `i` of them, the others are placed behind those. -/
theorem drop_locatedFrom (p : Position) (cs : List Char) (i : Nat) :
    (locatedFrom p cs).drop i = locatedFrom (p.advanceAll (cs.take i)) (cs.drop i) := by
  induction i generalizing p cs with
  | zero => rfl
  | succ i ih =>
      cases cs with
      | nil => rfl
      | cons x xs => exact ih (p.advance x) xs

end Cursor

namespace IndexedCursor

/-- A pass over `cs` adds each character at its place and stops where they end. -/
theorem foldl_locate (cs : List Char) (read : Array Located) (p : Position) :
    cs.foldl locate (read, p)
      = (read ++ (Cursor.locatedFrom p cs).toArray, p.advanceAll cs) := by
  induction cs generalizing read p with
  | nil => simp [Cursor.locatedFrom]
  | cons x xs ih =>
      rw [List.foldl_cons, locate, ih, Cursor.locatedFrom, Position.advanceAll_cons,
        List.push_append_toArray]

theorem ofSource_eq (k : Nat) (text : String) :
    ofSource k text = ⟨k, (Cursor.locatedFrom .start text.toList).toArray,
      Position.start.advanceAll text.toList, 0⟩ := by
  rw [ofSource, foldl_locate]
  simp

/-! ## Where a cursor stands -/

/-- `s` is the start of `text` moved to index `i`, which is no further than the end. -/
structure StandsAt (s : IndexedCursor) (text : String) (i : Nat) : Prop where
  eq_seek : s = (ofSource s.source text).seek i
  le_length : i ≤ text.length

theorem standsAt_ofSource (k : Nat) (text : String) : (ofSource k text).StandsAt text 0 :=
  ⟨rfl, Nat.zero_le _⟩

namespace StandsAt

variable {s : IndexedCursor} {text : String} {i : Nat}

theorem seek (h : s.StandsAt text i) {j : Nat} (hj : j ≤ text.length) :
    (s.seek j).StandsAt text j := by
  refine ⟨?_, hj⟩
  rw [h.eq_seek]
  rfl

theorem index_eq (h : s.StandsAt text i) : s.index = i := by
  rw [h.eq_seek]
  rfl

theorem size_eq (h : s.StandsAt text i) : s.buffer.size = text.length := by
  rw [h.eq_seek, ofSource_eq, IndexedCursor.seek, List.size_toArray, Cursor.length_locatedFrom,
    String.length_toList]

theorem stop_eq (h : s.StandsAt text i) : s.stop = .ofIndex text.toList text.length := by
  rw [h.eq_seek, ofSource_eq, IndexedCursor.seek, ← String.length_toList,
    ← Position.advanceAll_take (Nat.le_refl _), List.take_length]

theorem toList_eq (h : s.StandsAt text i) :
    s.toList = Cursor.locatedFrom (.ofIndex text.toList i) (text.toList.drop i) := by
  have hle : i ≤ text.toList.length := h.le_length
  rw [toList, h.index_eq, h.eq_seek, ofSource_eq, IndexedCursor.seek, Cursor.drop_locatedFrom,
    Position.advanceAll_take hle]

theorem peek_eq (h : s.StandsAt text i) :
    s.peek = text.toList[i]?.map (⟨·, .ofIndex text.toList i⟩) := by
  have hhead : s.peek = s.toList.head? := by
    rw [peek, toList, List.head?_drop, Array.getElem?_toList]
  rw [hhead, h.toList_eq, Cursor.head?_locatedFrom, List.head?_drop]

theorem peek_eq_none_iff (h : s.StandsAt text i) : s.peek = none ↔ i = text.length := by
  have hle := h.le_length
  rw [h.peek_eq, Option.map_eq_none_iff, List.getElem?_eq_none_iff, String.length_toList]
  omega

theorem position_eq (h : s.StandsAt text i) : s.position = .ofIndex text.toList i := by
  unfold position
  split
  · next x hx =>
      rw [h.peek_eq, Option.map_eq_some_iff] at hx
      obtain ⟨c, -, rfl⟩ := hx
      rfl
  · next hend => rw [h.stop_eq, ← h.peek_eq_none_iff.1 hend]

theorem length_eq (h : s.StandsAt text i) : s.length = text.length - i := by
  rw [length, h.size_eq, h.index_eq]

theorem text_eq (h : s.StandsAt text i) : s.text = String.ofList (text.toList.drop i) := by
  rw [IndexedCursor.text, h.toList_eq, Cursor.map_char_locatedFrom]

end StandsAt

/-- What `s` tells from `text` and its index: the next character, how many are left, all of them,
    and where they start. No character is looked up and nothing is subtracted beyond the end. -/
structure Tells (s : IndexedCursor) (text : String) (i : Nat) : Prop where
  index_eq : s.index = i
  le_length : i ≤ text.length
  size_eq : s.buffer.size = text.length
  peek_eq : s.peek = text.toList[i]?.map (⟨·, .ofIndex text.toList i⟩)
  peek_eq_none_iff : s.peek = none ↔ i = text.length
  length_eq : s.length = text.length - i
  sizeHint_eq : s.sizeHint = (text.length - i, text.length - i)
  isEmpty_iff : s.isEmpty = true ↔ i = text.length
  text_eq : s.text = String.ofList (text.toList.drop i)
  position_eq : s.position = .ofIndex text.toList i

theorem StandsAt.tells {s : IndexedCursor} {text : String} {i : Nat} (h : s.StandsAt text i) :
    s.Tells text i where
  index_eq := h.index_eq
  le_length := h.le_length
  size_eq := h.size_eq
  peek_eq := h.peek_eq
  peek_eq_none_iff := h.peek_eq_none_iff
  length_eq := h.length_eq
  sizeHint_eq := by rw [sizeHint, h.length_eq]
  isEmpty_iff := by
    have hle := h.le_length
    rw [isEmpty, h.length_eq, beq_iff_eq]
    omega
  text_eq := h.text_eq
  position_eq := h.position_eq

/-! ## Where a cursor moves -/

theorem lt_length_of_getElem? {text : String} {i : Nat} {x : Char}
    (h : text.toList[i]? = some x) : i < text.length := by
  rw [← String.length_toList]
  exact (List.getElem?_eq_some_iff.1 h).1

theorem length_le_of_getElem? {text : String} {i : Nat} (h : text.toList[i]? = none) :
    text.length ≤ i := by
  rwa [List.getElem?_eq_none_iff, String.length_toList] at h

/-- Where there is a next character, one more is no further than the end. -/
theorem advanced_one {s : IndexedCursor} {x : Located} (h : s.peek = some x) :
    s.advanced 1 = s.seek (s.index + 1) := by
  obtain ⟨hlt, -⟩ := Array.getElem?_eq_some_iff.1 h
  rw [advanced, Nat.min_eq_left hlt]

/-- Splitting off the next character is taking it, the cursor behind it included. -/
theorem uncons_eq_next (s : IndexedCursor) : s.uncons = s.next.1.map (·, s.next.2) := by
  unfold uncons next
  split
  · next x hx => rw [hx, Option.map_some, Option.map_some, advanced_one hx]
  · next hend => rw [hend, Option.map_none, Option.map_none]

namespace StandsAt

variable {s : IndexedCursor} {text : String} {i : Nat}

theorem seek_index (h : s.StandsAt text i) : s.seek i = s := by
  rw [← h.index_eq]
  rfl

theorem next_eq (h : s.StandsAt text i) :
    s.next = (text.toList[i]?.map (⟨·, .ofIndex text.toList i⟩),
      s.seek (min (i + 1) text.length)) := by
  have hle := h.le_length
  rw [← h.peek_eq]
  unfold next
  split
  · next x hx =>
      have hne : i ≠ text.length := by
        rw [ne_eq, ← h.peek_eq_none_iff, hx]
        exact Option.some_ne_none x
      rw [h.index_eq, Nat.min_eq_left (by omega), hx]
  · next hend =>
      have hi : i = text.length := h.peek_eq_none_iff.1 hend
      rw [Nat.min_eq_right (by omega), ← hi, h.seek_index, hend]

/-- Each character passed is one `next`; where there are none left, `nth` stops as `next` does. -/
theorem nth_eq (h : s.StandsAt text i) (m : Nat) :
    s.nth m = (text.toList[i + m]?.map (⟨·, .ofIndex text.toList (i + m)⟩),
      s.seek (min (i + m + 1) text.length)) := by
  induction m generalizing s i with
  | zero => exact h.next_eq
  | succ m ih =>
      rw [nth, h.next_eq]
      cases hx : text.toList[i]? with
      | none =>
          have hend : text.length ≤ i := length_le_of_getElem? hx
          have hbeyond : text.toList[i + (m + 1)]? = none :=
            List.getElem?_eq_none (by rw [String.length_toList]; omega)
          rw [hbeyond, Nat.min_eq_right (by omega), Nat.min_eq_right (by omega)]
          rfl
      | some x =>
          have hlt : i < text.length := lt_length_of_getElem? hx
          have hshift : i + 1 + m = i + (m + 1) := by omega
          rw [Nat.min_eq_left hlt, ← hshift]
          exact ih (h.seek hlt)

/-- Splitting off the next character goes on at the next index. -/
theorem uncons_eq (h : s.StandsAt text i) :
    s.uncons = text.toList[i]?.map fun x => (⟨x, .ofIndex text.toList i⟩, s.seek (i + 1)) := by
  rw [uncons_eq_next, h.next_eq]
  cases hx : text.toList[i]? with
  | none => rfl
  | some x =>
      have hlt : i < text.length := lt_length_of_getElem? hx
      rw [Nat.min_eq_left hlt]
      rfl

end StandsAt

/-- What moving `s` on gives, from `text` and its index: the character passed last and the cursor
    behind it, which is at the end where there are too few. -/
structure Moves (s : IndexedCursor) (text : String) (i : Nat) : Prop where
  uncons_eq : s.uncons
    = text.toList[i]?.map fun x => (⟨x, .ofIndex text.toList i⟩, s.seek (i + 1))
  next_eq : s.next
    = (text.toList[i]?.map (⟨·, .ofIndex text.toList i⟩), s.seek (min (i + 1) text.length))
  nth_eq (m : Nat) : s.nth m
    = (text.toList[i + m]?.map (⟨·, .ofIndex text.toList (i + m)⟩),
        s.seek (min (i + m + 1) text.length))
  uncons_eq_next : s.uncons = s.next.1.map (·, s.next.2)

theorem StandsAt.moves {s : IndexedCursor} {text : String} {i : Nat} (h : s.StandsAt text i) :
    s.Moves text i :=
  ⟨h.uncons_eq, h.next_eq, h.nth_eq, s.uncons_eq_next⟩

/-! ## What parsers read -/

namespace StandsAt

variable {s : IndexedCursor} {text : String} {i : Nat}

theorem cursor_eq (h : s.StandsAt text i) :
    s.cursor = ⟨s.source, .ofIndex text.toList i, text.toList.drop i⟩ := by
  rw [cursor, h.position_eq, h.toList_eq, Cursor.map_char_locatedFrom]

theorem reads (h : s.StandsAt text i) :
    (Cursor.ofSource s.source text).Reads (text.toList.take i) s.cursor := by
  have hle : i ≤ text.toList.length := h.le_length
  rw [h.cursor_eq]
  exact ⟨(List.take_append_drop i _).symm, (Position.advanceAll_take hle).symm, rfl⟩

theorem cursor_eq_drop (h : s.StandsAt text i) :
    s.cursor = (Cursor.ofSource s.source text).drop i := by
  have hle : i ≤ text.toList.length := h.le_length
  rw [h.reads.eq_drop, List.length_take_of_le hle]

/-- Where reading from the cursor on leads, is told by its offset alone. -/
theorem seek_offset (h : s.StandsAt text i) {cs : List Char} {d : Cursor}
    (hd : s.cursor.Reads cs d) :
    (s.seek d.offset).StandsAt text d.offset ∧ (s.seek d.offset).cursor = d := by
  have hreads := h.reads.trans hd
  have hoffset : d.offset = (text.toList.take i ++ cs).length := by
    rw [hreads.eq_after, Cursor.offset_after]
    exact Nat.zero_add _
  have hle : d.offset ≤ text.length := by
    have hlength : text.toList.length = _ := hreads.length_eq
    rw [← String.length_toList, hlength, hoffset]
    exact Nat.le_add_right _ _
  have hseek := h.seek hle
  refine ⟨hseek, ?_⟩
  rw [hseek.cursor_eq_drop, hoffset]
  exact hreads.eq_drop.symm

theorem cursor_next (h : s.StandsAt text i) : s.next.2.cursor = s.cursor.next := by
  have hhead : s.cursor.unread.head? = text.toList[i]? := by rw [h.cursor_eq, List.head?_drop]
  rw [h.next_eq]
  cases hx : text.toList[i]? with
  | none =>
      have hend : i = text.length := Nat.le_antisymm h.le_length (length_le_of_getElem? hx)
      have hunread : s.cursor.unread = [] := List.head?_eq_none_iff.1 (hhead.trans hx)
      rw [Nat.min_eq_right (by omega), ← hend, h.seek_index, Cursor.next, hunread]
  | some x =>
      obtain ⟨xs, hunread⟩ := List.head?_eq_some_iff.1 (hhead.trans hx)
      have hoffset : s.cursor.next.offset = i + 1 := by
        rw [Cursor.next_eq_after hunread, Cursor.offset_after, h.cursor_eq]
        rfl
      rw [Nat.min_eq_left (lt_length_of_getElem? hx), Nat.succ_eq_add_one, ← hoffset]
      exact (h.seek_offset (Cursor.reads_next hunread)).2

end StandsAt

/-- What `s` answers is what `c` does, and so are the cursors it moves to. -/
structure AnswersAs (s : IndexedCursor) (c : Cursor) : Prop where
  cursor_eq : s.cursor = c
  offset_eq : s.offset = c.offset
  length_eq : s.length = c.length
  isEmpty_eq : s.isEmpty = c.isEmpty
  peek_eq : s.peek = c.peek
  toList_eq : s.toList = c.toList
  text_eq : s.text = c.text
  next_eq : s.next.2.cursor = c.next
  uncons_eq : s.uncons.map (fun x => (x.1, x.2.cursor)) = c.uncons

/-- A cursor kept as an index answers as one that holds what is unread. -/
theorem StandsAt.answersAs {s : IndexedCursor} {text : String} {i : Nat} (h : s.StandsAt text i) :
    s.AnswersAs ((Cursor.ofSource s.source text).drop i) := by
  rw [← h.cursor_eq_drop]
  have hlength : s.length = s.cursor.length := by
    rw [h.length_eq, h.cursor_eq, Cursor.length, List.length_drop, String.length_toList]
  have hpeek : s.peek = s.cursor.peek := by
    rw [h.peek_eq, h.cursor_eq, Cursor.peek, List.head?_drop]
  exact {
    cursor_eq := rfl
    offset_eq := by
      rw [offset, h.index_eq, h.cursor_eq]
      rfl
    length_eq := hlength
    isEmpty_eq := by
      rw [isEmpty, hlength, Cursor.length, Cursor.isEmpty]
      cases s.cursor.unread <;> rfl
    peek_eq := hpeek
    toList_eq := by rw [h.toList_eq, h.cursor_eq, Cursor.toList]
    text_eq := rfl
    next_eq := h.cursor_next
    uncons_eq := by
      rw [Cursor.uncons_eq_peek_map, ← hpeek, uncons, Option.map_map]
      cases hx : s.peek with
      | none => rfl
      | some x =>
          rw [← h.cursor_next, next, hx, advanced_one hx]
          rfl }

end IndexedCursor

end Parsing
