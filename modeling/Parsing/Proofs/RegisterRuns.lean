import Parsing.Registers.Cursors
import Parsing.Proofs.IndexedCursors

set_option autoImplicit false

/-! # Runs of steps on registers of cursors

Whatever steps are taken, each register keeps a cursor that stands somewhere in the text of its
source (`Valid.steps`): a step reads a text, copies a cursor, or leaves one at an index that `next`,
`nth`, `uncons` or a parser leads to. So what the cursors tell follows from their texts and indices
at any time. Steps other than `next` and `nth` add registers at most, and these two move one cursor
only (`getElem?_row_step`). -/

namespace Parsing

namespace Registers

/-- Whether a step moves the cursor in its register. -/
def CursorStep.moves : CursorStep → Bool
  | .next | .nth _ => true
  | _ => false

/-- The texts that a step reads. -/
def CursorStep.texts : CursorStep → List String
  | .read content => [content]
  | _ => []

namespace Cursors

/-! ## Runs -/

/-- The registers after a run of steps, each on the register it is given with. -/
def steps (cs : Cursors) : List (Nat × CursorStep) → Cursors
  | [] => cs
  | (k, action) :: rest => (cs.step k action).1.steps rest

/-- The texts that a step on register `k` reads: none where there is no such register. -/
def textsOf (cs : Cursors) (k : Nat) (action : CursorStep) : List String :=
  if k < cs.row.length then action.texts else []

/-- The texts read along a run of steps, in order. -/
def textsRead (cs : Cursors) : List (Nat × CursorStep) → List String
  | [] => []
  | (k, action) :: rest => cs.textsOf k action ++ (cs.step k action).1.textsRead rest

/-! ## What every step keeps -/

/-- `s` stands somewhere in the text of its source. -/
def InPlay (texts : List String) (s : IndexedCursor) : Prop :=
  ∃ text i, texts[s.source]? = some text ∧ s.StandsAt text i

section InPlay

variable {texts : List String} {s : IndexedCursor}

theorem InPlay.append (h : InPlay texts s) (more : List String) : InPlay (texts ++ more) s := by
  obtain ⟨text, i, htext, hs⟩ := h
  have hlt : s.source < texts.length := (List.getElem?_eq_some_iff.1 htext).1
  exact ⟨text, i, by rwa [List.getElem?_append_left hlt], hs⟩

theorem InPlay.next (h : InPlay texts s) : InPlay texts s.next.2 := by
  obtain ⟨text, i, htext, hs⟩ := h
  rw [hs.next_eq]
  exact ⟨text, _, htext, hs.seek (Nat.min_le_right _ _)⟩

theorem InPlay.nth (h : InPlay texts s) (m : Nat) : InPlay texts (s.nth m).2 := by
  obtain ⟨text, i, htext, hs⟩ := h
  rw [hs.nth_eq m]
  exact ⟨text, _, htext, hs.seek (Nat.min_le_right _ _)⟩

theorem InPlay.uncons (h : InPlay texts s) {x : Located} {rest : IndexedCursor}
    (hx : s.uncons = some (x, rest)) : InPlay texts rest := by
  rw [IndexedCursor.uncons_eq_next, Option.map_eq_some_iff] at hx
  obtain ⟨y, -, hy⟩ := hx
  rw [← (Prod.mk.inj hy).2]
  exact h.next

/-- What a parser leaves is found again by its offset. -/
theorem InPlay.rest (h : InPlay texts s) (parser : Script.Term) {x : Success Script.Value}
    (hx : x ∈ (parser.grammar.parser s.cursor).outcome.successes) :
    InPlay texts (s.seek x.rest.offset) := by
  obtain ⟨text, i, htext, hs⟩ := h
  obtain ⟨cs, hcs⟩ := parser.grammar.advances_parserIn Grammar.advances_empty s.cursor x hx
  exact ⟨text, _, htext, (hs.seek_offset hcs).1⟩

end InPlay

/-- The registers hold cursors in play on the texts read so far. -/
structure Valid (cs : Cursors) (texts : List String) : Prop where
  sources_eq : cs.sources = texts.length
  inPlay : ∀ s ∈ cs.row, InPlay texts s

variable {cs : Cursors} {texts : List String}

theorem valid_start (text : String) : (start text).Valid [text] where
  sources_eq := rfl
  inPlay := by
    intro s hs
    rw [List.mem_singleton.1 hs]
    exact ⟨text, 0, rfl, IndexedCursor.standsAt_ofSource 0 text⟩

theorem Valid.push (h : cs.Valid texts) {more : List IndexedCursor}
    (hmore : ∀ s ∈ more, InPlay texts s) : (cs.push more).Valid texts where
  sources_eq := h.sources_eq
  inPlay := by
    intro s hs
    rcases List.mem_append.1 hs with hs | hs
    · exact h.inPlay s hs
    · exact hmore s hs

theorem Valid.set (h : cs.Valid texts) (k : Nat) {c : IndexedCursor} (hc : InPlay texts c) :
    (cs.set k c).Valid texts where
  sources_eq := h.sources_eq
  inPlay := by
    intro s hs
    rcases List.mem_or_eq_of_mem_set hs with hs | rfl
    · exact h.inPlay s hs
    · exact hc

/-- A text read is the source numbered by the texts before it. -/
theorem Valid.read (h : cs.Valid texts) (text : String) :
    Valid { cs.push [.ofSource cs.sources text] with sources := cs.sources + 1 }
      (texts ++ [text]) where
  sources_eq := by rw [h.sources_eq, List.length_append, List.length_singleton]
  inPlay := by
    intro s hs
    rcases List.mem_append.1 hs with hs | hs
    · exact (h.inPlay s hs).append [text]
    · rw [List.mem_singleton.1 hs]
      refine ⟨text, 0, ?_, IndexedCursor.standsAt_ofSource _ text⟩
      show (texts ++ [text])[cs.sources]? = some text
      rw [h.sources_eq, List.getElem?_concat_length]

theorem Valid.stepOn_apply (h : cs.Valid texts) (k : Nat) {c : IndexedCursor}
    (hc : InPlay texts c) (parser : Script.Term) :
    (cs.stepOn k c (.apply parser)).1.Valid texts := by
  refine h.push ?_
  intro s hs
  obtain ⟨x, hx, rfl⟩ := List.mem_map.1 hs
  exact hc.rest parser hx

theorem Valid.readNothing (h : cs.Valid texts) : cs.Valid (texts ++ []) := by
  rwa [List.append_nil]

theorem Valid.stepOn (h : cs.Valid texts) (k : Nat) {c : IndexedCursor} (hc : InPlay texts c)
    (action : CursorStep) : (cs.stepOn k c action).1.Valid (texts ++ action.texts) := by
  cases action with
  | read text => exact h.read text
  | copy => exact (h.push fun s hs => List.mem_singleton.1 hs ▸ hc).readNothing
  | uncons =>
      refine readNothing ?_
      rw [Cursors.stepOn]
      split
      · exact h
      · next x rest hx => exact h.push fun s hs => List.mem_singleton.1 hs ▸ hc.uncons hx
  | next => exact (h.set k hc.next).readNothing
  | nth m => exact (h.set k (hc.nth m)).readNothing
  | apply parser => exact (h.stepOn_apply k hc parser).readNothing
  | peek | collect | offset | isEmpty | text | describe | sizeHint | isSuffixOf other
  | equals other => exact h.readNothing

theorem Valid.step (h : cs.Valid texts) (k : Nat) (action : CursorStep) :
    (cs.step k action).1.Valid (texts ++ cs.textsOf k action) := by
  unfold Cursors.step
  split
  · next c hc =>
      rw [textsOf, if_pos (List.getElem?_eq_some_iff.1 hc).1]
      exact h.stepOn k (h.inPlay c (List.mem_of_getElem? hc)) action
  · next hnone =>
      rw [textsOf, if_neg (Nat.not_lt.2 (List.getElem?_eq_none_iff.1 hnone))]
      exact h.readNothing

/-- The registers stay in play along a run, on the texts read in it too. -/
theorem Valid.steps (h : cs.Valid texts) (run : List (Nat × CursorStep)) :
    (cs.steps run).Valid (texts ++ cs.textsRead run) := by
  induction run generalizing cs texts with
  | nil =>
      rw [textsRead, List.append_nil]
      exact h
  | cons first rest ih =>
      obtain ⟨k, action⟩ := first
      rw [textsRead, ← List.append_assoc]
      exact ih (h.step k action)

/-! ## What a step leaves alone -/

theorem getElem?_row_push {j : Nat} (hj : j < cs.row.length) (more : List IndexedCursor) :
    (cs.push more).row[j]? = cs.row[j]? := List.getElem?_append_left hj

theorem getElem?_row_set {j k : Nat} (hne : j ≠ k) (c : IndexedCursor) :
    (cs.set k c).row[j]? = cs.row[j]? := List.getElem?_set_ne (Ne.symm hne)

/-- A register stays as it is, unless it is the one that `next` or `nth` is for. -/
theorem getElem?_row_step {j : Nat} (hj : j < cs.row.length) {k : Nat} {action : CursorStep}
    (h : j = k → action.moves = false) : (cs.step k action).1.row[j]? = cs.row[j]? := by
  unfold Cursors.step
  split
  · next c hc =>
      cases action with
      | read text => exact getElem?_row_push hj _
      | copy => exact getElem?_row_push hj _
      | uncons =>
          rw [stepOn]
          split
          · rfl
          · exact getElem?_row_push hj _
      | next => exact getElem?_row_set (fun hjk => Bool.noConfusion (h hjk)) _
      | nth m => exact getElem?_row_set (fun hjk => Bool.noConfusion (h hjk)) _
      | apply parser => exact getElem?_row_push hj _
      | peek | collect | offset | isEmpty | text | describe | sizeHint | isSuffixOf other
      | equals other => rfl
  · rfl

/-! ## Any run -/

/-- **Cursors in play.** After any steps from the start of a text on, each register has a cursor at
    some index of the text that its source was read from, and what the cursor tells and where it
    moves follow from that text and index. Looking at a cursor, splitting its next character off,
    copying it or running a parser on it leaves all registers as they were, and `next` and `nth` all
    others. -/
theorem registers_tell_their_texts (text : String) (run : List (Nat × CursorStep)) :
    (∀ s ∈ ((start text).steps run).row, ∃ t i,
      (text :: (start text).textsRead run)[s.source]? = some t ∧ s.Tells t i ∧ s.Moves t i) ∧
    ∀ (k j : Nat) (action : CursorStep), j < ((start text).steps run).row.length →
      (j = k → action.moves = false) →
      (((start text).steps run).step k action).1.row[j]? = ((start text).steps run).row[j]? := by
  constructor
  · intro s hs
    obtain ⟨t, i, ht, hstands⟩ := ((valid_start text).steps run).inPlay s hs
    exact ⟨t, i, ht, hstands.tells, hstands.moves⟩
  · intro k j action hj hstays
    exact getElem?_row_step hj hstays

/-- A copy is moved behind the line feed, its last character is split off, and the cursor behind
    that is asked for a character far beyond the end. -/
def walk : List (Nat × CursorStep) :=
  [(0, .copy), (1, .nth 1), (1, .uncons), (2, .nth 5), (0, .read "c"), (3, .next)]

/-- The cursor asked stays at the end, on the second line, and tells so. -/
theorem registers_tell_walk :
    ((start "a\nb").steps walk).row
        = [.ofSource 0 "a\nb", (IndexedCursor.ofSource 0 "a\nb").seek 2,
          (IndexedCursor.ofSource 0 "a\nb").seek 3, (IndexedCursor.ofSource 1 "c").seek 1] ∧
      (start "a\nb").textsRead walk = ["c"] ∧
      ((IndexedCursor.ofSource 0 "a\nb").seek 3).Tells "a\nb" 3 ∧
      Position.ofIndex "a\nb".toList 3 = ⟨2, 2, 3⟩ ∧
      (((start "a\nb").steps walk).step 1 .next).1.row[0]? = some (.ofSource 0 "a\nb") := by
  have hrow : ((start "a\nb").steps walk).row
      = [.ofSource 0 "a\nb", (IndexedCursor.ofSource 0 "a\nb").seek 2,
        (IndexedCursor.ofSource 0 "a\nb").seek 3, (IndexedCursor.ofSource 1 "c").seek 1] := by
    decide
  have htexts : (start "a\nb").textsRead walk = ["c"] := by decide
  obtain ⟨htells, hstays⟩ := registers_tell_their_texts "a\nb" walk
  refine ⟨hrow, htexts, ?_, by decide, ?_⟩
  · obtain ⟨t, i, ht, htold, -⟩ := htells ((IndexedCursor.ofSource 0 "a\nb").seek 3)
      (by rw [hrow]; simp)
    obtain rfl : t = "a\nb" := (Option.some.inj ht).symm
    obtain rfl : i = 3 := htold.index_eq.symm
    exact htold
  · rw [hstays 1 0 .next (by rw [hrow]; decide) (by decide), hrow]
    rfl

end Cursors

end Registers

end Parsing
