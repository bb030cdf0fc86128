import Parsing.Proofs.PlainRepetition

set_option autoImplicit false

/-! # Reading the whole input

`thenIgnore p endOfInput` keeps those successes of `p` that leave nothing unread. For each of the
others it records that the end of the input was expected where that success ended
(`thenIgnore_endOfInput`). -/

namespace Parsing

variable {α : Type}

namespace Outcome

/-- The successes that leave nothing unread. At the end of each other success the end of the input
    was expected. -/
def wholeInput (o : Outcome α) : Outcome α where
  successes := o.successes.filter fun x => x.rest.unread.isEmpty
  furthest := (o.successes.filter fun x => !x.rest.unread.isEmpty).foldl
    (fun f x => Failure.mergeOptions f (some (.missing x.rest "end of input"))) o.furthest

/-- Without successes nothing changes. -/
theorem wholeInput_of_nil {o : Outcome α} (h : o.successes = []) : o.wholeInput = o := by
  obtain ⟨xs, f⟩ := o
  subst h
  rfl

theorem wholeInput_of_end {o : Outcome α} {x : Success α} (h : o.successes = [x])
    (hx : x.rest.unread = []) : o.wholeInput = o := by
  obtain ⟨xs, f⟩ := o
  obtain rfl : xs = [x] := h
  simp [wholeInput, hx]

theorem wholeInput_of_trailing {o : Outcome α} {x : Success α} (h : o.successes = [x])
    (hx : x.rest.unread ≠ []) :
    o.wholeInput
      = ⟨[], Failure.mergeOptions o.furthest (some (.missing x.rest "end of input"))⟩ := by
  simp [wholeInput, h, hx]

end Outcome

namespace Parser

/-- The end of the input behind a success. -/
def endBehind (x : Success α) : Run α := (endOfInput x.rest).map fun _ => x.value

theorem endBehind_of_nil {x : Success α} (h : x.rest.unread = []) :
    endBehind x = .quiet ⟨[x], none⟩ := by
  rw [endBehind, endOfInput_of_nil h]
  rfl

theorem endBehind_of_ne_nil {x : Success α} (h : x.rest.unread ≠ []) :
    endBehind x = .quiet ⟨[], some (.missing x.rest "end of input")⟩ := by
  obtain ⟨y, ys, hcons⟩ := List.exists_cons_of_ne_nil h
  rw [endBehind, endOfInput_of_cons hcons]
  rfl

/-- What was found and told before stays in front. -/
theorem append_gather_endBehind (found xs : List (Success α)) (f : Option Failure)
    (events : List Event) :
    Run.append ⟨⟨found, f⟩, events⟩ (Run.gather endBehind xs)
      = ⟨⟨found ++ (Outcome.mk xs f).wholeInput.successes, (Outcome.mk xs f).wholeInput.furthest⟩,
          events⟩ := by
  induction xs generalizing found f with
  | nil => simp [Outcome.wholeInput]
  | cons x xs ih =>
      rw [Run.gather_cons, ← Run.append_assoc]
      by_cases hx : x.rest.unread = []
      · have hstep : Run.append ⟨⟨found, f⟩, events⟩ (.quiet ⟨[x], none⟩)
            = ⟨⟨found ++ [x], f⟩, events⟩ := by
          simp [Run.append, Outcome.append, Run.quiet]
        rw [endBehind_of_nil hx, hstep, ih]
        simp [Outcome.wholeInput, hx]
      · have hstep : Run.append ⟨⟨found, f⟩, events⟩
            (.quiet ⟨[], some (.missing x.rest "end of input")⟩)
            = ⟨⟨found, Failure.mergeOptions f (some (.missing x.rest "end of input"))⟩,
                events⟩ := by
          simp [Run.append, Outcome.append, Run.quiet]
        rw [endBehind_of_ne_nil hx, hstep, ih]
        simp [Outcome.wholeInput, hx]

theorem thenIgnore_endOfInput (p : Parser α) (c : Cursor) :
    thenIgnore p endOfInput c = ⟨(p c).outcome.wholeInput, (p c).events⟩ :=
  append_gather_endBehind [] (p c).outcome.successes (p c).outcome.furthest (p c).events

theorem outcome_thenIgnore_endOfInput (p : Parser α) (c : Cursor) :
    (thenIgnore p endOfInput c).outcome = (p c).outcome.wholeInput := by
  rw [thenIgnore_endOfInput]

end Parser

end Parsing
