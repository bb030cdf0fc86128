import Parsing.Proofs.DerivedForms

set_option autoImplicit false

/-! # Chains fold on the way

`chainl1 item op fold` first reads all operators and items behind the first item, by `many`, and
folds them from the left when they have been read. Read as a left recursion it would fold on the
way: with `acc` for what was read so far, each operator and item that read something is folded into
`acc` at once and the chain goes on behind it; where there is none, `acc` is what it comes to
(`accumulate`).

Both make the same runs, however ambiguous `item` and `op` are: what the search of `many` collects
along a branch is what the recursion has folded into `acc` there (`foldSteps_cons`), and it takes up
the branches in the same order. Where the successes of `item` and `op` are suffixes of their input,
the recursion comes to an end, so that nothing else solves it (`chainl1_accumulates`). -/

namespace Parsing

namespace Parser

variable {α β : Type}

/-! ## The recursion -/

/-- What a chain comes to behind `acc`, if `go` says what it comes to further on: each operator and
    item that read something is folded into `acc`, in order, and the chain goes on behind it; where
    there is none, it ends with `acc`. -/
def accumulate (item : Parser α) (op : Parser β) (fold : α → β → α → α) (go : α → Parser α)
    (acc : α) : Parser α := fun c =>
  let r := pair op item c
  let next := beyond c r.outcome.successes
  if next.isEmpty then ⟨⟨[⟨acc, c⟩], r.outcome.furthest⟩, r.events⟩
  else r.barren.append (.gather (fun x => go (fold acc x.value.1 x.value.2) x.rest) next)

/-- What operators and items read one after the other make of `acc`, folded from the left. -/
def foldSteps (fold : α → β → α → α) (acc : α) (steps : List (β × α)) : α :=
  steps.foldl (fun left step => fold left step.1 step.2) acc

/-- What a chain comes to behind `acc`, when all steps are read before they are folded. -/
def foldAfter (item : Parser α) (op : Parser β) (fold : α → β → α → α) (acc : α) : Parser α :=
  map (foldSteps fold acc) (many (pair op item))

theorem foldSteps_cons (fold : α → β → α → α) (acc : α) (step : β × α) (steps : List (β × α)) :
    foldSteps fold acc (step :: steps) = foldSteps fold (fold acc step.1 step.2) steps := rfl

/-- A chain is its first item, and then the steps behind it. -/
theorem chainl1_eq_bind (item : Parser α) (op : Parser β) (fold : α → β → α → α) :
    chainl1 item op fold = bind item (foldAfter item op fold) := by
  rw [chainl1, pair, map_sequence, sequence_eq_bind]
  rfl

section Suffixes

variable {item : Parser α} {op : Parser β} (hitem : item.Advances) (hop : op.Advances)
  (fold : α → β → α → α)

include hitem hop

theorem beyond_step_eq_consuming (c : Cursor) :
    beyond c (pair op item c).outcome.successes
      = consuming c (pair op item c).outcome.successes :=
  beyond_eq_consuming (advances_sequence Prod.mk hop hitem) c

/-! ## Folding afterwards solves the recursion -/

theorem foldAfter_eq_accumulate (acc : α) (c : Cursor) :
    foldAfter item op fold acc c = accumulate item op fold (foldAfter item op fold) acc c := by
  simp only [accumulate, beyond_step_eq_consuming hitem hop]
  by_cases hnil : consuming c (pair op item c).outcome.successes = []
  · rw [if_pos (by simp [hnil]), foldAfter, map, many_of_nil hnil]
    rfl
  · rw [if_neg (by simp [hnil]), foldAfter, map, many_of_ne_nil hnil, Run.map_append,
      Run.map_gather]
    -- What a branch has read first is folded into `acc` first.
    have hbranch : ∀ x : Success (β × α),
        ((many (pair op item) x.rest).map (x.value :: ·)).map (foldSteps fold acc)
          = foldAfter item op fold (fold acc x.value.1 x.value.2) x.rest := by
      intro x
      rw [Run.map_map]
      simp only [foldSteps_cons]
      rfl
    simp only [hbranch]
    rfl

/-! ## Nothing else does -/

/-- Only what is later than `c` counts for the recursion at `c`. -/
theorem accumulate_congr {go go' : α → Parser α} {c : Cursor}
    (h : ∀ acc, ∀ d : Cursor, d.length < c.length → go acc d = go' acc d) (acc : α) :
    accumulate item op fold go acc c = accumulate item op fold go' acc c := by
  simp only [accumulate, beyond_step_eq_consuming hitem hop]
  split
  · rfl
  · congr 1
    refine Run.gather_congr fun x hx => ?_
    exact h _ x.rest (length_lt_of_mem_consuming hx)

theorem eq_foldAfter {go : α → Parser α}
    (hgo : ∀ acc c, go acc c = accumulate item op fold go acc c) :
    go = foldAfter item op fold := by
  funext acc c
  induction hn : c.length using Nat.strongRecOn generalizing acc c with
  | ind n ih =>
      rw [hgo, foldAfter_eq_accumulate hitem hop]
      refine accumulate_congr hitem hop fold (fun acc' d hd => ?_) acc
      exact ih d.length (hn ▸ hd) acc' d rfl

end Suffixes

/-- **Chains fold on the way.** For items and operators whose successes are suffixes of their input,
    the accumulating recursion has one solution, and a chain is its first item followed by that
    solution. -/
theorem chainl1_accumulates (item : Parser α) (op : Parser β) (fold : α → β → α → α)
    (hitem : item.Advances) (hop : op.Advances) :
    (∃! go : α → Parser α, ∀ acc c, go acc c = accumulate item op fold go acc c) ∧
    ∀ go : α → Parser α, (∀ acc c, go acc c = accumulate item op fold go acc c) →
      chainl1 item op fold = bind item go := by
  constructor
  · refine ⟨foldAfter item op fold, foldAfter_eq_accumulate hitem hop fold, fun go hgo => ?_⟩
    exact eq_foldAfter hitem hop fold hgo
  · intro go hgo
    rw [eq_foldAfter hitem hop fold hgo, chainl1_eq_bind]

/-- A one, or the text `1-1` taken for a nought. -/
def oneOrNought : Grammar Unit Int :=
  .union (.map (fun _ => 1) (.literal "1")) (.map (fun _ => 0) (.literal "1-1"))

/-- The operator between two of them. -/
def minus : Grammar Unit String := .literal "-"

/-- `1-1-1` can be read in three ways, which share their first items: `(1-1)-1`, `1-0` and `0-1`. A
    fourth item is missing at the end, whichever way it was read. -/
theorem chainl1_oneOrNought :
    oneOrNought.parser.Advances ∧ minus.parser.Advances ∧
      (chainl1 oneOrNought.parser minus.parser (fun a _ b => a - b) (.ofString "1-1-1")).outcome
        = ⟨[⟨-1, (Cursor.ofString "1-1-1").drop 5⟩, ⟨1, (Cursor.ofString "1-1-1").drop 5⟩,
              ⟨-1, (Cursor.ofString "1-1-1").drop 5⟩],
            some ⟨⟨1, 6, 5⟩, none, .singleton "'-'"⟩⟩ := by
  have hitem : oneOrNought.parser.Advances :=
    oneOrNought.advances_parserIn Grammar.advances_empty
  have hop : minus.parser.Advances := minus.advances_parserIn Grammar.advances_empty
  obtain ⟨⟨go, hgo, -⟩, hchain⟩ :=
    chainl1_accumulates oneOrNought.parser minus.parser (fun a _ b => a - b) hitem hop
  have hend : ∀ acc, go acc ((Cursor.ofString "1-1-1").drop 5)
      = .quiet ⟨[⟨acc, (Cursor.ofString "1-1-1").drop 5⟩],
          some ⟨⟨1, 6, 5⟩, none, .singleton "'-'"⟩⟩ := by
    intro acc
    rw [hgo]
    rfl
  have hmiddle : ∀ acc, go acc ((Cursor.ofString "1-1-1").drop 3)
      = .quiet ⟨[⟨acc - 1, (Cursor.ofString "1-1-1").drop 5⟩],
          some ⟨⟨1, 6, 5⟩, none, .singleton "'-'"⟩⟩ := by
    intro acc
    have hbeyond : beyond ((Cursor.ofString "1-1-1").drop 3)
        (pair minus.parser oneOrNought.parser ((Cursor.ofString "1-1-1").drop 3)).outcome.successes
          = [⟨("-", 1), (Cursor.ofString "1-1-1").drop 5⟩] := rfl
    rw [hgo, accumulate]
    simp only [hbeyond, Run.gather_cons, hend]
    rfl
  have hfirst : ∀ acc, go acc ((Cursor.ofString "1-1-1").drop 1)
      = .quiet ⟨[⟨acc - 1 - 1, (Cursor.ofString "1-1-1").drop 5⟩,
            ⟨acc - 0, (Cursor.ofString "1-1-1").drop 5⟩],
          some ⟨⟨1, 6, 5⟩, none, .singleton "'-'"⟩⟩ := by
    intro acc
    have hbeyond : beyond ((Cursor.ofString "1-1-1").drop 1)
        (pair minus.parser oneOrNought.parser ((Cursor.ofString "1-1-1").drop 1)).outcome.successes
          = [⟨("-", 1), (Cursor.ofString "1-1-1").drop 3⟩,
              ⟨("-", 0), (Cursor.ofString "1-1-1").drop 5⟩] := rfl
    rw [hgo, accumulate]
    simp only [hbeyond, Run.gather_cons, hmiddle, hend]
    rfl
  refine ⟨hitem, hop, ?_⟩
  have hread : (oneOrNought.parser (.ofString "1-1-1")).outcome.successes
      = [⟨1, (Cursor.ofString "1-1-1").drop 1⟩, ⟨0, (Cursor.ofString "1-1-1").drop 3⟩] := rfl
  rw [hchain go hgo, bind, Run.andThen, hread]
  simp only [Run.gather_cons, hfirst, hmiddle]
  rfl

end Parser

end Parsing
