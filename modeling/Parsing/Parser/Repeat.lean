import Parsing.Parser.Basic

set_option autoImplicit false

/-! # Repetition

`many p` reads as many `p` as it can. Where `p` is ambiguous, each of its successes that read
something is followed up, in order; where there is none, the repetition ends. So `many` never
fails, and a `p` that reads nothing ends it at once.

The search keeps a list of open branches and works on the first one until it is closed. That it
comes to an end is seen from the numbers of unread characters of the open branches: each step
replaces the first number by smaller ones (`Shrinks`), however many. -/

namespace Parsing

/-! ## Lists whose first number is replaced by smaller ones -/

/-- `Shrinks ms ns`: `ms` is `ns` with its first number replaced by any number of smaller ones. -/
inductive Shrinks : List Nat → List Nat → Prop where
  | intro {n : Nat} {ms rest : List Nat} (h : ∀ m ∈ ms, m < n) : Shrinks (ms ++ rest) (n :: rest)

namespace Shrinks

theorem acc_nil : Acc Shrinks [] := ⟨_, fun _ h => nomatch h⟩

theorem acc_cons {n : Nat} : ∀ {rest : List Nat}, Acc Shrinks rest → Acc Shrinks (n :: rest) := by
  induction n using Nat.strongRecOn with
  | ind n ih =>
    intro rest hrest
    refine ⟨_, fun _ h => ?_⟩
    obtain ⟨hm⟩ := h
    rename_i ms
    induction ms with
    | nil => exact hrest
    | cons m ms ihms =>
      exact ih m (hm m List.mem_cons_self) (ihms fun k hk => hm k (List.mem_cons_of_mem _ hk))

theorem acc (ns : List Nat) : Acc Shrinks ns := by
  induction ns with
  | nil => exact acc_nil
  | cons n ns ih => exact acc_cons ih

theorem wf : WellFounded Shrinks := ⟨acc⟩

end Shrinks

namespace Parser

variable {α β : Type}

/-! ## The search -/

/-- A repetition under way: the values read so far, the last one first, and where it stands. -/
structure Branch (α : Type) where
  reversed : List α
  cursor : Cursor

/-- A branch that goes no further: its values in the order read. -/
def Branch.close (b : Branch α) : Success (List α) := ⟨b.reversed.reverse, b.cursor⟩

/-- The numbers of unread characters of the open branches. -/
structure Frontier where
  lengths : List Nat

instance : WellFoundedRelation Frontier :=
  ⟨InvImage Shrinks Frontier.lengths, InvImage.wf _ Shrinks.wf⟩

/-- The frontier of a list of branches. -/
def frontier (branches : List (Branch α)) : Frontier := ⟨branches.map (·.cursor.length)⟩

/-- The successes of a run that read something, starting from `c`: those with fewer characters
    unread. Where successes leave suffixes of the input, these are the ones at a greater offset
    (`beyond_eq_consuming`). Of functions that leave anything else nothing of the kind is said. -/
def consuming (c : Cursor) (xs : List (Success α)) : List (Success α) :=
  xs.filter fun x => decide (x.rest.length < c.length)

/-- The branches that follow up `xs` from `b`. -/
def follow (b : Branch α) (xs : List (Success α)) : List (Branch α) :=
  xs.map fun x => ⟨x.value :: b.reversed, x.rest⟩

theorem shrinks_follow (p : Parser α) (b : Branch α) (pending : List (Branch α)) :
    WellFoundedRelation.rel
      (frontier (follow b (consuming b.cursor (p b.cursor).outcome.successes) ++ pending))
      (frontier (b :: pending)) := by
  show Shrinks _ _
  simp only [frontier, List.map_append, List.map_cons]
  refine .intro fun m hm => ?_
  simp only [follow, consuming, List.map_map, List.mem_map, List.mem_filter,
    decide_eq_true_eq] at hm
  obtain ⟨x, ⟨_, hx⟩, rfl⟩ := hm
  exact hx

/-- Works off the open branches, the first one first. `finished` has the closed ones, the last one
    first; `furthest` and `events` are those of the steps so far. -/
def expand (p : Parser α) (pending : List (Branch α)) (finished : List (Success (List α)))
    (furthest : Option Failure) (events : List Event) : Run (List α) :=
  match pending with
  | [] => ⟨⟨finished.reverse, furthest⟩, events⟩
  | b :: pending =>
    let r := p b.cursor
    let furthest := Failure.mergeOptions furthest r.outcome.furthest
    let events := events ++ r.events
    let next := follow b (consuming b.cursor r.outcome.successes)
    if next.isEmpty then
      expand p pending (b.close :: finished) furthest events
    else expand p (next ++ pending) finished furthest events
termination_by frontier pending
decreasing_by
  · exact @Shrinks.intro _ [] _ (by simp)
  · exact shrinks_follow p b pending

/-- Every way of reading on with `p`, after the values in `seed` have been read. -/
def repeatFrom (p : Parser α) (seed : List α) : Parser (List α) := fun c =>
  expand p [⟨seed.reverse, c⟩] [] none []

/-- `p` as often as possible, even never. -/
def many (p : Parser α) : Parser (List α) := repeatFrom p []

/-- `p` once, and then as often as possible. -/
def many1 (p : Parser α) : Parser (List α) := fun c =>
  (p c).andThen fun x => repeatFrom p [x.value] x.rest

/-! ## Lists and chains -/

/-- Any number of `p`, with `separator` between two of them. -/
def sepBy (p : Parser α) (separator : Parser β) : Parser (List α) :=
  orElse (sequence List.cons p (many (ignoreThen separator p))) (succeed [])

/-- One or more `item` with `op` between two of them, folded from the left. -/
def chainl1 (item : Parser α) (op : Parser β) (fold : α → β → α → α) : Parser α :=
  map (fun read => read.2.foldl (fun left step => fold left step.1 step.2) read.1)
    (pair item (many (pair op item)))

end Parser

end Parsing
