import Parsing.Proofs.Furthest

set_option autoImplicit false

/-! # The search of a repetition

`repeatFrom` works off a list of open branches, with what is finished so far beside it. Here the
search is taken apart: what is finished comes first in the result (`expand_eq_append`), the open
branches are independent of each other (`search_append`), and so a repetition is what one step of
it says: it ends where the repeated parser reads nothing more (`repeatFrom_of_nil`), and otherwise
goes on behind each success that read something, in order (`repeatFrom_of_ne_nil`). -/

namespace Parsing

variable {α : Type}

namespace Run

theorem append_assoc (r q s : Run α) : (r.append q).append s = r.append (q.append s) := by
  simp only [append, Outcome.append, List.append_assoc, Failure.mergeOptions_assoc]

end Run

namespace Parser

/-! ## Open branches are independent -/

/-- The search from `pending` with nothing finished yet. -/
def search (p : Parser α) (pending : List (Branch α)) : Run (List α) := expand p pending [] none []

theorem search_nil (p : Parser α) : search p [] = .empty := by
  rw [search, expand]
  rfl

/-- Induction along the search: the first open branch gives way to those that follow it up. -/
theorem search_induction {motive : List (Branch α) → Prop} (p : Parser α) (nil : motive [])
    (cons : ∀ b pending,
      motive (follow b (consuming b.cursor (p b.cursor).outcome.successes) ++ pending) →
        motive (b :: pending))
    (pending : List (Branch α)) : motive pending := by
  refine expand.induct p (fun pending _ _ _ => motive pending) (fun _ _ _ => nil) ?_ ?_
    pending [] none []
  · intro _ _ _ b pending r _ _ next hnext ih
    refine cons b pending ?_
    have hnil : next = [] := List.isEmpty_iff.1 hnext
    show motive (next ++ pending)
    rwa [hnil]
  · intro _ _ _ b pending r _ _ next _ ih
    exact cons b pending ih

/-- What is finished so far comes before what the search still finds. -/
theorem expand_eq_append (p : Parser α) (pending : List (Branch α)) :
    ∀ (finished : List (Success (List α))) (furthest : Option Failure) (events : List Event),
      expand p pending finished furthest events
        = Run.append ⟨⟨finished.reverse, furthest⟩, events⟩ (search p pending) := by
  induction pending using search_induction p with
  | nil =>
      intro finished furthest events
      rw [search_nil, Run.append_empty, expand]
  | cons b pending ih =>
      intro finished furthest events
      rw [search, expand, expand]
      split
      · rename_i hnext
        rw [List.isEmpty_iff.1 hnext, List.nil_append] at ih
        rw [ih, ih [b.close], ← Run.append_assoc]
        simp [Run.append, Outcome.append]
      · rw [ih, ih [], ← Run.append_assoc]
        simp [Run.append, Outcome.append]

/-- One step of the search: the first branch is closed, or gives way to those that follow it up. -/
theorem search_cons (p : Parser α) (b : Branch α) (pending : List (Branch α)) :
    search p (b :: pending)
      = if consuming b.cursor (p b.cursor).outcome.successes = [] then
          Run.append ⟨⟨[b.close], (p b.cursor).outcome.furthest⟩, (p b.cursor).events⟩
            (search p pending)
        else
          (p b.cursor).barren.append
            (search p (follow b (consuming b.cursor (p b.cursor).outcome.successes) ++ pending)) := by
  rw [search, expand]
  by_cases h : consuming b.cursor (p b.cursor).outcome.successes = []
  · rw [if_pos h, if_pos (by simp [h, follow]), expand_eq_append]
    rfl
  · rw [if_neg h, if_neg (by simp [h, follow]), expand_eq_append]
    rfl

/-- Open branches are worked off one after the other. -/
theorem search_append (p : Parser α) (xs ys : List (Branch α)) :
    search p (xs ++ ys) = (search p xs).append (search p ys) := by
  induction xs using search_induction p with
  | nil => rw [List.nil_append, search_nil, Run.empty_append]
  | cons b xs ih =>
      rw [List.cons_append, search_cons, search_cons]
      split
      · rename_i h
        rw [h, follow, List.map_nil, List.nil_append] at ih
        rw [ih, Run.append_assoc]
      · rw [← List.append_assoc, ih, Run.append_assoc]

/-! ## One step of a repetition -/

/-- The branches that follow up `b` are repetitions with one value more. -/
theorem search_follow (p : Parser α) (seed : List α) (c : Cursor) (xs : List (Success α)) :
    search p (follow ⟨seed.reverse, c⟩ xs)
      = Run.gather (fun x => repeatFrom p (seed ++ [x.value]) x.rest) xs := by
  induction xs with
  | nil => exact search_nil p
  | cons x xs ih =>
      have hfirst : search p [⟨x.value :: seed.reverse, x.rest⟩]
          = repeatFrom p (seed ++ [x.value]) x.rest := by
        rw [repeatFrom, search, List.reverse_append, List.reverse_singleton, List.singleton_append]
      rw [Run.gather_cons, ← ih, ← hfirst, ← search_append]
      rfl

variable {p : Parser α} {c : Cursor}

theorem repeatFrom_of_nil (seed : List α)
    (h : consuming c (p c).outcome.successes = []) :
    repeatFrom p seed c = ⟨⟨[⟨seed, c⟩], (p c).outcome.furthest⟩, (p c).events⟩ := by
  show search p [⟨seed.reverse, c⟩] = _
  rw [search_cons, if_pos h, search_nil, Run.append_empty, Branch.close, List.reverse_reverse]

theorem repeatFrom_of_ne_nil (seed : List α)
    (h : consuming c (p c).outcome.successes ≠ []) :
    repeatFrom p seed c
      = (p c).barren.append
          (Run.gather (fun x => repeatFrom p (seed ++ [x.value]) x.rest)
            (consuming c (p c).outcome.successes)) := by
  show search p [⟨seed.reverse, c⟩] = _
  rw [search_cons, if_neg h, List.append_nil, search_follow]

/-- A success that is followed up leaves less unread. -/
theorem length_lt_of_mem_consuming {xs : List (Success α)} {x : Success α}
    (h : x ∈ consuming c xs) : x.rest.length < c.length := by
  rw [consuming, List.mem_filter, decide_eq_true_eq] at h
  exact h.2

end Parser

end Parsing
