import Mathlib.Data.Finset.Card
import Mathlib.Order.Monotone.Basic
import Parsing.Script.Workspace

set_option autoImplicit false

/-! # Which definitions are alive

A definition is reachable if the tables keep it, or the body of a reachable definition does. The
definitions that `alive` computes are just the reachable ones (`Workspace.mem_alive_iff`): each step
of the computation adds definitions that are kept by those found before, until no more are added,
which takes no more steps than there are definitions.

This needs the definitions that are kept to have been made (`Workspace.KeepsMade`). -/

namespace Parsing.Script.Workspace

/-- The tables keep the definition, or the body of another one does that is reachable itself. -/
inductive Reachable (w : Workspace) : Nat → Prop where
  | root {d : Nat} (h : d ∈ w.roots) : Reachable w d
  | kept {d e : Nat} (h : Reachable w d) (he : e ∈ w.keptBy d) : Reachable w e

/-- Only definitions that have been made are kept. -/
structure KeepsMade (w : Workspace) : Prop where
  roots : ∀ d ∈ w.roots, d < w.bodies.length
  keptBy : ∀ d, ∀ e ∈ w.keptBy d, e < w.bodies.length

variable {w : Workspace} {d : Nat}

theorem mem_reached_succ {n : Nat} :
    d ∈ w.reached (n + 1) ↔
      d < w.bodies.length ∧ (d ∈ w.reached n ∨ ∃ e ∈ w.reached n, d ∈ w.keptBy e) := by
  simp [reached]

theorem reachable_of_mem_reached {n : Nat} (h : d ∈ w.reached n) : w.Reachable d := by
  induction n generalizing d with
  | zero => exact .root h
  | succ n ih =>
      obtain ⟨-, h | ⟨e, he, hde⟩⟩ := mem_reached_succ.1 h
      · exact ih h
      · exact .kept (ih he) hde

/-- The definitions found in `n` steps. -/
def found (w : Workspace) (n : Nat) : Finset Nat := (w.reached n).toFinset

theorem mem_found {n : Nat} : d ∈ w.found n ↔ d ∈ w.reached n := List.mem_toFinset

/-- What a step finds depends only on what has been found, so a step that adds nothing is the
    last. -/
theorem found_congr {m n : Nat} (h : w.found m = w.found n) :
    w.found (m + 1) = w.found (n + 1) := by
  have hmem : ∀ e, e ∈ w.reached m ↔ e ∈ w.reached n := by
    intro e
    rw [← mem_found, ← mem_found, h]
  ext e
  rw [mem_found, mem_found, mem_reached_succ, mem_reached_succ]
  simp only [hmem]

namespace KeepsMade

variable (hw : w.KeepsMade)

include hw

theorem lt_of_reachable (h : w.Reachable d) : d < w.bodies.length := by
  cases h with
  | root h => exact hw.roots d h
  | kept h he => exact hw.keptBy _ d he

theorem lt_of_mem_reached {n : Nat} (h : d ∈ w.reached n) : d < w.bodies.length :=
  hw.lt_of_reachable (reachable_of_mem_reached h)

theorem mem_reached_of_le {m n : Nat} (hmn : m ≤ n) (h : d ∈ w.reached m) : d ∈ w.reached n := by
  induction hmn with
  | refl => exact h
  | step _ ih => exact mem_reached_succ.2 ⟨hw.lt_of_mem_reached ih, .inl ih⟩

/-! ## The last step that adds something -/

theorem found_subset_succ (n : Nat) : w.found n ⊆ w.found (n + 1) := by
  intro d hd
  rw [mem_found] at hd ⊢
  exact hw.mem_reached_of_le (Nat.le_succ n) hd

theorem card_found_le (n : Nat) : (w.found n).card ≤ w.bodies.length := by
  rw [← Finset.card_range w.bodies.length]
  refine Finset.card_le_card fun d hd => ?_
  exact Finset.mem_range.2 (hw.lt_of_mem_reached (mem_found.1 hd))

theorem found_eq_of_card_eq {n : Nat} (h : (w.found n).card = (w.found (n + 1)).card) :
    w.found n = w.found (n + 1) :=
  Finset.eq_of_subset_of_card_le (hw.found_subset_succ n) (Nat.le_of_eq h.symm)

/-- As many steps as there are definitions find all that one more step would find. -/
theorem found_succ_length : w.found (w.bodies.length + 1) = w.found w.bodies.length := by
  have hmono : Monotone fun n => (w.found n).card :=
    monotone_nat_of_le_succ fun n => Finset.card_le_card (hw.found_subset_succ n)
  have hstable : ∀ n, (w.found n).card = (w.found (n + 1)).card →
      (w.found (n + 1)).card = (w.found (n + 2)).card :=
    fun n hn => congrArg Finset.card (found_congr (hw.found_eq_of_card_eq hn))
  have hcard := Nat.stabilises_of_monotone hmono hw.card_found_le hstable
    (Nat.le_succ w.bodies.length)
  exact (hw.found_eq_of_card_eq hcard.symm).symm

theorem mem_alive_of_mem_reached_succ (h : d ∈ w.reached (w.bodies.length + 1)) :
    d ∈ w.alive := by
  have hfound : d ∈ w.found w.bodies.length := hw.found_succ_length ▸ mem_found.2 h
  exact mem_found.1 hfound

end KeepsMade

/-- **The definitions that are alive are those that can be reached.** -/
theorem mem_alive_iff (hw : w.KeepsMade) : d ∈ w.alive ↔ w.Reachable d := by
  refine ⟨reachable_of_mem_reached, fun h => ?_⟩
  induction h with
  | root h => exact hw.mem_reached_of_le (Nat.zero_le _) h
  | kept _ he ih =>
      refine hw.mem_alive_of_mem_reached_succ (mem_reached_succ.2 ⟨hw.keptBy _ _ he, .inr ?_⟩)
      exact ⟨_, ih, he⟩

end Parsing.Script.Workspace
