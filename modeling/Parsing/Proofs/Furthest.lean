import Parsing.Proofs.Merging
import Parsing.Proofs.Runs
import Parsing.Proofs.Suffix

set_option autoImplicit false

/-! # Furthest failures

`Failure.expecting d labels` is the failure at the cursor `d` where any of `labels` was expected:
each parser for a single character fails like that with one label, and failures at one cursor pool
their labels. Merging keeps the failure that got further, so whatever lies before an offset
(`Failure.Before`) is lost in a failure at that offset.

The last two sections say what the furthest failure of a sequence is where its first part has at
most one success, and which outcomes of the parts decide the outcome of the whole. -/

namespace Parsing

namespace Failure

/-! ## Failures at a cursor -/

/-- The failure at `d` where any of `labels` was expected. -/
def expecting (d : Cursor) (labels : List String) : Failure := (here d).expectAll labels

@[simp] theorem position_expecting (d : Cursor) (labels : List String) :
    (expecting d labels).position = d.position := rfl

@[simp] theorem mem_expecting {d : Cursor} {labels : List String} {label : String} :
    label ∈ (expecting d labels).expected ↔ label ∈ labels := by
  simp [expecting, expectAll, here]

theorem expecting_singleton (d : Cursor) (label : String) : expecting d [label] = missing d label :=
  rfl

/-- Only the set of labels counts. -/
theorem expecting_congr (d : Cursor) {labels labels' : List String}
    (h : ∀ label, label ∈ labels ↔ label ∈ labels') : expecting d labels = expecting d labels' := by
  have hset : (expecting d labels).expected = (expecting d labels').expected := by
    apply LabelSet.ext_mem
    intro label
    rw [mem_expecting, mem_expecting]
    exact h label
  simp only [expecting, expectAll] at hset ⊢
  rw [hset]

theorem expecting_of_perm (d : Cursor) {labels labels' : List String} (h : labels.Perm labels') :
    expecting d labels = expecting d labels' :=
  expecting_congr d fun _ => h.mem_iff

/-! ## Merging -/

/-- Failures at one cursor pool their labels. -/
theorem merge_expecting (d : Cursor) (labels labels' : List String) :
    (expecting d labels).merge (expecting d labels') = expecting d (labels ++ labels') := by
  have hset : (expecting d labels).expected.union (expecting d labels').expected
      = (expecting d (labels ++ labels')).expected := by
    apply LabelSet.ext_mem
    intro label
    simp
  simp only [merge, position_expecting, Nat.lt_irrefl, if_false, hset]
  rfl

/-- A failure, if there is one, lies before the offset `n`. -/
def Before (f : Option Failure) (n : Nat) : Prop := ∀ g, f = some g → g.position.offset < n

theorem before_none (n : Nat) : Before none n := nofun

theorem before_some {f : Failure} {n : Nat} : Before (some f) n ↔ f.position.offset < n := by
  simp [Before]

theorem Before.mono {f : Option Failure} {m n : Nat} (h : Before f m) (hmn : m ≤ n) :
    Before f n := by
  intro g hg
  have := h g hg
  omega

theorem Before.merge {f g : Option Failure} {n : Nat} (hf : Before f n) (hg : Before g n) :
    Before (mergeOptions f g) n := by
  cases f with
  | none => exact hg
  | some f =>
      cases g with
      | none => exact hf
      | some g =>
          rw [mergeOptions_some, before_some]
          rw [before_some] at hf hg
          unfold Failure.merge
          split
          · exact hf
          · split
            · exact hg
            · exact hf

theorem mergeOptions_of_before_right {f : Failure} {g : Option Failure}
    (h : Before g f.position.offset) : mergeOptions (some f) g = some f := by
  cases g with
  | none => rfl
  | some g => rw [mergeOptions_some, merge_of_lt (before_some.1 h)]

theorem mergeOptions_of_before_left {f : Option Failure} {g : Failure}
    (h : Before f g.position.offset) : mergeOptions f (some g) = some g := by
  cases f with
  | none => rfl
  | some f => rw [mergeOptions_some, merge_of_gt (before_some.1 h)]

end Failure

variable {α β γ : Type}

/-! ## Sequences whose first part has at most one success -/

namespace Run

theorem outcome_andThen_nil {r : Run α} (next : Success α → Run β)
    (h : r.outcome.successes = []) : (r.andThen next).outcome = ⟨[], r.outcome.furthest⟩ := by
  simp [andThen, barren, h, empty, quiet, Outcome.append, Outcome.empty, Outcome.ofSuccesses]

theorem outcome_andThen_singleton {r : Run α} (next : Success α → Run β) {x : Success α}
    (h : r.outcome.successes = [x]) :
    (r.andThen next).outcome
      = ⟨(next x).outcome.successes,
          Failure.mergeOptions r.outcome.furthest (next x).outcome.furthest⟩ := by
  simp [andThen, barren, h, Outcome.append]

end Run

namespace Parser

theorem outcome_sequence_nil {join : α → β → γ} {p : Parser α} {q : Parser β} {c : Cursor}
    (h : (p c).outcome.successes = []) :
    (sequence join p q c).outcome = ⟨[], (p c).outcome.furthest⟩ :=
  Run.outcome_andThen_nil _ h

theorem outcome_sequence_singleton {join : α → β → γ} {p : Parser α} {q : Parser β} {c : Cursor}
    {x : Success α} (h : (p c).outcome.successes = [x]) :
    (sequence join p q c).outcome
      = ⟨(q x.rest).outcome.successes.map (Success.map (join x.value)),
          Failure.mergeOptions (p c).outcome.furthest (q x.rest).outcome.furthest⟩ :=
  Run.outcome_andThen_singleton _ h

theorem outcome_orElse_of_successes_eq_nil {p : Parser α} {c : Cursor} (q : Parser α)
    (h : (p c).outcome.successes = []) :
    (orElse p q c).outcome
      = ⟨(q c).outcome.successes,
          Failure.mergeOptions (q c).outcome.furthest (p c).outcome.furthest⟩ := by
  rw [orElse_of_successes_eq_nil q h]
  rfl

end Parser

/-! ## Outcomes decided by parts -/

namespace Run

theorem outcome_gather_congr {f g : Success α → Run β} {xs : List (Success α)}
    (h : ∀ x ∈ xs, (f x).outcome = (g x).outcome) :
    (gather f xs).outcome = (gather g xs).outcome := by
  induction xs with
  | nil => rfl
  | cons x xs ih =>
      rw [gather_cons, gather_cons, outcome_append, outcome_append, h x List.mem_cons_self,
        ih fun y hy => h y (List.mem_cons_of_mem x hy)]

theorem outcome_andThen_congr {r r' : Run α} {f g : Success α → Run β}
    (hr : r.outcome = r'.outcome) (h : ∀ x ∈ r'.outcome.successes, (f x).outcome = (g x).outcome) :
    (r.andThen f).outcome = (r'.andThen g).outcome := by
  rw [andThen, andThen, outcome_append, outcome_append, hr, outcome_gather_congr h]
  simp [barren, hr]

end Run

namespace Parser

theorem outcome_bind_congr {p p' : Parser α} {f f' : α → Parser β} {c : Cursor}
    (hp : (p c).outcome = (p' c).outcome)
    (hf : ∀ x ∈ (p' c).outcome.successes,
      (f x.value x.rest).outcome = (f' x.value x.rest).outcome) :
    (bind p f c).outcome = (bind p' f' c).outcome :=
  Run.outcome_andThen_congr hp hf

theorem outcome_orElse_congr {p p' q q' : Parser α} {c : Cursor}
    (hp : (p c).outcome = (p' c).outcome) (hq : (q c).outcome = (q' c).outcome) :
    (orElse p q c).outcome = (orElse p' q' c).outcome := by
  by_cases h : (p' c).outcome.successes = []
  · have hnil : (p c).outcome.successes = [] := by rw [hp, h]
    rw [outcome_orElse_of_successes_eq_nil q hnil, outcome_orElse_of_successes_eq_nil q' h, hp, hq]
  · have hne : (p c).outcome.successes ≠ [] := by rwa [hp]
    rw [orElse_of_successes_ne_nil q hne, orElse_of_successes_ne_nil q' h, hp]

theorem outcome_sequence_congr {join : α → β → γ} {p p' : Parser α} {q q' : Parser β} {c : Cursor}
    (hp : (p c).outcome = (p' c).outcome)
    (hq : ∀ x ∈ (p' c).outcome.successes, (q x.rest).outcome = (q' x.rest).outcome) :
    (sequence join p q c).outcome = (sequence join p' q' c).outcome := by
  refine Run.outcome_andThen_congr hp fun x hx => ?_
  rw [Run.outcome_map, Run.outcome_map, hq x hx]

end Parser

end Parsing
