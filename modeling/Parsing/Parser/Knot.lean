import Parsing.Parser.Basic

set_option autoImplicit false

/-! # Rules that refer to each other

`knot keys rules` ties rules that refer to each other: `rules self key` is the body of the rule
`key`, with `self` for what it refers to. A reference enters the rule's body where the reference
stands.

A rule may be entered again inside itself only after something was read in between, since it would
never come back otherwise. The rules entered at the place last reached are remembered for that
reason, and entering one of them there a second time is a fault. So each entry leaves fewer
characters unread, or as many and fewer rules to enter there. -/

namespace Parsing.Parser

variable {κ ρ : Type} [DecidableEq κ]

/-- Entering a rule for the first time leaves fewer to enter. -/
theorem length_filter_entered_lt {keys entered : List κ} {k : κ} (hk : k ∈ keys)
    (hfresh : k ∉ entered) :
    (keys.filter (· ∉ k :: entered)).length < (keys.filter (· ∉ entered)).length := by
  have hmem : k ∈ keys.filter (· ∉ entered) := by simp [hk, hfresh]
  have hfilter : keys.filter (· ∉ k :: entered) = (keys.filter (· ∉ entered)).filter (· ≠ k) := by
    rw [List.filter_filter]
    congr 1
    funext x
    by_cases hx : x = k <;> simp [hx]
  rw [hfilter]
  exact List.length_filter_lt_length_iff_exists.2 ⟨k, hmem, by simp⟩

/-- The body of the rule `key`, entered with `place` characters unread. The rules `entered` have
    been entered at that place, one inside the other. -/
def enter (keys : List κ) (rules : (κ → Parser ρ) → κ → Parser ρ) (place : Nat) (entered : List κ)
    (key : κ) : Parser ρ :=
  rules (fun k c =>
    let left := c.length
    if left < place then enter keys rules left [k] k c
    else if left = place ∧ k ∈ keys ∧ k ∉ entered then enter keys rules place (k :: entered) k c
    else .faulty .leftRecursion) key
termination_by (place, (keys.filter (· ∉ entered)).length)
decreasing_by
  · exact Prod.Lex.left _ _ ‹_›
  · rename_i h
    exact Prod.Lex.right _ (length_filter_entered_lt h.2.1 h.2.2)

/-- The rule `key` of rules that refer to each other. -/
def knot (keys : List κ) (rules : (κ → Parser ρ) → κ → Parser ρ) (key : κ) : Parser ρ := fun c =>
  enter keys rules c.length [key] key c

end Parsing.Parser
