import Parsing.Parser.Knot

set_option autoImplicit false

/-! # What a reference between rules leads to

Inside a rule that was entered with `place` characters unread, a reference leads to the knot again
where fewer characters are unread (`reference_of_lt`), and to the rule entered at the same place
if it is not among those entered there (`reference_of_fresh`).

What holds of the runs of all bodies if it holds of the runs of what they refer to, and of the fault
of the knot, holds of all runs of the rules (`knot_induction`). -/

namespace Parsing.Parser

variable {κ ρ : Type} [DecidableEq κ] {keys : List κ} {rules : (κ → Parser ρ) → κ → Parser ρ}

/-- What a reference stands for inside the rules `entered` with `place` characters unread. -/
def reference (keys : List κ) (rules : (κ → Parser ρ) → κ → Parser ρ) (place : Nat)
    (entered : List κ) : κ → Parser ρ := fun k c =>
  if c.length < place then knot keys rules k c
  else if c.length = place ∧ k ∈ keys ∧ k ∉ entered then
    enter keys rules place (k :: entered) k c
  else .faulty .leftRecursion

/-- A rule that is entered runs its body. -/
theorem enter_eq (place : Nat) (entered : List κ) (key : κ) (c : Cursor) :
    enter keys rules place entered key c
      = rules (reference keys rules place entered) key c := by
  rw [enter]
  rfl

theorem knot_eq (key : κ) (c : Cursor) :
    knot keys rules key c = rules (reference keys rules c.length [key]) key c :=
  enter_eq c.length [key] key c

theorem reference_of_lt {place : Nat} {c : Cursor} (entered : List κ) (k : κ)
    (h : c.length < place) :
    reference keys rules place entered k c = knot keys rules k c :=
  if_pos h

theorem reference_of_fresh {c : Cursor} {entered : List κ} {k : κ} (hk : k ∈ keys)
    (hfresh : k ∉ entered) :
    reference keys rules c.length entered k c
      = enter keys rules c.length (k :: entered) k c := by
  rw [reference, if_neg (Nat.lt_irrefl _), if_pos ⟨rfl, hk, hfresh⟩]

/-! ## What bodies keep -/

section Induction

variable {Q : Cursor → Run ρ → Prop} (hfault : ∀ c, Q c (.faulty .leftRecursion))
  (h : ∀ self : κ → Parser ρ, (∀ k c, Q c (self k c)) → ∀ k c, Q c (rules self k c))

include hfault h

theorem enter_induction (place : Nat) (entered : List κ) (key : κ) (c : Cursor) :
    Q c (enter keys rules place entered key c) := by
  -- The induction is the recursion of `enter`: its references lead to rules entered further on.
  fun_induction enter keys rules place entered key generalizing c with
  | case1 place entered key ih₁ ih₂ =>
      refine h _ (fun k d => ?_) key c
      dsimp only
      split
      · exact ih₁ k d ‹_› d
      · split
        · exact ih₂ k d ‹_› d
        · exact hfault d

theorem knot_induction (key : κ) (c : Cursor) : Q c (knot keys rules key c) :=
  enter_induction hfault h c.length [key] key c

end Induction

/-! ## Rules under other keys -/

section Renaming

variable {κ' : Type} [DecidableEq κ'] {keys' : List κ'} {rules' : (κ' → Parser ρ) → κ' → Parser ρ}
  (rename : κ → κ') (hkeys : ∀ k ∈ keys, rename k ∈ keys')
  (hinjective : ∀ k ∈ keys, ∀ l ∈ keys, rename k = rename l → k = l)
  (h : ∀ (self : κ → Parser ρ) (self' : κ' → Parser ρ), (∀ k ∈ keys, self' (rename k) = self k) →
    ∀ k ∈ keys, rules' self' (rename k) = rules self k)

include hkeys hinjective h

theorem enter_rename (place : Nat) (entered : List κ) (hentered : ∀ k ∈ entered, k ∈ keys)
    (key : κ) (hkey : key ∈ keys) :
    enter keys' rules' place (entered.map rename) (rename key)
      = enter keys rules place entered key := by
  fun_induction enter keys rules place entered key with
  | case1 place entered key ih₁ ih₂ =>
      rw [enter]
      refine h _ _ (fun k hk => ?_) key hkey
      -- A rule has been entered under its new key just if it has been under its old one.
      have hmem : rename k ∈ entered.map rename ↔ k ∈ entered := by
        refine ⟨fun hin => ?_, List.mem_map_of_mem⟩
        obtain ⟨l, hl, heq⟩ := List.mem_map.1 hin
        exact hinjective l (hentered l hl) k hk heq ▸ hl
      funext c
      dsimp only
      by_cases hlt : c.length < place
      · rw [if_pos hlt, if_pos hlt]
        exact congrFun (ih₁ k c hlt (by simpa using hk) hk) c
      · rw [if_neg hlt, if_neg hlt]
        by_cases hagain : c.length = place ∧ k ∈ keys ∧ k ∉ entered
        · rw [if_pos hagain, if_pos ⟨hagain.1, hkeys k hk, mt hmem.1 hagain.2.2⟩]
          exact congrFun (ih₂ k c hagain (List.forall_mem_cons.2 ⟨hk, hentered⟩) hk) c
        · rw [if_neg hagain, if_neg fun hin => hagain ⟨hin.1, hk, mt hmem.2 hin.2.2⟩]

/-- Rules that do the same under other keys are the same rules. -/
theorem knot_rename (key : κ) (hkey : key ∈ keys) :
    knot keys' rules' (rename key) = knot keys rules key :=
  funext fun c => congrFun
    (enter_rename rename hkeys hinjective h c.length [key] (by simpa using hkey) key hkey) c

end Renaming

end Parsing.Parser
