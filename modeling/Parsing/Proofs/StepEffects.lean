import Parsing.Proofs.Lifecycle

set_option autoImplicit false

/-! # What a step leaves in a workspace

All that a step can put under a name is a handle, the owner of a definition that it has supplied, or
a parser built from a term of its own (`Workspace.named_step`), and the only body that it can supply
is built from such a term (`Workspace.body_step`). So what holds of all parsers that are built holds
of all parsers that a workspace has. -/

namespace Parsing.Script.Workspace

/-- The terms that a step builds. -/
def Step.terms : Step → List Term
  | .define _ body _ => [body]
  | .bind _ body => [body]
  | _ => []

/-- What may stand under a name after the step `s` from `w`. -/
inductive Named (w : Workspace) (s : Step) : Built → Prop where
  | kept {b : Built} (h : b ∈ w.parsers.values) : Named w s b
  | handle (d : Nat) : Named w s ⟨.ref (.handle d), []⟩
  | owner {d : Nat} (h : (w.step s).1.body d ≠ none) : Named w s ⟨.ref (.owner d), [d]⟩
  | built {t : Term} (h : t ∈ s.terms) : Named w s (w.build t)

variable {w : Workspace}

theorem body_step (hw : w.Valid) (s : Step) (d : Nat) :
    (w.step s).1.body d = w.body d ∨
      ∃ t ∈ s.terms, (w.step s).1.body d = some (w.build t) := by
  cases s with
  | defer definer handle => exact .inl (body_withDefinition definer d)
  | handle definer target =>
      refine .inl ?_
      simp only [step]
      cases w.definers.get? definer <;> rfl
  | define definer body owner =>
      cases hd : w.definers.get? definer with
      | none => exact .inl (by simp only [step, hd])
      | some e =>
          rw [body_step_define hw hd]
          split
          · exact .inr ⟨body, List.mem_singleton_self body, rfl⟩
          · exact .inl rfl
  | bind name body => exact .inl rfl
  | dropDefiner name => exact .inl rfl
  | drop name => exact .inl rfl
  | apply name text =>
      refine .inl ?_
      simp only [step]
      cases w.parsers.get? name <;> rfl

theorem Named.of_mem_insert {s : Step} {x : String} {u b : Built}
    (hb : b ∈ (w.parsers.insert x u).values) (hu : w.Named s u) : w.Named s b := by
  rcases Table.mem_values_insert hb with rfl | hb
  · exact hu
  · exact .kept hb

theorem named_step (hw : w.Valid) (s : Step) : ∀ b ∈ (w.step s).1.parsers.values, w.Named s b := by
  intro b hb
  cases s with
  | defer definer handle => exact .of_mem_insert hb (.handle w.bodies.length)
  | handle definer target =>
      simp only [step] at hb
      cases hd : w.definers.get? definer with
      | none =>
          simp only [hd] at hb
          exact .kept hb
      | some d =>
          simp only [hd] at hb
          exact .of_mem_insert hb (.handle d)
  | define definer body owner =>
      simp only [step] at hb
      cases hd : w.definers.get? definer with
      | none =>
          simp only [hd] at hb
          exact .kept hb
      | some d =>
          simp only [hd] at hb
          refine .of_mem_insert hb (.owner ?_)
          simp [body_step_define hw hd]
  | bind name body => exact .of_mem_insert hb (.built (List.mem_singleton_self body))
  | dropDefiner name => exact .kept hb
  | drop name => exact .kept (Table.mem_of_mem_values_erase hb)
  | apply name text =>
      simp only [step] at hb
      cases hx : w.parsers.get? name with
      | none =>
          simp only [hx] at hb
          exact .kept hb
      | some b' =>
          simp only [hx] at hb
          exact .kept hb

theorem steps_concat (w : Workspace) (ss : List Step) (s : Step) :
    (w.steps (ss ++ [s])).1 = ((w.steps ss).1.step s).1 := by
  induction ss generalizing w with
  | nil => rfl
  | cons s' ss ih => exact ih (w.step s').1

end Parsing.Script.Workspace
