import Parsing.Proofs.Arithmetic.Tree

set_option autoImplicit false

/-! # The longest sentence that a text begins with

Two sentences of a rule that are both stuck in front of what follows them split a text in the same
way (`eq_of_stuck`), so the grammar is unambiguous (`text_injective`) and a text begins with at
most one sentence that is stuck. That one is the longest sentence that the text begins with
(`isLongest_iff`). -/

namespace Parsing.Arithmetic

namespace Tree

/-! ## Unique splitting -/

/-- Of the ways to split a text into a sentence and a rest, at most one is stuck. -/
theorem eq_of_stuck {r : Rule} {T U : Tree r} {rest rest' : List Char}
    (h : T.text ++ rest = U.text ++ rest') (hT : r.Stuck rest) (hU : r.Stuck rest') :
    T = U ∧ rest = rest' := by
  -- Both begin with the same operand, by induction. If then only one of them goes on, the other
  -- stands in front of an operator and a sentence, and is not stuck.
  induction T generalizing rest rest' with
  | digit x hx =>
      cases U with
      | digit y hy =>
          simp only [text, List.singleton_append, List.cons.injEq] at h
          obtain ⟨rfl, rfl⟩ := h
          exact ⟨rfl, rfl⟩
      | parens e =>
          simp only [text, List.cons_append, List.cons.injEq] at h
          obtain ⟨rfl, _⟩ := h
          exact absurd hx (by decide)
  | parens e ih =>
      cases U with
      | digit y hy =>
          simp only [text, List.cons_append, List.cons.injEq] at h
          obtain ⟨rfl, _⟩ := h
          exact absurd hy (by decide)
      | parens e' =>
          simp only [text, List.cons_append, List.append_assoc, List.cons.injEq, true_and] at h
          have hclosed : ∀ xs, Rule.expr.Stuck (')' :: xs) := Rule.stuck_of_notMem (by decide)
          obtain ⟨rfl, hrest⟩ := ih h (hclosed _) (hclosed _)
          rw [List.nil_append, List.nil_append, List.cons.injEq] at hrest
          exact ⟨rfl, hrest.2⟩
  | single f ih =>
      cases U with
      | single f' =>
          obtain ⟨rfl, hrest⟩ := ih h (Rule.stuck_factor _) (Rule.stuck_factor _)
          exact ⟨rfl, hrest⟩
      | product f' t' =>
          simp only [text, List.append_assoc, List.cons_append] at h
          obtain ⟨_, rfl⟩ := ih h (Rule.stuck_factor _) (Rule.stuck_factor _)
          exact absurd hT (Rule.not_stuck (by decide) t' rest')
  | product f t ihf iht =>
      cases U with
      | single f' =>
          simp only [text, List.append_assoc, List.cons_append] at h
          obtain ⟨_, rfl⟩ := ihf h (Rule.stuck_factor _) (Rule.stuck_factor _)
          exact absurd hU (Rule.not_stuck (by decide) t rest)
      | product f' t' =>
          simp only [text, List.append_assoc, List.cons_append] at h
          obtain ⟨rfl, htail⟩ := ihf h (Rule.stuck_factor _) (Rule.stuck_factor _)
          rw [List.cons.injEq] at htail
          obtain ⟨rfl, hrest⟩ := iht htail.2 hT hU
          exact ⟨rfl, hrest⟩
  | alone t ih =>
      cases U with
      | alone t' =>
          obtain ⟨rfl, hrest⟩ := ih h hT.term_of_expr hU.term_of_expr
          exact ⟨rfl, hrest⟩
      | sum t' e' =>
          simp only [text, List.append_assoc, List.cons_append] at h
          obtain ⟨_, rfl⟩ := ih h hT.term_of_expr (Rule.stuck_of_notMem (by decide) _)
          exact absurd hT (Rule.not_stuck (by decide) e' rest')
  | sum t e iht ihe =>
      cases U with
      | alone t' =>
          simp only [text, List.append_assoc, List.cons_append] at h
          obtain ⟨_, rfl⟩ := iht h (Rule.stuck_of_notMem (by decide) _) hU.term_of_expr
          exact absurd hU (Rule.not_stuck (by decide) e rest)
      | sum t' e' =>
          simp only [text, List.append_assoc, List.cons_append] at h
          obtain ⟨rfl, htail⟩ := iht h (Rule.stuck_of_notMem (by decide) _)
            (Rule.stuck_of_notMem (by decide) _)
          rw [List.cons.injEq] at htail
          obtain ⟨rfl, hrest⟩ := ihe htail.2 hT hU
          exact ⟨rfl, hrest⟩

/-- A sentence has one derivation. -/
theorem text_injective {r : Rule} {T U : Tree r} (h : T.text = U.text) : T = U :=
  (eq_of_stuck (congrArg (· ++ []) h) r.stuck_nil r.stuck_nil).1

/-! ## Longest sentences -/

/-- `T` is the longest sentence that `s` begins with. -/
def IsLongest {r : Rule} (T : Tree r) (s : List Char) : Prop :=
  T.text <+: s ∧ ∀ U : Tree r, U.text <+: s → U.text.length ≤ T.text.length

/-- A sentence that is not stuck can be made longer. -/
theorem exists_longer_term (T : Tree .term) (f : Tree .factor) :
    ∃ U : Tree .term, U.text = T.text ++ '*' :: f.text :=
  match T with
  | .single g => ⟨.product g (.single f), rfl⟩
  | .product g t => by
      obtain ⟨u, hu⟩ := exists_longer_term t f
      refine ⟨.product g u, ?_⟩
      rw [text, hu, text, List.append_assoc, List.cons_append]

theorem exists_longer_expr (T : Tree .expr) {op : Char} (hop : op ∈ Rule.expr.operators)
    (f : Tree .factor) : ∃ U : Tree .expr, U.text = T.text ++ op :: f.text :=
  match T with
  | .alone t => by
      rcases eq_of_mem_operators hop with rfl | rfl
      · exact ⟨.sum t (.alone (.single f)), rfl⟩
      · obtain ⟨u, hu⟩ := exists_longer_term t f
        exact ⟨.alone u, hu⟩
  | .sum t e => by
      obtain ⟨u, hu⟩ := exists_longer_expr e hop f
      refine ⟨.sum t u, ?_⟩
      rw [text, hu, text, List.append_assoc, List.cons_append]

theorem exists_longer {r : Rule} (T : Tree r) {op : Char} (hop : op ∈ r.operators)
    (f : Tree .factor) : ∃ U : Tree r, U.text = T.text ++ op :: f.text := by
  cases r with
  | expr => exact exists_longer_expr T hop f
  | term =>
      simp only [Rule.operators, List.mem_singleton] at hop
      rw [hop]
      exact exists_longer_term T f
  | factor => exact absurd hop List.not_mem_nil

theorem IsLongest.stuck {r : Rule} {T : Tree r} {rest : List Char}
    (h : T.IsLongest (T.text ++ rest)) : r.Stuck rest := by
  rintro op hop xs rfl f ⟨ys, rfl⟩
  obtain ⟨U, hU⟩ := exists_longer T hop f
  have hprefix : U.text <+: T.text ++ op :: (f.text ++ ys) := by
    rw [hU]
    exact ⟨ys, by simp only [List.append_assoc, List.cons_append]⟩
  have hle : U.text.length ≤ T.text.length := h.2 U hprefix
  rw [hU, List.length_append, List.length_cons] at hle
  omega

/-- No sentence that a text begins with is longer than one that is stuck. -/
theorem length_le_of_stuck {r : Rule} {T U : Tree r} {rest rest' : List Char}
    (h : T.text ++ rest = U.text ++ rest') (hT : r.Stuck rest) :
    U.text.length ≤ T.text.length := by
  -- While the rest behind `U` is not stuck, `U` is made longer; once it is, `U` is `T`.
  induction hn : rest'.length using Nat.strongRecOn generalizing U rest' with
  | ind n ih =>
      by_cases hU : r.Stuck rest'
      · obtain ⟨rfl, _⟩ := eq_of_stuck h hT hU
        exact Nat.le_refl _
      · simp only [Rule.Stuck, Classical.not_forall, Classical.not_not] at hU
        obtain ⟨op, hop, xs, rfl, f, ys, rfl⟩ := hU
        obtain ⟨V, hV⟩ := exists_longer U hop f
        have hshorter : ys.length < n := by
          rw [← hn, List.length_cons, List.length_append]
          omega
        have hsplit : T.text ++ rest = V.text ++ ys := by
          rw [h, hV]
          simp only [List.append_assoc, List.cons_append]
        have hle : V.text.length ≤ T.text.length := ih ys.length hshorter hsplit rfl
        rw [hV, List.length_append] at hle
        omega

/-- The longest sentence that a text begins with is the one that is stuck. -/
theorem isLongest_iff {r : Rule} {T : Tree r} {s : List Char} :
    T.IsLongest s ↔ ∃ rest, s = T.text ++ rest ∧ r.Stuck rest := by
  constructor
  · intro h
    obtain ⟨rest, rfl⟩ := h.1
    exact ⟨rest, rfl, h.stuck⟩
  · rintro ⟨rest, rfl, hstuck⟩
    refine ⟨List.prefix_append _ _, fun U hU => ?_⟩
    obtain ⟨rest', hrest'⟩ := hU
    exact length_le_of_stuck hrest'.symm hstuck

theorem isLongest_self {r : Rule} (T : Tree r) : T.IsLongest T.text :=
  isLongest_iff.2 ⟨[], (List.append_nil _).symm, r.stuck_nil⟩

/-- A text that begins with a sentence begins with a longest one. -/
theorem exists_isLongest {r : Rule} {T : Tree r} {s : List Char} (h : T.text <+: s) :
    ∃ U : Tree r, U.IsLongest s := by
  induction hn : s.length - T.text.length using Nat.strongRecOn generalizing T with
  | ind n ih =>
      by_cases hlongest : ∀ U : Tree r, U.text <+: s → U.text.length ≤ T.text.length
      · exact ⟨T, h, hlongest⟩
      · simp only [Classical.not_forall, Nat.not_le] at hlongest
        obtain ⟨U, hU, hlt⟩ := hlongest
        have hle : U.text.length ≤ s.length := hU.length_le
        exact ih (s.length - U.text.length) (by omega) hU rfl

end Tree

end Parsing.Arithmetic
