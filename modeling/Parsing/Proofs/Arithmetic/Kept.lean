import Parsing.Proofs.Arithmetic.Longest
import Parsing.Proofs.Suffix

set_option autoImplicit false

/-! # What a rule keeps of the longest sentence

A sum or product that leaves the range makes its rule fail. The chain that the rule stands in as a
rest ends before its operator then, as if the text ended there, and the chain's own rule goes on
with what is left. `Tree.kept` follows this through the longest sentence: it gives the sentence
that the rule succeeds with, if there is one.

All of a sentence is kept just if it fits (`kept_eq_self_iff`). Otherwise what is kept fits and is
cut off before an operator (`exists_cut_of_kept`).

A term is a chain of factors and an expression a chain of terms: what both have in common is
gathered in `Link`. -/

namespace Parsing.Arithmetic

namespace Tree

/-! ## The kept part -/

/-- The sentence that the rule of a longest sentence succeeds with. Behind parentheses nothing may
    be missing. A chain whose operand is kept as a whole goes on if its rest succeeds, and then the
    sum or product of the two has to be in range; otherwise it ends with what is kept of its
    operand. -/
def kept : {r : Rule} → Tree r → Option (Tree r)
  | _, .digit x h => some (.digit x h)
  | _, .parens e => if e.Fits then some (.parens e) else none
  | _, .single f => f.kept.map .single
  | _, .product f t =>
      if f.Fits then
        t.kept.elim (some (.single f)) fun u =>
          if InRange (f.value * u.value) then some (.product f u) else none
      else f.kept.map .single
  | _, .alone t => t.kept.map .alone
  | _, .sum t e =>
      if t.Fits then
        e.kept.elim (some (.alone t)) fun u =>
          if InRange (t.value + u.value) then some (.sum t u) else none
      else t.kept.map .alone

/-- The successes at `c` of the rule of a longest sentence. -/
def read {r : Rule} (T : Tree r) (c : Cursor) : List (Success Int) :=
  (T.kept.map fun K => ⟨K.value, c.after K.text⟩).toList

theorem read_of_kept_eq_none {r : Rule} {T : Tree r} (h : T.kept = none) (c : Cursor) :
    T.read c = [] := by
  rw [read, h]
  rfl

theorem read_of_kept_eq_some {r : Rule} {T K : Tree r} (h : T.kept = some K) (c : Cursor) :
    T.read c = [⟨K.value, c.after K.text⟩] := by
  rw [read, h]
  rfl

/-- The sentence that is the given factor alone. -/
def ofFactor (f : Tree .factor) : (r : Rule) → Tree r
  | .expr => .alone (.single f)
  | .term => .single f
  | .factor => f

theorem text_ofFactor (f : Tree .factor) (r : Rule) : (ofFactor f r).text = f.text := by
  cases r <;> rfl

end Tree

/-! ## Chains of sentences -/

/-- The rule `r` as a chain of sentences of the rule `k`. -/
structure Link (k r : Rule) where
  op : Char
  join : Int → Int → Int
  /-- What stands for a rest that cannot be read. -/
  unit : Int
  one : Tree k → Tree r
  more : Tree k → Tree r → Tree r
  shape : ∀ T : Tree r, (∃ a, T = one a) ∨ ∃ a b, T = more a b
  text_one : ∀ a, (one a).text = a.text
  text_more : ∀ a b, (more a b).text = a.text ++ op :: b.text
  value_one : ∀ a, (one a).value = a.value
  value_more : ∀ a b, (more a b).value = join a.value b.value
  fits_one : ∀ a, (one a).Fits ↔ a.Fits
  fits_more : ∀ a b, (more a b).Fits ↔ a.Fits ∧ b.Fits ∧ InRange (join a.value b.value)
  kept_one : ∀ a, (one a).kept = a.kept.map one
  kept_more : ∀ a b, (more a b).kept =
    if a.Fits then
      b.kept.elim (some (one a)) fun u =>
        if InRange (join a.value u.value) then some (more a u) else none
    else a.kept.map one
  join_unit : ∀ v, join v unit = v
  operators_eq : r.operators = op :: k.operators
  op_notMem : op ∉ k.operators

/-- A term is a chain of factors. -/
def Link.product : Link .factor .term where
  op := '*'
  join := (· * ·)
  unit := 1
  one := .single
  more := .product
  shape
    | .single f => .inl ⟨f, rfl⟩
    | .product f t => .inr ⟨f, t, rfl⟩
  text_one _ := rfl
  text_more _ _ := rfl
  value_one _ := rfl
  value_more _ _ := rfl
  fits_one _ := Iff.rfl
  fits_more _ _ := Iff.rfl
  kept_one _ := rfl
  kept_more _ _ := rfl
  join_unit := Int.mul_one
  operators_eq := rfl
  op_notMem := List.not_mem_nil

/-- An expression is a chain of terms. -/
def Link.sum : Link .term .expr where
  op := '+'
  join := (· + ·)
  unit := 0
  one := .alone
  more := .sum
  shape
    | .alone t => .inl ⟨t, rfl⟩
    | .sum t e => .inr ⟨t, e, rfl⟩
  text_one _ := rfl
  text_more _ _ := rfl
  value_one _ := rfl
  value_more _ _ := rfl
  fits_one _ := Iff.rfl
  fits_more _ _ := Iff.rfl
  kept_one _ := rfl
  kept_more _ _ := rfl
  join_unit := Int.add_zero
  operators_eq := rfl
  op_notMem := by decide

namespace Link

variable {k r : Rule} (L : Link k r)

theorem stuck_iff {rest : List Char} :
    r.Stuck rest ↔
      k.Stuck rest ∧ ∀ xs, rest = L.op :: xs → ∀ f : Tree .factor, ¬ f.text <+: xs := by
  simp only [Rule.Stuck, L.operators_eq, List.mem_cons, forall_eq_or_imp]
  exact And.comm

theorem op_mem : L.op ∈ r.operators := by
  rw [L.operators_eq]
  exact List.mem_cons_self

include L in
theorem mem_operators_of_operand {op : Char} (h : op ∈ k.operators) : op ∈ r.operators := by
  rw [L.operators_eq]
  exact List.mem_cons_of_mem _ h

include L in
/-- Every sentence of the chain begins with an operand. -/
theorem exists_operand (T : Tree r) : ∃ a : Tree k, a.text <+: T.text := by
  rcases L.shape T with ⟨a, rfl⟩ | ⟨a, b, rfl⟩
  · rw [L.text_one]
    exact ⟨a, List.prefix_refl _⟩
  · rw [L.text_more]
    exact ⟨a, List.prefix_append _ _⟩

theorem kept_more_of_not_fits {a : Tree k} (h : ¬ a.Fits) (b : Tree r) :
    (L.more a b).kept = (L.one a).kept := by
  rw [L.kept_more, if_neg h, L.kept_one]

theorem kept_more_of_none {a : Tree k} {b : Tree r} (h : a.Fits) (hb : b.kept = none) :
    (L.more a b).kept = some (L.one a) := by
  rw [L.kept_more, if_pos h, hb, Option.elim_none]

theorem kept_more_of_some {a : Tree k} {b u : Tree r} (h : a.Fits) (hb : b.kept = some u) :
    (L.more a b).kept
      = if InRange (L.join a.value u.value) then some (L.more a u) else none := by
  rw [L.kept_more, if_pos h, hb, Option.elim_some]

end Link

/-! ## What is kept, by cases -/

namespace Tree

/-- To show something of all sentences, it is enough to show it of factors and to carry it from
    the operands and rests of each chain to the chain. -/
theorem chain_induction {P : {r : Rule} → Tree r → Prop}
    (digit : ∀ (x : Char) (h : x.isDigit = true), P (.digit x h))
    (parens : ∀ e : Tree .expr, P e → P (.parens e))
    (one : ∀ {k r : Rule} (L : Link k r) (a : Tree k), P a → P (L.one a))
    (more : ∀ {k r : Rule} (L : Link k r) (a : Tree k) (b : Tree r), P a → P b → P (L.more a b))
    {r : Rule} (T : Tree r) : P T := by
  induction T with
  | digit x h => exact digit x h
  | parens e ih => exact parens e ih
  | single f ih => exact one Link.product f ih
  | product f t ihf iht => exact more Link.product f t ihf iht
  | alone t ih => exact one Link.sum t ih
  | sum t e iht ihe => exact more Link.sum t e iht ihe

theorem kept_of_fits {r : Rule} {T : Tree r} (h : T.Fits) : T.kept = some T := by
  induction T using chain_induction with
  | digit x hx => rfl
  | parens e ih => exact if_pos h
  | one L a ih => rw [L.kept_one, ih ((L.fits_one a).1 h), Option.map_some]
  | more L a b iha ihb =>
      obtain ⟨ha, hb, hrange⟩ := (L.fits_more a b).1 h
      rw [L.kept_more_of_some ha (ihb hb), if_pos hrange]

/-- What is kept fits. -/
theorem fits_of_kept {r : Rule} {T K : Tree r} (h : T.kept = some K) : K.Fits := by
  induction T using chain_induction with
  | digit x hx =>
      rw [kept, Option.some.injEq] at h
      rw [← h]
      trivial
  | parens e ih =>
      rw [kept] at h
      split at h
      · rw [Option.some.injEq] at h
        rw [← h]
        assumption
      · exact absurd h nofun
  | one L a ih =>
      rw [L.kept_one, Option.map_eq_some_iff] at h
      obtain ⟨a', ha', rfl⟩ := h
      exact (L.fits_one a').2 (ih ha')
  | more L a b iha ihb =>
      by_cases ha : a.Fits
      · cases hb : b.kept with
        | none =>
            rw [L.kept_more_of_none ha hb, Option.some.injEq] at h
            rw [← h]
            exact (L.fits_one a).2 ha
        | some u =>
            rw [L.kept_more_of_some ha hb] at h
            split at h
            · rw [Option.some.injEq] at h
              rw [← h]
              exact (L.fits_more a u).2 ⟨ha, ihb hb, ‹_›⟩
            · exact absurd h nofun
      · rw [L.kept_more_of_not_fits ha, L.kept_one, Option.map_eq_some_iff] at h
        obtain ⟨a', ha', rfl⟩ := h
        exact (L.fits_one a').2 (iha ha')

/-- All of a sentence is kept just if it fits. -/
theorem kept_eq_self_iff {r : Rule} {T : Tree r} : T.kept = some T ↔ T.Fits :=
  ⟨fits_of_kept, kept_of_fits⟩

/-- What is kept of a sentence that does not fit is cut off before an operator. -/
theorem exists_cut_of_kept {r : Rule} {T K : Tree r} (h : T.kept = some K) (hT : ¬ T.Fits) :
    ∃ op ∈ r.operators, ∃ tail, T.text = K.text ++ op :: tail := by
  induction T using chain_induction with
  | digit x hx => exact absurd trivial hT
  | parens e ih =>
      have hnone : (parens e).kept = none := if_neg hT
      rw [hnone] at h
      exact absurd h nofun
  | one L a ih =>
      rw [L.kept_one, Option.map_eq_some_iff] at h
      obtain ⟨a', ha', rfl⟩ := h
      obtain ⟨op, hop, tail, htail⟩ := ih ha' fun ha => hT ((L.fits_one a).2 ha)
      refine ⟨op, L.mem_operators_of_operand hop, tail, ?_⟩
      rw [L.text_one, L.text_one, htail]
  | more L a b iha ihb =>
      by_cases ha : a.Fits
      · cases hb : b.kept with
        | none =>
            rw [L.kept_more_of_none ha hb, Option.some.injEq] at h
            refine ⟨L.op, L.op_mem, b.text, ?_⟩
            rw [← h, L.text_one, L.text_more]
        | some u =>
            rw [L.kept_more_of_some ha hb] at h
            split at h
            · next hrange =>
                rw [Option.some.injEq] at h
                -- If `b` fitted it would be kept as a whole, and then all of the chain would fit.
                have hbfits : ¬ b.Fits := by
                  intro hbf
                  rw [kept_of_fits hbf, Option.some.injEq] at hb
                  rw [← hb] at hrange
                  exact hT ((L.fits_more a b).2 ⟨ha, hbf, hrange⟩)
                obtain ⟨op, hop, tail, htail⟩ := ihb hb hbfits
                refine ⟨op, hop, tail, ?_⟩
                rw [← h, L.text_more, L.text_more, htail, List.append_assoc, List.cons_append]
            · exact absurd h nofun
      -- The cut is inside the operand, so the chain's own operator is behind it.
      · rw [L.kept_more_of_not_fits ha, L.kept_one, Option.map_eq_some_iff] at h
        obtain ⟨a', ha', rfl⟩ := h
        obtain ⟨op, hop, tail, htail⟩ := iha ha' ha
        refine ⟨op, L.mem_operators_of_operand hop, tail ++ L.op :: b.text, ?_⟩
        rw [L.text_one, L.text_more, htail, List.append_assoc, List.cons_append]

/-- What is kept is a beginning of the sentence. -/
theorem text_prefix_of_kept {r : Rule} {T K : Tree r} (h : T.kept = some K) :
    K.text <+: T.text := by
  by_cases hT : T.Fits
  · rw [kept_of_fits hT, Option.some.injEq] at h
    subst h
    exact List.prefix_refl _
  · obtain ⟨op, _, tail, htail⟩ := exists_cut_of_kept h hT
    rw [htail]
    exact List.prefix_append _ _

end Tree

end Parsing.Arithmetic
