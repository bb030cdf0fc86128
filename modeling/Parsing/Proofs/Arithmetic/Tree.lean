import Parsing.Arithmetic.Rules

set_option autoImplicit false

/-! # Sentences of sums and products

The sentences of the three rules are described by derivation trees, apart from any parser:

    expr   ::= term   | term '+' expr
    term   ::= factor | factor '*' term
    factor ::= digit  | '(' expr ')'

A tree has a text, an exact value, and a value under range checks; it `Fits` if no sum or product
in it leaves the range, and just then the checked value is the exact one
(`checkedValue_eq_some_iff`). A sentence is `Stuck` in front of a text that does not begin with an
operator of its rule and a factor. -/

namespace Parsing.Arithmetic

/-! ## Trees -/

/-- A derivation of a sentence of a rule. -/
inductive Tree : Rule → Type where
  | digit (x : Char) (h : x.isDigit = true) : Tree .factor
  | parens (e : Tree .expr) : Tree .factor
  | single (f : Tree .factor) : Tree .term
  | product (f : Tree .factor) (t : Tree .term) : Tree .term
  | alone (t : Tree .term) : Tree .expr
  | sum (t : Tree .term) (e : Tree .expr) : Tree .expr

/-- A value that is in range, if there is one. -/
def inRange? (v : Int) : Option Int := if InRange v then some v else none

namespace Tree

/-- The sentence. -/
def text : {r : Rule} → Tree r → List Char
  | _, .digit x _ => [x]
  | _, .parens e => '(' :: (e.text ++ [')'])
  | _, .single f => f.text
  | _, .product f t => f.text ++ '*' :: t.text
  | _, .alone t => t.text
  | _, .sum t e => t.text ++ '+' :: e.text

/-- The exact value. -/
def value : {r : Rule} → Tree r → Int
  | _, .digit x _ => Parser.digitValue x
  | _, .parens e => e.value
  | _, .single f => f.value
  | _, .product f t => f.value * t.value
  | _, .alone t => t.value
  | _, .sum t e => t.value + e.value

/-- Each product of a factor and the rest of its chain, and each such sum, is in range. -/
def Fits : {r : Rule} → Tree r → Prop
  | _, .digit _ _ => True
  | _, .parens e => e.Fits
  | _, .single f => f.Fits
  | _, .product f t => f.Fits ∧ t.Fits ∧ InRange (f.value * t.value)
  | _, .alone t => t.Fits
  | _, .sum t e => t.Fits ∧ e.Fits ∧ InRange (t.value + e.value)

/-- The value under range checks: a factor times the rest of the product, a term plus the rest of
    the sum, each checked. -/
def checkedValue : {r : Rule} → Tree r → Option Int
  | _, .digit x _ => some (Parser.digitValue x)
  | _, .parens e => e.checkedValue
  | _, .single f => f.checkedValue
  | _, .product f t => do inRange? ((← f.checkedValue) * (← t.checkedValue))
  | _, .alone t => t.checkedValue
  | _, .sum t e => do inRange? ((← t.checkedValue) + (← e.checkedValue))

/-- The factor that a sentence begins with. -/
def first : {r : Rule} → Tree r → Tree .factor
  | _, .digit x h => .digit x h
  | _, .parens e => .parens e
  | _, .single f => f
  | _, .product f _ => f
  | _, .alone t => t.first
  | _, .sum t _ => t.first

instance decidableFits : {r : Rule} → (T : Tree r) → Decidable T.Fits
  | _, .digit _ _ => inferInstanceAs (Decidable True)
  | _, .parens e => decidableFits e
  | _, .single f => decidableFits f
  | _, .product f t =>
      have := decidableFits f
      have := decidableFits t
      inferInstanceAs (Decidable (_ ∧ _))
  | _, .alone t => decidableFits t
  | _, .sum t e =>
      have := decidableFits t
      have := decidableFits e
      inferInstanceAs (Decidable (_ ∧ _))

/-! ## Values -/

theorem digitValue_le {x : Char} (h : x.isDigit = true) : Parser.digitValue x ≤ 9 := by
  simp only [Char.isDigit, Bool.and_eq_true, decide_eq_true_eq, UInt32.le_iff_toNat_le] at h
  have hx : x.toNat ≤ '9'.toNat := h.2
  have h0 : '0'.toNat = 48 := rfl
  have h9 : '9'.toNat = 57 := rfl
  rw [Parser.digitValue]
  omega

theorem value_nonneg {r : Rule} (T : Tree r) : 0 ≤ T.value := by
  induction T with
  | digit x h => exact Int.natCast_nonneg _
  | parens e ih => exact ih
  | single f ih => exact ih
  | product f t ihf iht => exact Int.mul_nonneg ihf iht
  | alone t ih => exact ih
  | sum t e iht ihe => exact Int.add_nonneg iht ihe

/-- A tree that fits has its own value in range too. -/
theorem Fits.inRange {r : Rule} {T : Tree r} (h : T.Fits) : InRange T.value := by
  induction T with
  | digit x hx =>
      have := digitValue_le hx
      simp only [value, InRange, least, greatest]
      omega
  | parens e ih => exact ih h
  | single f ih => exact ih h
  | product f t ihf iht => exact h.2.2
  | alone t ih => exact ih h
  | sum t e iht ihe => exact h.2.2

theorem inRange?_eq_some_iff {v w : Int} : inRange? v = some w ↔ InRange v ∧ v = w := by
  unfold inRange?
  split
  · next h => exact ⟨fun e => ⟨h, Option.some.inj e⟩, fun e => congrArg some e.2⟩
  · next h => exact ⟨nofun, fun e => absurd e.1 h⟩

/-- The checked value is the exact value, and there is one just if the tree fits. -/
theorem checkedValue_eq_some_iff {r : Rule} {T : Tree r} {v : Int} :
    T.checkedValue = some v ↔ T.Fits ∧ T.value = v := by
  induction T generalizing v with
  | digit x h => simp [checkedValue, Fits, value]
  | parens e ih => exact ih
  | single f ih => exact ih
  | product f t ihf iht =>
      simp only [checkedValue, bind, Option.bind_eq_some_iff, ihf, iht, inRange?_eq_some_iff, Fits,
        value]
      constructor
      · rintro ⟨a, ⟨hf, rfl⟩, b, ⟨ht, rfl⟩, hrange, rfl⟩
        exact ⟨⟨hf, ht, hrange⟩, rfl⟩
      · rintro ⟨⟨hf, ht, hrange⟩, rfl⟩
        exact ⟨_, ⟨hf, rfl⟩, _, ⟨ht, rfl⟩, hrange, rfl⟩
  | alone t ih => exact ih
  | sum t e iht ihe =>
      simp only [checkedValue, bind, Option.bind_eq_some_iff, iht, ihe, inRange?_eq_some_iff, Fits,
        value]
      constructor
      · rintro ⟨a, ⟨ht, rfl⟩, b, ⟨he, rfl⟩, hrange, rfl⟩
        exact ⟨⟨ht, he, hrange⟩, rfl⟩
      · rintro ⟨⟨ht, he, hrange⟩, rfl⟩
        exact ⟨_, ⟨ht, rfl⟩, _, ⟨he, rfl⟩, hrange, rfl⟩

/-! ## Texts -/

/-- Every sentence begins with a factor. -/
theorem text_first_prefix {r : Rule} (T : Tree r) : T.first.text <+: T.text := by
  induction T with
  | digit x h => exact List.prefix_refl _
  | parens e ih => exact List.prefix_refl _
  | single f ih => exact List.prefix_refl _
  | product f t ihf iht => exact List.prefix_append _ _
  | alone t ih => exact ih
  | sum t e iht ihe => exact iht.trans (List.prefix_append _ _)

theorem ne_of_isDigit {x y : Char} (hx : x.isDigit = true) (hy : ¬ y.isDigit = true) : x ≠ y := by
  rintro rfl
  exact hy hx

theorem text_ne_nil {r : Rule} (T : Tree r) : T.text ≠ [] := by
  induction T with
  | digit x h => exact List.cons_ne_nil _ _
  | parens e ih => exact List.cons_ne_nil _ _
  | single f ih => exact ih
  | product f t ihf iht => exact List.append_ne_nil_of_left_ne_nil ihf _
  | alone t ih => exact ih
  | sum t e iht ihe => exact List.append_ne_nil_of_left_ne_nil iht _

/-- A factor begins with a digit or a parenthesis. -/
theorem not_prefix_of_head {x : Char} (hdigit : ¬ x.isDigit = true) (hopen : x ≠ '(')
    (xs : List Char) (T : Tree .factor) : ¬ T.text <+: x :: xs := by
  intro hT
  cases T with
  | digit y hy =>
      rw [text, List.cons_prefix_cons] at hT
      rw [hT.1] at hy
      exact hdigit hy
  | parens e =>
      rw [text, List.cons_prefix_cons] at hT
      exact hopen hT.1.symm

end Tree

/-! ## Where a sentence cannot go on -/

/-- The operators by which a sentence of the rule may go on. -/
def Rule.operators : Rule → List Char
  | .expr => ['+', '*']
  | .term => ['*']
  | .factor => []

theorem Rule.operators_subset {r : Rule} {op : Char} (h : op ∈ r.operators) :
    op ∈ Rule.expr.operators := by
  cases r with
  | expr => exact h
  | term => exact List.mem_cons_of_mem _ h
  | factor => exact absurd h List.not_mem_nil

theorem eq_of_mem_operators {op : Char} (h : op ∈ Rule.expr.operators) : op = '+' ∨ op = '*' := by
  simpa [Rule.operators] using h

/-- A sentence of the rule in front of `rest` does not go on: no operator of the rule stands there
    with a factor behind it. -/
def Rule.Stuck (r : Rule) (rest : List Char) : Prop :=
  ∀ op ∈ r.operators, ∀ xs, rest = op :: xs → ∀ f : Tree .factor, ¬ f.text <+: xs

namespace Rule

theorem stuck_factor (rest : List Char) : Rule.factor.Stuck rest := by
  intro op hop
  exact absurd hop List.not_mem_nil

theorem stuck_nil (r : Rule) : r.Stuck [] := by
  intro op _ xs h
  exact absurd h (List.cons_ne_nil op xs).symm

theorem stuck_of_notMem {r : Rule} {x : Char} (h : x ∉ r.operators) (xs : List Char) :
    r.Stuck (x :: xs) := by
  intro op hop ys heq
  rw [List.cons.injEq] at heq
  rw [heq.1] at h
  exact absurd hop h

theorem Stuck.term_of_expr {rest : List Char} (h : Rule.expr.Stuck rest) :
    Rule.term.Stuck rest := by
  intro op hop
  exact h op (List.mem_cons_of_mem _ hop)

/-- An operator in front of a sentence does not stop a sentence before it. -/
theorem not_stuck {r r' : Rule} {op : Char} (hop : op ∈ r.operators) (T : Tree r')
    (rest : List Char) : ¬ r.Stuck (op :: (T.text ++ rest)) := by
  intro h
  exact h op hop _ rfl T.first (T.text_first_prefix.trans (List.prefix_append _ _))

end Rule

end Parsing.Arithmetic
