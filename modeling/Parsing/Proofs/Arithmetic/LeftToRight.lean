import Parsing.Proofs.Arithmetic.Evaluation

set_option autoImplicit false

/-! # Reading from left to right

The rules recur on the right, so a product is formed from its last factor on. Read from left to
right it is formed from its first one on. Sums and products are associative, so both readings give
the same value if both give one (`leftValue_eq_some`), but the numbers on the way differ, and each
of them has to be in range.

All numbers are at least zero, so the tails of a sum are in range if the sum is. The tails of a
product may not be: a zero hides how large the factors behind it are. What is read on the right is
in range just if sums are, and in each product the factors after the last zero are (`fits_iff`).
Hence the exact condition under which a text that has a value from left to right is evaluated
(`evaluate_eq_leftValue_iff`). -/

namespace Parsing.Arithmetic

/-! ## Checked folds -/

/-- The values `rest` joined to `first` one after the other, each result checked. There is none if
    a value is missing or a result is out of range. -/
def foldLeft (join : Int → Int → Int) (first : Option Int) (rest : List (Option Int)) :
    Option Int :=
  rest.foldl (fun left right => do inRange? (join (← left) (← right))) first

section Fold

variable {join : Int → Int → Int}

theorem foldLeft_nil (first : Option Int) : foldLeft join first [] = first := rfl

theorem foldLeft_none (rest : List (Option Int)) : foldLeft join none rest = none := by
  induction rest with
  | nil => rfl
  | cons x xs ih => exact ih

/-- A fold that has a value goes on with a value that is in range. -/
theorem foldLeft_cons_eq_some {x v : Int} {y : Option Int} {ys : List (Option Int)}
    (h : foldLeft join (some x) (y :: ys) = some v) :
    ∃ z, y = some z ∧ InRange (join x z) ∧ foldLeft join (some (join x z)) ys = some v := by
  cases y with
  | none =>
      have hnone : foldLeft join (some x) (none :: ys) = foldLeft join none ys := rfl
      rw [hnone, foldLeft_none] at h
      exact absurd h nofun
  | some z =>
      have hstep : foldLeft join (some x) (some z :: ys)
          = foldLeft join (inRange? (join x z)) ys := rfl
      by_cases hrange : InRange (join x z)
      · have hchecked : inRange? (join x z) = some (join x z) := if_pos hrange
        rw [hstep, hchecked] at h
        exact ⟨z, rfl, hrange, h⟩
      · have hchecked : inRange? (join x z) = none := if_neg hrange
        rw [hstep, hchecked, foldLeft_none] at h
        exact absurd h nofun

theorem exists_of_foldLeft_eq_some {first : Option Int} {rest : List (Option Int)} {v : Int}
    (h : foldLeft join first rest = some v) : ∃ x, first = some x := by
  cases first with
  | none =>
      rw [foldLeft_none] at h
      exact absurd h nofun
  | some x => exact ⟨x, rfl⟩

end Fold

namespace Tree

mutual

/-- The value read from left to right: a product is folded over its factors and a sum over its
    terms. -/
def leftValue : {r : Rule} → Tree r → Option Int
  | _, .digit x _ => some (Parser.digitValue x)
  | _, .parens e => e.leftValue
  | _, .single f => f.leftValue
  | _, .product f t => foldLeft (· * ·) f.leftValue t.operands
  | _, .alone t => t.leftValue
  | _, .sum t e => foldLeft (· + ·) t.leftValue e.operands

/-- The values of the factors of a product, or of the terms of a sum, each read from left to
    right. -/
def operands : {r : Rule} → Tree r → List (Option Int)
  | _, .digit _ _ => []
  | _, .parens _ => []
  | _, .single f => [f.leftValue]
  | _, .product f t => f.leftValue :: t.operands
  | _, .alone t => [t.leftValue]
  | _, .sum t e => t.leftValue :: e.operands

end

/-! ## The sums and products of a sentence -/

/-- The values of the factors of a product. -/
def factors : {r : Rule} → Tree r → List Int
  | _, .single f => [f.value]
  | _, .product f t => f.value :: t.factors
  | _, _ => []

/-- The values of the factors of each product, those of the sentence itself apart where it is a
    product. -/
def products : {r : Rule} → Tree r → List (List Int)
  | _, .digit _ _ => []
  | _, .parens e => e.products
  | _, .single f => f.products
  | _, .product f t => f.products ++ t.products
  | _, .alone t => t.factors :: t.products
  | _, .sum t e => t.factors :: (t.products ++ e.products)

/-- The value of each sum, that of the sentence itself apart where it is a sum. -/
def sums : {r : Rule} → Tree r → List Int
  | _, .digit _ _ => []
  | _, .parens e => e.value :: e.sums
  | _, .single f => f.sums
  | _, .product f t => f.sums ++ t.sums
  | _, .alone t => t.sums
  | _, .sum t e => t.sums ++ e.sums

/-! ## The value from left to right is the exact value -/

mutual

/-- A value read from left to right is the exact value, and then all sums are in range. -/
theorem leftValue_eq_some : {r : Rule} → (T : Tree r) → {v : Int} → T.leftValue = some v →
    v = T.value ∧ InRange v ∧ ∀ w ∈ T.sums, InRange w
  | _, .digit x hx, v, h => by
      rw [leftValue, Option.some.injEq] at h
      have hfits : (Tree.digit x hx).Fits := trivial
      rw [← h]
      exact ⟨rfl, hfits.inRange, fun w hw => absurd hw List.not_mem_nil⟩
  | _, .parens e, v, h => by
      obtain ⟨hvalue, hrange, hsums⟩ := leftValue_eq_some e h
      refine ⟨hvalue, hrange, fun w hw => ?_⟩
      rcases List.mem_cons.1 hw with rfl | hw
      · rwa [← hvalue]
      · exact hsums w hw
  | _, .single f, v, h => leftValue_eq_some f h
  | _, .product f t, v, h => by
      rw [leftValue] at h
      obtain ⟨x, hx⟩ := exists_of_foldLeft_eq_some h
      obtain ⟨hvalue, _, hsums⟩ := leftValue_eq_some f hx
      rw [hx] at h
      obtain ⟨hfold, hrange, hsums'⟩ := foldLeft_factors t h
      refine ⟨?_, hrange, List.forall_mem_append.2 ⟨hsums, hsums'⟩⟩
      rw [hfold, hvalue, value]
  | _, .alone t, v, h => leftValue_eq_some t h
  | _, .sum t e, v, h => by
      rw [leftValue] at h
      obtain ⟨x, hx⟩ := exists_of_foldLeft_eq_some h
      obtain ⟨hvalue, _, hsums⟩ := leftValue_eq_some t hx
      rw [hx] at h
      obtain ⟨hfold, hrange, hsums'⟩ := foldLeft_terms e h
      refine ⟨?_, hrange, List.forall_mem_append.2 ⟨hsums, hsums'⟩⟩
      rw [hfold, hvalue, value]

/-- Going on with the factors of a product multiplies by the product. -/
theorem foldLeft_factors : (t : Tree .term) → {x v : Int} →
    foldLeft (· * ·) (some x) t.operands = some v →
    v = x * t.value ∧ InRange v ∧ ∀ w ∈ t.sums, InRange w
  | .single f, x, v, h => by
      obtain ⟨z, hz, hrange, hv⟩ := foldLeft_cons_eq_some h
      rw [foldLeft_nil, Option.some.injEq] at hv
      obtain ⟨hvalue, _, hsums⟩ := leftValue_eq_some f hz
      rw [← hv]
      exact ⟨by rw [hvalue, value], hrange, hsums⟩
  | .product f t, x, v, h => by
      obtain ⟨z, hz, _, htail⟩ := foldLeft_cons_eq_some h
      obtain ⟨hvalue, _, hsums⟩ := leftValue_eq_some f hz
      obtain ⟨hfold, hrange, hsums'⟩ := foldLeft_factors t htail
      refine ⟨?_, hrange, List.forall_mem_append.2 ⟨hsums, hsums'⟩⟩
      rw [hfold, hvalue, value, Int.mul_assoc]

/-- Going on with the terms of a sum adds the sum. -/
theorem foldLeft_terms : (e : Tree .expr) → {x v : Int} →
    foldLeft (· + ·) (some x) e.operands = some v →
    v = x + e.value ∧ InRange v ∧ ∀ w ∈ e.sums, InRange w
  | .alone t, x, v, h => by
      obtain ⟨z, hz, hrange, hv⟩ := foldLeft_cons_eq_some h
      rw [foldLeft_nil, Option.some.injEq] at hv
      obtain ⟨hvalue, _, hsums⟩ := leftValue_eq_some t hz
      rw [← hv]
      exact ⟨by rw [hvalue, value], hrange, hsums⟩
  | .sum t e, x, v, h => by
      obtain ⟨z, hz, _, htail⟩ := foldLeft_cons_eq_some h
      obtain ⟨hvalue, _, hsums⟩ := leftValue_eq_some t hz
      obtain ⟨hfold, hrange, hsums'⟩ := foldLeft_terms e htail
      refine ⟨?_, hrange, List.forall_mem_append.2 ⟨hsums, hsums'⟩⟩
      rw [hfold, hvalue, value, Int.add_assoc]

end

end Tree

/-! ## What is read on the right -/

/-- The values after the last zero. -/
def afterLastZero : List Int → List Int
  | [] => []
  | v :: vs => if v = 0 ∨ 0 ∈ vs then afterLastZero vs else v :: vs

/-- The product of the values after the last zero. -/
def unmasked (vs : List Int) : Int := (afterLastZero vs).foldr (· * ·) 1

theorem unmasked_cons_of_zero {v : Int} {vs : List Int} (h : v = 0 ∨ 0 ∈ vs) :
    unmasked (v :: vs) = unmasked vs := by
  rw [unmasked, afterLastZero, if_pos h, unmasked]

theorem unmasked_of_notMem {vs : List Int} (h : 0 ∉ vs) : unmasked vs = vs.foldr (· * ·) 1 := by
  cases vs with
  | nil => rfl
  | cons v vs =>
      have hnot : ¬ (v = 0 ∨ 0 ∈ vs) := by
        rintro (rfl | hmem)
        · exact h List.mem_cons_self
        · exact h (List.mem_cons_of_mem _ hmem)
      rw [unmasked, afterLastZero, if_neg hnot]

namespace Tree

theorem value_eq_foldr_factors (t : Tree .term) : t.value = t.factors.foldr (· * ·) 1 := by
  cases t with
  | single f => exact (Int.mul_one f.value).symm
  | product f t => rw [value, factors, List.foldr_cons, ← value_eq_foldr_factors t]

theorem value_eq_zero_of_mem {t : Tree .term} (h : 0 ∈ t.factors) : t.value = 0 := by
  cases t with
  | single f => exact (List.mem_singleton.1 h).symm
  | product f t =>
      rcases List.mem_cons.1 h with hf | ht
      · rw [value, ← hf, Int.zero_mul]
      · rw [value, value_eq_zero_of_mem ht, Int.mul_zero]

/-- Of the sentence itself, the sum has to be in range, or the product of the factors after the
    last zero. -/
def OwnFits : {r : Rule} → Tree r → Prop
  | .expr, e => InRange e.value
  | .term, t => InRange (unmasked t.factors)
  | .factor, _ => True

/-- So do all sums and products inside. -/
def InnerFits {r : Rule} (T : Tree r) : Prop :=
  (∀ vs ∈ T.products, InRange (unmasked vs)) ∧ ∀ w ∈ T.sums, InRange w

theorem inRange_of_le {v w : Int} (hv : 0 ≤ v) (hle : v ≤ w) (hw : InRange w) : InRange v := by
  simp only [InRange, least, greatest] at hw ⊢
  omega

theorem ownFits_single {f : Tree .factor} (hf : f.Fits) : (Tree.single f).OwnFits := by
  show InRange (unmasked [f.value])
  by_cases hzero : f.value = 0
  · rw [unmasked_cons_of_zero (.inl hzero)]
    decide
  · have hnot : 0 ∉ [f.value] := by
      rw [List.mem_singleton]
      exact fun h => hzero h.symm
    rw [unmasked_of_notMem hnot, List.foldr_cons, List.foldr_nil, Int.mul_one]
    exact hf.inRange

/-- A factor in front of a product matters just if no zero hides it. -/
theorem ownFits_product (f : Tree .factor) (t : Tree .term) :
    (Tree.product f t).OwnFits ↔ t.OwnFits ∧ InRange (f.value * t.value) := by
  show InRange (unmasked (f.value :: t.factors))
    ↔ InRange (unmasked t.factors) ∧ InRange (f.value * t.value)
  by_cases hzero : f.value = 0 ∨ 0 ∈ t.factors
  -- A zero on either side makes the product of both zero, which is in range in any case.
  · have hproduct : f.value * t.value = 0 := by
      rcases hzero with hf | ht
      · rw [hf, Int.zero_mul]
      · rw [value_eq_zero_of_mem ht, Int.mul_zero]
    rw [unmasked_cons_of_zero hzero, hproduct]
    exact ⟨fun h => ⟨h, by decide⟩, And.left⟩
  -- Without a zero the product of both is the larger one, so it decides for the rest as well.
  · have hpos : 1 ≤ f.value := by
      have hnonneg := f.value_nonneg
      have hne : f.value ≠ 0 := fun h => hzero (.inl h)
      omega
    have hnot : 0 ∉ t.factors := fun h => hzero (.inr h)
    have hnot' : 0 ∉ f.value :: t.factors := by
      rw [List.mem_cons]
      rintro (h | h)
      · exact hzero (.inl h.symm)
      · exact hnot h
    have hle : t.value ≤ f.value * t.value := by
      calc t.value = 1 * t.value := (Int.one_mul _).symm
        _ ≤ f.value * t.value := Int.mul_le_mul_of_nonneg_right hpos t.value_nonneg
    rw [unmasked_of_notMem hnot', unmasked_of_notMem hnot, List.foldr_cons,
      ← value_eq_foldr_factors]
    exact ⟨fun h => ⟨inRange_of_le t.value_nonneg hle h, h⟩, And.right⟩

theorem inRange_rest_of_sum {t : Tree .term} {e : Tree .expr} (h : InRange (t.value + e.value)) :
    InRange e.value := by
  have ht := t.value_nonneg
  exact inRange_of_le e.value_nonneg (by omega) h

/-- **Fitting without the reading order.** A sentence fits just if every sum in it is in range, and
    in every product the factors after the last zero are. -/
theorem fits_iff {r : Rule} (T : Tree r) : T.Fits ↔ T.OwnFits ∧ T.InnerFits := by
  simp only [InnerFits]
  induction T with
  | digit x h => simp [Fits, OwnFits, products, sums]
  | parens e ih =>
      simp only [Fits, ih, OwnFits, products, sums, List.forall_mem_cons, true_and]
      exact and_left_comm
  | single f ih =>
      simp only [products, sums]
      constructor
      · intro h
        exact ⟨ownFits_single h, (ih.1 h).2⟩
      · rintro ⟨_, h⟩
        exact ih.2 ⟨trivial, h⟩
  | product f t ihf iht =>
      simp only [Fits, ihf, iht, ownFits_product, products, sums, List.forall_mem_append]
      constructor
      · rintro ⟨⟨_, hfp, hfs⟩, ⟨hown, htp, hts⟩, hrange⟩
        exact ⟨⟨hown, hrange⟩, ⟨hfp, htp⟩, hfs, hts⟩
      · rintro ⟨⟨hown, hrange⟩, ⟨hfp, htp⟩, hfs, hts⟩
        exact ⟨⟨trivial, hfp, hfs⟩, ⟨hown, htp, hts⟩, hrange⟩
  | alone t ih =>
      simp only [products, sums, List.forall_mem_cons]
      constructor
      · intro h
        have hfits : t.Fits := h
        obtain ⟨hown, hp, hs⟩ := ih.1 hfits
        exact ⟨hfits.inRange, ⟨hown, hp⟩, hs⟩
      · rintro ⟨_, ⟨hown, hp⟩, hs⟩
        exact ih.2 ⟨hown, hp, hs⟩
  | sum t e iht ihe =>
      simp only [Fits, iht, ihe, products, sums, List.forall_mem_cons, List.forall_mem_append]
      constructor
      · rintro ⟨⟨hown, htp, hts⟩, ⟨_, hep, hes⟩, hrange⟩
        exact ⟨hrange, ⟨hown, htp, hep⟩, hts, hes⟩
      · rintro ⟨hrange, ⟨hown, htp, hep⟩, hts, hes⟩
        exact ⟨⟨hown, htp, hts⟩, ⟨inRange_rest_of_sum hrange, hep, hes⟩, hrange⟩

/-- A sentence that has a value from left to right fits just if in every product the factors after
    the last zero are in range. -/
theorem fits_iff_of_leftValue {T : Tree .expr} {v : Int} (h : T.leftValue = some v) :
    T.Fits ↔ ∀ vs ∈ T.products, InRange (unmasked vs) := by
  obtain ⟨hvalue, hrange, hsums⟩ := leftValue_eq_some T h
  rw [hvalue] at hrange
  rw [fits_iff]
  constructor
  · rintro ⟨_, hproducts, _⟩
    exact hproducts
  · intro hproducts
    exact ⟨hrange, hproducts, hsums⟩

end Tree

/-! ## Both readings of a text -/

/-- **When both readings agree.** Let a text have the value `v` from left to right. It evaluates
    to `v` just if in every product of it the factors after the last zero have a product in range;
    otherwise it has no value. -/
theorem evaluate_eq_leftValue_iff (text : String) (T : Tree .expr) (htext : T.text = text.toList)
    (v : Int) (hleft : T.leftValue = some v) :
    ((evaluate text).value = some v ↔ ∀ vs ∈ T.products, InRange (unmasked vs)) ∧
    ((evaluate text).value = some v ∨ (evaluate text).value = none) := by
  obtain ⟨hvalue, _, _⟩ := Tree.leftValue_eq_some T hleft
  rw [← Tree.fits_iff_of_leftValue hleft]
  by_cases hfits : T.Fits
  · have heval : (evaluate text).value = some v := by rw [evaluate_of_fits htext hfits, hvalue]
    exact ⟨⟨fun _ => hfits, fun _ => heval⟩, .inl heval⟩
  · have heval : (evaluate text).value = none := evaluate_of_not_fits htext hfits
    refine ⟨⟨fun h => ?_, fun h => absurd h hfits⟩, .inr heval⟩
    rw [heval] at h
    exact absurd h nofun

/-- Behind a zero, nineteen nines do no harm. -/
theorem evaluate_zero_times_nineteen :
    (Tree.alone (.product (.digit '0' rfl) (nines 18))).leftValue = some 0 ∧
      (evaluate "0*9*9*9*9*9*9*9*9*9*9*9*9*9*9*9*9*9*9*9").value = some 0 :=
  ⟨by decide, (evaluate_eq_leftValue_iff _ (.alone (.product (.digit '0' rfl) (nines 18)))
    (by decide) 0 (by decide)).1.2 (by decide)⟩

/-- Behind a zero, twenty nines have a product out of range. From left to right the text is zero,
    but it has no value. -/
theorem zero_times_twenty_has_no_value :
    (Tree.alone (.product (.digit '0' rfl) (nines 19))).text
        = "0*9*9*9*9*9*9*9*9*9*9*9*9*9*9*9*9*9*9*9*9".toList ∧
      (Tree.alone (.product (.digit '0' rfl) (nines 19))).leftValue = some 0 ∧
      (evaluate "0*9*9*9*9*9*9*9*9*9*9*9*9*9*9*9*9*9*9*9*9").value = none := by
  have htext : (Tree.alone (.product (.digit '0' rfl) (nines 19))).text
      = "0*9*9*9*9*9*9*9*9*9*9*9*9*9*9*9*9*9*9*9*9".toList := by decide
  exact ⟨htext, by decide, evaluate_of_not_fits htext (by decide)⟩

end Parsing.Arithmetic
