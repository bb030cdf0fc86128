import Parsing.Arithmetic.Evaluator
import Parsing.Proofs.Arithmetic.Reading
import Parsing.Proofs.WholeInput

set_option autoImplicit false

/-! # What texts evaluate to

A rule has at most one success, and it reads the longest sentence that the text begins with if
that one fits (`successes_of_longest`). The evaluator gives a text a value just if the text is a
sentence that fits, and then the exact value of the sentence (`evaluate_eq_some_iff`).

Where the longest sentence does not fit, the rule never succeeds with all of it. It may succeed
with a shorter sentence, though: the failure of an inner rule ends the chain in front of it.
`successes_of_overflow` says when it does, and with which sentence. -/

namespace Parsing.Arithmetic

open Grammar

/-! ## Rules at the start of a text -/

/-- The successes of a rule without a nesting limit at the start of a text. -/
def Rule.successes (r : Rule) (text : String) : List (Success Int) :=
  ((grammar none r).parser.applyText text).outcome.successes

theorem yields_successes (r : Rule) (text : String) :
    r.Yields (.ofString text) (r.successes text) := yields_rule r (.ofString text)

theorem unread_ofString (text : String) : (Cursor.ofString text).unread = text.toList := rfl

/-- The successes are what is kept of the longest sentence. -/
theorem successes_eq_read {r : Rule} {text : String} {T : Tree r} (h : T.IsLongest text.toList) :
    r.successes text = T.read (.ofString text) := by
  obtain ⟨rest, hrest, hstuck⟩ := Tree.isLongest_iff.1 h
  exact (yields_successes r text).eq_read hrest hstuck

/-- A success reads a sentence that fits, and has its value. -/
theorem exists_sentence_of_mem {r : Rule} {text : String} {x : Success Int}
    (hx : x ∈ r.successes text) :
    ∃ K : Tree r, (Cursor.ofString text).Reads K.text x.rest ∧ K.Fits ∧ K.value = x.value :=
  (yields_successes r text).exists_sentence hx

theorem length_read_le {r : Rule} (T : Tree r) (c : Cursor) : (T.read c).length ≤ 1 := by
  cases hk : T.kept with
  | none =>
      rw [Tree.read_of_kept_eq_none hk]
      exact Nat.zero_le 1
  | some K =>
      rw [Tree.read_of_kept_eq_some hk]
      exact Nat.le_refl 1

theorem length_successes_le (r : Rule) (text : String) : (r.successes text).length ≤ 1 := by
  have hyields := yields_successes r text
  generalize r.successes text = xs at hyields
  cases hyields with
  | nothing _ => exact Nat.zero_le 1
  | sentence T rest _ _ => exact length_read_le T _

/-- A run of a rule without a nesting limit comes to its outcome, with nothing logged. -/
theorem settle_rule (r : Rule) (text : String) :
    ((grammar none r).parser.applyText text).settle
      = ([], .ok ((grammar none r).parser.applyText text).outcome) :=
  Run.settle_of_events_eq_nil (events_rule r (.ofString text))

/-- **Rules read longest sentences.** A rule has at most one success, which reads a sentence of
    the rule and has its value. It has none if the text begins with no sentence of the rule, and it
    reads the longest sentence that the text begins with if that one has a checked value. -/
theorem successes_of_longest (r : Rule) (text : String) :
    ((r.successes text).length ≤ 1 ∧
      ∀ x ∈ r.successes text, ∃ T : Tree r, (Cursor.ofString text).Reads T.text x.rest ∧
        ∀ U : Tree r, U.text = T.text → U.value = x.value) ∧
    ((∀ T : Tree r, ¬ T.text <+: text.toList) → r.successes text = []) ∧
    (∀ (T : Tree r) (v : Int), T.IsLongest text.toList → T.checkedValue = some v →
      ∃ d, r.successes text = [⟨v, d⟩] ∧ (Cursor.ofString text).Reads T.text d) ∧
    ((grammar none r).parser.applyText text).settle
      = ([], .ok ((grammar none r).parser.applyText text).outcome) := by
  refine ⟨⟨length_successes_le r text, fun x hx => ?_⟩, fun h => ?_, fun T v hT hv => ?_,
    settle_rule r text⟩
  · obtain ⟨K, hreads, _, hvalue⟩ := exists_sentence_of_mem hx
    refine ⟨K, hreads, fun U hU => ?_⟩
    rw [Tree.text_injective hU, hvalue]
  · exact (yields_successes r text).eq_nil h
  · obtain ⟨hfits, rfl⟩ := Tree.checkedValue_eq_some_iff.1 hv
    obtain ⟨rest, hrest⟩ := hT.1
    refine ⟨(Cursor.ofString text).after T.text, ?_, Cursor.reads_after hrest.symm⟩
    rw [successes_eq_read hT, Tree.read_of_kept_eq_some (Tree.kept_of_fits hfits)]

/-- A dangling operator is left unread. -/
theorem successes_of_longest_dangling :
    (Tree.alone (.product (.digit '2' rfl) (.single (.digit '3' rfl)))).IsLongest "2*3+x".toList ∧
      (Tree.alone (.product (.digit '2' rfl) (.single (.digit '3' rfl)))).checkedValue = some 6 ∧
      ∃ d, Rule.expr.successes "2*3+x" = [⟨6, d⟩] ∧
        (Cursor.ofString "2*3+x").Reads ['2', '*', '3'] d := by
  have hlongest : (Tree.alone (.product (.digit '2' rfl) (.single (.digit '3' rfl)))).IsLongest
      "2*3+x".toList := by
    refine Tree.isLongest_iff.2 ⟨['+', 'x'], rfl, ?_⟩
    intro op _ xs h f
    rw [List.cons.injEq] at h
    rw [← h.2]
    exact f.not_prefix_of_head (by decide) (by decide) []
  exact ⟨hlongest, rfl, (successes_of_longest .expr "2*3+x").2.2.1 _ 6 hlongest rfl⟩

/-! ## Whole texts -/

theorem toOption_result {α : Type} (o : Outcome α) :
    o.result.toOption = o.successes.head?.map (·.value) := by
  obtain ⟨xs, f⟩ := o
  cases xs with
  | nil => rfl
  | cons x xs => rfl

/-- The value that an evaluator gives is that of the first success. -/
theorem value_evaluate (evaluator : Evaluator) (text : String) :
    (evaluator.evaluate text).value
      = (evaluator.parser.applyText text).outcome.successes.head?.map (·.value) :=
  toOption_result _

theorem value_evaluate_standard (text : String) :
    (evaluate text).value
      = ((Rule.expr.successes text).filter fun x => x.rest.unread.isEmpty).head?.map (·.value) := by
  have hvalue : (evaluate text).value
      = ((Evaluator.make .standard).value.evaluate text).value := rfl
  have hparser : Config.standard.grammar.parser
      = Parser.thenIgnore (grammar none .expr).parser Parser.endOfInput := rfl
  rw [hvalue, value_evaluate]
  simp only [Evaluator.make, hparser, Parser.applyText,
    Parser.outcome_thenIgnore_endOfInput]
  rfl

/-- The evaluator that lets text follow the expression. -/
def lenient : Evaluator := (Evaluator.make (.ofSettings [.allowTrailing true])).value

theorem value_evaluate_lenient (text : String) :
    (lenient.evaluate text).value = (Rule.expr.successes text).head?.map (·.value) :=
  value_evaluate lenient text

theorem evaluate_of_fits {text : String} {T : Tree .expr} (htext : T.text = text.toList)
    (hfits : T.Fits) : (evaluate text).value = some T.value := by
  have hlongest : T.IsLongest text.toList := by
    rw [← htext]
    exact T.isLongest_self
  have hunread : ((Cursor.ofString text).after T.text).unread = [] :=
    Cursor.unread_after (by rw [unread_ofString, htext, List.append_nil])
  rw [value_evaluate_standard, successes_eq_read hlongest,
    Tree.read_of_kept_eq_some (Tree.kept_of_fits hfits), List.filter_cons_of_pos]
  · rfl
  · rw [hunread]
    rfl

theorem exists_fits_of_evaluate {text : String} {v : Int} (h : (evaluate text).value = some v) :
    ∃ T : Tree .expr, T.text = text.toList ∧ T.Fits ∧ T.value = v := by
  rw [value_evaluate_standard, Option.map_eq_some_iff] at h
  obtain ⟨x, hx, rfl⟩ := h
  have hmem := List.mem_filter.1 (List.mem_of_mem_head? hx)
  obtain ⟨K, hreads, hfits, hvalue⟩ := exists_sentence_of_mem hmem.1
  refine ⟨K, ?_, hfits, hvalue⟩
  have hunread : text.toList = K.text ++ x.rest.unread := hreads.unread_eq
  rw [List.isEmpty_iff.1 hmem.2, List.append_nil] at hunread
  exact hunread.symm

/-- Text that does not fit has no value. -/
theorem evaluate_of_not_fits {text : String} {T : Tree .expr} (htext : T.text = text.toList)
    (hfits : ¬ T.Fits) : (evaluate text).value = none := by
  cases h : (evaluate text).value with
  | none => rfl
  | some v =>
      obtain ⟨U, hU, hUfits, _⟩ := exists_fits_of_evaluate h
      rw [Tree.text_injective (hU.trans htext.symm)] at hUfits
      exact absurd hUfits hfits

theorem settle_standard (text : String) :
    (Config.standard.grammar.parser.applyText text).settle
      = ([], .ok (Config.standard.grammar.parser.applyText text).outcome) := by
  have hemits : (Parser.thenIgnore (grammar none .expr).parser Parser.endOfInput
      (.ofString text)).Emits fun _ => False :=
    Parser.emits_thenIgnore_endOfInput (Run.emits_of_events_eq_nil (events_rule .expr _))
  exact Run.settle_of_events_eq_nil (Run.events_eq_nil_of_emits hemits)

/-- **Evaluation is exact.** A text has a value just if it is a sentence in which no sum or product
    leaves the range, and then it has the exact value of the sentence. A sentence in which one does
    has none. -/
theorem evaluate_eq_some_iff (text : String) :
    (∀ v : Int, (evaluate text).value = some v ↔
      ∃ T : Tree .expr, T.text = text.toList ∧ T.Fits ∧ T.value = v) ∧
    (∀ T : Tree .expr, T.text = text.toList → ¬ T.Fits → (evaluate text).value = none) ∧
    (Config.standard.grammar.parser.applyText text).settle
      = ([], .ok (Config.standard.grammar.parser.applyText text).outcome) := by
  refine ⟨fun v => ⟨exists_fits_of_evaluate, ?_⟩, fun T htext hfits => ?_, settle_standard text⟩
  · rintro ⟨T, htext, hfits, rfl⟩
    exact evaluate_of_fits htext hfits
  · exact evaluate_of_not_fits htext hfits

/-- A product of nines, one more than `n` of them. -/
def nines : Nat → Tree .term
  | 0 => .single (.digit '9' rfl)
  | n + 1 => .product (.digit '9' rfl) (nines n)

/-- Nineteen nines have a value, twenty have none. -/
theorem evaluate_nines :
    (evaluate "9*9*9*9*9*9*9*9*9*9*9*9*9*9*9*9*9*9*9").value = some 1350851717672992089 ∧
      ¬ (Tree.alone (nines 19)).Fits ∧
      (evaluate "9*9*9*9*9*9*9*9*9*9*9*9*9*9*9*9*9*9*9*9").value = none :=
  ⟨((evaluate_eq_some_iff _).1 _).2 ⟨.alone (nines 18), by decide, by decide, by decide⟩,
    by decide, (evaluate_eq_some_iff _).2.1 (.alone (nines 19)) (by decide) (by decide)⟩

/-! ## Sentences that do not fit -/

/-- **What overflow leaves.** Let the longest sentence that a text begins with not fit. The rule
    then has what is kept of that sentence as its only success, or none if nothing is kept. What is
    kept fits and is shorter: it ends before an operator. The lenient evaluator gives its value,
    and no text that goes no further than the sentence has a value. -/
theorem successes_of_overflow (text : String) (T : Tree .expr) (hT : T.IsLongest text.toList)
    (hover : ¬ T.Fits) :
    Rule.expr.successes text
      = (T.kept.map fun K => ⟨K.value, (Cursor.ofString text).after K.text⟩).toList ∧
    (∀ K, T.kept = some K → K.Fits ∧
      ∃ op ∈ ['+', '*'], ∃ tail, T.text = K.text ++ op :: tail) ∧
    (lenient.evaluate text).value = T.kept.map (·.value) ∧
    (evaluate text).value = none := by
  have hread : Rule.expr.successes text = T.read (.ofString text) := successes_eq_read hT
  refine ⟨hread, fun K hK => ⟨Tree.fits_of_kept hK, Tree.exists_cut_of_kept hK hover⟩, ?_, ?_⟩
  · rw [value_evaluate_lenient, hread, Tree.read]
    cases T.kept with
    | none => rfl
    | some K => rfl
  · cases h : (evaluate text).value with
    | none => rfl
    | some v =>
        -- A text with a value is a sentence that fits, so it is not longer than `T`.
        obtain ⟨U, hU, hUfits, _⟩ := exists_fits_of_evaluate h
        obtain ⟨rest, hrest, hstuck⟩ := Tree.isLongest_iff.1 hT
        have hsplit : U.text ++ [] = T.text ++ rest := by rw [List.append_nil, hU, hrest]
        obtain ⟨rfl, _⟩ := Tree.eq_of_stuck hsplit Rule.expr.stuck_nil hstuck
        exact absurd hUfits hover

/-- Of twenty nines nothing is kept: the last product to be formed is out of range. -/
theorem successes_of_overflow_nines :
    (Tree.alone (nines 19)).IsLongest "9*9*9*9*9*9*9*9*9*9*9*9*9*9*9*9*9*9*9*9".toList ∧
      ¬ (Tree.alone (nines 19)).Fits ∧
      Rule.expr.successes "9*9*9*9*9*9*9*9*9*9*9*9*9*9*9*9*9*9*9*9" = [] := by
  have hlongest : (Tree.alone (nines 19)).IsLongest
      "9*9*9*9*9*9*9*9*9*9*9*9*9*9*9*9*9*9*9*9".toList := (Tree.alone (nines 19)).isLongest_self
  have hover : ¬ (Tree.alone (nines 19)).Fits := by decide
  exact ⟨hlongest, hover, (successes_of_overflow _ _ hlongest hover).1⟩

/-- Of twenty-one nines the first is kept: the product of the others fails, so that the chain ends
    before it. -/
theorem nine_of_overflow :
    (Tree.alone (nines 20)).IsLongest "9*9*9*9*9*9*9*9*9*9*9*9*9*9*9*9*9*9*9*9*9".toList ∧
      ¬ (Tree.alone (nines 20)).Fits ∧
      Rule.expr.successes "9*9*9*9*9*9*9*9*9*9*9*9*9*9*9*9*9*9*9*9*9"
        = [⟨9, (Cursor.ofString "9*9*9*9*9*9*9*9*9*9*9*9*9*9*9*9*9*9*9*9*9").after ['9']⟩] ∧
      (lenient.evaluate "9*9*9*9*9*9*9*9*9*9*9*9*9*9*9*9*9*9*9*9*9").value = some 9 := by
  have hlongest : (Tree.alone (nines 20)).IsLongest
      "9*9*9*9*9*9*9*9*9*9*9*9*9*9*9*9*9*9*9*9*9".toList := (Tree.alone (nines 20)).isLongest_self
  have hread := successes_eq_read hlongest
  have hkept : (Tree.alone (nines 20)).kept = some (.alone (.single (.digit '9' rfl))) := rfl
  rw [Tree.read_of_kept_eq_some hkept] at hread
  refine ⟨hlongest, by decide, hread, ?_⟩
  rw [value_evaluate_lenient, hread]
  rfl

end Parsing.Arithmetic
