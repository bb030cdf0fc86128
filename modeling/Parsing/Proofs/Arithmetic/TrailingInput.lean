import Parsing.Proofs.Arithmetic.Diagnosis
import Parsing.Proofs.Unambiguous

set_option autoImplicit false

/-! # Text behind an expression

Two evaluators differ only in whether text may follow the expression. The strict one has the parser
of the lenient one and then the end of the input, and the lenient parser has one success at most. So
the strict evaluator has a value just where the lenient parser reads everything, and where the
lenient parser reads nothing the two have the same error (`strict_iff_lenient_whole`). -/

namespace Parsing

variable {α : Type}

namespace Outcome

/-- With one success at most, that success is the result or there is none. -/
theorem result_wholeInput_eq_ok_iff {o : Outcome α} (h : o.successes.length ≤ 1) (v : α) :
    o.wholeInput.result = .ok v ↔ ∃ d, ⟨v, d⟩ ∈ o.successes ∧ d.unread = [] := by
  obtain ⟨xs, f⟩ := o
  match xs, h with
  | [], _ => simp [wholeInput, result]
  | [⟨w, d⟩], _ =>
      by_cases hd : d.unread = []
      · rw [wholeInput_of_end rfl hd]
        simp only [result, Except.ok.injEq, List.mem_singleton, Success.mk.injEq]
        constructor
        · rintro rfl
          exact ⟨d, ⟨rfl, rfl⟩, hd⟩
        · rintro ⟨e, ⟨rfl, rfl⟩, _⟩
          rfl
      · rw [wholeInput_of_trailing rfl hd]
        simp only [result, reduceCtorEq, false_iff, List.mem_singleton, Success.mk.injEq]
        rintro ⟨e, ⟨_, rfl⟩, he⟩
        exact hd he
  | _ :: _ :: _, h => exact absurd h (by simp)

/-- Where there is no success, the end of the input changes nothing. -/
theorem result_wholeInput_of_eq_error {o : Outcome α} {e : ParseError} (h : o.result = .error e) :
    o.wholeInput.result = .error e := by
  have hnil : o.successes = [] := by
    unfold result at h
    split at h
    · cases h
    · assumption
  rw [wholeInput_of_nil hnil, h]

end Outcome

namespace Arithmetic

/-- The evaluator that lets text follow the expression, with the nesting limit if there is one. -/
def lenientWithin (limit : Option Nat) : Evaluator := (Evaluator.make ⟨true, limit⟩).value

theorem outcome_strict (limit : Option Nat) (text : String) :
    ((strict limit).parser.applyText text).outcome
      = ((lenientWithin limit).parser.applyText text).outcome.wholeInput :=
  Parser.outcome_thenIgnore_endOfInput (lenientWithin limit).parser (.ofString text)

theorem unambiguous_lenientWithin (limit : Option Nat) :
    (lenientWithin limit).parser.Unambiguous :=
  (withoutUnion_config ⟨true, limit⟩).unambiguous

/-- An evaluator writes records and meets no faults. -/
theorem settle_evaluator (config : Config) (text : String) :
    ((Evaluator.make config).value.parser.applyText text).settle.2
      = .ok ((Evaluator.make config).value.parser.applyText text).outcome := by
  obtain ⟨allow, limit⟩ := config
  have hrule := emits_grammar limit .expr (.ofString text)
  cases allow with
  | true => exact Run.settle_of_emits_record hrule
  | false => exact Run.settle_of_emits_record (Parser.emits_thenIgnore_endOfInput hrule)

/-- **The end of the input keeps what leaves nothing.** A parser and then the end of the input has
    just the successes of the parser that leave nothing unread, and tells besides that the end was
    expected where each of the others ended. So the strict evaluator has the value `v` just if the
    parser of the lenient one, with the same limit, reads all of the text as `v`. Where the lenient
    one has an error, the strict one has the same. Neither of them meets a fault. -/
theorem strict_iff_lenient_whole :
    (∀ {α : Type} (p : Parser α) (c : Cursor),
      let whole := Parser.thenIgnore p Parser.endOfInput c
      whole.outcome.successes = (p c).outcome.successes.filter (fun x => x.rest.unread.isEmpty) ∧
      whole.outcome.furthest
        = ((p c).outcome.successes.filter fun x => !x.rest.unread.isEmpty).foldl
            (fun f x => Failure.mergeOptions f (some (.missing x.rest "end of input")))
            (p c).outcome.furthest ∧
      whole.events = (p c).events) ∧
    (∀ (limit : Option Nat) (text : String) (v : Int),
      ((strict limit).tryEvaluate text).value = .ok v ↔
        ∃ d, ⟨v, d⟩ ∈ ((lenientWithin limit).parser.applyText text).outcome.successes ∧
          d.unread = []) ∧
    (∀ (limit : Option Nat) (text : String) (e : ParseError),
      ((lenientWithin limit).tryEvaluate text).value = .error e →
        ((strict limit).tryEvaluate text).value = .error e) ∧
    (∀ (config : Config) (text : String),
      ((Evaluator.make config).value.parser.applyText text).settle.2
        = .ok ((Evaluator.make config).value.parser.applyText text).outcome) := by
  refine ⟨fun p c => ?_, fun limit text v => ?_, fun limit text e he => ?_, settle_evaluator⟩
  · intro whole
    have hwhole : whole = ⟨(p c).outcome.wholeInput, (p c).events⟩ :=
      Parser.thenIgnore_endOfInput p c
    rw [hwhole]
    exact ⟨rfl, rfl, rfl⟩
  · show ((strict limit).parser.applyText text).outcome.result = .ok v ↔ _
    rw [outcome_strict]
    exact Outcome.result_wholeInput_eq_ok_iff (unambiguous_lenientWithin limit _) v
  · show ((strict limit).parser.applyText text).outcome.result = .error e
    rw [outcome_strict]
    exact Outcome.result_wholeInput_of_eq_error he

/-- Where no factor can be read there is no sum either, and nothing more is told. -/
theorem outcome_expr_of_factor {inner : Grammar Int Int} (hinner : Local inner) {c : Cursor}
    {f : Option Failure} (h : (factorParser (innerParser inner) c).outcome = ⟨[], f⟩) :
    ((rulesOver inner .expr).parser c).outcome = ⟨[], f⟩ := by
  have hterm : ((rulesOver inner .term).parser c).outcome = ⟨[], f⟩ := by
    rw [parser_term hinner, termParser, outcome_chain_nil (by rw [h]), h]
  rw [parser_expr hinner, exprParser, outcome_chain_nil (by rw [hterm]), hterm]

/-- Where no parenthesis is allowed, both evaluators stop behind the first one. -/
theorem strict_iff_lenient_whole_limited :
    ((lenientWithin (some 0)).tryEvaluate "(1)").value
        = .error ⟨⟨1, 2, 1⟩, some '1', ["expression within nesting limit"]⟩ ∧
      ((strict (some 0)).tryEvaluate "(1)").value
        = .error ⟨⟨1, 2, 1⟩, some '1', ["expression within nesting limit"]⟩ := by
  have hexpr := outcome_expr_of_factor (local_nested 0) (c := .ofString "(1)")
    (f := some ⟨⟨1, 2, 1⟩, some '1', .singleton "expression within nesting limit"⟩) (by decide)
  have hlenient : ((lenientWithin (some 0)).tryEvaluate "(1)").value
      = .error ⟨⟨1, 2, 1⟩, some '1', ["expression within nesting limit"]⟩ := by
    show ((rulesOver (nested 0) .expr).parser (.ofString "(1)")).outcome.result = _
    rw [hexpr]
    decide
  exact ⟨hlenient, strict_iff_lenient_whole.2.2.1 _ _ _ hlenient⟩

end Arithmetic

end Parsing
