import Parsing.Proofs.Arithmetic.Verdict

set_option autoImplicit false

/-! # Why a text has no value

An evaluator that reads whole texts gives one of four answers (`answer_strict`): the value of a
sentence that fits and stays within the limit, or an error for a character that may not stand where
it stands, for a sum or product out of range, or for a parenthesis beyond the limit.

Of the errors without a limit, those that do not report a sum or product tell where the longest
beginning of an expression ends, and all that may follow it (`expected_of_tryEvaluate_eq_error`).
A text that has a value is read up to the first parenthesis beyond a limit, and no further
(`tryEvaluate_strict_of_not_within`). -/

namespace Parsing.Arithmetic

open Failure

/-! ## Whole texts -/

/-- The evaluator that reads whole texts, with the nesting limit if there is one. -/
def strict (limit : Option Nat) : Evaluator := (Evaluator.make ⟨false, limit⟩).value

/-- With a limit the evaluator writes records and meets no faults. -/
theorem settle_strict (d : Nat) (text : String) :
    ((strict (some d)).parser.applyText text).settle.2
      = .ok ((strict (some d)).parser.applyText text).outcome := by
  have hemits : (Parser.thenIgnore (grammar (some d) .expr).parser Parser.endOfInput
      (.ofString text)).Emits fun e => ∃ x, e = .record x :=
    Parser.emits_thenIgnore_endOfInput (emits_limited d .expr _)
  exact Run.settle_of_emits_record hemits

/-! ## Answers -/

/-- What an evaluator that reads whole texts may answer. -/
inductive Answer (limit : Option Nat) (text : String) : Except ParseError Int → Prop where
  /-- The text is a sentence that fits. -/
  | value {T : Tree .expr} (htext : T.text = text.toList) (hfits : T.Fits)
      (hallows : Allows limit T.text) : Answer limit text (.ok T.value)
  /-- No expression goes on, behind `u`, with what stands there. -/
  | refused {u rest : List Char} {q : Stage} (htext : text.toList = u ++ rest)
      (hwalk : Stage.start.walk u = some q) (hrefuses : q.Refuses rest.head?) :
      Answer limit text (.error (.ofFailure (expecting ((Cursor.ofString text).after u) q.labels)))
  /-- A sum or a product is out of range. -/
  | overflow {f : Failure} {label : String} (hmem : label ∈ f.expected)
      (hlabel : label ∈ overflowLabels) (hover : Rule.expr.Overflows text.toList) :
      Answer limit text (.error (.ofFailure f))
  /-- A parenthesis opens a level beyond the limit. -/
  | tooDeep {d : Nat} {before rest : List Char} (hlimit : limit = some d)
      (hopening : FirstOpening d text.toList before rest) :
      Answer limit text (.error (.ofFailure (expecting
        ((Cursor.ofString text).after (before ++ ['('])) ["expression within nesting limit"])))

theorem Answer.of_halt {limit : Option Nat} {text : String} {f : Failure}
    (h : Halt limit .expr (.ofString text) f) : Answer limit text (.error (.ofFailure f)) := by
  cases h with
  | refused hc hwalk _ hrefuses => exact .refused hc hwalk hrefuses
  | overflow hmem hlabel _ hover => exact .overflow hmem hlabel hover
  | tooDeep hlimit hopening => exact .tooDeep hlimit hopening

/-- What a whole text is answered follows from how far the rule gets. -/
theorem answer_of_verdict {limit : Option Nat} {text : String} {p : Parser Int}
    (h : Verdict limit .expr (.ofString text) (p (.ofString text)).outcome) :
    Answer limit text (Parser.thenIgnore p Parser.endOfInput (.ofString text)).outcome.result := by
  rw [Parser.outcome_thenIgnore_endOfInput]
  generalize (p (.ofString text)).outcome = o at h ⊢
  cases h with
  | @whole T rest f hT =>
      have hc : (Cursor.ofString text).unread = T.text ++ rest := hT.unread_eq
      have hd : ((Cursor.ofString text).after T.text).unread = rest := Cursor.unread_after hc
      cases rest with
      | nil =>
          rw [Outcome.wholeInput_of_end rfl hd]
          rw [unread_ofString, List.append_nil] at hc
          exact .value hc.symm hT.fits hT.allows
      | cons x xs =>
          have hf : f = some (expecting _ (Rule.expr.operators.map Quoted.char)) :=
            Link.sum.tried_iff.1 hT.tried
          have hrefuses : Stage.done.Refuses (x :: xs).head? :=
            Stage.next_eq_none_of_not_due hT.ends.notMem fun _ => rfl
          have hlabels : (Rule.expr.operators.map Quoted.char ++ ["end of input"]).Perm
              Stage.done.labels := by decide
          rw [Outcome.wholeInput_of_trailing rfl (by rw [hd]; exact List.cons_ne_nil x xs), hf,
            ← expecting_singleton, mergeOptions_some, merge_expecting, expecting_of_perm _ hlabels]
          exact .refused hc (Stage.walk_text T 0) hrefuses
  | halted hshort hhalt =>
      cases hshort with
      | nothing =>
          rw [Outcome.wholeInput_of_nil rfl]
          exact .of_halt hhalt
      -- What follows a short success is an operator and not the end of the text.
      | cut hc hop hlt =>
          have hunread := Cursor.unread_after hc
          rw [Outcome.wholeInput_of_trailing rfl (by rw [hunread]; exact List.cons_ne_nil _ _),
            mergeOptions_of_before_right (before_some.2 hlt)]
          exact .of_halt hhalt

/-- An evaluator that reads whole texts gives one of the four answers. -/
theorem answer_strict (limit : Option Nat) (text : String) :
    Answer limit text ((strict limit).tryEvaluate text).value :=
  answer_of_verdict (verdict_rule limit .expr (.ofString text))

/-! ## Errors without a limit -/

/-- Text behind a sentence that does not go on is where the error stands. -/
theorem tryEvaluate_of_trailing {text : String} {T : Tree .expr} {x : Char} {xs : List Char}
    (htext : text.toList = T.text ++ x :: xs) (hx : x ∉ Rule.expr.operators) (hfits : T.Fits) :
    (tryEvaluate text).value
      = .error (.ofFailure
          (expecting ((Cursor.ofString text).after T.text) Stage.done.labels)) := by
  have hwalk : Stage.start.walk T.text = some .done := Stage.walk_text T 0
  have hstop : Stage.done.Refuses (x :: xs).head? := Stage.next_eq_none_of_not_due hx fun _ => rfl
  have hlongest : IsLongestBeginning T.text text.toList := hstop.isLongestBeginning hwalk htext
  have hanswer : Answer none text (tryEvaluate text).value := answer_strict none text
  generalize (tryEvaluate text).value = r at hanswer
  cases hanswer with
  | value hU _ _ =>
      have hrefused := Stage.not_refuses_of_text (hU.trans htext) hwalk
      exact absurd hstop hrefused
  | @refused u rest q hu hq hrefuses =>
      obtain rfl := hlongest.unique (hrefuses.isLongestBeginning hq hu)
      rw [hwalk, Option.some.injEq] at hq
      rw [hq]
  | overflow _ _ hover => exact absurd hfits (hover T _ htext (Rule.ends_of_notMem hx xs))
  | tooDeep hlimit _ => exact absurd hlimit nofun

/-- **Errors tell what may follow.** Where a text has no value, something was expected. Unless that
    includes a sum or a product in range, the error stands where the longest beginning of an
    expression ends, and exactly what may follow that beginning was expected. -/
theorem expected_of_tryEvaluate_eq_error (text : String) (e : ParseError)
    (h : (tryEvaluate text).value = .error e) :
    e.expected ≠ [] ∧
    ("sum within i64 range" ∉ e.expected → "product within i64 range" ∉ e.expected →
      ∃ u, IsLongestBeginning u text.toList ∧ e.position = Position.start.advanceAll u ∧
        e.position.offset = u.length ∧ e.found = text.toList[u.length]? ∧
        ∀ label, label ∈ e.expected ↔ label ∈ mayFollow u) ∧
    (Config.standard.grammar.parser.applyText text).settle
      = ([], .ok (Config.standard.grammar.parser.applyText text).outcome) := by
  have hanswer : Answer none text (.error e) := by
    rw [← h]
    exact answer_strict none text
  refine ⟨?_, fun hsum hproduct => ?_, settle_standard text⟩
  · cases hanswer with
    | @refused u rest q htext hwalk hrefuses =>
        obtain ⟨label, hlabel⟩ := List.exists_mem_of_ne_nil _ q.labels_ne_nil
        exact List.ne_nil_of_mem (mem_expecting.2 hlabel)
    | overflow hmem hlabel hover => exact List.ne_nil_of_mem hmem
    | tooDeep hlimit hopening => exact absurd hlimit nofun
  · cases hanswer with
    | @refused u rest q htext hwalk hrefuses =>
        have hlongest : IsLongestBeginning u text.toList :=
          hrefuses.isLongestBeginning hwalk htext
        have hoffset : (Position.start.advanceAll u).offset = u.length := by
          rw [Position.offset_advanceAll]
          exact Nat.zero_add _
        have hfound : (text.toList.drop u.length).head? = text.toList[u.length]? :=
          List.head?_drop
        refine ⟨u, hlongest, rfl, hoffset, hfound, fun label => ?_⟩
        rw [mayFollow_eq hwalk]
        exact mem_expecting
    | @overflow f label hmem hlabel hover =>
        simp only [overflowLabels, List.mem_cons, List.not_mem_nil, or_false] at hlabel
        rcases hlabel with rfl | rfl
        · exact absurd hmem hproduct
        · exact absurd hmem hsum
    | tooDeep hlimit hopening => exact absurd hlimit nofun

/-- A closing parenthesis too many: the expression could have gone on or ended before it. -/
theorem expected_of_tryEvaluate_eq_error_trailing :
    (tryEvaluate "2+3)").value
        = .error ⟨⟨1, 4, 3⟩, some ')', ["'*'", "'+'", "end of input"]⟩ ∧
      ∃ u, IsLongestBeginning u "2+3)".toList ∧ u.length = 3 ∧
        ∀ label, label ∈ ["'*'", "'+'", "end of input"] ↔ label ∈ mayFollow u := by
  have htext : "2+3)".toList = (Tree.sum (.single (.digit '2' rfl))
      (.alone (.single (.digit '3' rfl)))).text ++ [')'] := by decide
  have hvalue : (tryEvaluate "2+3)").value
      = .error ⟨⟨1, 4, 3⟩, some ')', ["'*'", "'+'", "end of input"]⟩ :=
    tryEvaluate_of_trailing htext (by decide) (by decide)
  obtain ⟨u, hlongest, _, hoffset, _, hlabels⟩ :=
    (expected_of_tryEvaluate_eq_error _ _ hvalue).2.1 (by decide) (by decide)
  exact ⟨hvalue, u, hlongest, hoffset.symm, hlabels⟩

/-! ## Errors of a limit -/

/-- **A limit is reported where it is passed.** A text that has a value, but does not stay within
    the depth `d`, has none for the evaluator with the limit `d`. The error stands behind the first
    parenthesis that opens the level `d + 1`, and nothing but the limit is reported. -/
theorem tryEvaluate_strict_of_not_within (text : String) (v : Int) (d : Nat)
    (h : (evaluate text).value = some v) (hd : ¬ Within d text.toList) :
    (∃ before rest, FirstOpening d text.toList before rest ∧
      (Position.start.advanceAll (before ++ ['('])).offset = before.length + 1 ∧
      ((strict (some d)).tryEvaluate text).value
        = .error ⟨Position.start.advanceAll (before ++ ['(']), rest.head?,
            ["expression within nesting limit"]⟩) ∧
    ((strict (some d)).evaluate text).value = none ∧
    ((strict (some d)).parser.applyText text).settle.2
      = .ok ((strict (some d)).parser.applyText text).outcome := by
  obtain ⟨T, htext, hfits, _⟩ := exists_fits_of_evaluate h
  have hevaluate : ((strict (some d)).evaluate text).value
      = ((strict (some d)).tryEvaluate text).value.toOption := rfl
  have hanswer := answer_strict (some d) text
  rw [hevaluate]
  generalize ((strict (some d)).tryEvaluate text).value = r at hanswer
  cases hanswer with
  | value htext' _ hallows =>
      rw [htext'] at hallows
      exact absurd (hallows d rfl) hd
  | refused htext' hwalk hrefuses =>
      exact absurd hrefuses (Stage.not_refuses_of_text (htext.trans htext') hwalk)
  | overflow _ _ hover =>
      have hwhole : text.toList = T.text ++ [] := by rw [List.append_nil, htext]
      exact absurd hfits (hover T [] hwhole (Rule.ends_nil .expr))
  | @tooDeep d' before rest hlimit hopening =>
      obtain rfl : d = d' := Option.some.inj hlimit
      have hunread : ((Cursor.ofString text).after (before ++ ['('])).unread = rest := by
        refine Cursor.unread_after ?_
        rw [List.append_assoc]
        exact hopening.split
      refine ⟨⟨before, rest, hopening, ?_, ?_⟩, rfl, settle_strict d text⟩
      · simp [Position.offset_advanceAll, Position.start]
      · rw [← hunread]
        rfl

/-- Of a text that nests to depth two, depth one allows all up to the second parenthesis. -/
theorem tryEvaluate_strict_of_not_within_two :
    (evaluate "(1+(2))*3").value = some 9 ∧ ¬ Within 1 "(1+(2))*3".toList ∧
      ((strict (some 1)).tryEvaluate "(1+(2))*3").value
        = .error ⟨⟨1, 5, 4⟩, some '2', ["expression within nesting limit"]⟩ := by
  have hvalue : (evaluate "(1+(2))*3").value = some 9 :=
    evaluate_of_fits
      (T := .alone (.product
        (.parens (.sum (.single (.digit '1' rfl))
          (.alone (.single (.parens (.alone (.single (.digit '2' rfl))))))))
        (.single (.digit '3' rfl))))
      (by decide) (by decide)
  have hdeep : ¬ Within 1 "(1+(2))*3".toList := by decide
  obtain ⟨⟨before, rest, hopening, _, herror⟩, _, _⟩ :=
    tryEvaluate_strict_of_not_within _ 9 1 hvalue hdeep
  have hsecond : FirstOpening 1 "(1+(2))*3".toList ['(', '1', '+'] ['2', ')', ')', '*', '3'] :=
    ⟨by decide, by decide, by decide⟩
  obtain ⟨rfl, rfl⟩ := hopening.unique hsecond
  exact ⟨hvalue, hdeep, herror⟩

end Parsing.Arithmetic
