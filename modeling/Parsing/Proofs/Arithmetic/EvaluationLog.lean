import Parsing.Proofs.Arithmetic.Passing
import Parsing.Proofs.Arithmetic.TrailingInput

set_option autoImplicit false

/-! # What an evaluation writes to the log

Making an evaluator and applying it to a text writes one record for the configuration, two for the
rules, two more for each parenthesis that is passed under a limit, and one where there is no value
(`records_of_tryEvaluate`). The parentheses passed are the first ones of the text, and all of them
where the whole text has a value. -/

namespace Parsing.Arithmetic

/-! ## Configurations -/

/-- The limit that a choice sets, if it does. -/
def Setting.limit? : Setting → Option Nat
  | .maxNesting depth => some depth
  | .allowTrailing _ => none

/-- Whether text may follow, if a choice says so. -/
def Setting.trailing? : Setting → Option Bool
  | .maxNesting _ => none
  | .allowTrailing allow => some allow

namespace Config

/-- Of the choices of one kind the last one counts. -/
theorem get_foldl_set {γ δ : Type} {get : Config → δ} {choice : Setting → Option γ} {wrap : γ → δ}
    (hset : ∀ config setting,
      get (config.set setting) = ((choice setting).map wrap).getD (get config))
    (settings : List Setting) (config : Config) :
    get (settings.foldl set config)
      = ((settings.filterMap choice).getLast?.map wrap).getD (get config) := by
  induction settings generalizing config with
  | nil => rfl
  | cons setting settings ih =>
      rw [List.foldl_cons, ih, hset]
      cases hchoice : choice setting with
      | none =>
          rw [List.filterMap_cons_none hchoice]
          rfl
      | some value =>
          rw [List.filterMap_cons_some hchoice, List.getLast?_cons]
          cases (settings.filterMap choice).getLast? <;> rfl

theorem maxNesting_ofSettings (settings : List Setting) :
    (ofSettings settings).maxNesting = (settings.filterMap Setting.limit?).getLast? := by
  have hset : ∀ (config : Config) (setting : Setting),
      (config.set setting).maxNesting = (setting.limit?.map some).getD config.maxNesting := by
    intro config setting
    cases setting <;> rfl
  rw [ofSettings, get_foldl_set hset]
  cases (settings.filterMap Setting.limit?).getLast? <;> rfl

theorem allowTrailing_ofSettings (settings : List Setting) :
    (ofSettings settings).allowTrailing
      = (settings.filterMap Setting.trailing?).getLast?.getD false := by
  have hset : ∀ (config : Config) (setting : Setting),
      (config.set setting).allowTrailing
        = (setting.trailing?.map id).getD config.allowTrailing := by
    intro config setting
    cases setting <;> rfl
  rw [ofSettings, get_foldl_set hset, Option.map_id]
  rfl

/-! ## Parentheses passed under a configuration -/

/-- Reading `text` passes parentheses at these offsets within the limit: none if there is no
    limit. -/
def Passes (config : Config) (text : String) (os : List Nat) : Prop :=
  match config.maxNesting with
  | none => os = []
  | some d => Arithmetic.Passes d .expr (.ofString text) os

variable {config : Config} {text : String} {os : List Nat}

theorem passes_of_none (h : config.maxNesting = none) : config.Passes text os ↔ os = [] := by
  rw [Passes, h]

theorem passes_of_some {d : Nat} (h : config.maxNesting = some d) :
    config.Passes text os ↔ Arithmetic.Passes d .expr (.ofString text) os := by
  rw [Passes, h]

/-- There is one answer to which parentheses are passed. -/
theorem exists_passes (config : Config) (text : String) :
    ∃ passed, ∀ os, config.Passes text os ↔ os = passed := by
  cases h : config.maxNesting with
  | none => exact ⟨[], fun os => passes_of_none h⟩
  | some d =>
      obtain ⟨passed, hpassed⟩ := Arithmetic.exists_passes d .expr (.ofString text)
      refine ⟨passed, fun os => ?_⟩
      rw [passes_of_some h]
      exact ⟨fun hos => hos.unique hpassed, fun hos => hos ▸ hpassed⟩

/-- They are the parentheses of a beginning of the text. -/
theorem Passes.exists_beginning (h : config.Passes text os) :
    ∃ w, w <+: text.toList ∧ os = openings w 0 ∧
      ∀ d, config.maxNesting = some d → Within d w := by
  cases hlimit : config.maxNesting with
  | none => exact ⟨[], List.nil_prefix, (passes_of_none hlimit).1 h, nofun⟩
  | some d =>
      obtain ⟨w, hspans, hos⟩ := ((passes_of_some hlimit).1 h).exists_spans
      refine ⟨w, hspans.begins, hos, fun d' hd => ?_⟩
      rw [← Option.some.inj hd]
      exact hspans.within

/-- Each is passed once, where no more levels are open than there may be. -/
theorem Passes.sound (h : config.Passes text os) :
    os.Pairwise (· < ·) ∧ os.length ≤ text.toList.count '(' ∧
      ∀ o ∈ os, text.toList[o]? = some '(' ∧
        ∀ d, config.maxNesting = some d → Within d (text.toList.take (o + 1)) := by
  obtain ⟨w, hw, rfl, hwithin⟩ := h.exists_beginning
  refine ⟨pairwise_openings w 0, ?_, fun o ho => ⟨?_, fun d hd => ?_⟩⟩
  · rw [length_openings]
    exact hw.sublist.count_le _
  · exact getElem?_of_mem_openings ((openings_begins hw 0).subset ho)
  · have hlt : o < w.length := (List.getElem?_eq_some_iff.1 (getElem?_of_mem_openings ho)).1
    obtain ⟨rest, hrest⟩ := hw
    rw [← hrest, List.take_append_of_le_length hlt]
    exact fun u hu => hwithin d hd u (hu.trans (List.take_prefix _ _))

/-- Where the whole text is read all its parentheses are passed. -/
theorem Passes.length_eq {d : Nat} {v : Int} (h : (Config.mk false (some d)).Passes text os)
    (hvalue : ((strict (some d)).tryEvaluate text).value = .ok v) :
    os.length = text.toList.count '(' := by
  have hresult : ((lenientWithin (some d)).parser.applyText text).outcome.wholeInput.result
      = .ok v := by
    rw [← outcome_strict]
    exact hvalue
  obtain ⟨e, hmem, hend⟩ :=
    (Outcome.result_wholeInput_eq_ok_iff (unambiguous_lenientWithin (some d) _) v).1 hresult
  obtain ⟨w, hspans, rfl⟩ := ((passes_of_some rfl).1 h).exists_spans
  have hends : Rule.expr.Ends e.unread := by
    rw [hend]
    exact Rule.ends_nil .expr
  have hread := (hspans.whole _ hmem hends).1.unread_eq
  rw [unread_ofString, hend, List.append_nil] at hread
  rw [length_openings, hread]

/-! ## Records -/

/-- The end of the input writes nothing, so the records are those of the rule. -/
theorem events_grammar (config : Config) (text : String) :
    (config.grammar.parser.applyText text).events
      = ((Arithmetic.grammar config.maxNesting .expr).parser (.ofString text)).events := by
  obtain ⟨allow, limit⟩ := config
  cases allow with
  | true => rfl
  | false =>
      have hparser : (Config.mk false limit).grammar.parser
          = Parser.thenIgnore (Arithmetic.grammar limit .expr).parser Parser.endOfInput := rfl
      rw [hparser, Parser.applyText, Parser.thenIgnore_endOfInput]

theorem Passes.events_eq (h : config.Passes text os) :
    (config.grammar.parser.applyText text).events
      = (List.replicate (2 * os.length) Record.defined).map .record := by
  rw [events_grammar, List.map_replicate]
  cases hlimit : config.maxNesting with
  | none =>
      rw [(passes_of_none hlimit).1 h]
      exact events_rule .expr _
  | some d => exact ((passes_of_some hlimit).1 h).events_eq

end Config

/-! ## Evaluations -/

section Records

variable {config : Config} {text : String} {os : List Nat}

/-- What making and applying an evaluator writes before its result is known. -/
theorem buildRecords_append_settle (h : config.Passes text os) :
    config.buildRecords ++ ((Evaluator.make config).value.parser.applyText text).settle.1
      = config.buildingRecord :: .replicate (2 + 2 * os.length) .defined := by
  have hsettle : ((Evaluator.make config).value.parser.applyText text).settle.1
      = .replicate (2 * os.length) .defined := congrArg Prod.fst (Run.settle_of_records h.events_eq)
  rw [hsettle, ← List.replicate_append_replicate]
  rfl

theorem records_of_ok (h : config.Passes text os) {v : Int}
    (hv : ((Evaluator.make config).andThen (·.tryEvaluate text)).value = .ok v) :
    ((Evaluator.make config).andThen (·.tryEvaluate text)).records
      = config.buildingRecord :: .replicate (2 + 2 * os.length) .defined := by
  have hresult : ((Evaluator.make config).value.parser.applyText text).outcome.result = .ok v := hv
  rw [← buildRecords_append_settle h]
  simp only [Logged.andThen, Evaluator.tryEvaluate, hresult, List.append_nil]
  rfl

theorem records_of_error (h : config.Passes text os) {e : ParseError}
    (he : ((Evaluator.make config).andThen (·.tryEvaluate text)).value = .error e) :
    ((Evaluator.make config).andThen (·.tryEvaluate text)).records
      = config.buildingRecord :: .replicate (2 + 2 * os.length) .defined
        ++ [Evaluator.noValueRecord text e] := by
  have hresult : ((Evaluator.make config).value.parser.applyText text).outcome.result
      = .error e := he
  rw [← buildRecords_append_settle h]
  simp only [Logged.andThen, Evaluator.tryEvaluate, hresult, List.append_assoc]
  rfl

end Records

/-- **The log of an evaluation.** An evaluator is made with the choices `settings` and applied to
    `text`. First comes a record with the limit and the flag chosen last, then two records for the
    rules and two for each parenthesis passed within the limit, and at the end one record just if
    there is no value. Without a limit no parenthesis counts as passed. With one, each offset counts
    once at most, and all parentheses do where the whole text has to be read and has a value. -/
theorem records_of_tryEvaluate (settings : List Setting) (text : String) :
    let config := Config.ofSettings settings
    let logged := (Evaluator.make config).andThen (·.tryEvaluate text)
    let building : Record := ⟨.debug, "building expression grammar (nesting limit: "
      ++ Config.showLimit (settings.filterMap Setting.limit?).getLast?
      ++ ", trailing input allowed: "
      ++ Config.showFlag ((settings.filterMap Setting.trailing?).getLast?.getD false) ++ ")"⟩
    let defined : Record := ⟨.trace, "deferred parser defined"⟩
    ∃ passed : List Nat, (∀ os, config.Passes text os ↔ os = passed) ∧
      (∀ v, logged.value = .ok v →
        logged.records = building :: .replicate (2 + 2 * passed.length) defined) ∧
      (∀ e, logged.value = .error e →
        logged.records = building :: .replicate (2 + 2 * passed.length) defined
          ++ [⟨.debug, "no value for " ++ Quoted.string text ++ ": " ++ e.message⟩]) ∧
      (config.maxNesting = none → passed = []) ∧
      passed.Pairwise (· < ·) ∧ passed.length ≤ text.toList.count '(' ∧
      (∀ o ∈ passed, text.toList[o]? = some '(' ∧
        ∀ d, config.maxNesting = some d → Within d (text.toList.take (o + 1))) ∧
      (∀ d v, config.maxNesting = some d → config.allowTrailing = false → logged.value = .ok v →
        passed.length = text.toList.count '(') ∧
      (config.grammar.parser.applyText text).settle.2
        = .ok (config.grammar.parser.applyText text).outcome := by
  intro config logged building defined
  have hbuilding : config.buildingRecord = building := by
    rw [Config.buildingRecord, Config.maxNesting_ofSettings, Config.allowTrailing_ofSettings]
  obtain ⟨passed, hpassed⟩ := config.exists_passes text
  have hpasses : config.Passes text passed := (hpassed passed).2 rfl
  obtain ⟨hpairwise, hcount, hopen⟩ := hpasses.sound
  refine ⟨passed, hpassed, fun v hv => ?_, fun e he => ?_,
    fun hnone => (Config.passes_of_none hnone).1 hpasses, hpairwise, hcount, hopen,
    fun d v hlimit hstrict hv => ?_, settle_evaluator config text⟩
  · rw [← hbuilding]
    exact records_of_ok hpasses hv
  · rw [← hbuilding]
    exact records_of_error hpasses he
  · have hconfig : config = ⟨false, some d⟩ := by rw [← hlimit, ← hstrict]
    have hvalue : ((Evaluator.make config).value.tryEvaluate text).value = .ok v := hv
    rw [hconfig] at hpasses hvalue
    exact hpasses.length_eq hvalue

/-- Within a limit that the text keeps, evaluators come to the same as without a limit. -/
theorem value_strict_of_within {d : Nat} {text : String} (h : Within d text.toList) :
    ((strict (some d)).tryEvaluate text).value = ((strict none).tryEvaluate text).value := by
  have hlenient : ((lenientWithin (some d)).parser.applyText text).outcome
      = ((lenientWithin none).parser.applyText text).outcome :=
    outcome_limited_eq .expr (.ofString text) d h
  have hstrict : ((strict (some d)).parser.applyText text).outcome
      = ((strict none).parser.applyText text).outcome := by
    rw [outcome_strict, outcome_strict, hlenient]
  exact congrArg Outcome.result hstrict

/-- Of two limits the last one counts, and under it both parentheses are passed. -/
theorem records_of_tryEvaluate_product :
    let settings : List Setting := [.maxNesting 7, .allowTrailing true, .maxNesting 1,
      .allowTrailing false]
    let logged := (Evaluator.make (.ofSettings settings)).andThen (·.tryEvaluate "(1)*(2)")
    logged.value = .ok 2 ∧
      logged.records
        = ⟨.debug, "building expression grammar (nesting limit: Some(1), "
            ++ "trailing input allowed: false)"⟩ :: .replicate 6 .defined := by
  intro settings logged
  have hfits : (evaluate "(1)*(2)").value = some 2 :=
    evaluate_of_fits
      (T := .alone (.product (.parens (.alone (.single (.digit '1' rfl))))
        (.single (.parens (.alone (.single (.digit '2' rfl)))))))
      (by decide) (by decide)
  have hvalue : logged.value = .ok 2 := by
    have hunlimited : ((strict none).tryEvaluate "(1)*(2)").value.toOption = some 2 := hfits
    have hlimited : ((strict (some 1)).tryEvaluate "(1)*(2)").value
        = ((strict none).tryEvaluate "(1)*(2)").value := value_strict_of_within (by decide)
    generalize ((strict none).tryEvaluate "(1)*(2)").value = r at hunlimited hlimited
    cases r with
    | error e => cases hunlimited
    | ok v =>
        rw [Except.toOption, Option.some.injEq] at hunlimited
        rw [← hunlimited]
        exact hlimited
  obtain ⟨passed, _, hok, _, _, _, _, _, hall, _⟩ := records_of_tryEvaluate settings "(1)*(2)"
  have hlength : passed.length = 2 := hall 1 2 rfl rfl hvalue
  refine ⟨hvalue, ?_⟩
  have hrecords := hok 2 hvalue
  rw [hlength] at hrecords
  exact hrecords

end Parsing.Arithmetic
