import Parsing.Proofs.Arithmetic.Unfolding
import Parsing.Proofs.Furthest

set_option autoImplicit false

/-! # What chains and factors come to

The outcome of a chain follows from the outcomes of its operand and of the rest of the chain, and
that of a factor from the outcome between its parentheses. Both are given case by case, for
operands with at most one success: the chain stops behind the operand (`outcome_chain_stop`) or
goes on behind the operator (`outcome_chain_step`). The successes alone are what the lemmas on
`successes` say.

Chains and factors write no records and meet no faults of their own: the events of a rule are those
of what stands between parentheses (`emits_rule`). -/

namespace Parsing.Arithmetic

open Failure

/-! ## One character -/

section Character

variable {β : Type} {x : Char} {p : Parser β} {c : Cursor}

/-- Behind its character a parser does what it does there. -/
theorem outcome_behind_of_head {xs : List Char} (h : c.unread = x :: xs) :
    (Parser.ignoreThen (Parser.character x) p c).outcome = (p c.next).outcome := by
  rw [Parser.ignoreThen_character_of_head p h]

theorem outcome_behind_of_not_head (h : ∀ xs, c.unread ≠ x :: xs) :
    (Parser.ignoreThen (Parser.character x) p c).outcome
      = ⟨[], some (expecting c [Quoted.char x])⟩ := by
  rw [Parser.ignoreThen_character_of_not_head p h]
  rfl

/-- Nothing is read behind a character that is missing, or that stands in front of nothing that
    can be read. -/
theorem successes_behind_eq_nil
    (h : ∀ xs, c.unread = x :: xs → (p c.next).outcome.successes = []) :
    (Parser.ignoreThen (Parser.character x) p c).outcome.successes = [] := by
  by_cases hx : ∃ xs, c.unread = x :: xs
  · obtain ⟨xs, hxs⟩ := hx
    rw [outcome_behind_of_head hxs, h xs hxs]
  · rw [outcome_behind_of_not_head fun xs hxs => hx ⟨xs, hxs⟩]

end Character

/-! ## Chains -/

section Chain

variable {op : Char} {join : Int → Int → Int} {unit : Int} {expected : String}
  {operand rest : Parser Int} {c d e : Cursor} {a b : Int}

/-- The success of a checked value: itself, or none if it is out of range. -/
def ifInRange (v : Int) (d : Cursor) : List (Success Int) := if InRange v then [⟨v, d⟩] else []

/-- The failure of a checked value, if it is out of range. -/
def unlessInRange (v : Int) (expected : String) (d : Cursor) : Option Failure :=
  if InRange v then none else some (expecting d [expected])

theorem ifInRange_of_inRange {v : Int} (h : InRange v) (d : Cursor) :
    ifInRange v d = [⟨v, d⟩] := if_pos h

theorem ifInRange_of_not_inRange {v : Int} (h : ¬ InRange v) (d : Cursor) :
    ifInRange v d = [] := if_neg h

theorem unlessInRange_of_inRange {v : Int} (h : InRange v) (expected : String) (d : Cursor) :
    unlessInRange v expected d = none := if_pos h

theorem unlessInRange_of_not_inRange {v : Int} (h : ¬ InRange v) (expected : String) (d : Cursor) :
    unlessInRange v expected d = some (expecting d [expected]) := if_neg h

theorem before_unlessInRange {v : Int} {d : Cursor} {n : Nat} (h : d.offset < n) :
    Before (unlessInRange v expected d) n := by
  unfold unlessInRange
  split
  · exact before_none n
  · rw [before_some]
    exact h

theorem outcome_checkedParser (v : Int) (expected : String) (d : Cursor) :
    (checkedParser v expected d).outcome = ⟨ifInRange v d, unlessInRange v expected d⟩ := by
  unfold checkedParser ifInRange unlessInRange
  split <;> rfl

theorem outcome_chain_nil (h : (operand c).outcome.successes = []) :
    (chain op join unit expected operand rest c).outcome
      = ⟨[], (operand c).outcome.furthest⟩ :=
  Run.outcome_andThen_nil _ h

/-- A chain whose operand is read goes on with its tail. -/
theorem outcome_chain (h : (operand c).outcome.successes = [⟨a, d⟩])
    (htail : (Parser.orElse (Parser.ignoreThen (Parser.character op) rest)
      (Parser.succeed unit) d).outcome.successes = [⟨b, e⟩]) :
    (chain op join unit expected operand rest c).outcome
      = ⟨ifInRange (join a b) e, mergeOptions (operand c).outcome.furthest
          (mergeOptions (Parser.orElse (Parser.ignoreThen (Parser.character op) rest)
            (Parser.succeed unit) d).outcome.furthest (unlessInRange (join a b) expected e))⟩ := by
  rw [chain, Parser.bind, Run.outcome_andThen_singleton _ h, Parser.bind,
    Run.outcome_andThen_singleton _ htail, outcome_checkedParser]

/-- A chain stops behind its operand where no rest is read. -/
theorem outcome_chain_stop (h : (operand c).outcome.successes = [⟨a, d⟩])
    (hstop : (Parser.ignoreThen (Parser.character op) rest d).outcome.successes = []) :
    (chain op join unit expected operand rest c).outcome
      = ⟨ifInRange (join a unit) d, mergeOptions (operand c).outcome.furthest
          (mergeOptions (Parser.ignoreThen (Parser.character op) rest d).outcome.furthest
            (unlessInRange (join a unit) expected d))⟩ := by
  have htail := Parser.outcome_orElse_of_successes_eq_nil (Parser.succeed unit) hstop
  rw [outcome_chain h (by rw [htail, Parser.successes_succeed]), htail]
  rfl

/-- A chain goes on behind its operator where a rest is read. -/
theorem outcome_chain_step {xs : List Char} (h : (operand c).outcome.successes = [⟨a, d⟩])
    (hd : d.unread = op :: xs) (hrest : (rest d.next).outcome.successes = [⟨b, e⟩]) :
    (chain op join unit expected operand rest c).outcome
      = ⟨ifInRange (join a b) e, mergeOptions (operand c).outcome.furthest
          (mergeOptions (rest d.next).outcome.furthest
            (unlessInRange (join a b) expected e))⟩ := by
  have hbehind : (Parser.ignoreThen (Parser.character op) rest d).outcome.successes ≠ [] := by
    rw [outcome_behind_of_head hd, hrest]
    exact List.cons_ne_nil _ _
  have htail := Parser.orElse_of_successes_ne_nil (Parser.succeed unit) hbehind
  rw [outcome_chain h (by rw [htail, outcome_behind_of_head hd, hrest]), htail,
    outcome_behind_of_head hd]

theorem successes_chain_nil (h : (operand c).outcome.successes = []) :
    (chain op join unit expected operand rest c).outcome.successes = [] := by
  rw [outcome_chain_nil h]

theorem successes_chain_stop (h : (operand c).outcome.successes = [⟨a, d⟩])
    (hstop : ∀ xs, d.unread = op :: xs → (rest d.next).outcome.successes = []) :
    (chain op join unit expected operand rest c).outcome.successes
      = ifInRange (join a unit) d := by
  rw [outcome_chain_stop h (successes_behind_eq_nil hstop)]

theorem successes_chain_step {xs : List Char} (h : (operand c).outcome.successes = [⟨a, d⟩])
    (hd : d.unread = op :: xs) (hrest : (rest d.next).outcome.successes = [⟨b, e⟩]) :
    (chain op join unit expected operand rest c).outcome.successes = ifInRange (join a b) e := by
  rw [outcome_chain_step h hd hrest]

end Chain

/-! ## Factors -/

section Factor

variable {inner : Parser Int} {c d : Cursor} {v : Int} {x : Char} {xs : List Char}

theorem decimalDigit_of_isDigit (h : c.unread = x :: xs) (hx : x.isDigit = true) :
    (Parser.map Int.ofNat Parser.decimalDigit c).outcome
      = .success (Parser.digitValue x : Int) c.next := by
  rw [Parser.map, Run.outcome_map, Parser.decimalDigit, Parser.map, Run.outcome_map, Parser.digit,
    Parser.charWhere_of_cons _ _ h, if_pos hx]
  rfl

theorem decimalDigit_of_not_isDigit (h : ∀ x xs, c.unread = x :: xs → ¬ x.isDigit = true) :
    (Parser.map Int.ofNat Parser.decimalDigit c).outcome
      = ⟨[], some (expecting c ["digit"])⟩ := by
  rw [Parser.map, Run.outcome_map, Parser.decimalDigit, Parser.map, Run.outcome_map, Parser.digit]
  cases hu : c.unread with
  | nil =>
      rw [Parser.charWhere_of_nil _ _ hu]
      rfl
  | cons y ys =>
      rw [Parser.charWhere_of_cons _ _ hu, if_neg (h y ys hu)]
      rfl

theorem not_isDigit_of_open (h : c.unread = '(' :: xs) :
    ∀ y ys, c.unread = y :: ys → ¬ y.isDigit = true := by
  intro y ys hy
  rw [h, List.cons.injEq] at hy
  rw [← hy.1]
  decide

theorem outcome_factor_digit (h : c.unread = x :: xs) (hx : x.isDigit = true) :
    (factorParser inner c).outcome = .success (Parser.digitValue x : Int) c.next := by
  have hdigit := decimalDigit_of_isDigit h hx
  have hne : (Parser.map Int.ofNat Parser.decimalDigit c).outcome.successes ≠ [] := by
    rw [hdigit]
    exact List.cons_ne_nil _ _
  rw [factorParser, Parser.orElse_of_successes_ne_nil _ hne, hdigit]

/-- Where no digit stands, a factor is what stands between parentheses. -/
theorem outcome_factor_of_not_isDigit
    (h : ∀ x xs, c.unread = x :: xs → ¬ x.isDigit = true) :
    (factorParser inner c).outcome
      = (Parser.thenIgnore (Parser.ignoreThen (Parser.character '(') inner)
          (Parser.character ')') c).outcome.withFailure (some (expecting c ["digit"])) := by
  have hdigit := decimalDigit_of_not_isDigit h
  rw [factorParser, Parser.outcome_orElse_of_successes_eq_nil _ (by rw [hdigit]), hdigit]
  rfl

theorem outcome_factor_of_not_head (hdigit : ∀ x xs, c.unread = x :: xs → ¬ x.isDigit = true)
    (hopen : ∀ xs, c.unread ≠ '(' :: xs) :
    (factorParser inner c).outcome
      = ⟨[], some (expecting c [Quoted.char '(', "digit"])⟩ := by
  have hbehind := outcome_behind_of_not_head (p := inner) hopen
  rw [outcome_factor_of_not_isDigit hdigit, Parser.thenIgnore,
    Parser.outcome_sequence_nil (by rw [hbehind]), hbehind, Outcome.withFailure, mergeOptions_some,
    merge_expecting]
  rfl

theorem outcome_factor_open_nil (h : c.unread = '(' :: xs)
    (hinner : (inner c.next).outcome.successes = []) :
    (factorParser inner c).outcome
      = ⟨[], mergeOptions (inner c.next).outcome.furthest (some (expecting c ["digit"]))⟩ := by
  have hbehind := outcome_behind_of_head (p := inner) h
  rw [outcome_factor_of_not_isDigit (not_isDigit_of_open h), Parser.thenIgnore,
    Parser.outcome_sequence_nil (by rw [hbehind, hinner]), hbehind]
  rfl

/-- A factor that opens, and has read what stands behind the parenthesis, is to be closed. -/
theorem outcome_factor_open (h : c.unread = '(' :: xs)
    (hinner : (inner c.next).outcome.successes = [⟨v, d⟩]) :
    (factorParser inner c).outcome
      = ⟨(Parser.character ')' d).outcome.successes.map (Success.map fun _ => v),
          mergeOptions (mergeOptions (inner c.next).outcome.furthest
            (Parser.character ')' d).outcome.furthest) (some (expecting c ["digit"]))⟩ := by
  have hbehind := outcome_behind_of_head (p := inner) h
  rw [outcome_factor_of_not_isDigit (not_isDigit_of_open h), Parser.thenIgnore,
    Parser.outcome_sequence_singleton (by rw [hbehind, hinner]), hbehind]
  rfl

theorem outcome_factor_closed {ys : List Char} (h : c.unread = '(' :: xs)
    (hinner : (inner c.next).outcome.successes = [⟨v, d⟩]) (hd : d.unread = ')' :: ys) :
    (factorParser inner c).outcome
      = ⟨[⟨v, d.next⟩], mergeOptions (inner c.next).outcome.furthest
          (some (expecting c ["digit"]))⟩ := by
  rw [outcome_factor_open h hinner, Parser.character_of_head hd]
  simp [Parser.succeed, Run.quiet, Outcome.success, Success.map]

theorem outcome_factor_unclosed (h : c.unread = '(' :: xs)
    (hinner : (inner c.next).outcome.successes = [⟨v, d⟩]) (hd : ∀ ys, d.unread ≠ ')' :: ys) :
    (factorParser inner c).outcome
      = ⟨[], mergeOptions (mergeOptions (inner c.next).outcome.furthest
          (some (expecting d [Quoted.char ')']))) (some (expecting c ["digit"]))⟩ := by
  rw [outcome_factor_open h hinner, Parser.character_of_not_head hd]
  rfl

theorem successes_factor_digit (h : c.unread = x :: xs) (hx : x.isDigit = true) :
    (factorParser inner c).outcome.successes = [⟨Parser.digitValue x, c.next⟩] := by
  rw [outcome_factor_digit h hx]
  rfl

theorem successes_factor_of_not_head (hdigit : ∀ x xs, c.unread = x :: xs → ¬ x.isDigit = true)
    (hopen : ∀ xs, c.unread ≠ '(' :: xs) :
    (factorParser inner c).outcome.successes = [] := by
  rw [outcome_factor_of_not_head hdigit hopen]

theorem successes_factor_open_nil (h : c.unread = '(' :: xs)
    (hinner : (inner c.next).outcome.successes = []) :
    (factorParser inner c).outcome.successes = [] := by
  rw [outcome_factor_open_nil h hinner]

theorem successes_factor_closed {ys : List Char} (h : c.unread = '(' :: xs)
    (hinner : (inner c.next).outcome.successes = [⟨v, d⟩]) (hd : d.unread = ')' :: ys) :
    (factorParser inner c).outcome.successes = [⟨v, d.next⟩] := by
  rw [outcome_factor_closed h hinner hd]

theorem successes_factor_unclosed (h : c.unread = '(' :: xs)
    (hinner : (inner c.next).outcome.successes = [⟨v, d⟩]) (hd : ∀ ys, d.unread ≠ ')' :: ys) :
    (factorParser inner c).outcome.successes = [] := by
  rw [outcome_factor_unclosed h hinner hd]

end Factor

/-! ## Events

Only what stands between parentheses may write records. -/

section Events

variable {P : Event → Prop} {c : Cursor}

theorem events_checkedParser (v : Int) (expected : String) (d : Cursor) :
    (checkedParser v expected d).events = [] := by
  unfold checkedParser
  split <;> rfl

/-- A chain writes what its operand writes, and then what is written behind its operator. -/
theorem events_chain (op : Char) (join : Int → Int → Int) (unit : Int) (expected : String)
    (operand rest : Parser Int) (c : Cursor) :
    (chain op join unit expected operand rest c).events
      = (operand c).events ++ (operand c).outcome.successes.flatMap fun x =>
          (Parser.ignoreThen (Parser.character op) rest x.rest).events := by
  have htail : ∀ d : Cursor,
      (Parser.orElse (Parser.ignoreThen (Parser.character op) rest) (Parser.succeed unit) d).events
        = (Parser.ignoreThen (Parser.character op) rest d).events := by
    intro d
    by_cases hnil : (Parser.ignoreThen (Parser.character op) rest d).outcome.successes = []
    · rw [Parser.orElse_of_successes_eq_nil _ hnil]
      exact List.append_nil _
    · rw [Parser.orElse_of_successes_ne_nil _ hnil]
  have hbehind : ∀ x : Success Int,
      (Parser.bind (Parser.orElse (Parser.ignoreThen (Parser.character op) rest)
        (Parser.succeed unit)) (fun right => checkedParser (join x.value right) expected)
          x.rest).events = (Parser.ignoreThen (Parser.character op) rest x.rest).events := by
    intro x
    rw [Parser.bind, Run.events_andThen_of_quiet fun y _ => events_checkedParser _ _ _, htail]
  rw [chain, Parser.bind, Run.events_andThen]
  simp only [hbehind]

section Chain

variable {op : Char} {join : Int → Int → Int} {unit : Int} {expected : String}
  {operand rest : Parser Int}

theorem events_chain_stop
    (h : ∀ x ∈ (operand c).outcome.successes, ∀ xs, x.rest.unread ≠ op :: xs) :
    (chain op join unit expected operand rest c).events = (operand c).events := by
  rw [events_chain, List.flatMap_eq_nil_iff.2 fun x hx => ?_, List.append_nil]
  rw [Parser.ignoreThen_character_of_not_head rest (h x hx)]
  rfl

theorem events_chain_step {x : Success Int} {xs : List Char}
    (h : (operand c).outcome.successes = [x]) (hop : x.rest.unread = op :: xs) :
    (chain op join unit expected operand rest c).events
      = (operand c).events ++ (rest x.rest.next).events := by
  rw [events_chain, h, List.flatMap_singleton, Parser.ignoreThen_character_of_head rest hop]

end Chain

/-- A factor writes what is written between its parentheses. -/
theorem events_factor (inner : Parser Int) (c : Cursor) :
    (factorParser inner c).events
      = if (Parser.map Int.ofNat Parser.decimalDigit c).outcome.successes = [] then
          (Parser.ignoreThen (Parser.character '(') inner c).events
        else [] := by
  have hdigit : (Parser.map Int.ofNat Parser.decimalDigit c).events = [] :=
    Parser.events_charWhere _ _ c
  split
  · next hnil =>
      rw [factorParser, Parser.orElse_of_successes_eq_nil _ hnil, hdigit, List.nil_append,
        Parser.thenIgnore, Parser.sequence]
      exact Run.events_andThen_of_quiet fun x _ => Parser.events_charWhere _ _ x.rest
  · next hne => rw [factorParser, Parser.orElse_of_successes_ne_nil _ hne, hdigit]

theorem events_factor_of_not_open {inner : Parser Int} (h : ∀ xs, c.unread ≠ '(' :: xs) :
    (factorParser inner c).events = [] := by
  rw [events_factor, Parser.ignoreThen_character_of_not_head inner h]
  exact ite_self _

theorem events_factor_open {inner : Parser Int} {xs : List Char} (h : c.unread = '(' :: xs) :
    (factorParser inner c).events = (inner c.next).events := by
  rw [events_factor, if_pos (by rw [decimalDigit_of_not_isDigit (not_isDigit_of_open h)]),
    Parser.ignoreThen_character_of_head inner h]

/-- The events of a chain are those of its operand, and of its rest where less is unread. -/
theorem emits_chain {op : Char} {join : Int → Int → Int} {unit : Int} {expected : String}
    {operand rest : Parser Int} (hadvances : operand.Advances) (hoperand : (operand c).Emits P)
    (hrest : ∀ d : Cursor, d.length < c.length → (rest d).Emits P) :
    (chain op join unit expected operand rest c).Emits P := by
  refine Parser.emits_bind hoperand fun x hx => ?_
  refine Parser.emits_bind ?_ fun y _ => Run.emits_of_events_eq_nil (events_checkedParser _ _ _)
  refine Parser.emits_orElse ?_ (Run.emits_of_events_eq_nil rfl)
  refine Parser.emits_sequence (Run.emits_of_events_eq_nil (Parser.events_charWhere _ _ _)) ?_
  intro y hy
  have hy : y.rest.length < x.rest.length := length_lt_of_mem_charWhere hy
  have hx : x.rest.length ≤ c.length := (hadvances c x hx).length_le
  exact hrest _ (by omega)

/-- The events of a factor are those between its parentheses, where less is unread. -/
theorem emits_factorParser {inner : Parser Int}
    (h : ∀ d : Cursor, d.length < c.length → (inner d).Emits P) :
    (factorParser inner c).Emits P := by
  have hchar : ∀ (test : Char → Bool) (label : String) (d : Cursor),
      (Parser.charWhere test label d).Emits P :=
    fun test label d => Run.emits_of_events_eq_nil (Parser.events_charWhere test label d)
  refine Parser.emits_orElse (hchar _ _ _) ?_
  refine Parser.emits_sequence ?_ fun x _ => hchar _ _ _
  refine Parser.emits_sequence (hchar _ _ _) fun x hx => ?_
  exact h x.rest (length_lt_of_mem_charWhere hx)

/-- The events of a rule are those between its parentheses. -/
theorem emits_rule {inner : Grammar Int Int} (hinner : Local inner)
    (h : ∀ c : Cursor, ((rulesOver inner .expr).parser c).Emits P → (innerParser inner c).Emits P)
    (r : Rule) (c : Cursor) : ((rulesOver inner r).parser c).Emits P := by
  refine rule_induction hinner (P := fun _ _ run => run.Emits P) ?_ ?_ ?_ r c
  · intro c hexpr
    exact emits_factorParser fun d hd => h d (hexpr d hd)
  · intro c hfactor hrest
    exact emits_chain (advances_factorParser (advances_innerParser inner)) hfactor hrest
  · intro c hterm hrest
    exact emits_chain (advances_tied inner "term") hterm hrest

end Events

end Parsing.Arithmetic
