import Parsing.Proofs.PlainRepetition
import Parsing.Proofs.StepEffects

set_option autoImplicit false

/-! # Parsers with one success at most

A parser is unambiguous if it has one success at most on every input. Sequences, choices,
repetitions and knots of unambiguous parsers are unambiguous; only `union` puts two successes side
by side. So a grammar without `union` describes an unambiguous parser, whatever its continuations
choose (`Grammar.unambiguous_parserIn`), and a repetition in it has exactly one success. The same
holds of terms without alternatives, and of everything that a workspace builds from such terms. -/

namespace Parsing

variable {ρ α β γ : Type}

namespace Parser

/-- There is one success at most, whatever the input. -/
def Unambiguous (p : Parser α) : Prop := ∀ c, (p c).outcome.successes.length ≤ 1

/-! ## Combinators -/

theorem length_flatMap_le_one {xs : List α} {f : α → List β} (hxs : xs.length ≤ 1)
    (hf : ∀ x, (f x).length ≤ 1) : (xs.flatMap f).length ≤ 1 := by
  match xs with
  | [] => exact Nat.zero_le 1
  | [x] =>
      rw [List.flatMap_singleton]
      exact hf x
  | _ :: _ :: _ => simp at hxs

theorem unambiguous_succeed (v : α) : (succeed v).Unambiguous := fun _ => Nat.le_refl 1

theorem unambiguous_of_successes_eq_nil {p : Parser α} (h : ∀ c, (p c).outcome.successes = []) :
    p.Unambiguous := by
  intro c
  rw [h c]
  exact Nat.zero_le 1

theorem unambiguous_faulty (f : Fault) : Unambiguous (fun _ => .faulty f : Parser α) :=
  unambiguous_of_successes_eq_nil fun _ => rfl

theorem unambiguous_charWhere (test : Char → Bool) (label : String) :
    (charWhere test label).Unambiguous := by
  intro c
  unfold charWhere
  split
  · exact Nat.zero_le 1
  · split
    · exact Nat.le_refl 1
    · exact Nat.zero_le 1

theorem unambiguous_literalFrom (text : String) (xs : List Char) :
    (literalFrom text xs).Unambiguous := by
  induction xs with
  | nil => exact unambiguous_succeed text
  | cons x xs ih =>
      intro c
      simp only [literalFrom]
      split
      · exact Nat.zero_le 1
      · split
        · exact ih c.next
        · exact Nat.zero_le 1

theorem unambiguous_endOfInput : endOfInput.Unambiguous := by
  intro c
  unfold endOfInput
  split
  · exact Nat.le_refl 1
  · exact Nat.zero_le 1

theorem unambiguous_bind {p : Parser α} {f : α → Parser β} (hp : p.Unambiguous)
    (hf : ∀ a, (f a).Unambiguous) : (bind p f).Unambiguous := by
  intro c
  rw [successes_bind]
  exact length_flatMap_le_one (hp c) fun x => hf x.value x.rest

theorem unambiguous_map (f : α → β) {p : Parser α} (hp : p.Unambiguous) :
    (map f p).Unambiguous := by
  intro c
  rw [successes_map, List.length_map]
  exact hp c

theorem unambiguous_sequence (join : α → β → γ) {p : Parser α} {q : Parser β}
    (hp : p.Unambiguous) (hq : q.Unambiguous) : (sequence join p q).Unambiguous := by
  intro c
  rw [successes_sequence]
  refine length_flatMap_le_one (hp c) fun x => ?_
  rw [List.length_map]
  exact hq x.rest

theorem unambiguous_orElse {p q : Parser α} (hp : p.Unambiguous) (hq : q.Unambiguous) :
    (orElse p q).Unambiguous := by
  intro c
  rw [successes_orElse]
  split
  · exact hq c
  · exact hp c

theorem unambiguous_look {p : Parser α} (hp : p.Unambiguous) : (look p).Unambiguous := by
  intro c
  simp only [look, List.length_map]
  exact hp c

/-! ### Repetition -/

/-- There is one branch only, and it is closed in the end. -/
theorem length_successes_repeatFrom {p : Parser α} (hp : p.Unambiguous) (seed : List α)
    (c : Cursor) : (repeatFrom p seed c).outcome.successes.length = 1 := by
  -- What is followed up leaves fewer characters unread.
  induction hn : c.length using Nat.strongRecOn generalizing c seed with
  | ind n ih =>
      by_cases hnil : consuming c (p c).outcome.successes = []
      · rw [repeatFrom_of_nil seed hnil]
        rfl
      · obtain ⟨x, hx⟩ : ∃ x, consuming c (p c).outcome.successes = [x] := by
          have hle : (consuming c (p c).outcome.successes).length ≤ 1 :=
            Nat.le_trans (List.length_filter_le _ _) (hp c)
          have hpos := List.length_pos_of_ne_nil hnil
          exact List.length_eq_one_iff.1 (Nat.le_antisymm hle hpos)
        have hlt : x.rest.length < n := hn ▸ length_lt_of_mem_consuming (by rw [hx]; simp)
        have hrest := ih _ hlt (seed ++ [x.value]) x.rest rfl
        rw [repeatFrom_of_ne_nil seed hnil, hx]
        simpa [Run.barren] using hrest

theorem unambiguous_repeatFrom {p : Parser α} (hp : p.Unambiguous) (seed : List α) :
    (repeatFrom p seed).Unambiguous :=
  fun c => Nat.le_of_eq (length_successes_repeatFrom hp seed c)

theorem unambiguous_many1 {p : Parser α} (hp : p.Unambiguous) : (many1 p).Unambiguous := by
  intro c
  rw [many1, Run.successes_andThen]
  exact length_flatMap_le_one (hp c) fun x => unambiguous_repeatFrom hp [x.value] x.rest

/-! ### Knots -/

theorem unambiguous_knot {κ : Type} [DecidableEq κ] {keys : List κ}
    {rules : (κ → Parser ρ) → κ → Parser ρ}
    (h : ∀ self, (∀ k, (self k).Unambiguous) → ∀ k, (rules self k).Unambiguous) (key : κ) :
    (knot keys rules key).Unambiguous :=
  knot_induction (Q := fun _ r => r.outcome.successes.length ≤ 1) (fun _ => Nat.zero_le 1) h key

end Parser

/-! ## Grammars -/

/-- The grammar is put together without `union`. -/
def Grammar.WithoutUnion : {ρ α : Type} → Grammar ρ α → Prop
  | _, _, .succeed _ => True
  | _, _, .fail _ => True
  | _, _, .never => True
  | _, _, .charWhere _ _ => True
  | _, _, .literal _ => True
  | _, _, .endOfInput => True
  | _, _, .record _ => True
  | _, _, .bind p f => p.WithoutUnion ∧ ∀ a, (f a).WithoutUnion
  | _, _, .map _ p => p.WithoutUnion
  | _, _, .orElse p q => p.WithoutUnion ∧ q.WithoutUnion
  | _, _, .sequence _ p q => p.WithoutUnion ∧ q.WithoutUnion
  | _, _, .union _ _ => False
  | _, _, .many p => p.WithoutUnion
  | _, _, .many1 p => p.WithoutUnion
  | _, _, .label _ p => p.WithoutUnion
  | _, _, .note _ p => p.WithoutUnion
  | _, _, .look p => p.WithoutUnion
  | _, _, .ref _ => True
  | _, _, .letrec _ rule main => (∀ x, (rule x).WithoutUnion) ∧ main.WithoutUnion
  | _, _, .closed p => p.WithoutUnion

namespace Grammar

theorem unambiguous_empty (r : Ref) : ((Env.empty : Env ρ) r).Unambiguous :=
  Parser.unambiguous_faulty .dropped

theorem unambiguous_extend {env : Env ρ} {names : List String} {rule : String → Parser ρ}
    (henv : ∀ r, (env r).Unambiguous) (hrule : ∀ x, (rule x).Unambiguous) (r : Ref) :
    (env.extend names rule r).Unambiguous := by
  cases r with
  | name x =>
      rw [Env.extend]
      split
      · exact hrule x
      · exact henv (.name x)
  | handle d => exact henv (.handle d)
  | owner d => exact henv (.owner d)

/-- **Only `union` makes parsers ambiguous.** -/
theorem unambiguous_parserIn (p : Grammar ρ α) (hp : p.WithoutUnion) {env : Env ρ}
    (henv : ∀ r, (env r).Unambiguous) : (p.parserIn env).Unambiguous := by
  induction p with
  | succeed v => exact Parser.unambiguous_succeed v
  | fail expected => exact Parser.unambiguous_of_successes_eq_nil fun _ => rfl
  | never => exact Parser.unambiguous_of_successes_eq_nil fun _ => rfl
  | charWhere test expected => exact Parser.unambiguous_charWhere test expected
  | literal text => exact Parser.unambiguous_literalFrom text _
  | endOfInput => exact Parser.unambiguous_endOfInput
  | record records => exact Parser.unambiguous_succeed ()
  | bind p f ihp ihf =>
      exact Parser.unambiguous_bind (ihp hp.1 henv) fun a => ihf a (hp.2 a) henv
  | map f p ih => exact Parser.unambiguous_map f (ih hp henv)
  | orElse p q ihp ihq => exact Parser.unambiguous_orElse (ihp hp.1 henv) (ihq hp.2 henv)
  | sequence join p q ihp ihq =>
      exact Parser.unambiguous_sequence join (ihp hp.1 henv) (ihq hp.2 henv)
  | union p q ihp ihq => exact hp.elim
  | many p ih => exact Parser.unambiguous_repeatFrom (ih hp henv) []
  | many1 p ih => exact Parser.unambiguous_many1 (ih hp henv)
  | label name p ih => exact ih hp henv
  | note expected p ih => exact ih hp henv
  | look p ih => exact Parser.unambiguous_look (ih hp henv)
  | ref r => exact henv r
  | letrec names rule main ihrule ihmain =>
      have hknot : ∀ x, (Parser.knot names
          (fun self x => (rule x).parserIn (env.extend names self)) x).Unambiguous :=
        Parser.unambiguous_knot fun self hself x =>
          ihrule x (hp.1 x) (unambiguous_extend henv hself)
      exact ihmain hp.2 (unambiguous_extend henv hknot)
  | closed p ih => exact ih hp unambiguous_empty

theorem WithoutUnion.unambiguous {p : Grammar ρ α} (hp : p.WithoutUnion) :
    p.parser.Unambiguous :=
  p.unambiguous_parserIn hp unambiguous_empty

end Grammar

/-! ## The arithmetic rules -/

namespace Arithmetic

open Grammar

theorem withoutUnion_checked (v : Int) (expected : String) : (checked v expected).WithoutUnion := by
  unfold checked
  split <;> exact trivial

theorem withoutUnion_factor {inner : Grammar Int Int} (h : inner.WithoutUnion) :
    (factor inner).WithoutUnion :=
  ⟨trivial, ⟨trivial, h⟩, trivial⟩

theorem withoutUnion_rulesOver {inner : Grammar Int Int} (h : inner.WithoutUnion) (r : Rule) :
    (rulesOver inner r).WithoutUnion := by
  refine ⟨fun x => ?_, ?_⟩
  · dsimp only
    split
    · exact ⟨trivial, fun _ => ⟨⟨⟨trivial, trivial⟩, trivial⟩, fun _ => withoutUnion_checked _ _⟩⟩
    · exact ⟨withoutUnion_factor h,
        fun _ => ⟨⟨⟨trivial, trivial⟩, trivial⟩, fun _ => withoutUnion_checked _ _⟩⟩
  · cases r with
    | expr => exact trivial
    | term => exact trivial
    | factor => exact withoutUnion_factor h

theorem withoutUnion_nested (depth : Nat) : (nested depth).WithoutUnion := by
  induction depth with
  | zero => exact trivial
  | succ depth ih => exact ⟨trivial, fun _ => withoutUnion_rulesOver ih .expr⟩

theorem withoutUnion_grammar (limit : Option Nat) (r : Rule) :
    (grammar limit r).WithoutUnion := by
  cases limit with
  | none =>
      refine withoutUnion_rulesOver ?_ r
      exact trivial
  | some depth => exact withoutUnion_rulesOver (withoutUnion_nested depth) r

theorem withoutUnion_config (config : Config) : config.grammar.WithoutUnion := by
  unfold Config.grammar
  dsimp only
  split
  · exact withoutUnion_grammar _ .expr
  · exact ⟨withoutUnion_grammar _ .expr, trivial⟩

end Arithmetic

/-! ## Terms -/

namespace Script

mutual

/-- The term has no alternatives that are read side by side. -/
def Term.withoutUnion : Term → Bool
  | .bind p next => p.withoutUnion && next.withoutUnion
  | .map _ p => p.withoutUnion
  | .orElse p q => p.withoutUnion && q.withoutUnion
  | .many p => p.withoutUnion
  | .many1 p => p.withoutUnion
  | .pair p q => p.withoutUnion && q.withoutUnion
  | .thenIgnore p q => p.withoutUnion && q.withoutUnion
  | .ignoreThen p q => p.withoutUnion && q.withoutUnion
  | .optional p => p.withoutUnion
  | .sepBy p separator => p.withoutUnion && separator.withoutUnion
  | .chainl1 item op _ => item.withoutUnion && op.withoutUnion
  | .label _ p => p.withoutUnion
  | .recursive _ body => body.withoutUnion
  | .letrec definitions main => definitionsWithoutUnion definitions && main.withoutUnion
  | .unionAll _ => false
  | .note _ p => p.withoutUnion
  | .look p => p.withoutUnion
  | _ => true

/-- No parser of the continuation has such alternatives. -/
def Continuation.withoutUnion : Continuation → Bool
  | .const p => p.withoutUnion
  | .count p => p.withoutUnion
  | .select ps => termsWithoutUnion ps
  | .when _ p q => p.withoutUnion && q.withoutUnion
  | .fold _ p => p.withoutUnion
  | _ => true

/-- No term of the list has such alternatives. -/
def termsWithoutUnion : List Term → Bool
  | [] => true
  | p :: ps => p.withoutUnion && termsWithoutUnion ps

/-- No definition of the list has such alternatives. -/
def definitionsWithoutUnion : List (String × Term) → Bool
  | [] => true
  | (_, p) :: ds => p.withoutUnion && definitionsWithoutUnion ds

end

theorem withoutUnion_times {p : Rules} (h : p.WithoutUnion) (n : Nat) :
    (times p n).WithoutUnion := by
  induction n with
  | zero => exact trivial
  | succ n ih => exact ⟨ih, h⟩

theorem withoutUnion_chosen {ps : List Rules} (h : ∀ p ∈ ps, p.WithoutUnion) (x : Value) :
    (chosen ps x).WithoutUnion := by
  rcases chosen_mem ps x with hx | hx
  · rw [hx]
    exact trivial
  · exact h _ hx

theorem withoutUnion_lookupLast {rules : List (String × Rules)}
    (h : ∀ e ∈ rules, e.2.WithoutUnion) (x : String) : (lookupLast rules x).WithoutUnion := by
  rcases lookupLast_mem rules x with hx | hx
  · rw [hx]
    exact trivial
  · exact h _ hx

section Terms

variable {free : String → Rules}

mutual

/-- A term without alternatives describes a grammar without `union`. -/
theorem Term.withoutUnion_grammarIn (hfree : ∀ x, (free x).WithoutUnion) (bound : List String)
    (t : Term) (h : t.withoutUnion = true) : (t.grammarIn free bound).WithoutUnion := by
  cases t with
  | succeed _ | fail _ | satisfy _ | character _ | digit | decimalDigit | anyChar | endOfInput
  | oneOf _ | literal _ | never => exact trivial
  | bind p next =>
      simp only [Term.withoutUnion, Bool.and_eq_true] at h
      exact ⟨p.withoutUnion_grammarIn hfree bound h.1, next.withoutUnion_grammarIn hfree bound h.2⟩
  | map _ p | many p | many1 p | label _ p | note _ p | look p =>
      exact p.withoutUnion_grammarIn hfree bound h
  | orElse p q | pair p q | thenIgnore p q | ignoreThen p q =>
      simp only [Term.withoutUnion, Bool.and_eq_true] at h
      exact ⟨p.withoutUnion_grammarIn hfree bound h.1, q.withoutUnion_grammarIn hfree bound h.2⟩
  | optional p => exact ⟨p.withoutUnion_grammarIn hfree bound h, trivial⟩
  | sepBy p separator =>
      simp only [Term.withoutUnion, Bool.and_eq_true] at h
      have hp := p.withoutUnion_grammarIn hfree bound h.1
      exact ⟨⟨hp, separator.withoutUnion_grammarIn hfree bound h.2, hp⟩, trivial⟩
  | chainl1 item op _ =>
      simp only [Term.withoutUnion, Bool.and_eq_true] at h
      have hitem := item.withoutUnion_grammarIn hfree bound h.1
      exact ⟨hitem, op.withoutUnion_grammarIn hfree bound h.2, hitem⟩
  | ref x =>
      simp only [Term.grammarIn]
      split
      · exact trivial
      · exact hfree x
  | recursive x body => exact ⟨fun _ => body.withoutUnion_grammarIn hfree (x :: bound) h, trivial⟩
  | letrec definitions main =>
      simp only [Term.withoutUnion, Bool.and_eq_true] at h
      exact ⟨withoutUnion_lookupLast (withoutUnion_definitionGrammars hfree _ definitions h.1),
        main.withoutUnion_grammarIn hfree _ h.2⟩
  | unionAll ps => exact absurd h Bool.false_ne_true
  | arithmetic rule limit => exact Arithmetic.withoutUnion_grammar limit rule
  | evaluator settings => exact Arithmetic.withoutUnion_config _

theorem Continuation.withoutUnion_grammarIn (hfree : ∀ x, (free x).WithoutUnion)
    (bound : List String) (next : Continuation) (h : next.withoutUnion = true) (x : Value) :
    (next.grammarIn free bound x).WithoutUnion := by
  cases next with
  | succeed | fail | same => exact trivial
  | const p => exact p.withoutUnion_grammarIn hfree bound h
  | count p => exact withoutUnion_times (p.withoutUnion_grammarIn hfree bound h) (repetitions x)
  | select ps => exact withoutUnion_chosen (withoutUnion_termGrammars hfree bound ps h) x
  | when eq p q =>
      simp only [Continuation.withoutUnion, Bool.and_eq_true] at h
      simp only [Continuation.grammarIn]
      split
      · exact p.withoutUnion_grammarIn hfree bound h.1
      · exact q.withoutUnion_grammarIn hfree bound h.2
  | fold _ p => exact p.withoutUnion_grammarIn hfree bound h

theorem withoutUnion_termGrammars (hfree : ∀ x, (free x).WithoutUnion) (bound : List String)
    (ps : List Term) (h : termsWithoutUnion ps = true) :
    ∀ p ∈ termGrammars free bound ps, p.WithoutUnion := by
  cases ps with
  | nil => simp [termGrammars]
  | cons p ps =>
      simp only [termsWithoutUnion, Bool.and_eq_true] at h
      simp only [termGrammars, List.forall_mem_cons]
      exact ⟨p.withoutUnion_grammarIn hfree bound h.1, withoutUnion_termGrammars hfree bound ps h.2⟩

theorem withoutUnion_definitionGrammars (hfree : ∀ x, (free x).WithoutUnion)
    (bound : List String) (ds : List (String × Term)) (h : definitionsWithoutUnion ds = true) :
    ∀ e ∈ definitionGrammars free bound ds, e.2.WithoutUnion := by
  cases ds with
  | nil => simp [definitionGrammars]
  | cons d ds =>
      obtain ⟨x, p⟩ := d
      simp only [definitionsWithoutUnion, Bool.and_eq_true] at h
      simp only [definitionGrammars, List.forall_mem_cons]
      have hrest := withoutUnion_definitionGrammars hfree bound ds h.2
      exact ⟨p.withoutUnion_grammarIn hfree bound h.1, hrest⟩

end

end Terms

theorem Term.withoutUnion_grammar {t : Term} (h : t.withoutUnion = true) :
    t.grammar.WithoutUnion := by
  refine t.withoutUnion_grammarIn (fun x => ?_) [] h
  exact trivial

/-! ## Workspaces -/

namespace Workspace

variable {w : Workspace}

/-- All parsers and bodies of the workspace are put together without `union`. -/
structure WithoutUnion (w : Workspace) : Prop where
  parsers : ∀ b ∈ w.parsers.values, b.rules.WithoutUnion
  bodies : ∀ d b, w.body d = some b → b.rules.WithoutUnion

theorem withoutUnion_empty : empty.WithoutUnion where
  parsers b hb := absurd hb List.not_mem_nil
  bodies d b hb := by simp [body, empty] at hb

theorem WithoutUnion.build (h : w.WithoutUnion) {t : Term} (ht : t.withoutUnion = true) :
    (w.build t).rules.WithoutUnion := by
  refine t.withoutUnion_grammarIn (fun x => ?_) [] ht
  unfold lookup
  split
  · exact h.parsers _ (Table.mem_values_of_get? ‹_›)
  · exact trivial

theorem WithoutUnion.step (hw : w.Valid) (h : w.WithoutUnion) {s : Step}
    (hs : ∀ t ∈ s.terms, t.withoutUnion = true) : (w.step s).1.WithoutUnion where
  parsers := by
    intro b hb
    cases named_step hw s b hb with
    | kept hb => exact h.parsers b hb
    | handle d => exact trivial
    | owner _ => exact trivial
    | built ht => exact h.build (hs _ ht)
  bodies := by
    intro d b hb
    rcases body_step hw s d with hsame | ⟨t, ht, hbuilt⟩
    · exact h.bodies d b (hsame ▸ hb)
    · rw [hbuilt, Option.some.injEq] at hb
      exact hb ▸ h.build (hs t ht)

theorem WithoutUnion.steps (hw : w.Valid) (h : w.WithoutUnion) {ss : List Step}
    (hss : ∀ s ∈ ss, ∀ t ∈ s.terms, t.withoutUnion = true) : (w.steps ss).1.WithoutUnion := by
  induction ss generalizing w with
  | nil => exact h
  | cons s ss ih =>
      rw [List.forall_mem_cons] at hss
      exact ih (valid_step hw s) (h.step hw hss.1) hss.2

theorem unambiguous_meaning (alive : List Nat) {self : Nat → Parser Value}
    (hself : ∀ d, (self d).Unambiguous) (r : Ref) : (w.meaning alive self r).Unambiguous := by
  cases r with
  | name x => exact Parser.unambiguous_faulty .dropped
  | owner d => exact hself d
  | handle d =>
      intro c
      rw [meaning]
      split
      · split
        · exact hself d c
        · exact Nat.zero_le 1
      · exact Nat.zero_le 1

theorem WithoutUnion.unambiguous (h : w.WithoutUnion) {b : Built} (hb : b.rules.WithoutUnion) :
    (w.parser b).Unambiguous := by
  refine Grammar.unambiguous_parserIn b.rules hb (unambiguous_meaning w.alive ?_)
  refine Parser.unambiguous_knot fun self hself d => ?_
  unfold bodyParser
  split
  · exact Grammar.unambiguous_parserIn _ (h.bodies d _ ‹_›) (unambiguous_meaning w.alive hself)
  · exact Parser.unambiguous_faulty .undefined

end Workspace

end Script

/-! ## All parsers -/

/-- **Only alternatives read side by side are ambiguous.** A parser that a grammar without `union`
    describes has one success at most on every input, and a repetition of it has just one. So it is
    with terms without alternatives, with the arithmetic rules and the parsers of evaluators, and
    with all that is named in a workspace, or can be built there, where no step has built a term
    with alternatives. -/
theorem unambiguous_without_union :
    (∀ {ρ α : Type} (p : Grammar ρ α), p.WithoutUnion →
      p.parser.Unambiguous ∧ ∀ c, ((Grammar.many p).parser c).outcome.successes.length = 1) ∧
    (∀ t : Script.Term, t.withoutUnion = true →
      t.grammar.parser.Unambiguous ∧
        ∀ c, ((Script.Term.many t).grammar.parser c).outcome.successes.length = 1) ∧
    (∀ limit r, (Arithmetic.grammar limit r).parser.Unambiguous) ∧
    (∀ config, (Arithmetic.Evaluator.make config).value.parser.Unambiguous) ∧
    (∀ ss : List Script.Workspace.Step, (∀ s ∈ ss, ∀ t ∈ s.terms, t.withoutUnion = true) →
      let w := (Script.Workspace.empty.steps ss).1
      (∀ x b, w.parsers.get? x = some b → (w.parser b).Unambiguous) ∧
      ∀ t : Script.Term, t.withoutUnion = true →
        (w.parser (w.build t)).Unambiguous ∧
          ∀ c, (w.parser (w.build (.many t)) c).outcome.successes.length = 1) := by
  refine ⟨fun p hp => ⟨hp.unambiguous, fun c => ?_⟩, fun t ht => ?_,
    fun limit r => (Arithmetic.withoutUnion_grammar limit r).unambiguous,
    fun config => (Arithmetic.withoutUnion_config config).unambiguous, fun ss hss => ?_⟩
  · exact Parser.length_successes_repeatFrom hp.unambiguous [] c
  · have hgrammar : t.grammar.WithoutUnion := Script.Term.withoutUnion_grammar ht
    refine ⟨hgrammar.unambiguous, fun c => ?_⟩
    exact (List.length_map _).trans (Parser.length_successes_repeatFrom hgrammar.unambiguous [] c)
  · intro w
    have hw : w.WithoutUnion :=
      Script.Workspace.withoutUnion_empty.steps Script.Workspace.valid_empty hss
    refine ⟨fun x b hb => hw.unambiguous (hw.parsers b (Table.mem_values_of_get? hb)),
      fun t ht => ?_⟩
    have hbuilt : (w.parser (w.build t)).Unambiguous := hw.unambiguous (hw.build ht)
    refine ⟨hbuilt, fun c => ?_⟩
    exact (List.length_map _).trans (Parser.length_successes_repeatFrom hbuilt [] c)

/-- Letters, and round and square brackets with the same inside, where `x` stands for all of it. The
    bracket read chooses the one that closes. -/
def bracketBody : Script.Term :=
  .many (.orElse (.many1 (.satisfy .alpha))
    (.bind (.oneOf "([") (.when (.char '(') (.thenIgnore (.ref "x") (.character ')'))
      (.thenIgnore (.ref "x") (.character ']')))))

/-- Letters and brackets. -/
def brackets : Script.Term := .recursive "x" bracketBody

/-- The same as a definition in a workspace. -/
def tyingBrackets : List Script.Workspace.Step := [.defer "d" "x", .define "d" bracketBody "o"]

/-- Letters and brackets are read in one way, and so they are by the definition's owner. -/
theorem unambiguous_brackets :
    (brackets.grammar.WithoutUnion ∧
      (brackets.grammar.parser (.ofString "(a[b]")).outcome.successes.length ≤ 1) ∧
    (brackets.withoutUnion = true ∧
      ((Script.Term.many brackets).grammar.parser (.ofString "(a[b]")).outcome.successes.length
        = 1) ∧
    ((∀ s ∈ tyingBrackets, ∀ t ∈ s.terms, t.withoutUnion = true) ∧
      ∃ b, (Script.Workspace.empty.steps tyingBrackets).1.parsers.get? "o" = some b ∧
        ((Script.Workspace.empty.steps tyingBrackets).1.parser b
          (.ofString "(a[b]")).outcome.successes.length ≤ 1) := by
  obtain ⟨hgrammars, hterms, -, -, hworkspaces⟩ := @unambiguous_without_union
  have hgrammar : brackets.grammar.WithoutUnion := Script.Term.withoutUnion_grammar rfl
  have hsteps : ∀ s ∈ tyingBrackets, ∀ t ∈ s.terms, t.withoutUnion = true := by decide
  refine ⟨⟨hgrammar, (hgrammars _ hgrammar).1 _⟩, ⟨rfl, (hterms brackets rfl).2 _⟩, hsteps, ?_⟩
  exact ⟨⟨.ref (.owner 0), [0]⟩, rfl, (hworkspaces tyingBrackets hsteps).1 "o" _ rfl _⟩

/-- With alternatives side by side there can be more: one `a`, nothing, or two of them. -/
example :
    let stutter : Grammar Unit String := .union (.literal "a") (.union (.succeed "") (.literal "aa"))
    (stutter.parser (.ofString "aa")).outcome.successes.length = 3 := by
  decide

end Parsing
