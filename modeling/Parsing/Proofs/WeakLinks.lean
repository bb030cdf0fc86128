import Parsing.Proofs.Arithmetic.Build
import Parsing.Proofs.Arithmetic.Evaluation
import Parsing.Proofs.Arithmetic.Nesting

set_option autoImplicit false

/-! # Rules that are linked weakly

A name in a rule is a handle: it leads to the definition of the rule, but does not keep it alive.
Here the rules of a `letrec` are built one by one from handles and definers, as `Making.letrec`
does, each time its main parser is applied, and nothing is alive then but what that main parser
keeps (`Grammar.weakIn`). The parsers come out the same as where names lead to rules directly, those
chosen by the values read included (`Grammar.weakIn_eq`).

Of a grammar whose names are all bound nothing else is applied, so no handle ever fails. -/

namespace Parsing

variable {ρ α : Type}

/-! ## Grammars -/

/-- The parser that a grammar describes when the rules of each `letrec` are built one by one, and
    when only those definitions are alive that its main parser keeps. -/
def Grammar.weakIn : {ρ α : Type} → Grammar ρ α → Env ρ → Parser α
  | _, _, .succeed v, _ => .succeed v
  | _, _, .fail expected, _ => .fail expected
  | _, _, .never, _ => .never
  | _, _, .charWhere test expected, _ => .charWhere test expected
  | _, _, .literal text, _ => .literal text
  | _, _, .endOfInput, _ => .endOfInput
  | _, _, .record records, _ => .record records
  | _, _, .bind p f, env => .bind (p.weakIn env) fun a => (f a).weakIn env
  | _, _, .map f p, env => .map f (p.weakIn env)
  | _, _, .orElse p q, env => .orElse (p.weakIn env) (q.weakIn env)
  | _, _, .sequence join p q, env => .sequence join (p.weakIn env) (q.weakIn env)
  | _, _, .union p q, env => .union (p.weakIn env) (q.weakIn env)
  | _, _, .many p, env => .many (p.weakIn env)
  | _, _, .many1 p, env => .many1 (p.weakIn env)
  | _, _, .label name p, env => .label name (p.weakIn env)
  | _, _, .note expected p, env => .note expected (p.weakIn env)
  | _, _, .look p, env => .look (p.weakIn env)
  | _, _, .ref r, env => env r
  | _, _, .letrec names rule main, env =>
    (Making.letrec names env (fun x env => (rule x).weakIn env) fun env => main.weakIn env).alone
  | _, _, .closed p, _ => p.weakIn .empty

/-- The parser that a grammar describes by itself. -/
def Grammar.weak (p : Grammar ρ α) : Parser α := p.weakIn .empty

theorem Grammar.weakIn_eq (p : Grammar ρ α) (env : Env ρ) : p.weakIn env = p.parserIn env := by
  induction p with
  | succeed | fail | never | charWhere | literal | endOfInput | record | ref => rfl
  | bind p f ihp ihf => simp only [weakIn, parserIn, ihp, ihf]
  | orElse p q ihp ihq | sequence _ p q ihp ihq | union p q ihp ihq =>
      simp only [weakIn, parserIn, ihp, ihq]
  | map _ p ih | many p ih | many1 p ih | label _ p ih | note _ p ih | look p ih | closed p ih =>
      simp only [weakIn, parserIn, ih]
  | letrec names rule main ihrule ihmain =>
      simp only [weakIn, parserIn, Making.alone_letrec, ihrule, ihmain]

/-! ## Safety -/

/-- No handle failed on the way, neither for want of its definition nor because it was dropped. -/
def Run.Safe (r : Run α) : Prop :=
  r.Emits fun e => e ≠ .fault .undefined ∧ e ≠ .fault .dropped

/-- A safe run comes to its outcome, or to a rule entered again with nothing read in between. -/
theorem Run.Safe.settle {r : Run α} (h : r.Safe) {f : Fault} (hf : r.settle.2 = .error f) :
    f = .leftRecursion := by
  rcases r.stopsAt_or_records with ⟨xs, g, hstops⟩ | ⟨xs, hrecords⟩
  · rw [hstops.settle] at hf
    cases hf
    obtain ⟨rest, hevents⟩ := hstops
    have hsafe := h (.fault f) (by simp [hevents])
    cases f with
    | undefined => exact absurd rfl hsafe.1
    | dropped => exact absurd rfl hsafe.2
    | leftRecursion => rfl
  · rw [settle_of_records hrecords] at hf
    cases hf

theorem Grammar.safe_of_refersTo {ready : List String → List String} {p : Grammar ρ α}
    (hp : p.RefersTo ready fun _ => False) (c : Cursor) : (p.parser c).Safe :=
  p.emits_parserIn (fun _ => by simp) (by simp) hp (fun _ hr => hr.elim) c

/-- What runs as a closed grammar does is safe. -/
theorem Grammar.runs_safely {p : Grammar ρ α} (hp : p.RefersTo id fun _ => False) {c : Cursor}
    {r : Run α} (hr : r = p.parser c) :
    r = p.parser c ∧ r.Safe ∧ ∀ f, r.settle.2 = .error f → f = .leftRecursion := by
  have hsafe : r.Safe := hr ▸ safe_of_refersTo hp c
  exact ⟨hr, hsafe, fun f => hsafe.settle⟩

/-- **Closed grammars never fail for want of a definition.** Where rules are built one by one and
    refer to each other by handles, the parsers of a grammar whose names are all bound run as if
    names led to rules directly; no handle is applied before its definition or after that was
    dropped. The main parser of a `letrec` keeps the owners of its rules, and what `recursive` gives
    is the owner itself. The same holds of terms without free names, and of each arithmetic rule,
    with or without a limit, when the other rules have been dropped; an arithmetic rule always comes
    to its outcome. -/
theorem closed_never_fails :
    (∀ {ρ α : Type} (p : Grammar ρ α) (c : Cursor), p.RefersTo id (fun _ => False) →
      p.weak c = p.parser c ∧ (p.weak c).Safe ∧
        ∀ f, (p.weak c).settle.2 = .error f → f = .leftRecursion) ∧
    (∀ {ρ : Type} (x : String) (body : Grammar ρ ρ) (c : Cursor),
      (Grammar.recursive x body).RefersTo id (fun _ => False) →
        let owner := (Making.recursive x .empty body.weakIn).alone
        owner c = (Grammar.recursive x body).parser c ∧ (owner c).Safe ∧
          ∀ f, (owner c).settle.2 = .error f → f = .leftRecursion) ∧
    (∀ (t : Script.Term) (text : String), t.freeNames [] = [] →
      t.grammar.weak.applyText text = t.grammar.parser.applyText text ∧
        (t.grammar.weak.applyText text).Safe ∧
        ∀ f, (t.grammar.weak.applyText text).settle.2 = .error f → f = .leftRecursion) ∧
    (∀ (limit : Option Nat) (r : Arithmetic.Rule) (text : String),
      let rule := ((·.rule r) <$> Arithmetic.build limit).alone
      rule.applyText text = (Arithmetic.grammar limit r).parser.applyText text ∧
        (rule.applyText text).Safe ∧
        (rule.applyText text).settle.2 = .ok (rule.applyText text).outcome) := by
  refine ⟨fun p c hp => ?_, fun x body c hp => ?_, fun t text ht => ?_, fun limit r text => ?_⟩
  · exact Grammar.runs_safely hp (congrFun (p.weakIn_eq .empty) c)
  · refine Grammar.runs_safely hp (congrFun ?_ c)
    simp only [Making.alone_recursive, Grammar.weakIn_eq]
    exact (if_pos List.mem_cons_self).symm
  · have hp : t.grammar.RefersTo id fun _ => False :=
      Script.Term.refersTo_of_freeNames (fun _ _ hx => hx) ht
    exact Grammar.runs_safely hp (congrFun (t.grammar.weakIn_eq .empty) _)
  · have hp : (Arithmetic.grammar limit r).RefersTo id fun _ => False :=
      Arithmetic.refersTo_grammar (by decide) (by decide) limit r
    dsimp only
    rw [Arithmetic.alone_build]
    exact ⟨rfl, Grammar.safe_of_refersTo hp _, Arithmetic.settle_grammar limit r _⟩

/-- An even number of `a` and then any number of `b`. The rules for `a` refer to each other; the one
    for `b` is made while the text is read, each time the first ones have come to an end. -/
def evenThenMany : Script.Term :=
  .letrec
    [("even", .orElse (.ignoreThen (.character 'a') (.ref "odd")) (.succeed .unit)),
      ("odd", .ignoreThen (.character 'a') (.ref "even"))]
    (.bind (.ref "even")
      (.const (.recursive "x" (.orElse (.ignoreThen (.character 'b') (.ref "x")) .endOfInput))))

/-- Any number of `a`, one behind the other. -/
def runOfAs : Grammar Unit Unit :=
  .orElse (.ignoreThen (.character 'a') (.ref (.name "run"))) (.succeed ())

/-- All names of `evenThenMany` are bound, and so is that of a run of `a`. The arithmetic rule
    `factor` reads parentheses when the other rules have been dropped. -/
theorem closed_evenThenMany :
    evenThenMany.grammar.RefersTo id (fun _ => False) ∧
      (Grammar.recursive "run" runOfAs).RefersTo id (fun _ => False) ∧
      evenThenMany.freeNames [] = [] ∧
      evenThenMany.grammar.weak.applyText "aabb" = evenThenMany.grammar.parser.applyText "aabb" ∧
      (evenThenMany.grammar.weak.applyText "aabb").Safe ∧
      ((Making.recursive "run" .empty runOfAs.weakIn).alone (.ofString "aa")).Safe ∧
      (((·.rule .factor) <$> Arithmetic.build none).alone.applyText "(1)").outcome.successes
        = [⟨1, (Cursor.ofString "(1)").drop 3⟩] := by
  obtain ⟨hgrammars, hrecursive, hterms, hrules⟩ := @closed_never_fails
  have hrefers : evenThenMany.grammar.RefersTo id (fun _ => False) :=
    Script.Term.refersTo_of_freeNames (fun _ _ hx => hx) rfl
  have hinside : Ref.inside (fun _ => False) ["run"] ["run"] (.name "run") := by
    simp [Ref.inside]
  have hrun : (Grammar.recursive "run" runOfAs).RefersTo id (fun _ => False) :=
    ⟨fun _ => ⟨⟨trivial, hinside⟩, trivial⟩, hinside⟩
  refine ⟨hrefers, hrun, rfl, (hgrammars _ (.ofString "aabb") hrefers).1,
    (hterms evenThenMany "aabb" rfl).2.1, (hrecursive "run" runOfAs _ hrun).2.1, ?_⟩
  rw [(hrules none .factor "(1)").1]
  exact Arithmetic.successes_eq_read (T := .parens (.alone (.single (.digit '1' rfl))))
    (Arithmetic.Tree.isLongest_self _)

/-- Without the owner of `expr` the rule `factor` fails behind a parenthesis. A handle that is used
    while the body is still missing fails too, even if the definition is kept. -/
example :
    let unowned : Making Int (Part Int Int) := do
      let copy ← Arithmetic.build none
      return { copy.factor with keeps := [] }
    let early : Making Int (Part Int Int) := do
      let (handle, definer) ← Making.deferred
      return { handle with keeps := [definer.number] }
    (unowned.alone.applyText "(1)").events = [.fault .dropped] ∧
      (early.alone.applyText "(1)").events = [.fault .undefined] := by
  decide

end Parsing
