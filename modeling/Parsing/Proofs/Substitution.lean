import Parsing.Proofs.TermReferences

set_option autoImplicit false

/-! # Replacing names in terms

`t.replace owner names` is the term `t` with the term `owner x` in the place of each reference to
one of the names `x`. A name that is bound again inside `t` stands for what it is bound to there and
is left alone.

Closed terms mean the same everywhere, so replacing names by closed terms is the same as binding
them to the parsers of these terms (`Term.parserIn_replace`). No name of a closed term can be
captured by a binder of `t`. -/

namespace Parsing

variable {ρ : Type}

/-! ## Binding names -/

namespace Grammar

/-- What names were bound to does not count where they are bound again. -/
theorem Env.extend_extend (env : Env ρ) (names inner : List String)
    (rule rule' : String → Parser ρ) :
    (env.extend inner rule').extend (names.filter (· ∉ inner)) rule
      = (env.extend names rule).extend inner rule' := by
  funext r
  cases r with
  | name x =>
      by_cases hinner : x ∈ inner
      · simp [extend, hinner]
      · simp [extend, hinner]
  | handle d => rfl
  | owner d => rfl

end Grammar

namespace Script

open Grammar

/-- What a name stands for by itself. -/
def named (x : String) : Rules := .ref (.name x)

/-! ## Closed terms -/

/-- A closed term means the same whatever references mean. -/
theorem Term.parserIn_of_freeNames {t : Term} (h : t.freeNames [] = []) (env : Grammar.Env Value) :
    t.grammar.parserIn env = t.grammar.parser := by
  have hrefers : t.grammar.RefersTo id fun _ => False :=
    Term.refersTo_of_freeNames (fun _ _ hx => hx) h
  exact parserIn_congr t.grammar hrefers fun _ hr => hr.elim

mutual

/-- Where names stand for themselves, it does not matter which of them are bound. -/
theorem Term.grammarIn_named (bound : List String) (t : Term) :
    t.grammarIn named bound = t.grammarIn named [] := by
  cases t with
  | ref x =>
      simp only [Term.grammarIn, named]
      split <;> rfl
  | bind p next =>
      have hp := p.grammarIn_named bound
      have hnext := next.grammarIn_named bound
      simp only [Term.grammarIn, hp, hnext]
  | map _ p | many p | many1 p | optional p | label _ p | note _ p | look p =>
      have hp := p.grammarIn_named bound
      simp only [Term.grammarIn, hp]
  | orElse p q | pair p q | thenIgnore p q | ignoreThen p q | sepBy p q | chainl1 p q _ =>
      have hp := p.grammarIn_named bound
      have hq := q.grammarIn_named bound
      simp only [Term.grammarIn, hp, hq]
  | recursive x body =>
      have hbody := body.grammarIn_named (x :: bound)
      have hbody' := body.grammarIn_named [x]
      simp only [Term.grammarIn, hbody, hbody']
  | letrec definitions main =>
      have hmain := fun names => main.grammarIn_named (names ++ bound)
      have hmain' := fun names => main.grammarIn_named (names ++ [])
      have hdefinitions := fun names => definitionGrammars_named (names ++ bound) definitions
      have hdefinitions' := fun names => definitionGrammars_named (names ++ []) definitions
      simp only [Term.grammarIn, hmain, hmain', hdefinitions, hdefinitions']
  | unionAll ps =>
      have hps := termGrammars_named bound ps
      simp only [Term.grammarIn, hps]
  | _ => rfl

theorem Continuation.grammarIn_named (bound : List String) (k : Continuation) :
    k.grammarIn named bound = k.grammarIn named [] := by
  funext x
  cases k with
  | const p =>
      have hp := p.grammarIn_named bound
      simp only [Continuation.grammarIn, hp]
  | count p =>
      have hp := p.grammarIn_named bound
      simp only [Continuation.grammarIn, hp]
  | select ps =>
      have hps := termGrammars_named bound ps
      simp only [Continuation.grammarIn, hps]
  | when eq p q =>
      have hp := p.grammarIn_named bound
      have hq := q.grammarIn_named bound
      simp only [Continuation.grammarIn, hp, hq]
  | fold f p =>
      have hp := p.grammarIn_named bound
      simp only [Continuation.grammarIn, hp]
  | _ => rfl

theorem termGrammars_named (bound : List String) (ps : List Term) :
    termGrammars named bound ps = termGrammars named [] ps := by
  cases ps with
  | nil => rfl
  | cons p ps =>
      have hp := p.grammarIn_named bound
      have hps := termGrammars_named bound ps
      simp only [termGrammars, hp, hps]

theorem definitionGrammars_named (bound : List String) (ds : List (String × Term)) :
    definitionGrammars named bound ds = definitionGrammars named [] ds := by
  cases ds with
  | nil => rfl
  | cons d ds =>
      obtain ⟨x, p⟩ := d
      have hp := p.grammarIn_named bound
      have hds := definitionGrammars_named bound ds
      simp only [definitionGrammars, hp, hds]

end

/-! ## Replacing names -/

mutual

/-- The term with `owner x` in the place of each reference to one of the names `x`, where it is not
    bound again. -/
def Term.replace (owner : String → Term) (names : List String) : Term → Term
  | .bind p next => .bind (p.replace owner names) (next.replace owner names)
  | .map change p => .map change (p.replace owner names)
  | .orElse p q => .orElse (p.replace owner names) (q.replace owner names)
  | .many p => .many (p.replace owner names)
  | .many1 p => .many1 (p.replace owner names)
  | .pair p q => .pair (p.replace owner names) (q.replace owner names)
  | .thenIgnore p q => .thenIgnore (p.replace owner names) (q.replace owner names)
  | .ignoreThen p q => .ignoreThen (p.replace owner names) (q.replace owner names)
  | .optional p => .optional (p.replace owner names)
  | .sepBy p separator => .sepBy (p.replace owner names) (separator.replace owner names)
  | .chainl1 item op fold => .chainl1 (item.replace owner names) (op.replace owner names) fold
  | .label name p => .label name (p.replace owner names)
  | .ref x => if x ∈ names then owner x else .ref x
  | .recursive x body => .recursive x (body.replace owner (names.filter (· ∉ [x])))
  | .letrec definitions main =>
    let others := names.filter (· ∉ definitions.map Prod.fst)
    .letrec (replaceInDefinitions owner others definitions) (main.replace owner others)
  | .unionAll ps => .unionAll (replaceInTerms owner names ps)
  | .note expected p => .note expected (p.replace owner names)
  | .look p => .look (p.replace owner names)
  | t => t

/-- The continuation with names replaced in its parsers. -/
def Continuation.replace (owner : String → Term) (names : List String) :
    Continuation → Continuation
  | .const p => .const (p.replace owner names)
  | .count p => .count (p.replace owner names)
  | .select ps => .select (replaceInTerms owner names ps)
  | .when eq p q => .when eq (p.replace owner names) (q.replace owner names)
  | .fold f p => .fold f (p.replace owner names)
  | k => k

/-- A list of terms with names replaced in each. -/
def replaceInTerms (owner : String → Term) (names : List String) : List Term → List Term
  | [] => []
  | p :: ps => p.replace owner names :: replaceInTerms owner names ps

/-- A list of definitions with names replaced in each body. -/
def replaceInDefinitions (owner : String → Term) (names : List String) :
    List (String × Term) → List (String × Term)
  | [] => []
  | (x, p) :: ds => (x, p.replace owner names) :: replaceInDefinitions owner names ds

end

theorem fst_replaceInDefinitions (owner : String → Term) (names : List String)
    (ds : List (String × Term)) :
    (replaceInDefinitions owner names ds).map Prod.fst = ds.map Prod.fst := by
  induction ds with
  | nil => rfl
  | cons d ds ih =>
      obtain ⟨x, p⟩ := d
      rw [replaceInDefinitions, List.map_cons, List.map_cons, ih]

/-! ### Choices by their parsers -/

section Choices

variable {env env' : Grammar.Env Value}

theorem parserIn_times {p p' : Rules} (h : p.parserIn env = p'.parserIn env') (n : Nat) :
    (times p n).parserIn env = (times p' n).parserIn env' := by
  induction n with
  | zero => rfl
  | succ n ih => simp only [times, Grammar.parserIn, parserIn_pair, ih, h]

theorem parserIn_chosen {ps ps' : List Rules}
    (h : ps.map (·.parserIn env) = ps'.map (·.parserIn env')) (x : Value) :
    (chosen ps x).parserIn env = (chosen ps' x).parserIn env' := by
  have hlength : ps.length = ps'.length := by simpa using congrArg List.length h
  have hget : (ps[(x.toNumber % (ps.length : Int)).toNat]?).map (·.parserIn env)
      = (ps'[(x.toNumber % (ps.length : Int)).toNat]?).map (·.parserIn env') := by
    rw [← List.getElem?_map, ← List.getElem?_map, h]
  rw [chosen, chosen, ← hlength]
  revert hget
  cases ps[(x.toNumber % (ps.length : Int)).toNat]? <;>
    cases ps'[(x.toNumber % (ps.length : Int)).toNat]? <;> simp [Grammar.parserIn]

theorem parserIn_unionAll {ps ps' : List Rules}
    (h : ps.map (·.parserIn env) = ps'.map (·.parserIn env')) :
    (Grammar.unionAll ps).parserIn env = (Grammar.unionAll ps').parserIn env' := by
  have hfold : ∀ (ps : List Rules) (env : Grammar.Env Value), (Grammar.unionAll ps).parserIn env
      = (ps.map (·.parserIn env)).foldr Parser.union Parser.never := by
    intro ps env
    induction ps with
    | nil => rfl
    | cons p ps ih => simp only [Grammar.unionAll, Grammar.parserIn, List.map_cons, List.foldr, ih]
  rw [hfold, hfold, h]

theorem parserIn_lookupLast {rules rules' : List (String × Rules)}
    (h : rules.map (fun r => (r.1, r.2.parserIn env))
      = rules'.map fun r => (r.1, r.2.parserIn env')) (x : String) :
    (lookupLast rules x).parserIn env = (lookupLast rules' x).parserIn env' := by
  have hlookup : (rules.reverse.lookup x).map (·.parserIn env)
      = (rules'.reverse.lookup x).map (·.parserIn env') := by
    rw [← lookup_map_snd, ← lookup_map_snd, List.map_reverse, List.map_reverse, h]
  rw [lookupLast, lookupLast]
  revert hlookup
  cases rules.reverse.lookup x <;> cases rules'.reverse.lookup x <;> simp [Grammar.parserIn]

end Choices

/-! ### Replacing is binding -/

/-- What the names are bound to when their owners are put in. -/
def owned (owner : String → Term) (x : String) : Parser Value := (owner x).grammar.parser

section

variable {owner : String → Term}

theorem closed_filter {names : List String} (h : ∀ x ∈ names, (owner x).freeNames [] = [])
    (inner : List String) :
    ∀ x ∈ names.filter (· ∉ inner), (owner x).freeNames [] = [] :=
  fun x hx => h x (List.mem_filter.1 hx).1

mutual

/-- **Replacing names is binding them.** Closed terms put in the place of names are what the names
    are bound to, under bindings of other names and of the same. -/
theorem Term.parserIn_replace {names : List String}
    (h : ∀ x ∈ names, (owner x).freeNames [] = []) (bound : List String) (env : Grammar.Env Value)
    (t : Term) :
    ((t.replace owner names).grammarIn named bound).parserIn env
      = (t.grammarIn named bound).parserIn (env.extend names (owned owner)) := by
  cases t with
  | ref x =>
      rw [(Term.ref x).grammarIn_named, Term.grammarIn_named, Term.replace]
      by_cases hx : x ∈ names
      · rw [if_pos hx]
        refine (Term.parserIn_of_freeNames (h x hx) env).trans ?_
        exact (if_pos hx).symm
      · rw [if_neg hx]
        exact (if_neg hx).symm
  | bind p next =>
      have hp := p.parserIn_replace h bound env
      have hnext := fun x => next.parserIn_replace h bound env x
      simp only [Term.replace, Term.grammarIn, Grammar.parserIn, hp, hnext]
  | map _ p | many p | many1 p | optional p | label _ p | note _ p | look p =>
      have hp := p.parserIn_replace h bound env
      simp only [Term.replace, Term.grammarIn, Grammar.parserIn, parserIn_optional, hp]
  | orElse p q | pair p q | thenIgnore p q | ignoreThen p q | sepBy p q | chainl1 p q _ =>
      have hp := p.parserIn_replace h bound env
      have hq := q.parserIn_replace h bound env
      simp only [Term.replace, Term.grammarIn, Grammar.thenIgnore, Grammar.ignoreThen,
        Grammar.parserIn, parserIn_pair, parserIn_sepBy, parserIn_chainl1, hp, hq]
  | recursive x body =>
      have hbody := fun self => body.parserIn_replace (closed_filter h [x]) (x :: bound)
        (env.extend [x] self)
      simp only [Term.replace, Term.grammarIn, Grammar.recursive, Grammar.parserIn, hbody,
        Env.extend_extend]
      simp [Env.extend]
  | letrec definitions main =>
      have hmain := fun self => main.parserIn_replace (closed_filter h (definitions.map Prod.fst))
        (definitions.map Prod.fst ++ bound) (env.extend (definitions.map Prod.fst) self)
      have hdefinitions := fun self => parserIn_lookupLast (parserIn_replaceInDefinitions
        (closed_filter h (definitions.map Prod.fst)) (definitions.map Prod.fst ++ bound)
        (env.extend (definitions.map Prod.fst) self) definitions)
      simp only [Term.replace, Term.grammarIn, Grammar.parserIn, fst_replaceInDefinitions, hmain,
        hdefinitions, Env.extend_extend]
  | unionAll ps => exact parserIn_unionAll (parserIn_replaceInTerms h bound env ps)
  | _ => rfl

theorem Continuation.parserIn_replace {names : List String}
    (h : ∀ x ∈ names, (owner x).freeNames [] = []) (bound : List String) (env : Grammar.Env Value)
    (k : Continuation) (x : Value) :
    ((k.replace owner names).grammarIn named bound x).parserIn env
      = (k.grammarIn named bound x).parserIn (env.extend names (owned owner)) := by
  cases k with
  | const p => exact p.parserIn_replace h bound env
  | count p => exact parserIn_times (p.parserIn_replace h bound env) (repetitions x)
  | select ps => exact parserIn_chosen (parserIn_replaceInTerms h bound env ps) x
  | when eq p q =>
      have hp := p.parserIn_replace h bound env
      have hq := q.parserIn_replace h bound env
      simp only [Continuation.replace, Continuation.grammarIn]
      split
      · exact hp
      · exact hq
  | fold f p =>
      have hp := p.parserIn_replace h bound env
      simp only [Continuation.replace, Continuation.grammarIn, Grammar.parserIn, hp]
  | _ => rfl

theorem parserIn_replaceInTerms {names : List String}
    (h : ∀ x ∈ names, (owner x).freeNames [] = []) (bound : List String) (env : Grammar.Env Value)
    (ps : List Term) :
    (termGrammars named bound (replaceInTerms owner names ps)).map (·.parserIn env)
      = (termGrammars named bound ps).map (·.parserIn (env.extend names (owned owner))) := by
  cases ps with
  | nil => rfl
  | cons p ps =>
      have hp := p.parserIn_replace h bound env
      have hps := parserIn_replaceInTerms h bound env ps
      simp only [replaceInTerms, termGrammars, List.map_cons, hp, hps]

theorem parserIn_replaceInDefinitions {names : List String}
    (h : ∀ x ∈ names, (owner x).freeNames [] = []) (bound : List String) (env : Grammar.Env Value)
    (ds : List (String × Term)) :
    (definitionGrammars named bound (replaceInDefinitions owner names ds)).map
        (fun d => (d.1, d.2.parserIn env))
      = (definitionGrammars named bound ds).map
        fun d => (d.1, d.2.parserIn (env.extend names (owned owner))) := by
  cases ds with
  | nil => rfl
  | cons d ds =>
      obtain ⟨x, p⟩ := d
      have hp := p.parserIn_replace h bound env
      have hds := parserIn_replaceInDefinitions h bound env ds
      simp only [replaceInDefinitions, definitionGrammars, List.map_cons, hp, hds]

end

end

end Script

end Parsing
