import Parsing.Proofs.Approximation
import Parsing.Proofs.Substitution

set_option autoImplicit false

/-! # Recursion unfolds

The rules of a `letrec` are tied by a knot, which solves their equations: a rule comes to what its
body comes to when the names stand for the rules (`Grammar.agrees_tied`). In a closed term the rules
are terms themselves, and binding names to closed terms is the same as putting these terms in their
place (`Term.parserIn_replace`). So a recursive term comes to what its body comes to with the term
itself for its name, and a `letrec` is its main parser with the owners of its definitions for their
names (`recursion_unfolds`). -/

namespace Parsing

variable {ρ α : Type}

/-! ## Runs that agree -/

namespace Run

/-- The runs come to the same. If that is an outcome they are the same run, events included. -/
structure Agrees (r q : Run α) : Prop where
  settle : r.settle.2 = q.settle.2
  eq_of_ends : ∀ o, r.settle.2 = .ok o → r = q

/-- What comes to an end is only below itself. -/
theorem Below.eq_of_ends {r q : Run α} (h : r.Below q) {o : Outcome α}
    (hends : r.settle.2 = .ok o) : r = q := by
  cases h with
  | hangs hr => simp [hr.settle] at hends
  | stops hr _ => simp [hr.settle] at hends
  | same => rfl

theorem Below.agrees {r q : Run α} (h : r.Below q) (h' : q.Below r) : r.Agrees q :=
  ⟨h.settle_eq h', fun _ hends => h.eq_of_ends hends⟩

end Run

/-! ## The rules of a grammar -/

namespace Grammar

/-- The rules of a `letrec`, tied to each other. -/
def tied (env : Env ρ) (names : List String) (rule : String → Grammar ρ ρ) : String → Parser ρ :=
  .knot names fun self x => (rule x).parserIn (env.extend names self)

/-- **A rule comes to what its body comes to** with the rules for the names. -/
theorem agrees_tied {ready : List String → List String} {S : Ref → Prop} {env : Env ρ}
    {names : List String} {rule : String → Grammar ρ ρ} (hadvances : ∀ r, (env r).Advances)
    (hrule : ∀ x, (rule x).RefersTo ready (Ref.inside S names (ready names))) (x : String)
    (c : Cursor) :
    (tied env names rule x c).Agrees
      ((rule x).parserIn (env.extend names (tied env names rule)) c) := by
  have hbodies : ∀ self : String → Parser ρ, (∀ x, (self x).Advances) →
      ∀ x, ((rule x).parserIn (env.extend names self)).Advances :=
    fun self hself x => (rule x).advances_parserIn (advances_extend hadvances hself)
  have hmonotone : ∀ start, Parser.Monotone start names
      (fun self x => (rule x).parserIn (env.extend names self))
      fun self x => (rule x).parserIn (env.extend names self) := by
    intro start self self' hself hbelow x
    exact below_parserIn (rule x) (hrule x) (advances_extend hadvances hself)
      (below_extend (fun _ _ => Parser.below_refl _) hbelow)
  exact (Parser.knot_below hbodies hmonotone x c).agrees
    (Parser.below_knot_self hbodies hmonotone x c)

end Grammar

/-! ## Terms -/

namespace Script

open Grammar

variable {x : String} {body main : Term} {definitions : List (String × Term)}

/-- The definition of `y`, with all that it refers to. -/
def Term.owner (definitions : List (String × Term)) (y : String) : Term :=
  .letrec definitions (.ref y)

theorem Term.grammar_recursive (x : String) (body : Term) :
    (Term.recursive x body).grammar = .recursive x body.grammar :=
  congrArg (Grammar.recursive x) (body.grammarIn_named [x])

theorem Term.parser_recursive (x : String) (body : Term) :
    (Term.recursive x body).grammar.parser = tied .empty [x] (fun _ => body.grammar) x := by
  rw [Term.grammar_recursive]
  exact if_pos List.mem_cons_self

/-- The rule for the name `y` among definitions. -/
def ruleOf (definitions : List (String × Term)) (y : String) : Rules :=
  lookupLast (definitionGrammars named [] definitions) y

theorem ruleOf_eq (h : definitions.reverse.lookup x = some body) :
    ruleOf definitions x = body.grammar := by
  have hmap : ∀ ds : List (String × Term),
      definitionGrammars named [] ds = ds.map fun d => (d.1, d.2.grammar) := by
    intro ds
    induction ds with
    | nil => rfl
    | cons d ds ih =>
        rw [definitionGrammars, ih]
        rfl
  rw [ruleOf, lookupLast, hmap, ← List.map_reverse, lookup_map_snd, h]
  rfl

theorem Term.grammar_letrec (definitions : List (String × Term)) (main : Term) :
    (Term.letrec definitions main).grammar
      = .letrec (definitions.map Prod.fst) (ruleOf definitions) main.grammar := by
  have hdefinitions := definitionGrammars_named (definitions.map Prod.fst ++ []) definitions
  have hmain := main.grammarIn_named (definitions.map Prod.fst ++ [])
  show Term.grammarIn named [] _ = _
  simp only [Term.grammarIn, hdefinitions, hmain]
  rfl

theorem Term.parser_owner {y : String} (hy : y ∈ definitions.map Prod.fst) :
    (Term.owner definitions y).grammar.parser
      = tied .empty (definitions.map Prod.fst) (ruleOf definitions) y := by
  rw [Term.owner, Term.grammar_letrec]
  exact if_pos hy

/-- Owners are closed if the definitions are. -/
theorem Term.freeNames_owner (h : (Term.letrec definitions main).freeNames [] = []) {y : String}
    (hy : y ∈ definitions.map Prod.fst) : (Term.owner definitions y).freeNames [] = [] := by
  simp only [Term.freeNames, List.append_nil, List.append_eq_nil_iff] at h
  simp only [Term.owner, Term.freeNames, List.append_nil, h.1, if_pos hy]

theorem Term.parser_replace {owner : String → Term} {names : List String}
    (h : ∀ x ∈ names, (owner x).freeNames [] = []) (t : Term) :
    (t.replace owner names).grammar.parser
      = t.grammar.parserIn (Env.empty.extend names (owned owner)) :=
  t.parserIn_replace h [] .empty

/-- A recursive term comes to its body with the term itself for its name. -/
theorem Term.agrees_recursive (h : (Term.recursive x body).freeNames [] = []) (c : Cursor) :
    ((Term.recursive x body).grammar.parser c).Agrees
      ((body.replace (fun _ => .recursive x body) [x]).grammar.parser c) := by
  have hrefers : (Term.recursive x body).grammar.RefersTo id fun _ => False :=
    Term.refersTo_of_freeNames (fun _ _ hy => hy) h
  rw [Term.grammar_recursive] at hrefers
  -- There is only one name, so the rule for it may be taken for all rules.
  have hextend : Env.empty.extend [x] (tied .empty [x] fun _ => body.grammar)
      = Env.empty.extend [x] (owned fun _ => .recursive x body) := by
    refine Env.extend_congr .empty fun y hy => ?_
    rw [List.mem_singleton.1 hy]
    exact (Term.parser_recursive x body).symm
  rw [Term.parser_replace fun _ _ => h, ← hextend, Term.parser_recursive]
  exact agrees_tied advances_empty hrefers.1 x c

/-- Binding the names of definitions to their rules is binding them to their owners. -/
theorem extend_owned (env : Grammar.Env Value) (definitions : List (String × Term)) :
    env.extend (definitions.map Prod.fst) (owned (Term.owner definitions))
      = env.extend (definitions.map Prod.fst)
          (tied .empty (definitions.map Prod.fst) (ruleOf definitions)) :=
  Env.extend_congr env fun _ hy => Term.parser_owner hy

theorem Term.parser_letrec (h : (Term.letrec definitions main).freeNames [] = []) :
    (Term.letrec definitions main).grammar.parser
      = (main.replace (.owner definitions) (definitions.map Prod.fst)).grammar.parser := by
  rw [Term.parser_replace (fun _ hy => Term.freeNames_owner h hy), extend_owned,
    Term.grammar_letrec]
  rfl

/-- An owner comes to its definition with the owners for the names. -/
theorem Term.agrees_owner (h : (Term.letrec definitions main).freeNames [] = [])
    (hbody : definitions.reverse.lookup x = some body) (c : Cursor) :
    ((Term.owner definitions x).grammar.parser c).Agrees
      ((body.replace (.owner definitions) (definitions.map Prod.fst)).grammar.parser c) := by
  have hrefers : (Term.letrec definitions main).grammar.RefersTo id fun _ => False :=
    Term.refersTo_of_freeNames (fun _ _ hy => hy) h
  rw [Term.grammar_letrec] at hrefers
  have hx : x ∈ definitions.map Prod.fst := by
    obtain ⟨l, r, heq, -⟩ := List.lookup_eq_some_iff.1 hbody
    have hmem : (x, body) ∈ definitions.reverse := by simp [heq]
    exact List.mem_map.2 ⟨(x, body), List.mem_reverse.1 hmem, rfl⟩
  rw [Term.parser_replace fun _ hy => Term.freeNames_owner h hy, extend_owned,
    Term.parser_owner hx, ← ruleOf_eq hbody]
  exact agrees_tied advances_empty hrefers.1 x c

end Script

/-- **Recursion unfolds.** A closed recursive term and its body with the term itself in the place of
    its name come to the same. So do the owner of a definition and that definition with the owners
    in the place of the names. A closed `letrec` is its main parser with the owners in the place of
    the names. Names that are bound again inside are left alone. -/
theorem recursion_unfolds :
    (∀ (x : String) (body : Script.Term), (Script.Term.recursive x body).freeNames [] = [] → ∀ c,
      ((Script.Term.recursive x body).grammar.parser c).Agrees
        ((body.replace (fun _ => .recursive x body) [x]).grammar.parser c)) ∧
    (∀ (definitions : List (String × Script.Term)) (main : Script.Term),
      (Script.Term.letrec definitions main).freeNames [] = [] →
      let names := definitions.map Prod.fst
      (Script.Term.letrec definitions main).grammar.parser
          = (main.replace (.owner definitions) names).grammar.parser ∧
        ∀ x body, definitions.reverse.lookup x = some body → ∀ c,
          ((Script.Term.owner definitions x).grammar.parser c).Agrees
            ((body.replace (.owner definitions) names).grammar.parser c)) :=
  ⟨fun _ _ h c => Script.Term.agrees_recursive h c, fun _ _ h =>
    ⟨Script.Term.parser_letrec h, fun _ _ hbody c => Script.Term.agrees_owner h hbody c⟩⟩

/-- A dot in round brackets, or `a`s in square brackets. The name of the whole stands for the tail
    of the `a`s inside the square ones. -/
def dottedBody : Script.Term :=
  .orElse
    (.bind (.oneOf "([") (.when (.char '(') (.thenIgnore (.ref "x") (.character ')'))
      (.recursive "x" (.orElse (.ignoreThen (.character 'a') (.ref "x")) (.character ']')))))
    (.character '.')

/-- The same with round brackets in each other. -/
def dotted : Script.Term := .recursive "x" dottedBody

/-- An even number of `a`, and an odd one. -/
def evenOdd : List (String × Script.Term) :=
  [("even", .orElse (.ignoreThen (.character 'a') (.ref "odd")) .endOfInput),
    ("odd", .ignoreThen (.character 'a') (.ref "even"))]

/-- What stands in round brackets is replaced, what stands in square ones is not. A dot alone is
    read, and the run ends. An even number under another name is the owner of that definition. -/
theorem recursion_unfolds_dotted :
    (dotted.freeNames [] = [] ∧
      dottedBody.replace (fun _ => dotted) ["x"]
        = .orElse
            (.bind (.oneOf "([") (.when (.char '(') (.thenIgnore dotted (.character ')'))
              (.recursive "x" (.orElse (.ignoreThen (.character 'a') (.ref "x")) (.character ']')))))
            (.character '.') ∧
      (dotted.grammar.parser (.ofString "([aa])")).Agrees
        ((dottedBody.replace (fun _ => dotted) ["x"]).grammar.parser (.ofString "([aa])")) ∧
      (dotted.grammar.parser (.ofString ".")).settle.2
        = .ok ⟨[⟨.char '.', (Cursor.ofString ".").drop 1⟩],
          some (.missing (.ofString ".") "one of \"([\"")⟩) ∧
    ((Script.Term.letrec evenOdd (.label "aa" (.ref "even"))).freeNames [] = [] ∧
      (Script.Term.letrec evenOdd (.label "aa" (.ref "even"))).grammar.parser
        = (Script.Term.label "aa" (.owner evenOdd "even")).grammar.parser ∧
      ((Script.Term.owner evenOdd "odd").grammar.parser (.ofString "aaa")).Agrees
        ((Script.Term.ignoreThen (.character 'a') (.owner evenOdd "even")).grammar.parser
          (.ofString "aaa"))) := by
  obtain ⟨hrecursive, hletrec⟩ := recursion_unfolds
  have hclosed : (Script.Term.letrec evenOdd (.label "aa" (.ref "even"))).freeNames [] = [] := by
    decide
  obtain ⟨hmain, howner⟩ := hletrec evenOdd (.label "aa" (.ref "even")) hclosed
  refine ⟨⟨by decide, rfl, hrecursive "x" dottedBody (by decide) _, ?_⟩, hclosed, hmain,
    howner "odd" _ rfl _⟩
  exact (hrecursive "x" dottedBody (by decide) (.ofString ".")).settle.trans rfl

end Parsing
