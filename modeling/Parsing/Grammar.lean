import Parsing.Parser.Knot
import Parsing.Parser.Repeat

set_option autoImplicit false

/-! # Grammars

A grammar describes a parser: what it is put together from, and the names by which its rules refer
to each other. `Grammar.parser` gives the parser that it describes. `Grammar ρ α` is a grammar for
values of type `α` whose names stand for parsers of values of type `ρ`.

What is said about all parsers that can be described is shown by induction on grammars; their
continuations after `bind` are arbitrary functions. -/

namespace Parsing

/-- What a grammar refers to. -/
inductive Ref where
  /-- A rule of an enclosing `letrec`. -/
  | name (x : String)
  /-- A definition that others keep alive. -/
  | handle (d : Nat)
  /-- A definition that this reference keeps alive. -/
  | owner (d : Nat)
  deriving DecidableEq, Repr

/-- The description of a parser of values of type `α`, where references stand for parsers of
    values of type `ρ`. -/
inductive Grammar : Type → Type → Type 1 where
  | succeed {ρ α : Type} (value : α) : Grammar ρ α
  | fail {ρ α : Type} (expected : String) : Grammar ρ α
  | never {ρ α : Type} : Grammar ρ α
  | charWhere {ρ : Type} (test : Char → Bool) (expected : String) : Grammar ρ Char
  | literal {ρ : Type} (text : String) : Grammar ρ String
  | endOfInput {ρ : Type} : Grammar ρ Unit
  | record {ρ : Type} (records : List Record) : Grammar ρ Unit
  | bind {ρ α β : Type} (p : Grammar ρ α) (f : α → Grammar ρ β) : Grammar ρ β
  | map {ρ α β : Type} (f : α → β) (p : Grammar ρ α) : Grammar ρ β
  | orElse {ρ α : Type} (p q : Grammar ρ α) : Grammar ρ α
  | sequence {ρ α β γ : Type} (join : α → β → γ) (p : Grammar ρ α) (q : Grammar ρ β) : Grammar ρ γ
  | union {ρ α : Type} (p q : Grammar ρ α) : Grammar ρ α
  | many {ρ α : Type} (p : Grammar ρ α) : Grammar ρ (List α)
  | many1 {ρ α : Type} (p : Grammar ρ α) : Grammar ρ (List α)
  | label {ρ α : Type} (name : String) (p : Grammar ρ α) : Grammar ρ α
  | note {ρ α : Type} (expected : String) (p : Grammar ρ α) : Grammar ρ α
  | look {ρ α : Type} (p : Grammar ρ α) : Grammar ρ α
  /-- The parser that a reference stands for. -/
  | ref {ρ : Type} (r : Ref) : Grammar ρ ρ
  /-- `main`, with `names` bound to the rules `rule`, which may refer to each other. -/
  | letrec {ρ α : Type} (names : List String) (rule : String → Grammar ρ ρ) (main : Grammar ρ α) :
      Grammar ρ α
  /-- A grammar that refers to nothing outside. -/
  | closed {ρ σ α : Type} (p : Grammar σ α) : Grammar ρ α

namespace Grammar

variable {ρ σ α β γ : Type}

/-! ## The parser that a grammar describes -/

/-- The meaning of references. -/
abbrev Env (ρ : Type) := Ref → Parser ρ

/-- Nothing is defined: whatever a reference stood for is gone. -/
def Env.empty : Env ρ := fun _ _ => .faulty .dropped

/-- The names given stand for what `rule` says, and all other references for what they stood for. -/
def Env.extend (env : Env ρ) (names : List String) (rule : String → Parser ρ) : Env ρ
  | .name x => if x ∈ names then rule x else env (.name x)
  | r => env r

/-- The parser that a grammar describes, where `env` gives the meaning of references. -/
def parserIn : {ρ α : Type} → Grammar ρ α → Env ρ → Parser α
  | _, _, .succeed v, _ => .succeed v
  | _, _, .fail expected, _ => .fail expected
  | _, _, .never, _ => .never
  | _, _, .charWhere test expected, _ => .charWhere test expected
  | _, _, .literal text, _ => .literal text
  | _, _, .endOfInput, _ => .endOfInput
  | _, _, .record records, _ => .record records
  | _, _, .bind p f, env => .bind (p.parserIn env) fun a => (f a).parserIn env
  | _, _, .map f p, env => .map f (p.parserIn env)
  | _, _, .orElse p q, env => .orElse (p.parserIn env) (q.parserIn env)
  | _, _, .sequence join p q, env => .sequence join (p.parserIn env) (q.parserIn env)
  | _, _, .union p q, env => .union (p.parserIn env) (q.parserIn env)
  | _, _, .many p, env => .many (p.parserIn env)
  | _, _, .many1 p, env => .many1 (p.parserIn env)
  | _, _, .label name p, env => .label name (p.parserIn env)
  | _, _, .note expected p, env => .note expected (p.parserIn env)
  | _, _, .look p, env => .look (p.parserIn env)
  | _, _, .ref r, env => env r
  | _, _, .letrec names rule main, env =>
    main.parserIn (env.extend names
      (.knot names fun self x => (rule x).parserIn (env.extend names self)))
  | _, _, .closed p, _ => p.parserIn .empty

/-- The parser that a grammar describes by itself. -/
def parser (p : Grammar ρ α) : Parser α := p.parserIn .empty

/-! ## Derived forms -/

/-- Reads a character that passes the test. -/
def satisfy (test : Char → Bool) : Grammar ρ Char := charWhere test "matching character"

/-- Reads the character `x`. -/
def character (x : Char) : Grammar ρ Char := charWhere (· == x) (Quoted.char x)

/-- Reads an ASCII digit. -/
def digit : Grammar ρ Char := charWhere Char.isDigit "digit"

/-- Reads an ASCII digit as a number. -/
def decimalDigit : Grammar ρ Nat := map Parser.digitValue digit

/-- Reads any character. -/
def anyChar : Grammar ρ Char := charWhere (fun _ => true) "any character"

/-- Reads one of the characters of `choices`. -/
def oneOf (choices : String) : Grammar ρ Char :=
  charWhere choices.toList.contains ("one of " ++ Quoted.string choices)

/-- `p` and then `q`, with both values. -/
def pair (p : Grammar ρ α) (q : Grammar ρ β) : Grammar ρ (α × β) := sequence Prod.mk p q

/-- `p` and then `q`, with the value of `p`. -/
def thenIgnore (p : Grammar ρ α) (q : Grammar ρ β) : Grammar ρ α := sequence (fun a _ => a) p q

/-- `p` and then `q`, with the value of `q`. -/
def ignoreThen (p : Grammar ρ α) (q : Grammar ρ β) : Grammar ρ β := sequence (fun _ b => b) p q

/-- `p` if it succeeds, and otherwise nothing. -/
def optional (p : Grammar ρ α) : Grammar ρ (Option α) := orElse (map some p) (succeed none)

/-- Any number of `p`, with `separator` between two of them. -/
def sepBy (p : Grammar ρ α) (separator : Grammar ρ β) : Grammar ρ (List α) :=
  orElse (sequence List.cons p (many (ignoreThen separator p))) (succeed [])

/-- One or more `item` with `op` between two of them, folded from the left. -/
def chainl1 (item : Grammar ρ α) (op : Grammar ρ β) (fold : α → β → α → α) : Grammar ρ α :=
  map (fun read => read.2.foldl (fun left step => fold left step.1 step.2) read.1)
    (pair item (many (pair op item)))

/-- The successes of every grammar in the list, in order. -/
def unionAll : List (Grammar ρ α) → Grammar ρ α
  | [] => never
  | p :: ps => union p (unionAll ps)

/-- `body` with `x` bound to itself. -/
def recursive (x : String) (body : Grammar ρ ρ) : Grammar ρ ρ :=
  letrec [x] (fun _ => body) (ref (.name x))

/-! ## Derived forms describe derived parsers -/

@[simp] theorem parserIn_decimalDigit (env : Env ρ) :
    (decimalDigit : Grammar ρ Nat).parserIn env = .decimalDigit := rfl

@[simp] theorem parserIn_pair (p : Grammar ρ α) (q : Grammar ρ β) (env : Env ρ) :
    (pair p q).parserIn env = .pair (p.parserIn env) (q.parserIn env) := rfl

@[simp] theorem parserIn_optional (p : Grammar ρ α) (env : Env ρ) :
    (optional p).parserIn env = .optional (p.parserIn env) := rfl

@[simp] theorem parserIn_sepBy (p : Grammar ρ α) (q : Grammar ρ β) (env : Env ρ) :
    (sepBy p q).parserIn env = .sepBy (p.parserIn env) (q.parserIn env) := rfl

@[simp] theorem parserIn_chainl1 (p : Grammar ρ α) (q : Grammar ρ β) (fold : α → β → α → α)
    (env : Env ρ) :
    (chainl1 p q fold).parserIn env = .chainl1 (p.parserIn env) (q.parserIn env) fold := rfl

end Grammar

end Parsing
