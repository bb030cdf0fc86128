import Parsing.Arithmetic.Evaluator
import Parsing.Script.Operation

set_option autoImplicit false

/-! # Terms of the script language

A term is a parser written down as data: names stand for the operations, and a continuation for the
function after `bind`. `Term.grammarIn` is the grammar that a term describes, and `Term.records`
what is logged when it is built. -/

namespace Parsing.Script

mutual

/-- A scripted parser. -/
inductive Term where
  | succeed (value : Value)
  | fail (label : String)
  | satisfy (test : CharTest)
  | character (c : Char)
  | digit
  | decimalDigit
  | anyChar
  | endOfInput
  | oneOf (choices : String)
  | literal (text : String)
  | bind (p : Term) (next : Continuation)
  | map (change : Change) (p : Term)
  | orElse (p q : Term)
  | many (p : Term)
  | many1 (p : Term)
  | pair (p q : Term)
  | thenIgnore (p q : Term)
  | ignoreThen (p q : Term)
  | optional (p : Term)
  | sepBy (p separator : Term)
  | chainl1 (item op : Term) (fold : Fold)
  | label (name : String) (p : Term)
  | ref (x : String)
  | recursive (x : String) (body : Term)
  | letrec (definitions : List (String × Term)) (main : Term)
  | never
  | unionAll (ps : List Term)
  | note (label : String) (p : Term)
  | look (p : Term)
  /-- A rule of arithmetic, with a limit for nesting if there is one. -/
  | arithmetic (rule : Arithmetic.Rule) (limit : Option Nat)
  /-- The parser of an arithmetic evaluator. -/
  | evaluator (settings : List Arithmetic.Setting)

/-- A scripted choice of the parser to go on with, by the value read. -/
inductive Continuation where
  /-- Gives the value. -/
  | succeed
  /-- Fails, with the value's text as the label. -/
  | fail
  /-- Reads the value's text once more. -/
  | same
  | const (p : Term)
  /-- Reads `p` as often as the value's number says. -/
  | count (p : Term)
  /-- Reads one of `ps`, chosen by the value's number. -/
  | select (ps : List Term)
  /-- Reads `p` when the value is `eq`, and `q` otherwise. -/
  | when (eq : Value) (p q : Term)
  /-- Reads `p` and puts its value together with the one before. -/
  | fold (fold : Fold) (p : Term)

end

/-! ## The grammar of a term -/

/-- Grammars for scripted values. -/
abbrev Rules := Grammar Value Value

/-- The values of a pair. -/
def pairValue (xy : Value × Value) : Value := .pair xy.1 xy.2

/-- An optional value. -/
def optionValue : Option Value → Value
  | none => .absent
  | some x => .present x

/-- `p` read `n` times, with the list of its values. -/
def times (p : Rules) : Nat → Rules
  | 0 => .succeed (.list [])
  | n + 1 => .map (fun xy => Fold.append.apply xy.1 .unit xy.2) (.pair (times p n) p)

/-- A value's number as a number of repetitions: at least none and at most a thousand. -/
def repetitions (x : Value) : Nat := min x.toNumber.toNat 1000

/-- The member of `ps` that a value's number chooses, counting round. -/
def chosen (ps : List Rules) (x : Value) : Rules :=
  (ps[(x.toNumber % (ps.length : Int)).toNat]?).getD .never

/-- Looking up a name and changing what is found can be done in any order. -/
theorem lookup_map_snd {α : Type _} {β : Type _} (f : α → β) (entries : List (String × α)) (x : String) :
    (entries.map fun e => (e.1, f e.2)).lookup x = (entries.lookup x).map f := by
  induction entries with
  | nil => rfl
  | cons e entries ih =>
      rw [List.map_cons, List.lookup_cons, List.lookup_cons, ih]
      cases x == e.1 <;> rfl

/-- The last of `rules` that is bound to `x`. -/
def lookupLast (rules : List (String × Rules)) (x : String) : Rules :=
  (rules.reverse.lookup x).getD .never

mutual

/-- The grammar of a term, where `bound` are the names bound around it and `free` tells what the
    other names stand for. -/
def Term.grammarIn (free : String → Rules) (bound : List String) : Term → Rules
  | .succeed v => .succeed v
  | .fail label => .fail label
  | .satisfy test => .map .char (.satisfy test.holds)
  | .character c => .map .char (.character c)
  | .digit => .map .char .digit
  | .decimalDigit => .map (fun n : Nat => .int n) .decimalDigit
  | .anyChar => .map .char .anyChar
  | .endOfInput => .map (fun _ => .unit) .endOfInput
  | .oneOf choices => .map .char (.oneOf choices)
  | .literal text => .map .text (.literal text)
  | .bind p next => .bind (p.grammarIn free bound) (next.grammarIn free bound)
  | .map change p => .map change.apply (p.grammarIn free bound)
  | .orElse p q => .orElse (p.grammarIn free bound) (q.grammarIn free bound)
  | .many p => .map .list (.many (p.grammarIn free bound))
  | .many1 p => .map .list (.many1 (p.grammarIn free bound))
  | .pair p q => .map pairValue (.pair (p.grammarIn free bound) (q.grammarIn free bound))
  | .thenIgnore p q => .thenIgnore (p.grammarIn free bound) (q.grammarIn free bound)
  | .ignoreThen p q => .ignoreThen (p.grammarIn free bound) (q.grammarIn free bound)
  | .optional p => .map optionValue (.optional (p.grammarIn free bound))
  | .sepBy p separator =>
    .map .list (.sepBy (p.grammarIn free bound) (separator.grammarIn free bound))
  | .chainl1 item op fold =>
    .chainl1 (item.grammarIn free bound) (op.grammarIn free bound) fold.apply
  | .label name p => .label name (p.grammarIn free bound)
  | .ref x => if x ∈ bound then .ref (.name x) else free x
  | .recursive x body => .recursive x (body.grammarIn free (x :: bound))
  | .letrec definitions main =>
    let names := definitions.map Prod.fst
    .letrec names (lookupLast (definitionGrammars free (names ++ bound) definitions))
      (main.grammarIn free (names ++ bound))
  | .never => .never
  | .unionAll ps => .unionAll (termGrammars free bound ps)
  | .note label p => .note label (p.grammarIn free bound)
  | .look p => .look (p.grammarIn free bound)
  | .arithmetic rule limit => .map .int (.closed (Arithmetic.grammar limit rule))
  | .evaluator settings => .map .int (.closed (Arithmetic.Config.ofSettings settings).grammar)

/-- The grammar that a continuation goes on with after a value. -/
def Continuation.grammarIn (free : String → Rules) (bound : List String) :
    Continuation → Value → Rules
  | .succeed, x => .succeed x
  | .fail, x => .fail x.toText
  | .same, x => .map .text (.literal x.toText)
  | .const p, _ => p.grammarIn free bound
  | .count p, x => times (p.grammarIn free bound) (repetitions x)
  | .select ps, x => chosen (termGrammars free bound ps) x
  | .when eq p q, x => if x = eq then p.grammarIn free bound else q.grammarIn free bound
  | .fold f p, x => .map (f.apply x .unit) (p.grammarIn free bound)

/-- The grammars of a list of terms. -/
def termGrammars (free : String → Rules) (bound : List String) : List Term → List Rules
  | [] => []
  | p :: ps => p.grammarIn free bound :: termGrammars free bound ps

/-- The grammars of a list of definitions. -/
def definitionGrammars (free : String → Rules) (bound : List String) :
    List (String × Term) → List (String × Rules)
  | [] => []
  | (x, p) :: ds => (x, p.grammarIn free bound) :: definitionGrammars free bound ds

end

/-- The grammar of a term by itself. -/
def Term.grammar (t : Term) : Rules := t.grammarIn (fun x => .ref (.name x)) []

/-! ## What is logged when a term is built -/

mutual

/-- What is logged when a term is built: one record for each definition once its body is built. -/
def Term.records : Term → List Record
  | .bind p next => p.records ++ next.records
  | .map _ p => p.records
  | .orElse p q => p.records ++ q.records
  | .many p => p.records
  | .many1 p => p.records
  | .pair p q => p.records ++ q.records
  | .thenIgnore p q => p.records ++ q.records
  | .ignoreThen p q => p.records ++ q.records
  | .optional p => p.records
  | .sepBy p separator => p.records ++ separator.records
  | .chainl1 item op _ => item.records ++ op.records
  | .label _ p => p.records
  | .recursive _ body => body.records ++ [Record.defined]
  | .letrec definitions main => definitionRecords definitions ++ main.records
  | .unionAll ps => termRecords ps
  | .note _ p => p.records
  | .look p => p.records
  | .arithmetic _ _ => Arithmetic.rulesRecords
  | .evaluator settings => (Arithmetic.Config.ofSettings settings).buildRecords
  | _ => []

/-- What is logged when the parsers of a continuation are built. -/
def Continuation.records : Continuation → List Record
  | .const p => p.records
  | .count p => p.records
  | .select ps => termRecords ps
  | .when _ p q => p.records ++ q.records
  | .fold _ p => p.records
  | _ => []

/-- What is logged when a list of terms is built. -/
def termRecords : List Term → List Record
  | [] => []
  | p :: ps => p.records ++ termRecords ps

/-- What is logged when definitions are built and supplied in order. -/
def definitionRecords : List (String × Term) → List Record
  | [] => []
  | (_, p) :: ds => p.records ++ Record.defined :: definitionRecords ds

end

/-! ## The names that a term leaves free -/

mutual

/-- The names in a term that neither it nor `bound` binds. -/
def Term.freeNames (bound : List String) : Term → List String
  | .bind p next => p.freeNames bound ++ next.freeNames bound
  | .map _ p => p.freeNames bound
  | .orElse p q => p.freeNames bound ++ q.freeNames bound
  | .many p => p.freeNames bound
  | .many1 p => p.freeNames bound
  | .pair p q => p.freeNames bound ++ q.freeNames bound
  | .thenIgnore p q => p.freeNames bound ++ q.freeNames bound
  | .ignoreThen p q => p.freeNames bound ++ q.freeNames bound
  | .optional p => p.freeNames bound
  | .sepBy p separator => p.freeNames bound ++ separator.freeNames bound
  | .chainl1 item op _ => item.freeNames bound ++ op.freeNames bound
  | .label _ p => p.freeNames bound
  | .ref x => if x ∈ bound then [] else [x]
  | .recursive x body => body.freeNames (x :: bound)
  | .letrec definitions main =>
    let names := definitions.map Prod.fst
    definitionFreeNames (names ++ bound) definitions ++ main.freeNames (names ++ bound)
  | .unionAll ps => termFreeNames bound ps
  | .note _ p => p.freeNames bound
  | .look p => p.freeNames bound
  | _ => []

/-- The names in a continuation that `bound` does not bind. -/
def Continuation.freeNames (bound : List String) : Continuation → List String
  | .const p => p.freeNames bound
  | .count p => p.freeNames bound
  | .select ps => termFreeNames bound ps
  | .when _ p q => p.freeNames bound ++ q.freeNames bound
  | .fold _ p => p.freeNames bound
  | _ => []

/-- The names in a list of terms that `bound` does not bind. -/
def termFreeNames (bound : List String) : List Term → List String
  | [] => []
  | p :: ps => p.freeNames bound ++ termFreeNames bound ps

/-- The names in a list of definitions that `bound` does not bind. -/
def definitionFreeNames (bound : List String) : List (String × Term) → List String
  | [] => []
  | (_, p) :: ds => p.freeNames bound ++ definitionFreeNames bound ds

end

end Parsing.Script
