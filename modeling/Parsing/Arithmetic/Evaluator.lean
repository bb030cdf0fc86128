import Parsing.Arithmetic.Rules
import Parsing.Logged

set_option autoImplicit false

/-! # Evaluating sums and products

An evaluator reads a text as an expression and gives its value in one step. It is made from a
configuration: whether text may follow the expression, and how deep parentheses may nest. Making
one and failing to find a value are logged. -/

namespace Parsing.Arithmetic

/-! ## Configurations -/

/-- What an evaluator accepts. -/
structure Config where
  /-- Text may follow the expression. -/
  allowTrailing : Bool
  /-- The number of levels to which parentheses may nest, if that is limited. -/
  maxNesting : Option Nat
  deriving DecidableEq, Repr

/-- One choice in a configuration. -/
inductive Setting where
  | allowTrailing (allow : Bool)
  | maxNesting (depth : Nat)
  deriving DecidableEq, Repr

namespace Config

/-- The whole text is an expression, and parentheses nest without limit. -/
def standard : Config := ⟨false, none⟩

/-- The configuration with one choice made anew. -/
def set (config : Config) : Setting → Config
  | .allowTrailing allow => { config with allowTrailing := allow }
  | .maxNesting depth => { config with maxNesting := some depth }

/-- The standard configuration with choices made in order: the last one of a kind counts. -/
def ofSettings (settings : List Setting) : Config := settings.foldl set standard

/-- A limit as it is shown. -/
def showLimit : Option Nat → String
  | none => "None"
  | some depth => "Some(" ++ toString depth ++ ")"

/-- A flag as it is shown. -/
def showFlag (flag : Bool) : String := if flag then "true" else "false"

/-- A configuration as it is shown. -/
def describe (config : Config) : String :=
  "EvaluatorBuilder \x7b allow_trailing: " ++ showFlag config.allowTrailing ++ ", max_nesting: "
    ++ showLimit config.maxNesting ++ " \x7d"

/-- The grammar of the texts that are accepted. -/
def grammar (config : Config) : Grammar Int Int :=
  let expr := Arithmetic.grammar config.maxNesting .expr
  if config.allowTrailing then expr else expr.thenIgnore .endOfInput

/-- Written to the log when an evaluator is made, before its rules are. -/
def buildingRecord (config : Config) : Record :=
  ⟨.debug, "building expression grammar (nesting limit: " ++ showLimit config.maxNesting
    ++ ", trailing input allowed: " ++ showFlag config.allowTrailing ++ ")"⟩

/-- All that is written to the log when an evaluator is made. -/
def buildRecords (config : Config) : List Record := config.buildingRecord :: rulesRecords

end Config

/-! ## Evaluators -/

/-- Reads an expression and gives its value. -/
structure Evaluator where
  parser : Parser Int

namespace Evaluator

/-- An evaluator as it is shown. -/
def describe (_ : Evaluator) : String := "Evaluator \x7b parser: Parser \x7d"

/-- The evaluator for a configuration. -/
def make (config : Config) : Logged Evaluator := ⟨config.buildRecords, ⟨config.grammar.parser⟩⟩

/-- Written to the log when `text` has no value. -/
def noValueRecord (text : String) (e : ParseError) : Record :=
  ⟨.debug, "no value for " ++ Quoted.string text ++ ": " ++ e.message⟩

/-- The value of the first reading of `text`, or why there is none. -/
def tryEvaluate (evaluator : Evaluator) (text : String) : Logged (Except ParseError Int) :=
  let run := evaluator.parser.applyText text
  let result := run.outcome.result
  ⟨run.settle.1 ++ (match result with
    | .ok _ => []
    | .error e => [noValueRecord text e]), result⟩

/-- The value of the first reading of `text`, if there is one. -/
def evaluate (evaluator : Evaluator) (text : String) : Logged (Option Int) :=
  let logged := evaluator.tryEvaluate text
  ⟨logged.records, logged.value.toOption⟩

end Evaluator

/-- The value of `text` with the standard configuration, or why there is none. -/
def tryEvaluate (text : String) : Logged (Except ParseError Int) :=
  (Evaluator.make .standard).andThen (·.tryEvaluate text)

/-- The value of `text` with the standard configuration, if there is one. -/
def evaluate (text : String) : Logged (Option Int) :=
  (Evaluator.make .standard).andThen (·.evaluate text)

end Parsing.Arithmetic
