import Parsing.Arithmetic.Rules
import Parsing.Deferred

set_option autoImplicit false

/-! # Building the arithmetic rules

The rules refer to each other by handles, except that the body of `expr` captures the owner of
`term`. So who has the owner of `expr` has all of them. A rule that is taken from the others needs
it: `term` and `factor` reach `expr` through handles only. -/

namespace Parsing.Arithmetic

open Grammar Making

/-- The three rules of one copy of the grammar. -/
structure Copy where
  expr : Part Int Int
  term : Part Int Int
  factor : Part Int Int

/-- One of the three rules. -/
def Copy.rule (copy : Copy) : Rule → Part Int Int
  | .expr => copy.expr
  | .term => copy.term
  | .factor => copy.factor

/-- The parser that `p` describes, where its names stand for the parts captured. -/
def capturing (captured : List (String × Part Int Int)) (p : Grammar Int Int) : Part Int Int :=
  .closure captured .empty p.parserIn

/-- One copy of the rules. What stands between parentheses is made from the handle of `expr`. -/
def copyWith (between : Part Int Int → Part Int Int) : Making Int Copy := do
  let (exprHandle, exprDefiner) ← deferred
  let (termHandle, termDefiner) ← deferred
  let inner := between exprHandle
  let factor := capturing [("inner", inner)] (factor (ref (.name "inner")))
  let term ← define termDefiner
    (capturing [("inner", inner), ("term", termHandle)] (term (ref (.name "inner"))))
  let expr ← define exprDefiner (capturing [("term", term), ("expr", exprHandle)] expr)
  return { expr, term := term.ownedBy expr, factor := factor.ownedBy expr }

/-- What may stand between parentheses when `depth` more levels are allowed. The rules of a level
    are built when the parenthesis that opens it is passed. -/
def between : Nat → Part Int Int
  | 0 => .plain (.fail "expression within nesting limit")
  | depth + 1 => whenApplied (Copy.expr <$> copyWith fun _ => between depth)

/-- One copy of the rules, with at most `limit` levels of parentheses if there is a limit. -/
def build : (limit : Option Nat) → Making Int Copy
  | none => copyWith id
  | some depth => copyWith fun _ => between depth

end Parsing.Arithmetic
