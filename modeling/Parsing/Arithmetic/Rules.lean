import Parsing.Grammar

set_option autoImplicit false

/-! # The grammar of sums and products

Single digit arithmetic, evaluated while it is read:

    expr   := term   ('+' expr)?
    term   := factor ('*' term)?
    factor := digit | '(' expr ')'

A term is complete before the `+` after it is looked at, so products bind tighter. The rules recur
on the right. A sum or product that leaves the range of 64 bit integers makes its rule fail.

Parentheses may nest without limit, or up to a limit. The rules of a level are made when the
parenthesis that opens it is passed, which the log shows. -/

namespace Parsing.Arithmetic

open Grammar

/-- The rules of the grammar. -/
inductive Rule where
  | expr
  | term
  | factor
  deriving DecidableEq, Repr

/-- The least number that a rule can give: the least integer of 64 bits. -/
def least : Int := -9223372036854775808

/-- The greatest number that a rule can give: the greatest integer of 64 bits. -/
def greatest : Int := 9223372036854775807

/-- `v` is a number that a rule can give. -/
abbrev InRange (v : Int) : Prop := least ≤ v ∧ v ≤ greatest

/-- Gives `v` if it is in range; otherwise `expected` is reported. -/
def checked (v : Int) (expected : String) : Grammar Int Int :=
  if InRange v then succeed v else fail expected

/-! ## The rules, given what stands between parentheses -/

/-- A digit, or `inner` between parentheses. -/
def factor (inner : Grammar Int Int) : Grammar Int Int :=
  orElse (map Int.ofNat decimalDigit)
    (thenIgnore (ignoreThen (character '(') inner) (character ')'))

/-- A factor times the rest of the product, which is one if there is none. -/
def term (inner : Grammar Int Int) : Grammar Int Int :=
  bind (factor inner) fun left =>
    bind (orElse (ignoreThen (character '*') (ref (.name "term"))) (succeed 1)) fun right =>
      checked (left * right) "product within i64 range"

/-- A term plus the rest of the sum, which is zero if there is none. -/
def expr : Grammar Int Int :=
  bind (ref (.name "term")) fun left =>
    bind (orElse (ignoreThen (character '+') (ref (.name "expr"))) (succeed 0)) fun right =>
      checked (left + right) "sum within i64 range"

/-- The rule `r`, with `expr` and `term` bound and `inner` between parentheses. -/
def rulesOver (inner : Grammar Int Int) (r : Rule) : Grammar Int Int :=
  letrec ["expr", "term"] (fun x => if x = "expr" then expr else term inner) <|
    match r with
    | .expr => ref (.name "expr")
    | .term => ref (.name "term")
    | .factor => factor inner

/-! ## Nesting -/

/-- Written to the log when the rules are made: they define `expr` and `term`. -/
def rulesRecords : List Record := [.defined, .defined]

/-- What may stand between parentheses when `depth` more levels are allowed. -/
def nested : Nat → Grammar Int Int
  | 0 => fail "expression within nesting limit"
  | depth + 1 => bind (record rulesRecords) fun _ => closed (rulesOver (nested depth) .expr)

/-- The rule `r` of the grammar, with at most `limit` levels of parentheses if there is a limit. -/
def grammar (limit : Option Nat) (r : Rule) : Grammar Int Int :=
  match limit with
  | none => rulesOver (ref (.name "expr")) r
  | some depth => rulesOver (nested depth) r

/-- The three rules as they are shown. -/
def describeGrammar : String := "Grammar \x7b expr: Parser, term: Parser, factor: Parser \x7d"

end Parsing.Arithmetic
