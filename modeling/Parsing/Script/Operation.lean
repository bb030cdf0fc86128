import Parsing.Script.Value

set_option autoImplicit false

/-! # The operations that scripts name

A script cannot hold functions, so it names them: tests of characters, changes of one value, and
folds of two values with an operator between them. Every operation is total: one that does not fit
a value leaves it as it is. -/

namespace Parsing.Script

/-! ## Tests of characters -/

/-- A test of a character. -/
inductive CharTest where
  | among (choices : String)
  | notAmong (choices : String)
  | range (first last : Char)
  | alpha
  | upper
  | lower
  | space
  | nonAscii
  | any
  | never
  deriving DecidableEq, Repr

/-- Whether a character passes a test. Letters are those of ASCII. -/
def CharTest.holds : CharTest → Char → Bool
  | .among choices, c => choices.toList.contains c
  | .notAmong choices, c => !choices.toList.contains c
  | .range first last, c => decide (first.toNat ≤ c.toNat) && decide (c.toNat ≤ last.toNat)
  | .alpha, c => c.isAlpha
  | .upper, c => c.isUpper
  | .lower, c => c.isLower
  | .space, c => c == ' ' || c == '\t' || c == '\n' || c == '\r'
  | .nonAscii, c => decide (0x80 ≤ c.toNat)
  | .any, _ => true
  | .never, _ => false

/-! ## Changes of a value -/

/-- A change of a value. -/
inductive Change where
  | text
  | int
  | size
  | increment
  | negate
  | double
  | decimal
  | first
  | second
  | upper
  | reverse
  | wrap
  | drop
  | present
  | same
  deriving DecidableEq, Repr

/-- The digits among `cs`, read in base ten on top of `n`. -/
def decimalFrom (n : Int) : List Char → Int
  | [] => n
  | c :: cs =>
    if c.isDigit then decimalFrom (Value.wrap (n * 10 + (c.toNat - '0'.toNat : Nat))) cs
    else decimalFrom n cs

/-- The changed value. -/
def Change.apply : Change → Value → Value
  | .text, x => .text x.toText
  | .int, x => .int x.toNumber
  | .size, x => .int x.toText.length
  | .increment, x => .int (Value.wrap (x.toNumber + 1))
  | .negate, x => .int (Value.wrap (-x.toNumber))
  | .double, x => .int (Value.wrap (2 * x.toNumber))
  | .decimal, x => .int (decimalFrom 0 x.toChars)
  | .first, .pair x _ => x
  | .second, .pair _ y => y
  | .upper, x => .text (String.ofList (x.toChars.map Char.toUpper))
  | .reverse, .list xs => .list xs.reverse
  | .wrap, x => .list [x]
  | .drop, _ => .unit
  | .present, x => .present x
  | _, x => x

/-! ## Folds -/

/-- A way of putting two values together that have an operator between them. -/
inductive Fold where
  | byOperator
  | add
  | sub
  | mul
  | concat
  | pair
  | tree
  | append
  | right
  deriving DecidableEq, Repr

/-- What `f` makes of the numbers of two values, wrapped around. -/
def foldNumbers (f : Int → Int → Int) (x y : Value) : Value :=
  .int (Value.wrap (f x.toNumber y.toNumber))

/-- `x` and `y` together, with `op` between them. -/
def Fold.apply : Fold → (x op y : Value) → Value
  | .byOperator, x, op, y =>
    match op.toChars with
    | ['+'] => foldNumbers (· + ·) x y
    | ['-'] => foldNumbers (· - ·) x y
    | ['*'] => foldNumbers (· * ·) x y
    | _ => y
  | .add, x, _, y => foldNumbers (· + ·) x y
  | .sub, x, _, y => foldNumbers (· - ·) x y
  | .mul, x, _, y => foldNumbers (· * ·) x y
  | .concat, x, _, y => .text (x.toText ++ y.toText)
  | .pair, x, _, y => .pair x y
  | .tree, x, op, y => .pair x (.pair op y)
  | .append, .list xs, _, y => .list (xs ++ [y])
  | .append, x, _, y => .list [x, y]
  | .right, _, _, y => y

end Parsing.Script
