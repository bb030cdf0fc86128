set_option autoImplicit false

/-! # Values of scripted parsers

Scripted parsers are not typed: all of them give values of one type. Numbers are integers of 64
bits, and arithmetic on them wraps around. Each value can be read as a number (`toNumber`) and as a
text (`toText`). -/

namespace Parsing.Script

/-- What a scripted parser can give. -/
inductive Value where
  | unit
  | int (n : Int)
  | char (c : Char)
  | text (s : String)
  | list (xs : List Value)
  | pair (x y : Value)
  | absent
  | present (x : Value)
  deriving Inhabited, Repr

namespace Value

/-! ## Equality -/

mutual

/-- Decides whether two values are equal. -/
def decEq : (x y : Value) → Decidable (x = y)
  | .unit, y => by cases y <;> first | exact isTrue rfl | exact isFalse (by simp)
  | .int m, y => by
    cases y with
    | int n => exact if h : m = n then isTrue (by rw [h]) else isFalse (by simpa using h)
    | _ => exact isFalse (by simp)
  | .char c, y => by
    cases y with
    | char d => exact if h : c = d then isTrue (by rw [h]) else isFalse (by simpa using h)
    | _ => exact isFalse (by simp)
  | .text s, y => by
    cases y with
    | text t => exact if h : s = t then isTrue (by rw [h]) else isFalse (by simpa using h)
    | _ => exact isFalse (by simp)
  | .list xs, y => by
    cases y with
    | list ys =>
      exact match decEqList xs ys with
        | isTrue h => isTrue (by rw [h])
        | isFalse h => isFalse (by simpa using h)
    | _ => exact isFalse (by simp)
  | .pair x x', y => by
    cases y with
    | pair y y' =>
      exact match decEq x y, decEq x' y' with
        | isTrue h, isTrue h' => isTrue (by rw [h, h'])
        | isFalse h, _ => isFalse (by simp [h])
        | _, isFalse h => isFalse (by simp [h])
    | _ => exact isFalse (by simp)
  | .absent, y => by cases y <;> first | exact isTrue rfl | exact isFalse (by simp)
  | .present x, y => by
    cases y with
    | present y =>
      exact match decEq x y with
        | isTrue h => isTrue (by rw [h])
        | isFalse h => isFalse (by simpa using h)
    | _ => exact isFalse (by simp)

/-- Decides whether two lists of values are equal. -/
def decEqList : (xs ys : List Value) → Decidable (xs = ys)
  | [], [] => isTrue rfl
  | [], _ :: _ => isFalse (by simp)
  | _ :: _, [] => isFalse (by simp)
  | x :: xs, y :: ys =>
    match decEq x y, decEqList xs ys with
    | isTrue h, isTrue h' => isTrue (by rw [h, h'])
    | isFalse h, _ => isFalse (by simp [h])
    | _, isFalse h => isFalse (by simp [h])

end

instance : DecidableEq Value := decEq

/-! ## Numbers -/

/-- The number of different integers of 64 bits. -/
def modulus : Nat := 18446744073709551616

/-- The integer of 64 bits that `n` wraps around to. -/
def wrap (n : Int) : Int := n.bmod modulus

/-- A value read as a number: sizes for compound values, the code point of a character. -/
def toNumber : Value → Int
  | .unit => 0
  | .int n => n
  | .char c => c.toNat
  | .text s => s.length
  | .list xs => xs.length
  | .pair _ _ => 2
  | .absent => 0
  | .present _ => 1

/-! ## Texts -/

mutual

/-- The characters of a value read as a text: those of its parts, one after the other. -/
def toChars : Value → List Char
  | .unit => []
  | .int n => (toString n).toList
  | .char c => [c]
  | .text s => s.toList
  | .list xs => toCharsAll xs
  | .pair x y => x.toChars ++ y.toChars
  | .absent => []
  | .present x => x.toChars

/-- The characters of all values of a list. -/
def toCharsAll : List Value → List Char
  | [] => []
  | x :: xs => x.toChars ++ toCharsAll xs

end

/-- A value read as a text. -/
def toText (x : Value) : String := String.ofList x.toChars

end Value

end Parsing.Script
