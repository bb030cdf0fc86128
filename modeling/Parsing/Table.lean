set_option autoImplicit false

/-! # Tables

A table has at most one entry for a name. Making an entry replaces the one of that name. -/

namespace Parsing

universe u

/-- Entries by name. -/
structure Table (α : Type u) where
  entries : List (String × α)

namespace Table

variable {α : Type u}

/-- The table without entries. -/
def empty : Table α := ⟨[]⟩

/-- The first entry for `x` among `entries`. -/
def find (x : String) : List (String × α) → Option α
  | [] => none
  | (y, v) :: entries => if y = x then some v else find x entries

/-- The entry for `x`. -/
def get? (t : Table α) (x : String) : Option α := find x t.entries

/-- There is an entry for `x`. -/
def contains (t : Table α) (x : String) : Bool := (t.get? x).isSome

/-- The table without an entry for `x`. -/
def erase (t : Table α) (x : String) : Table α := ⟨t.entries.filter fun e => decide (e.1 ≠ x)⟩

/-- The table with `v` as the entry for `x`. -/
def insert (t : Table α) (x : String) (v : α) : Table α := ⟨(x, v) :: (t.erase x).entries⟩

/-- What the entries hold. -/
def values (t : Table α) : List α := t.entries.map Prod.snd

/-! ## Looking up after a change -/

theorem find_filter_ne (x y : String) (entries : List (String × α)) :
    find y (entries.filter fun e => decide (e.1 ≠ x)) = if y = x then none else find y entries := by
  induction entries with
  | nil => simp [find]
  | cons e entries ih =>
    obtain ⟨z, v⟩ := e
    by_cases hz : z = x
    · subst hz
      by_cases hy : y = z
      · simp [hy] at ih ⊢
        exact ih
      · have : ¬ z = y := fun h => hy h.symm
        simp [hy, this, find] at ih ⊢
        exact ih
    · by_cases hy : z = y
      · subst hy
        simp [hz, find]
      · simpa [hz, hy, find] using ih

@[simp] theorem get?_erase (t : Table α) (x y : String) :
    (t.erase x).get? y = if y = x then none else t.get? y := find_filter_ne x y t.entries

@[simp] theorem get?_insert (t : Table α) (x y : String) (v : α) :
    (t.insert x v).get? y = if y = x then some v else t.get? y := by
  by_cases h : y = x
  · simp [get?, insert, find, h]
  · have hx : ¬ x = y := fun e => h e.symm
    have := get?_erase t x y
    simp only [h, if_false] at this ⊢
    simpa [get?, insert, find, hx] using this

end Table

end Parsing
