set_option autoImplicit false

/-! # Sets of labels

What a parser would have accepted is a set of labels. A set is kept as the strictly increasing list
of its members, by code point, so equal sets are equal values (`LabelSet.ext_mem`) and the list is
ready to be shown. -/

namespace Parsing

/-- A set of labels, listed in strictly increasing order. -/
structure LabelSet where
  toList : List String
  sorted : toList.Pairwise (· < ·)
  deriving DecidableEq

namespace LabelSet

instance : Membership String LabelSet := ⟨fun s x => x ∈ s.toList⟩

instance : Repr LabelSet := ⟨fun s n => Repr.addAppParen (repr s.toList) n⟩

@[simp] theorem mem_toList {s : LabelSet} {x : String} : x ∈ s.toList ↔ x ∈ s := Iff.rfl

/-- The set without members. -/
def empty : LabelSet := ⟨[], .nil⟩

instance : Inhabited LabelSet := ⟨empty⟩

@[simp] theorem not_mem_empty (x : String) : ¬ x ∈ empty := List.not_mem_nil

/-! ## Insertion -/

/-- `x` put into its place in a strictly increasing list, unless it is there. -/
def place (x : String) : List String → List String
  | [] => [x]
  | y :: ys => if x < y then x :: y :: ys else if y < x then y :: place x ys else y :: ys

theorem eq_of_not_lt {x y : String} (h : ¬ x < y) (h' : ¬ y < x) : x = y :=
  String.le_antisymm (String.not_lt.1 h') (String.not_lt.1 h)

theorem mem_place {x y : String} {ys : List String} : y ∈ place x ys ↔ y = x ∨ y ∈ ys := by
  induction ys with
  | nil => simp [place]
  | cons z zs ih =>
    unfold place
    split
    · simp
    · split
      · simp only [List.mem_cons, ih]
        exact or_left_comm
      · have : x = z := eq_of_not_lt ‹_› ‹_›
        simp [this]

theorem pairwise_place {x : String} {ys : List String} (h : ys.Pairwise (· < ·)) :
    (place x ys).Pairwise (· < ·) := by
  induction ys with
  | nil => simp [place]
  | cons z zs ih =>
    have ⟨hz, hzs⟩ := List.pairwise_cons.1 h
    unfold place
    split
    · refine List.pairwise_cons.2 ⟨fun y hy => ?_, h⟩
      rcases List.mem_cons.1 hy with rfl | hy
      · assumption
      · exact String.lt_trans ‹_› (hz y hy)
    · split
      · refine List.pairwise_cons.2 ⟨fun y hy => ?_, ih hzs⟩
        rcases mem_place.1 hy with rfl | hy
        · assumption
        · exact hz y hy
      · exact h

/-- The set with `x` added. -/
def insert (s : LabelSet) (x : String) : LabelSet := ⟨place x s.toList, pairwise_place s.sorted⟩

@[simp] theorem mem_insert {s : LabelSet} {x y : String} : y ∈ s.insert x ↔ y = x ∨ y ∈ s :=
  mem_place

/-- The set with one member. -/
def singleton (x : String) : LabelSet := empty.insert x

@[simp] theorem mem_singleton {x y : String} : y ∈ singleton x ↔ y = x := by simp [singleton]

/-! ## Union -/

/-- The set with all of `xs` added. -/
def insertAll (s : LabelSet) : List String → LabelSet
  | [] => s
  | x :: xs => (s.insert x).insertAll xs

@[simp] theorem mem_insertAll {s : LabelSet} {xs : List String} {y : String} :
    y ∈ s.insertAll xs ↔ y ∈ s ∨ y ∈ xs := by
  induction xs generalizing s with
  | nil => simp [insertAll]
  | cons x xs ih =>
    rw [insertAll, ih, mem_insert, List.mem_cons, or_assoc, or_left_comm]

/-- The members of either set. -/
def union (s t : LabelSet) : LabelSet := s.insertAll t.toList

@[simp] theorem mem_union {s t : LabelSet} {y : String} : y ∈ s.union t ↔ y ∈ s ∨ y ∈ t :=
  mem_insertAll

/-- The set of the labels in `xs`. -/
def ofList (xs : List String) : LabelSet := empty.insertAll xs

@[simp] theorem mem_ofList {xs : List String} {y : String} : y ∈ ofList xs ↔ y ∈ xs := by
  simp [ofList]

/-! ## Equality -/

theorem eq_of_pairwise_of_mem_iff {xs ys : List String} (hx : xs.Pairwise (· < ·))
    (hy : ys.Pairwise (· < ·)) (h : ∀ z, z ∈ xs ↔ z ∈ ys) : xs = ys := by
  induction xs generalizing ys with
  | nil =>
    cases ys with
    | nil => rfl
    | cons y ys => exact absurd ((h y).2 (List.mem_cons_self)) List.not_mem_nil
  | cons x xs ih =>
    cases ys with
    | nil => exact absurd ((h x).1 (List.mem_cons_self)) List.not_mem_nil
    | cons y ys =>
      have ⟨hx', hxs⟩ := List.pairwise_cons.1 hx
      have ⟨hy', hys⟩ := List.pairwise_cons.1 hy
      have hxy : x = y := by
        rcases List.mem_cons.1 ((h x).1 List.mem_cons_self) with e | hm
        · exact e
        · rcases List.mem_cons.1 ((h y).2 List.mem_cons_self) with e | hm'
          · exact e.symm
          · exact absurd (String.lt_trans (hx' y hm') (hy' x hm)) (String.lt_irrefl x)
      subst hxy
      refine congrArg _ (ih hxs hys fun z => ⟨fun hz => ?_, fun hz => ?_⟩)
      · rcases List.mem_cons.1 ((h z).1 (List.mem_cons_of_mem _ hz)) with rfl | hm
        · exact absurd (hx' z hz) (String.lt_irrefl z)
        · exact hm
      · rcases List.mem_cons.1 ((h z).2 (List.mem_cons_of_mem _ hz)) with rfl | hm
        · exact absurd (hy' z hz) (String.lt_irrefl z)
        · exact hm

/-- Sets with the same members are equal. -/
theorem ext_mem {s t : LabelSet} (h : ∀ x, x ∈ s ↔ x ∈ t) : s = t := by
  obtain ⟨xs, hx⟩ := s
  obtain ⟨ys, hy⟩ := t
  have : xs = ys := eq_of_pairwise_of_mem_iff hx hy h
  subst this
  rfl

end LabelSet

end Parsing
