import Parsing.Failure

set_option autoImplicit false

/-! # Merging failures

Merging keeps the failure that got further and pools the labels of two that got equally far. So it
is associative, and merging once more what was merged before changes nothing (`merge_merge_self`).
It is not commutative: of two failures at one offset the left one says what was found there.

`Covers f g` says that `f` tells all of `g` already. What a merged failure covers is what one of its
parts covers. -/

namespace Parsing

namespace LabelSet

theorem union_assoc (s t u : LabelSet) : (s.union t).union u = s.union (t.union u) := by
  apply ext_mem
  intro label
  rw [mem_union, mem_union, mem_union, mem_union, or_assoc]

theorem union_comm (s t : LabelSet) : s.union t = t.union s := by
  apply ext_mem
  intro label
  rw [mem_union, mem_union, or_comm]

theorem union_self (s : LabelSet) : s.union s = s := by
  apply ext_mem
  intro label
  rw [mem_union, or_self]

theorem union_union_self (s t : LabelSet) : (s.union t).union s = s.union t := by
  rw [union_assoc, union_comm t s, ← union_assoc, union_self]

end LabelSet

namespace Failure

/-! ## The failure further on -/

theorem merge_of_lt {f g : Failure} (h : g.position.offset < f.position.offset) : f.merge g = f :=
  if_pos h

theorem merge_of_gt {f g : Failure} (h : f.position.offset < g.position.offset) :
    f.merge g = g := by
  have hlt : ¬ g.position.offset < f.position.offset := by omega
  rw [merge, if_neg hlt, if_pos h]

/-! ## Associativity -/

theorem merge_assoc (f g h : Failure) : (f.merge g).merge h = f.merge (g.merge h) := by
  -- Merging keeps the greater offset, so both groupings compare the same three offsets.
  rcases Nat.lt_trichotomy f.position.offset g.position.offset with hfg | hfg | hfg <;>
    grind [merge, LabelSet.union_assoc]

theorem mergeOptions_assoc (f g h : Option Failure) :
    mergeOptions (mergeOptions f g) h = mergeOptions f (mergeOptions g h) := by
  cases f with
  | none => rfl
  | some f =>
      cases g with
      | none => rfl
      | some g =>
          cases h with
          | none => rfl
          | some h => simp only [mergeOptions_some, merge_assoc]

/-! ## Merging again -/

theorem merge_self (f : Failure) : f.merge f = f := by
  simp [merge, LabelSet.union_self]

theorem merge_merge_self (f g : Failure) : (f.merge g).merge f = f.merge g := by
  rcases Nat.lt_trichotomy f.position.offset g.position.offset with hlt | heq | hgt
  · rw [merge_of_gt hlt, merge_of_lt hlt]
  · simp [merge, heq, LabelSet.union_union_self]
  · rw [merge_of_lt hgt, merge_self]

theorem mergeOptions_self (f : Option Failure) : mergeOptions f f = f := by
  cases f with
  | none => rfl
  | some f => rw [mergeOptions_some, merge_self]

theorem mergeOptions_mergeOptions_self (f g : Option Failure) :
    mergeOptions (mergeOptions f g) f = mergeOptions f g := by
  cases f with
  | none => exact mergeOptions_none_right _
  | some f =>
      cases g with
      | none => exact mergeOptions_self (some f)
      | some g => rw [mergeOptions_some, mergeOptions_some, merge_merge_self]

/-- Two failures in the middle can change places if it does not matter which one comes first. -/
theorem mergeOptions_exchange {f g h i : Option Failure}
    (hcomm : mergeOptions g h = mergeOptions h g) :
    mergeOptions (mergeOptions f g) (mergeOptions h i)
      = mergeOptions (mergeOptions f h) (mergeOptions g i) :=
  calc mergeOptions (mergeOptions f g) (mergeOptions h i)
      = mergeOptions f (mergeOptions (mergeOptions g h) i) := by simp only [mergeOptions_assoc]
    _ = mergeOptions f (mergeOptions (mergeOptions h g) i) := by rw [hcomm]
    _ = mergeOptions (mergeOptions f h) (mergeOptions g i) := by simp only [mergeOptions_assoc]

/-! ## Failures told already -/

/-- `f` tells all of `g` already: merging `g` into it changes nothing. -/
def Covers (f g : Option Failure) : Prop := mergeOptions f g = f

theorem covers_self (f : Option Failure) : Covers f f := mergeOptions_self f

theorem covers_none (f : Option Failure) : Covers f none := mergeOptions_none_right f

theorem Covers.merge {f g h : Option Failure} (hg : Covers f g) (hh : Covers f h) :
    Covers f (mergeOptions g h) := by
  unfold Covers at *
  rw [← mergeOptions_assoc, hg, hh]

theorem Covers.merge_left {f g : Option Failure} (h : Covers f g) (e : Option Failure) :
    Covers (mergeOptions e f) g := by
  unfold Covers
  rw [mergeOptions_assoc, h]

theorem Covers.merge_right {f g : Option Failure} (h : Covers f g) (e : Option Failure) :
    Covers (mergeOptions f e) g :=
  calc mergeOptions (mergeOptions f e) g
      = mergeOptions (mergeOptions (mergeOptions f g) e) g := by rw [h]
    _ = mergeOptions f (mergeOptions (mergeOptions g e) g) := by simp only [mergeOptions_assoc]
    _ = mergeOptions (mergeOptions f g) e := by
        rw [mergeOptions_mergeOptions_self, mergeOptions_assoc]
    _ = mergeOptions f e := by rw [h]

end Failure

end Parsing
