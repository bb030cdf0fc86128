import Parsing.Proofs.Alternation

set_option autoImplicit false

/-! # Failures merged in any grouping

A run merges the failures met on the way two by two, as its parsers happen to be nested. The
grouping does not matter: the failure that comes out is decided by the list of those merged
(`Grouping.condenses`). It lies as far on as any of them, tells of the place of the first one there,
and lists the labels of all that lie there. For failures of one text the order does not matter
either (`Grouping.result_eq_of_perm`).

Outcomes are put together in the same way: `append` is associative, and an outcome without successes
and failures is neutral. -/

namespace Parsing

namespace Failure

/-! ## What a list of failures comes to -/

/-- `f` is what the failures `fs` come to in this order: as far on as any of them, with the position
    and the character of the first one there, and with the labels of all that are there. -/
structure Condenses (f : Failure) (fs : List Failure) : Prop where
  offset_le : ∀ e ∈ fs, e.position.offset ≤ f.position.offset
  leftmost : ∃ e, fs.find? (fun e => e.position.offset == f.position.offset) = some e ∧
    f.position = e.position ∧ f.found = e.found
  increasing : f.expected.toList.Pairwise (· < ·)
  nodup : f.expected.toList.Nodup
  labels : ∀ label, label ∈ f.expected.toList ↔
    ∃ e ∈ fs, e.position.offset = f.position.offset ∧ label ∈ e.expected.toList

section Condenses

variable {f g : Failure} {fs gs : List Failure}

/-- What a pool lacks is that the first failure at its offset tells of its place. -/
theorem IsPool.condenses (h : f.IsPool fs)
    (hleftmost : ∃ e, fs.find? (fun e => e.position.offset == f.position.offset) = some e ∧
      f.position = e.position ∧ f.found = e.found) : f.Condenses fs where
  offset_le := h.offset_le
  leftmost := hleftmost
  increasing := f.expected.sorted
  nodup := by
    refine List.Pairwise.imp ?_ f.expected.sorted
    rintro a b hlt rfl
    exact String.lt_irrefl a hlt
  labels := h.expected

theorem Condenses.isPool (h : f.Condenses fs) : f.IsPool fs where
  place := by
    obtain ⟨e, he, hposition, hfound⟩ := h.leftmost
    exact ⟨e, List.mem_of_find?_eq_some he, hposition.symm, hfound.symm⟩
  offset_le := h.offset_le
  expected := h.labels

theorem condenses_singleton (f : Failure) : f.Condenses [f] := by
  have hself : (f.position.offset == f.position.offset) = true := beq_self_eq_true _
  exact (isPool_singleton f).condenses ⟨f, List.find?_cons_of_pos hself, rfl, rfl⟩

/-- What is merged condenses all that its parts condense. The left part has the word on the place,
    unless the right part lies further on. -/
theorem Condenses.merge (hf : f.Condenses fs) (hg : g.Condenses gs) :
    (f.merge g).Condenses (fs ++ gs) := by
  refine (hf.isPool.merge hg.isPool).condenses ?_
  rw [List.find?_append]
  rcases Nat.lt_trichotomy f.position.offset g.position.offset with hlt | heq | hgt
  · have hnone : fs.find? (fun e => e.position.offset == g.position.offset) = none := by
      refine List.find?_eq_none.2 fun e he => ?_
      have hle := hf.offset_le e he
      rw [beq_iff_eq]
      omega
    rw [merge_of_gt hlt, hnone, Option.none_or]
    exact hg.leftmost
  · obtain ⟨e, he, hplace⟩ := hf.leftmost
    have hmerge : f.merge g = { f with expected := f.expected.union g.expected } := by
      rw [Failure.merge, if_neg (by omega), if_neg (by omega)]
    refine ⟨e, ?_, ?_⟩
    · rw [hmerge]
      exact congrArg (Option.or · _) he
    · rw [hmerge]
      exact hplace
  · obtain ⟨e, he, hplace⟩ := hf.leftmost
    rw [merge_of_lt hgt, he, Option.some_or]
    exact ⟨e, rfl, hplace⟩

/-- A list of failures comes to one failure only. -/
theorem Condenses.unique (hf : f.Condenses fs) (hg : g.Condenses fs) : f = g := by
  obtain ⟨e, he, hposition, hfound⟩ := hf.leftmost
  obtain ⟨e', he', hposition', hfound'⟩ := hg.leftmost
  rw [hf.isPool.offset_eq hg.isPool, he', Option.some.injEq] at he
  subst he
  exact hf.isPool.eq_of_place hg.isPool (hposition.trans hposition'.symm)
    (hfound.trans hfound'.symm)

end Condenses

/-! ## Groupings -/

/-- A way to merge failures two by two. -/
inductive Grouping where
  | single (f : Failure)
  | merge (left right : Grouping)

namespace Grouping

/-- The failures merged, from left to right. -/
def failures : Grouping → List Failure
  | .single f => [f]
  | .merge left right => left.failures ++ right.failures

/-- The failure that they are merged to. -/
def result : Grouping → Failure
  | .single f => f
  | .merge left right => left.result.merge right.result

/-- Failures can be grouped if there are any. -/
theorem exists_failures_eq {fs : List Failure} (h : fs ≠ []) :
    ∃ grouping : Grouping, grouping.failures = fs := by
  induction fs with
  | nil => exact absurd rfl h
  | cons f fs ih =>
      cases fs with
      | nil => exact ⟨.single f, rfl⟩
      | cons g fs =>
          obtain ⟨grouping, hgrouping⟩ := ih (List.cons_ne_nil g fs)
          exact ⟨.merge (.single f) grouping, congrArg (f :: ·) hgrouping⟩

/-- **Any grouping comes to the same.** -/
theorem condenses (grouping : Grouping) : grouping.result.Condenses grouping.failures := by
  induction grouping with
  | single f => exact condenses_singleton f
  | merge left right ihleft ihright => exact ihleft.merge ihright

/-- Failures of one text may come in any order. -/
theorem result_eq_of_perm {start : Cursor} {grouping grouping' : Grouping}
    (hperm : grouping.failures.Perm grouping'.failures)
    (h : ∀ f ∈ grouping.failures, f.OccursIn start) : grouping.result = grouping'.result :=
  grouping.condenses.isPool.unique
    (grouping'.condenses.isPool.congr fun _ => hperm.symm.mem_iff) h

end Grouping

end Failure

/-! ## Outcomes -/

namespace Outcome

variable {α β : Type}

theorem append_assoc (o q s : Outcome α) : (o.append q).append s = o.append (q.append s) := by
  simp only [append, List.append_assoc, Failure.mergeOptions_assoc]

theorem map_append (f : α → β) (o q : Outcome α) :
    (o.append q).map f = (o.map f).append (q.map f) := by
  simp only [map, append, List.map_append]

end Outcome

/-- **Merging pools failures.** It is associative, merging a failure with itself changes nothing,
    and failures that tell of cursors of one text can change places. Whichever way a list of
    failures is grouped, what comes out lies at the greatest offset, tells of the place of the first
    failure there, and lists exactly the labels of the failures there, each once and in order;
    failures of one text may come in any order. So outcomes form a monoid under `append`, with the
    outcome without successes and failures as its unit, and `map` goes through `append`. -/
theorem merging_condenses :
    (∀ f g h : Failure, (f.merge g).merge h = f.merge (g.merge h)) ∧
    (∀ f : Failure, f.merge f = f) ∧
    (∀ (start : Cursor) (f g : Failure), f.OccursIn start → g.OccursIn start →
      f.merge g = g.merge f) ∧
    (∀ fs : List Failure, fs ≠ [] →
      (∃ grouping : Failure.Grouping, grouping.failures = fs) ∧
      ∀ grouping : Failure.Grouping, grouping.failures = fs → grouping.result.Condenses fs) ∧
    (∀ (start : Cursor) (grouping grouping' : Failure.Grouping),
      grouping.failures.Perm grouping'.failures →
      (∀ f ∈ grouping.failures, f.OccursIn start) → grouping.result = grouping'.result) ∧
    (∀ {α : Type} (o q s : Outcome α), (o.append q).append s = o.append (q.append s) ∧
      Outcome.append (.ofSuccesses []) o = o ∧ o.append (.ofSuccesses []) = o) ∧
    (∀ {α β : Type} (f : α → β) (o q : Outcome α),
      (o.append q).map f = (o.map f).append (q.map f)) := by
  refine ⟨Failure.merge_assoc, Failure.merge_self, fun start f g hf hg => hf.merge_comm hg,
    fun fs hfs => ⟨Failure.Grouping.exists_failures_eq hfs, ?_⟩,
    fun start grouping grouping' hperm h => Failure.Grouping.result_eq_of_perm hperm h,
    fun o q s => ⟨o.append_assoc q s, o.empty_append, o.append_empty⟩,
    fun f o q => o.map_append f q⟩
  rintro grouping rfl
  exact grouping.condenses

/-- Two failures at the second character of a text, merged either way. -/
theorem merging_condenses_second :
    let start := Cursor.ofString "ab"
    let f := Failure.missing start.next "digit"
    let g := Failure.missing start.next "'x'"
    f.OccursIn start ∧ g.OccursIn start ∧ f.merge g = g.merge f ∧
      (f.merge g).expected.toList = ["'x'", "digit"] := by
  intro start f g
  have hf : f.OccursIn start := ⟨start.next, start.reaches_next, rfl, rfl⟩
  have hg : g.OccursIn start := ⟨start.next, start.reaches_next, rfl, rfl⟩
  exact ⟨hf, hg, merging_condenses.2.2.1 start f g hf hg, by decide⟩

/-- Failures that tell of different characters at one offset are not of one text: the left one has
    the word. -/
example :
    (Failure.mk .start (some 'a') .empty).merge ⟨.start, none, .empty⟩
      ≠ (Failure.mk .start none .empty).merge ⟨.start, some 'a', .empty⟩ := by
  decide

end Parsing
