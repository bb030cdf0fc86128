import Parsing.Proofs.Arithmetic.Evaluation

set_option autoImplicit false

/-! # Nesting limits

A text stays `Within` a depth if no beginning of it opens more parentheses by more than that number
than it closes. Sentences close what they open, so that behind a sentence, and behind the
parentheses passed so far, the depth left to go decides whether the text stays within.

The rules with a limit satisfy the same equations as those without (`local_nested`); between
parentheses they are the rules with the limit lowered by one. Hence both do the same on a text that
stays within the limit (`outcome_eq_of_within`): the same successes and the same furthest failure.
The records that the limited rules write are the only difference. -/

namespace Parsing.Arithmetic

open Grammar

/-! ## Depth -/

theorem count_open (s : List Char) : ('(' :: s).count '(' = s.count '(' + 1 :=
  List.count_cons_self

theorem count_close_open (s : List Char) : ('(' :: s).count ')' = s.count ')' :=
  List.count_cons_of_ne (by decide)

/-- No beginning of `s` opens more than `d` parentheses that it does not close. -/
def Within (d : Nat) (s : List Char) : Prop := ∀ u, u <+: s → u.count '(' ≤ u.count ')' + d

instance decidableWithin (d : Nat) (s : List Char) : Decidable (Within d s) :=
  decidable_of_iff (∀ n < s.length + 1, (s.take n).count '(' ≤ (s.take n).count ')' + d) <| by
    constructor
    · intro h u hu
      have := h u.length (Nat.lt_succ_of_le hu.length_le)
      rwa [← List.prefix_iff_eq_take.1 hu] at this
    · intro h n _
      exact h (s.take n) (s.take_prefix n)

/-- As many parentheses are opened as are closed. -/
def Balanced (s : List Char) : Prop := s.count '(' = s.count ')'

theorem within_nil (d : Nat) : Within d [] := by
  intro u hu
  rw [List.prefix_nil] at hu
  simp [hu]

theorem Within.of_append {d : Nat} {u s : List Char} (h : Within d (u ++ s)) : Within d u :=
  fun v hv => h v (hv.trans (List.prefix_append u s))

/-- A balanced beginning does not count for what follows it. -/
theorem within_append_iff {d : Nat} {u s : List Char} (hu : Balanced u) :
    Within d (u ++ s) ↔ Within d u ∧ Within d s := by
  constructor
  · intro h
    refine ⟨h.of_append, fun v hv => ?_⟩
    have := h (u ++ v) ((List.prefix_append_right_inj u).2 hv)
    rw [List.count_append, List.count_append, hu] at this
    omega
  · rintro ⟨hwu, hws⟩ v hv
    rcases List.prefix_or_prefix_of_prefix hv (List.prefix_append u s) with hvu | ⟨w, rfl⟩
    · exact hwu v hvu
    · have := hws w ((List.prefix_append_right_inj u).1 hv)
      rw [List.count_append, List.count_append, hu]
      omega

/-- Behind a parenthesis there is one level less to go. -/
theorem within_open_iff {d : Nat} {s : List Char} : Within (d + 1) ('(' :: s) ↔ Within d s := by
  constructor
  · intro h u hu
    have := h ('(' :: u) (List.cons_prefix_cons.2 ⟨rfl, hu⟩)
    rw [count_open, count_close_open] at this
    omega
  · intro h u hu
    rcases List.prefix_cons_iff.1 hu with rfl | ⟨v, rfl, hv⟩
    · exact Nat.zero_le _
    · have := h v hv
      rw [count_open, count_close_open]
      omega

theorem not_within_zero_open (s : List Char) : ¬ Within 0 ('(' :: s) := by
  intro h
  exact absurd (h ['('] (List.cons_prefix_cons.2 ⟨rfl, List.nil_prefix⟩)) (by decide)

theorem within_of_notMem (d : Nat) {s : List Char} (h : '(' ∉ s) : Within d s := by
  intro u hu
  rw [List.count_eq_zero.2 fun hmem => h (hu.subset hmem)]
  exact Nat.zero_le _

theorem balanced_singleton {x : Char} (hopen : x ≠ '(') (hclose : x ≠ ')') : Balanced [x] := by
  simp [Balanced, hopen, hclose]

theorem balanced_operator {op : Char} (h : op ∈ Rule.expr.operators) : Balanced [op] := by
  rcases eq_of_mem_operators h with rfl | rfl <;> rfl

theorem within_operator (d : Nat) {op : Char} (h : op ∈ Rule.expr.operators) : Within d [op] := by
  apply within_of_notMem
  rcases eq_of_mem_operators h with rfl | rfl <;> decide

theorem Balanced.append {u v : List Char} (hu : Balanced u) (hv : Balanced v) :
    Balanced (u ++ v) := by
  simp only [Balanced, List.count_append] at hu hv ⊢
  omega

theorem Tree.balanced_text {r : Rule} (T : Tree r) : Balanced T.text := by
  induction T with
  | digit x h =>
      exact balanced_singleton (ne_of_isDigit h (by decide)) (ne_of_isDigit h (by decide))
  | parens e ih =>
      have hopen : [')'].count '(' = 0 := rfl
      have hclose : [')'].count ')' = 1 := rfl
      rw [Balanced, Tree.text, count_open, count_close_open, List.count_append,
        List.count_append, hopen, hclose, ih]
  | single f ih => exact ih
  | product f t ihf iht => exact ihf.append ((balanced_operator (by decide)).append iht)
  | alone t ih => exact ih
  | sum t e iht ihe => exact iht.append ((balanced_operator (by decide)).append ihe)

/-- `before` stands before the first parenthesis of `s` that opens the level `d + 1`, and `rest`
    behind it. -/
structure FirstOpening (d : Nat) (s before rest : List Char) : Prop where
  split : s = before ++ '(' :: rest
  level : before.count '(' = before.count ')' + d
  within : Within d before

namespace FirstOpening

theorem zero (s : List Char) : FirstOpening 0 ('(' :: s) [] s := ⟨rfl, rfl, within_nil 0⟩

/-- There is one such parenthesis at most. -/
theorem unique {d : Nat} {s before before' rest rest' : List Char}
    (h : FirstOpening d s before rest) (h' : FirstOpening d s before' rest') :
    before = before' ∧ rest = rest' := by
  -- A second one behind the first would stand behind a beginning that leaves the depth.
  have hle : ∀ {u v x y : List Char}, FirstOpening d s u x → FirstOpening d s v y →
      v.length ≤ u.length := by
    intro u v x y hu hv
    rcases Nat.lt_or_ge u.length v.length with hlt | hle
    · have hopened : u ++ ['('] <+: s := by
        rw [hu.split]
        exact ⟨x, List.append_assoc _ _ _⟩
      have hv' : v <+: s := ⟨'(' :: y, hv.split.symm⟩
      have hprefix : u ++ ['('] <+: v := by
        refine List.prefix_of_prefix_length_le hopened hv' ?_
        rw [List.length_append]
        exact hlt
      have hcount := hv.within _ hprefix
      have hopen : ['('].count '(' = 1 := rfl
      have hclose : ['('].count ')' = 0 := rfl
      rw [List.count_append, List.count_append, hu.level, hopen, hclose] at hcount
      omega
    · exact hle
  obtain ⟨hbefore, hrest⟩ := List.append_inj (h.split.symm.trans h'.split)
    (Nat.le_antisymm (hle h' h) (hle h h'))
  rw [List.cons.injEq] at hrest
  exact ⟨hbefore, hrest.2⟩

theorem prepend {d : Nat} {u s before rest : List Char} (h : FirstOpening d s before rest)
    (hu : Balanced u) (hwithin : Within d u) : FirstOpening d (u ++ s) (u ++ before) rest where
  split := by rw [h.split, List.append_assoc]
  level := by
    have := h.level
    rw [List.count_append, List.count_append, hu]
    omega
  within := (within_append_iff hu).2 ⟨hwithin, h.within⟩

theorem deeper {d : Nat} {s before rest : List Char} (h : FirstOpening d s before rest) :
    FirstOpening (d + 1) ('(' :: s) ('(' :: before) rest where
  split := by rw [h.split, List.cons_append]
  level := by
    rw [count_open, count_close_open, h.level]
    omega
  within := within_open_iff.2 h.within

end FirstOpening

/-! ## The rules with a limit -/

theorem local_nested (d : Nat) : Local (nested d) := by
  intro self self' c _
  cases d <;> rfl

theorem innerParser_zero :
    innerParser (nested 0) = Parser.fail "expression within nesting limit" := rfl

/-- Behind a parenthesis one level less is left to go. -/
theorem innerParser_succ (d : Nat) :
    innerParser (nested (d + 1))
      = Parser.bind (Parser.record rulesRecords) fun _ => (grammar (some d) .expr).parser := rfl

theorem outcome_innerParser_succ (d : Nat) (c : Cursor) :
    (innerParser (nested (d + 1)) c).outcome = ((grammar (some d) .expr).parser c).outcome := by
  have hrecord : (Parser.record rulesRecords c).outcome.successes = [⟨(), c⟩] := rfl
  rw [innerParser_succ, Parser.bind, Run.outcome_andThen_singleton _ hrecord]
  rfl

/-- The rules with a limit write records and meet no faults. -/
theorem emits_limited (d : Nat) (r : Rule) (c : Cursor) :
    ((grammar (some d) r).parser c).Emits fun e => ∃ x, e = .record x := by
  induction d generalizing r c with
  | zero =>
      refine emits_rule (local_nested 0) (fun c _ => ?_) r c
      rw [innerParser_zero]
      exact Run.emits_of_events_eq_nil rfl
  | succ d ih =>
      refine emits_rule (local_nested (d + 1)) (fun c _ => ?_) r c
      rw [innerParser_succ]
      refine Parser.emits_bind (fun e he => ?_) fun x _ => ih .expr x.rest
      obtain ⟨x, _, rfl⟩ := List.mem_map.1 he
      exact ⟨x, rfl⟩

/-- The rules write records only, if anything. -/
theorem emits_grammar (limit : Option Nat) (r : Rule) (c : Cursor) :
    ((grammar limit r).parser c).Emits fun e => ∃ x, e = .record x := by
  cases limit with
  | none => exact Run.emits_of_events_eq_nil (events_rule r c)
  | some depth => exact emits_limited depth r c

theorem settle_grammar (limit : Option Nat) (r : Rule) (c : Cursor) :
    ((grammar limit r).parser c).settle.2 = .ok ((grammar limit r).parser c).outcome :=
  Run.settle_of_emits_record (emits_grammar limit r c)

/-! ## Equal outcomes -/

section Outcomes

variable {inner inner' : Parser Int} {c : Cursor}

theorem outcome_factor_congr
    (h : ∀ xs, c.unread = '(' :: xs → (inner c.next).outcome = (inner' c.next).outcome) :
    (factorParser inner c).outcome = (factorParser inner' c).outcome := by
  refine Parser.outcome_orElse_congr rfl (Parser.outcome_sequence_congr ?_ fun _ _ => rfl)
  by_cases hc : ∃ xs, c.unread = '(' :: xs
  · obtain ⟨xs, hxs⟩ := hc
    have := h xs hxs
    rwa [← outcome_behind_of_head hxs, ← outcome_behind_of_head hxs] at this
  · have hnot : ∀ xs, c.unread ≠ '(' :: xs := fun xs hxs => hc ⟨xs, hxs⟩
    rw [outcome_behind_of_not_head hnot, outcome_behind_of_not_head hnot]

/-- Chains come to the same if their operands do, and their rests do wherever the text stays within
    the depth: a sentence of the operand and the operator are balanced. -/
theorem outcome_chain_congr {k r : Rule} (L : Link k r) {d : Nat} {expected : String}
    {operand operand' rest rest' : Parser Int}
    (hoperand : (operand c).outcome = (operand' c).outcome)
    (hyields : k.Yields c (operand' c).outcome.successes)
    (hrest : ∀ e : Cursor, e.length < c.length → Within d e.unread →
      (rest e).outcome = (rest' e).outcome) (hd : Within d c.unread) :
    (L.parser expected operand rest c).outcome = (L.parser expected operand' rest' c).outcome := by
  refine Parser.outcome_bind_congr hoperand fun x hx =>
    Parser.outcome_bind_congr (Parser.outcome_orElse_congr ?_ rfl) fun _ _ => rfl
  obtain ⟨K, hreads, _⟩ := hyields.exists_sentence hx
  by_cases hxs : ∃ xs, x.rest.unread = L.op :: xs
  · obtain ⟨xs, hxs⟩ := hxs
    have hc : c.unread = K.text ++ L.op :: xs := by rw [hreads.unread_eq, hxs]
    have hwithin : Within d xs := by
      rw [hc, within_append_iff K.balanced_text] at hd
      exact ((within_append_iff (balanced_operator (Rule.operators_subset L.op_mem))).1 hd.2).2
    rw [outcome_behind_of_head hxs, outcome_behind_of_head hxs, hreads.eq_after]
    refine hrest _ (Cursor.length_after_next_lt hc) ?_
    rwa [Cursor.unread_after_next hc]
  · have hnot : ∀ xs, x.rest.unread ≠ L.op :: xs := fun xs h => hxs ⟨xs, h⟩
    rw [outcome_behind_of_not_head hnot, outcome_behind_of_not_head hnot]

end Outcomes

/-- Wherever the unread text stays within the limit, the rules with the limit come to what the rules
    without it come to. -/
theorem outcome_limited_eq (r : Rule) (c : Cursor) (d : Nat) (h : Within d c.unread) :
    ((grammar (some d) r).parser c).outcome = ((grammar none r).parser c).outcome := by
  refine rule_induction local_expr (P := fun r c run => ∀ d, Within d c.unread →
    ((grammar (some d) r).parser c).outcome = run.outcome) ?_ ?_ ?_ r c d h
  · intro c hinner d hd
    have hparser : (grammar (some d) .factor).parser = factorParser (innerParser (nested d)) :=
      parser_factor (nested d)
    rw [hparser]
    refine outcome_factor_congr fun xs hxs => ?_
    cases d with
    | zero =>
        rw [hxs] at hd
        exact absurd hd (not_within_zero_open xs)
    | succ d =>
        rw [hxs, within_open_iff, ← Cursor.unread_next hxs] at hd
        rw [outcome_innerParser_succ]
        exact hinner c.next (Cursor.length_next_lt hxs) d hd
  · intro c hfactor hrest d hd
    have hparser : (grammar (some d) .term).parser
        = termParser (innerParser (nested d)) (grammar (some d) .term).parser :=
      parser_term (local_nested d)
    rw [hparser]
    exact outcome_chain_congr Link.product (hfactor d hd) (yields_rule .factor c)
      (fun e he hwithin => hrest e he d hwithin) hd
  · intro c hterm hrest d hd
    have hparser : (grammar (some d) .expr).parser
        = exprParser (grammar (some d) .term).parser (grammar (some d) .expr).parser :=
      parser_expr (local_nested d)
    rw [hparser]
    exact outcome_chain_congr Link.sum (hterm d hd) (yields_rule .term c)
      (fun e he hwithin => hrest e he d hwithin) hd

/-- **A limit that is kept changes nothing.** On a text that stays within the depth `d`, each rule
    with the limit `d` comes to the outcome of the same rule without a limit: the same successes
    and the same furthest failure, and no fault. -/
theorem outcome_eq_of_within (r : Rule) (text : String) (d : Nat) (h : Within d text.toList) :
    ((grammar (some d) r).parser.applyText text).outcome
        = ((grammar none r).parser.applyText text).outcome ∧
      ((grammar (some d) r).parser.applyText text).settle.2
        = ((grammar none r).parser.applyText text).settle.2 := by
  have houtcome : ((grammar (some d) r).parser.applyText text).outcome
      = ((grammar none r).parser.applyText text).outcome :=
    outcome_limited_eq r (.ofString text) d h
  refine ⟨houtcome, ?_⟩
  rw [settle_rule, ← houtcome]
  exact Run.settle_of_emits_record (emits_limited d r (.ofString text))

/-- Two levels are enough for a text that never gets to its third parenthesis. -/
theorem outcome_eq_of_within_unclosed :
    Within 2 "((1)+2)*(3".toList ∧ ¬ Within 1 "((1)+2)*(3".toList ∧
      ((grammar (some 2) .expr).parser.applyText "((1)+2)*(3").outcome
        = ((grammar none .expr).parser.applyText "((1)+2)*(3").outcome :=
  ⟨by decide, by decide, (outcome_eq_of_within .expr _ 2 (by decide)).1⟩

end Parsing.Arithmetic
