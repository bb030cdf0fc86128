import Parsing.Proofs.Arithmetic.Halt

set_option autoImplicit false

/-! # How far a rule gets

Wherever a rule is applied, with a nesting limit or without, it reads a whole sentence or it is
halted (`verdict_rule`). A halt is the furthest failure, and all that the rule still succeeds with
ends before an operator further back (`Rule.Short`). So whatever is tried behind a success meets
that operator and fails before the halt: the halt is carried outwards unchanged.

Both are carried from the operand and the rest of a chain to the chain (`verdict_chain`) and from
what stands between parentheses to the factor (`verdict_factor`). -/

namespace Parsing.Arithmetic

open Failure

/-! ## Verdicts -/

/-- What a rule that is halted at the offset `n` may still succeed with: nothing, or one success
    that ends before an operator further back. -/
inductive Rule.Short (r : Rule) (c : Cursor) (n : Nat) : List (Success Int) → Prop where
  | nothing : Short r c n []
  | cut {v : Int} {w tail : List Char} {op : Char} (hc : c.unread = w ++ op :: tail)
      (hop : op ∈ r.operators) (hlt : (c.after w).offset < n) : Short r c n [⟨v, c.after w⟩]

theorem Rule.Short.ifInRange {r : Rule} {c : Cursor} {n : Nat} {w tail : List Char} {op : Char}
    (v : Int) (hc : c.unread = w ++ op :: tail) (hop : op ∈ r.operators)
    (hlt : (c.after w).offset < n) : r.Short c n (ifInRange v (c.after w)) := by
  unfold Arithmetic.ifInRange
  split
  · exact .cut hc hop hlt
  · exact .nothing

/-- Where an operator stands, nothing else does. -/
theorem Rule.unread_ne {r : Rule} {c : Cursor} {w tail : List Char} {op x : Char}
    (hc : c.unread = w ++ op :: tail) (hop : op ∈ r.operators) (hx : x ∉ r.operators)
    (xs : List Char) : (c.after w).unread ≠ x :: xs := by
  intro h
  rw [Cursor.unread_after hc, List.cons.injEq] at h
  rw [h.1] at hop
  exact hx hop

/-- How far the rule `r` gets at `c`. -/
inductive Verdict (limit : Option Nat) (r : Rule) (c : Cursor) : Outcome Int → Prop where
  /-- A whole sentence is read. -/
  | whole {T : Tree r} {rest : List Char} {f : Option Failure} (h : Whole limit r c T rest f) :
      Verdict limit r c ⟨[⟨T.value, c.after T.text⟩], f⟩
  /-- The rule is halted. -/
  | halted {xs : List (Success Int)} {f : Failure} (hshort : r.Short c f.position.offset xs)
      (hhalt : Halt limit r c f) : Verdict limit r c ⟨xs, some f⟩

/-! ## Chains -/

section Chain

variable {limit : Option Nat} {k r : Rule} (L : Link k r) {expected : String}
  {operand rest : Parser Int} {c : Cursor}

/-- What follows a short operand is an operator of the operand, and the chain does not go on with
    that. -/
theorem verdict_operand_halted {xs : List (Success Int)} {f : Failure}
    (hoperand : (operand c).outcome = ⟨xs, some f⟩) (hshort : k.Short c f.position.offset xs)
    (hhalt : Halt limit k c f) : Verdict limit r c (L.parser expected operand rest c).outcome := by
  cases hshort with
  | nothing =>
      rw [Link.parser, outcome_chain_nil (by rw [hoperand]), hoperand]
      exact .halted .nothing (.of_operand L hhalt)
  | @cut v w tail op hc hop hlt =>
      have hbehind := outcome_behind_of_not_head (p := rest) (Rule.unread_ne hc hop L.op_notMem)
      have hbefore : Before (mergeOptions (some (expecting (c.after w) [Quoted.char L.op]))
          (unlessInRange (L.join v L.unit) expected (c.after w))) f.position.offset :=
        (before_some.2 hlt).merge (before_unlessInRange hlt)
      rw [Link.parser, outcome_chain_stop (by rw [hoperand]) (by rw [hbehind]), hoperand, hbehind,
        mergeOptions_of_before_right hbefore]
      exact .halted (.ifInRange _ hc (L.mem_operators_of_operand hop) hlt) (.of_operand L hhalt)

/-- A chain stops behind a whole operand where its operator does not stand. -/
theorem verdict_stop {a : Tree k} {tail : List Char} {f : Option Failure}
    (hoperand : (operand c).outcome = ⟨[⟨a.value, c.after a.text⟩], f⟩)
    (ha : Whole limit k c a tail f) (hop : ∀ xs, tail ≠ L.op :: xs) :
    Verdict limit r c (L.parser expected operand rest c).outcome := by
  have hne : ∀ xs, (c.after a.text).unread ≠ L.op :: xs := by
    rw [Cursor.unread_after ha.unread_eq]
    exact hop
  have hbehind := outcome_behind_of_not_head (p := rest) hne
  rw [Link.parser, outcome_chain_stop (by rw [hoperand]) (by rw [hbehind]), hoperand, hbehind,
    L.join_unit, ifInRange_of_inRange ha.fits.inRange, unlessInRange_of_inRange ha.fits.inRange,
    mergeOptions_none_right]
  have hwhole := Verdict.whole (ha.one L hop)
  rwa [L.text_one, L.value_one] at hwhole

/-- A chain goes no further than its rest: what that one still reads is joined to the operand, if
    it can be, and nothing else is read. -/
theorem verdict_rest_halted {a : Tree k} {s : List Char} {f : Option Failure} {g : Failure}
    {xs : List (Success Int)}
    (hoperand : (operand c).outcome = ⟨[⟨a.value, c.after a.text⟩], f⟩)
    (ha : Whole limit k c a (L.op :: s) f)
    (hrest : (rest (c.after a.text).next).outcome = ⟨xs, some g⟩)
    (hshort : r.Short (c.after a.text).next g.position.offset xs)
    (hhalt : Halt limit r (c.after a.text).next g) :
    Verdict limit r c (L.parser expected operand rest c).outcome := by
  have hd : (c.after a.text).unread = L.op :: s := Cursor.unread_after ha.unread_eq
  have hlt : (c.after a.text).offset < g.position.offset := by
    have := hhalt.offset_le
    rw [Cursor.next_eq_after hd, Cursor.offset_after, List.length_singleton] at this
    omega
  have hhalted : Halt limit r c g := .of_rest L ha hhalt
  have hf : Before f g.position.offset := ha.tried.before hlt
  cases hshort with
  | nothing =>
      have hbehind := outcome_behind_of_head (p := rest) hd
      rw [Link.parser, outcome_chain_stop (by rw [hoperand]) (by rw [hbehind, hrest]), hoperand,
        hbehind, hrest, mergeOptions_of_before_right (before_unlessInRange hlt),
        mergeOptions_of_before_left hf]
      exact .halted (.ifInRange _ ha.unread_eq L.op_mem hlt) hhalted
  | @cut v w tail op hu hop hlt' =>
      have hs : s = w ++ op :: tail := by rw [← Cursor.unread_after_next ha.unread_eq, hu]
      have hcut : c.unread = (a.text ++ L.op :: w) ++ op :: tail := by
        rw [ha.unread_eq, hs, List.append_assoc, List.cons_append]
      have hafter : (c.after a.text).next.after w = c.after (a.text ++ L.op :: w) :=
        Cursor.after_after_next ha.unread_eq hs
      rw [hafter] at hlt' hrest
      rw [Link.parser, outcome_chain_step (by rw [hoperand]) hd (by rw [hrest]), hoperand, hrest,
        mergeOptions_of_before_right (before_unlessInRange hlt'), mergeOptions_of_before_left hf]
      exact .halted (.ifInRange _ hcut hop hlt') hhalted

/-- A chain whose operand and rest are both whole joins them, if it can. -/
theorem verdict_join {a : Tree k} {b : Tree r} {s tail : List Char} {f g : Option Failure}
    (hlabel : expected ∈ overflowLabels)
    (hoperand : (operand c).outcome = ⟨[⟨a.value, c.after a.text⟩], f⟩)
    (ha : Whole limit k c a (L.op :: s) f)
    (hrest : (rest (c.after a.text).next).outcome
      = ⟨[⟨b.value, (c.after a.text).next.after b.text⟩], g⟩)
    (hb : Whole limit r (c.after a.text).next b tail g) :
    Verdict limit r c (L.parser expected operand rest c).outcome := by
  have hd : (c.after a.text).unread = L.op :: s := Cursor.unread_after ha.unread_eq
  have hg := L.tried_iff.1 hb.tried
  have hafter : (c.after a.text).next.after b.text = c.after (L.more a b).text :=
    ha.after_more L hb
  rw [hafter] at hrest hg
  have hlt : (c.after a.text).offset < (c.after (L.more a b).text).offset := by
    rw [L.text_more, Cursor.offset_after, Cursor.offset_after, List.length_append,
      List.length_cons]
    omega
  have hf : Before f (c.after (L.more a b).text).offset := ha.tried.before hlt
  rw [Link.parser, outcome_chain_step (by rw [hoperand]) hd (by rw [hrest]), hoperand, hrest]
  by_cases hrange : InRange (L.join a.value b.value)
  · rw [ifInRange_of_inRange hrange, unlessInRange_of_inRange hrange, mergeOptions_none_right, hg,
      mergeOptions_of_before_left hf, ← hg, ← L.value_more]
    exact .whole (ha.more L hb hrange)
  · rw [ifInRange_of_not_inRange hrange, unlessInRange_of_not_inRange hrange, hg,
      mergeOptions_some, merge_expecting, mergeOptions_of_before_left hf]
    have hover : r.Overflows c.unread := L.overflows_join (ha.unread_more L hb) hb.ends hrange
    refine .halted .nothing (.overflow ?_ hlabel ?_ hover)
    · rw [mem_expecting]
      exact List.mem_append_right _ List.mem_cons_self
    · show c.offset ≤ (c.after (L.more a b).text).offset
      rw [Cursor.offset_after]
      omega

/-- A chain gets as far as it should if its operand does, and its rest does wherever less is
    unread. -/
theorem verdict_chain (hlabel : expected ∈ overflowLabels)
    (hoperand : Verdict limit k c (operand c).outcome)
    (hrest : ∀ d : Cursor, d.length < c.length → Verdict limit r d (rest d).outcome) :
    Verdict limit r c (L.parser expected operand rest c).outcome := by
  generalize ho : (operand c).outcome = o at hoperand
  cases hoperand with
  | halted hshort hhalt => exact verdict_operand_halted L ho hshort hhalt
  | @whole a tail f ha =>
      by_cases hgo : ∃ s, tail = L.op :: s
      · obtain ⟨s, rfl⟩ := hgo
        have hv := hrest (c.after a.text).next (Cursor.length_after_next_lt ha.unread_eq)
        generalize ho' : (rest (c.after a.text).next).outcome = o' at hv
        cases hv with
        | halted hshort hhalt => exact verdict_rest_halted L ho ha ho' hshort hhalt
        | whole hb => exact verdict_join L hlabel ho ha ho' hb
      · exact verdict_stop L ho ha fun xs hxs => hgo ⟨xs, hxs⟩

end Chain

/-! ## Factors -/

/-- What happens behind a parenthesis under a limit: the limit is reached, or an expression is read
    under a limit that is lower by one. -/
inductive Inside : Option Nat → Cursor → Outcome Int → Prop where
  | beyond (c : Cursor) :
      Inside (some 0) c ⟨[], some (expecting c ["expression within nesting limit"])⟩
  | below {limit : Option Nat} {c : Cursor} {o : Outcome Int} (h : Verdict limit .expr c o) :
      Inside (limit.map (· + 1)) c o

section Factor

variable {limit : Option Nat} {inner : Parser Int} {c : Cursor} {s : List Char}

/-- The failure of the digit that is tried first lies before all that happens behind the
    parenthesis. -/
theorem mergeOptions_digit {f : Failure} (hc : c.unread = '(' :: s)
    (h : c.next.offset ≤ f.position.offset) :
    mergeOptions (some f) (some (expecting c ["digit"])) = some f := by
  rw [Cursor.next_eq_after hc, Cursor.offset_after, List.length_singleton] at h
  refine mergeOptions_of_before_right (before_some.2 ?_)
  show c.offset < f.position.offset
  omega

/-- A parenthesis behind which a whole expression stands is closed there, or the factor is halted:
    what may follow are the operators of a sum, tried inside, and the closing parenthesis. -/
theorem verdict_parens_whole {e : Tree .expr} {rest : List Char} {f : Option Failure}
    (hc : c.unread = '(' :: s)
    (hinner : (inner c.next).outcome = ⟨[⟨e.value, c.next.after e.text⟩], f⟩)
    (he : Whole limit .expr c.next e rest f) :
    Verdict (limit.map (· + 1)) .factor c (factorParser inner c).outcome := by
  have hd : (c.next.after e.text).unread = rest := Cursor.unread_after he.unread_eq
  have hafter : c.next.after e.text = c.after ('(' :: e.text) := by
    rw [Cursor.next_eq_after hc, ← Cursor.after_append, List.singleton_append]
  have hle : c.next.offset ≤ (c.next.after e.text).offset := by
    rw [Cursor.offset_after]
    exact Nat.le_add_right _ _
  have hf : f = some (expecting (c.next.after e.text) (Rule.expr.operators.map Quoted.char)) :=
    Link.sum.tried_iff.1 he.tried
  by_cases hclosed : ∃ ys, rest = ')' :: ys
  · obtain ⟨ys, rfl⟩ := hclosed
    have hnext : (c.next.after e.text).next = c.after (Tree.parens e).text := by
      rw [Cursor.next_eq_after hd, hafter, ← Cursor.after_append]
      rfl
    rw [outcome_factor_closed hc (by rw [hinner]) hd, hinner, hf, mergeOptions_digit hc hle, ← hf,
      hnext]
    exact .whole (he.parens hc)
  · have hne : ∀ ys, (c.next.after e.text).unread ≠ ')' :: ys := by
      intro ys hys
      exact hclosed ⟨ys, hd.symm.trans hys⟩
    have hsplit : c.unread = '(' :: e.text ++ rest := by
      rw [hc, ← Cursor.unread_next hc, he.unread_eq, List.cons_append]
    have hwalk : Stage.start.walk ('(' :: e.text) = some ⟨1, false⟩ := by
      rw [Stage.start, Stage.walk_step (.opened 0), Stage.walk_text e 1]
    have hlabels : (Rule.expr.operators.map Quoted.char ++ [Quoted.char ')']).Perm
        (Stage.labels ⟨1, false⟩) := by decide
    have hdone : (⟨1, false⟩ : Stage) ≠ .done := by decide
    have hrefuses : Stage.Refuses ⟨1, false⟩ rest.head? := by
      cases rest with
      | nil => exact hdone
      | cons x xs =>
          refine Stage.next_eq_none_of_not_due he.ends.notMem fun hx => ?_
          exact absurd ⟨xs, hx ▸ rfl⟩ hclosed
    rw [outcome_factor_unclosed hc (by rw [hinner]) hne, hinner, hf, mergeOptions_some,
      merge_expecting, mergeOptions_digit hc hle, hafter, expecting_of_perm _ hlabels]
    exact .halted .nothing (.refused hsplit hwalk hdone hrefuses)

/-- What halts behind a parenthesis halts the factor: what is still read there is followed by an
    operator and not by a closing parenthesis. -/
theorem verdict_parens_halted {xs : List (Success Int)} {f : Failure} (hc : c.unread = '(' :: s)
    (hinner : (inner c.next).outcome = ⟨xs, some f⟩)
    (hshort : Rule.expr.Short c.next f.position.offset xs) (hhalt : Halt limit .expr c.next f) :
    Verdict (limit.map (· + 1)) .factor c (factorParser inner c).outcome := by
  have hhalted : Halt (limit.map (· + 1)) .factor c f := .of_parens hc hhalt
  cases hshort with
  | nothing =>
      rw [outcome_factor_open_nil hc (by rw [hinner]), hinner,
        mergeOptions_digit hc hhalt.offset_le]
      exact .halted .nothing hhalted
  | @cut v w tail op hu hop hlt =>
      have hclose : ')' ∉ Rule.expr.operators := by decide
      rw [outcome_factor_unclosed hc (by rw [hinner]) (Rule.unread_ne hu hop hclose), hinner,
        mergeOptions_of_before_right (before_some.2 hlt), mergeOptions_digit hc hhalt.offset_le]
      exact .halted .nothing hhalted

/-- Where neither a digit nor a parenthesis stands, an operand is missing. -/
theorem verdict_operand_missing (limit : Option Nat)
    (hdigit : ∀ x xs, c.unread = x :: xs → ¬ x.isDigit = true)
    (hopen : ∀ xs, c.unread ≠ '(' :: xs) :
    Verdict limit .factor c (factorParser inner c).outcome := by
  have hlabels : [Quoted.char '(', "digit"].Perm Stage.start.labels := by decide
  have hrefuses : Stage.start.Refuses c.unread.head? := by
    cases hc : c.unread with
    | nil => exact nofun
    | cons x xs =>
        exact Stage.next_eq_none_of_due (hdigit x xs hc) (fun hx => hopen xs (hx ▸ hc)) 0
  have hhalt : Halt limit .factor c (expecting (c.after []) Stage.start.labels) :=
    .refused (List.nil_append _).symm (Stage.walk_nil _) nofun hrefuses
  rw [← (Cursor.reads_nil c).eq_after, ← expecting_of_perm c hlabels] at hhalt
  rw [outcome_factor_of_not_head hdigit hopen]
  exact .halted .nothing hhalt

/-- A factor gets as far as it should if `inner` does behind the parenthesis. -/
theorem verdict_factor
    (hinner : ∀ xs, c.unread = '(' :: xs → Inside limit c.next (inner c.next).outcome) :
    Verdict limit .factor c (factorParser inner c).outcome := by
  by_cases hdigit : ∃ x xs, c.unread = x :: xs ∧ x.isDigit = true
  · obtain ⟨x, xs, hc, hx⟩ := hdigit
    rw [outcome_factor_digit hc hx, Cursor.next_eq_after hc]
    exact .whole (.digit limit hc hx)
  by_cases hopen : ∃ xs, c.unread = '(' :: xs
  · obtain ⟨xs, hc⟩ := hopen
    have hv := hinner xs hc
    generalize ho : (inner c.next).outcome = o at hv
    cases hv with
    | beyond =>
        have hopening := FirstOpening.zero xs
        rw [← hc] at hopening
        rw [outcome_factor_open_nil hc (by rw [ho]), ho, mergeOptions_digit hc (Nat.le_refl _),
          Cursor.next_eq_after hc]
        exact .halted .nothing (.tooDeep rfl hopening)
    | below h =>
        cases h with
        | whole he => exact verdict_parens_whole hc ho he
        | halted hshort hhalt => exact verdict_parens_halted hc ho hshort hhalt
  · refine verdict_operand_missing limit (fun x xs hc hx => hdigit ⟨x, xs, hc, hx⟩) fun xs hc => ?_
    exact hopen ⟨xs, hc⟩

end Factor

/-! ## Rules -/

/-- The rules get as far as they should if what stands between parentheses does. -/
theorem verdict_of_inside {inner : Grammar Int Int} (hlocal : Local inner) {limit : Option Nat}
    (hinner : ∀ c : Cursor, Verdict limit .expr c ((rulesOver inner .expr).parser c).outcome →
      Inside limit c (innerParser inner c).outcome) (r : Rule) (c : Cursor) :
    Verdict limit r c ((rulesOver inner r).parser c).outcome := by
  refine rule_induction hlocal (P := fun r c run => Verdict limit r c run.outcome) ?_ ?_ ?_ r c
  · intro c hexpr
    exact verdict_factor fun xs hc => hinner c.next (hexpr c.next (Cursor.length_next_lt hc))
  · intro c hfactor hrest
    exact verdict_chain Link.product (by decide) hfactor hrest
  · intro c hterm hrest
    exact verdict_chain Link.sum (by decide) hterm hrest

/-- Each rule, with a nesting limit or without, gets as far as it should, wherever it is applied. -/
theorem verdict_rule (limit : Option Nat) (r : Rule) (c : Cursor) :
    Verdict limit r c ((grammar limit r).parser c).outcome := by
  cases limit with
  | none =>
      refine verdict_of_inside local_expr (fun c h => ?_) r c
      show Inside (none.map (· + 1)) c _
      exact .below h
  | some d =>
      induction d generalizing r c with
      | zero =>
          refine verdict_of_inside (local_nested 0) (fun c _ => ?_) r c
          rw [innerParser_zero]
          exact .beyond c
      | succ d ih =>
          refine verdict_of_inside (local_nested (d + 1)) (fun c _ => ?_) r c
          rw [outcome_innerParser_succ]
          show Inside ((some d).map (· + 1)) c _
          exact .below (ih .expr c)

end Parsing.Arithmetic
