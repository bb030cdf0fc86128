import Parsing.Proofs.Arithmetic.Chain
import Parsing.Proofs.Arithmetic.Kept

set_option autoImplicit false

/-! # What the rules read

Wherever a rule is applied there are two cases. Either the unread text begins with no sentence of
the rule, and then the rule has no success; or it begins with a longest sentence, and then the
successes of the rule are what is kept of that one (`yields_rule`).

This is carried from the operand and the rest of a chain to the chain (`yields_chain`), and from
what stands between parentheses to the factor (`yields_factor`), and so to all cursors by
induction on the number of unread characters. -/

namespace Parsing.Arithmetic

open Grammar

/-- `xs` are the successes that the rule `r` should have at `c`: none if no sentence stands there,
    and otherwise what is kept of the longest one. -/
inductive Rule.Yields (r : Rule) (c : Cursor) : List (Success Int) → Prop where
  | nothing (h : ∀ T : Tree r, ¬ T.text <+: c.unread) : Yields r c []
  | sentence (T : Tree r) (rest : List Char) (h : c.unread = T.text ++ rest)
      (hstuck : r.Stuck rest) : Yields r c (T.read c)

namespace Rule.Yields

variable {r : Rule} {c : Cursor} {xs : List (Success Int)}

theorem eq_nil (h : r.Yields c xs) (hnothing : ∀ T : Tree r, ¬ T.text <+: c.unread) : xs = [] := by
  cases h with
  | nothing _ => rfl
  | sentence T rest hc _ => exact absurd ⟨rest, hc.symm⟩ (hnothing T)

theorem eq_read (h : r.Yields c xs) {T : Tree r} {rest : List Char} (hc : c.unread = T.text ++ rest)
    (hstuck : r.Stuck rest) : xs = T.read c := by
  cases h with
  | nothing hnothing => exact absurd ⟨rest, hc.symm⟩ (hnothing T)
  | sentence U rest' hc' hstuck' =>
      obtain ⟨rfl, _⟩ := Tree.eq_of_stuck (hc'.symm.trans hc) hstuck' hstuck
      rfl

/-- A success reads a sentence that fits, and has its value. -/
theorem exists_sentence (h : r.Yields c xs) {x : Success Int} (hx : x ∈ xs) :
    ∃ K : Tree r, c.Reads K.text x.rest ∧ K.Fits ∧ K.value = x.value := by
  cases h with
  | nothing _ => exact absurd hx List.not_mem_nil
  | sentence T rest hc _ =>
      cases hk : T.kept with
      | none =>
          rw [Tree.read_of_kept_eq_none hk] at hx
          exact absurd hx List.not_mem_nil
      | some K =>
          obtain ⟨cut, hcut⟩ := Tree.text_prefix_of_kept hk
          rw [Tree.read_of_kept_eq_some hk, List.mem_singleton] at hx
          rw [← hcut, List.append_assoc] at hc
          rw [hx]
          exact ⟨K, Cursor.reads_after hc, Tree.fits_of_kept hk, rfl⟩

end Rule.Yields

/-! ## Chains -/

section Chain

variable {k r : Rule} (L : Link k r) {expected : String} {operand rest : Parser Int} {c : Cursor}

/-- The successes of a chain as the link has it. -/
def Link.parser (expected : String) (operand rest : Parser Int) : Parser Int :=
  chain L.op L.join L.unit expected operand rest

/-- A chain that stops behind a whole operand has the operand's success. -/
theorem successes_stop {a : Tree k} {tail : List Char} (hc : c.unread = a.text ++ tail)
    (ha : a.Fits) (hoperand : (operand c).outcome.successes = a.read c)
    (hstop : ∀ xs, tail = L.op :: xs → (rest (c.after a.text).next).outcome.successes = []) :
    (L.parser expected operand rest c).outcome.successes = [⟨a.value, c.after a.text⟩] := by
  rw [Tree.read_of_kept_eq_some (Tree.kept_of_fits ha)] at hoperand
  have hchain : (L.parser expected operand rest c).outcome.successes
      = ifInRange (L.join a.value L.unit) (c.after a.text) := by
    refine successes_chain_stop hoperand fun xs hxs => hstop xs ?_
    rw [← hxs, Cursor.unread_after hc]
  rw [hchain, L.join_unit, ifInRange_of_inRange ha.inRange]

/-- A chain whose operand is not kept as a whole has what is kept of the operand: what follows it
    is an operator of the operand. -/
theorem successes_of_not_fits {a : Tree k} {tail : List Char} (hc : c.unread = a.text ++ tail)
    (ha : ¬ a.Fits) (hoperand : (operand c).outcome.successes = a.read c) :
    (L.parser expected operand rest c).outcome.successes = (L.one a).read c := by
  cases hk : a.kept with
  | none =>
      have hnone : (L.one a).kept = none := by rw [L.kept_one, hk, Option.map_none]
      rw [Tree.read_of_kept_eq_none hk] at hoperand
      rw [Tree.read_of_kept_eq_none hnone]
      exact successes_chain_nil hoperand
  | some u =>
      have hsome : (L.one a).kept = some (L.one u) := by rw [L.kept_one, hk, Option.map_some]
      obtain ⟨op, hop, cut, hcut⟩ := Tree.exists_cut_of_kept hk ha
      have hc' : c.unread = u.text ++ (op :: cut ++ tail) := by
        rw [hc, hcut, List.append_assoc]
      have hread : a.read c = u.read c := by
        rw [Tree.read_of_kept_eq_some hk,
          Tree.read_of_kept_eq_some (Tree.kept_of_fits (Tree.fits_of_kept hk))]
      have hstop : (L.parser expected operand rest c).outcome.successes
          = [⟨u.value, c.after u.text⟩] := by
        refine successes_stop L hc' (Tree.fits_of_kept hk) (hoperand.trans hread) fun xs hxs => ?_
        rw [List.cons_append, List.cons.injEq] at hxs
        rw [hxs.1] at hop
        exact absurd hop L.op_notMem
      rw [hstop, Tree.read_of_kept_eq_some hsome, L.value_one, L.text_one]

/-- A chain whose operand is whole goes on with what is kept of the rest: where nothing is kept of
    it, the chain stops. -/
theorem successes_more {a : Tree k} {b : Tree r} {tail : List Char}
    (hc : c.unread = a.text ++ L.op :: (b.text ++ tail)) (ha : a.Fits)
    (hoperand : (operand c).outcome.successes = a.read c)
    (hrest : (rest (c.after a.text).next).outcome.successes
      = b.read (c.after a.text).next) :
    (L.parser expected operand rest c).outcome.successes = (L.more a b).read c := by
  have hd : (c.after a.text).unread = L.op :: (b.text ++ tail) := Cursor.unread_after hc
  cases hb : b.kept with
  | none =>
      rw [Tree.read_of_kept_eq_none hb] at hrest
      rw [successes_stop L hc ha hoperand fun _ _ => hrest,
        Tree.read_of_kept_eq_some (L.kept_more_of_none ha hb), L.value_one, L.text_one]
  | some u =>
      obtain ⟨cut, hcut⟩ := Tree.text_prefix_of_kept hb
      have htail : b.text ++ tail = u.text ++ (cut ++ tail) := by
        rw [← hcut, List.append_assoc]
      rw [Tree.read_of_kept_eq_some hb] at hrest
      rw [Tree.read_of_kept_eq_some (Tree.kept_of_fits ha)] at hoperand
      rw [Link.parser, successes_chain_step hoperand hd hrest, Tree.read,
        L.kept_more_of_some ha hb, ifInRange]
      split
      · rw [Option.map_some, Option.toList_some, L.value_more, L.text_more,
          Cursor.after_after_next hc htail]
      · rfl

/-- A chain reads what it should if its operand does, and its rest does wherever less is unread. -/
theorem yields_chain (hoperand : k.Yields c (operand c).outcome.successes)
    (hrest : ∀ d : Cursor, d.length < c.length → r.Yields d (rest d).outcome.successes) :
    r.Yields c (L.parser expected operand rest c).outcome.successes := by
  generalize hxs : (operand c).outcome.successes = xs at hoperand
  cases hoperand with
  | nothing h =>
      rw [Link.parser, successes_chain_nil hxs]
      refine .nothing fun T hT => ?_
      obtain ⟨a, ha⟩ := L.exists_operand T
      exact h a (ha.trans hT)
  | sentence a tail hc hstuck =>
      -- The chain goes on just if the operator stands next with a sentence behind it.
      by_cases hgo : ∃ (b : Tree r) (tail' : List Char),
          tail = L.op :: (b.text ++ tail') ∧ r.Stuck tail'
      · obtain ⟨b, tail', rfl, hstuck'⟩ := hgo
        have hc' : c.unread = (L.more a b).text ++ tail' := by
          rw [hc, L.text_more, List.append_assoc, List.cons_append]
        have hread : (L.parser expected operand rest c).outcome.successes
            = (L.more a b).read c := by
          by_cases ha : a.Fits
          · refine successes_more L hc ha hxs ?_
            exact (hrest _ (Cursor.length_after_next_lt hc)).eq_read
              (Cursor.unread_after_next hc) hstuck'
          · rw [successes_of_not_fits L hc ha hxs, Tree.read, Tree.read,
              L.kept_more_of_not_fits ha]
        rw [hread]
        exact .sentence (L.more a b) tail' hc' hstuck'
      -- Otherwise the operand alone is the longest sentence: a dangling operator is left unread.
      · have hnothing : ∀ xs, tail = L.op :: xs → ∀ T : Tree r, ¬ T.text <+: xs := by
          rintro xs rfl T hT
          obtain ⟨b, hb⟩ := Tree.exists_isLongest hT
          obtain ⟨tail', rfl, hstuck'⟩ := Tree.isLongest_iff.1 hb
          exact hgo ⟨b, tail', rfl, hstuck'⟩
        have hc' : c.unread = (L.one a).text ++ tail := by rw [hc, L.text_one]
        have hstuck' : r.Stuck tail := by
          refine (L.stuck_iff).2 ⟨hstuck, fun xs hxs f hf => ?_⟩
          exact hnothing xs hxs (Tree.ofFactor f r) (by rwa [Tree.text_ofFactor])
        have hread : (L.parser expected operand rest c).outcome.successes
            = (L.one a).read c := by
          by_cases ha : a.Fits
          · rw [successes_stop L hc ha hxs fun ys hys => ?_,
              Tree.read_of_kept_eq_some (Tree.kept_of_fits ((L.fits_one a).2 ha)),
              L.value_one, L.text_one]
            subst hys
            refine (hrest _ (Cursor.length_after_next_lt hc)).eq_nil ?_
            rw [Cursor.unread_after_next hc]
            exact hnothing ys rfl
          · exact successes_of_not_fits L hc ha hxs
        rw [hread]
        exact .sentence (L.one a) tail hc' hstuck'

end Chain

/-! ## Factors -/

section Factor

variable {inner : Parser Int} {c : Cursor}

/-- A factor that begins with a parenthesis closes it behind an expression. -/
theorem exists_parens_of_prefix {xs : List Char} {T : Tree .factor} (h : T.text <+: '(' :: xs) :
    ∃ (e : Tree .expr) (tail : List Char), T = .parens e ∧ xs = e.text ++ ')' :: tail := by
  cases T with
  | digit y hy =>
      rw [Tree.text, List.cons_prefix_cons] at h
      rw [h.1] at hy
      exact absurd hy (by decide)
  | parens e =>
      rw [Tree.text, List.cons_prefix_cons] at h
      obtain ⟨tail, htail⟩ := h.2
      refine ⟨e, tail, rfl, ?_⟩
      rw [← htail, List.append_assoc, List.singleton_append]

theorem stuck_closed (xs : List Char) : Rule.expr.Stuck (')' :: xs) :=
  Rule.stuck_of_notMem (by decide) xs

/-- A parenthesis that opens a whole expression is read with it if the expression fits. -/
theorem successes_parens {e : Tree .expr} {tail : List Char}
    (hc : c.unread = '(' :: (e.text ++ ')' :: tail))
    (hinner : (inner c.next).outcome.successes = e.read c.next) :
    (factorParser inner c).outcome.successes = (Tree.parens e).read c := by
  have hnext : c.next.unread = e.text ++ ')' :: tail := Cursor.unread_next hc
  by_cases he : e.Fits
  · have hkept : (Tree.parens e).kept = some (.parens e) := if_pos he
    have hafter : (c.next.after e.text).next = c.after (Tree.parens e).text :=
      ((Cursor.reads_next hc).trans (Cursor.reads_after_next hnext)).eq_after
    rw [Tree.read_of_kept_eq_some (Tree.kept_of_fits he)] at hinner
    rw [successes_factor_closed hc hinner (Cursor.unread_after hnext),
      Tree.read_of_kept_eq_some hkept, hafter, Tree.value]
  · have hkept : (Tree.parens e).kept = none := if_neg he
    rw [Tree.read_of_kept_eq_none hkept]
    cases hk : e.kept with
    | none =>
        rw [Tree.read_of_kept_eq_none hk] at hinner
        exact successes_factor_open_nil hc hinner
    | some u =>
        -- What is kept of `e` is followed by an operator and not by the closing parenthesis.
        obtain ⟨op, hop, cut, hcut⟩ := Tree.exists_cut_of_kept hk he
        have hnext' : c.next.unread = u.text ++ (op :: cut ++ ')' :: tail) := by
          rw [hnext, hcut, List.append_assoc]
        rw [Tree.read_of_kept_eq_some hk] at hinner
        refine successes_factor_unclosed hc hinner fun ys hys => ?_
        rw [Cursor.unread_after hnext', List.cons_append, List.cons.injEq] at hys
        rw [hys.1] at hop
        exact absurd hop (by decide)

/-- A parenthesis without a whole expression behind it and a closing one is not read. -/
theorem successes_unclosed {xs : List Char} (hc : c.unread = '(' :: xs)
    (hinner : Rule.expr.Yields c.next (inner c.next).outcome.successes)
    (h : ∀ (e : Tree .expr) (tail : List Char), xs ≠ e.text ++ ')' :: tail) :
    (factorParser inner c).outcome.successes = [] := by
  have hnext : c.next.unread = xs := Cursor.unread_next hc
  generalize hys : (inner c.next).outcome.successes = ys at hinner
  cases hinner with
  | nothing _ => exact successes_factor_open_nil hc hys
  | sentence e rest hrest hstuck =>
      cases hk : e.kept with
      | none =>
          rw [Tree.read_of_kept_eq_none hk] at hys
          exact successes_factor_open_nil hc hys
      | some u =>
          obtain ⟨cut, hcut⟩ := Tree.text_prefix_of_kept hk
          rw [Tree.read_of_kept_eq_some hk] at hys
          refine successes_factor_unclosed hc hys fun zs hzs => ?_
          rw [← hcut, List.append_assoc] at hrest
          rw [Cursor.unread_after hrest] at hzs
          rw [hzs, hnext] at hrest
          exact h u zs hrest

/-- A factor reads what it should if `inner` does wherever less is unread. -/
theorem yields_factor
    (hinner : ∀ d : Cursor, d.length < c.length →
      Rule.expr.Yields d (inner d).outcome.successes) :
    Rule.factor.Yields c (factorParser inner c).outcome.successes := by
  cases hc : c.unread with
  | nil =>
      have hnil : (factorParser inner c).outcome.successes = [] :=
        successes_factor_of_not_head (fun x xs h => absurd (hc.symm.trans h) nofun)
          (fun xs h => absurd (hc.symm.trans h) nofun)
      rw [hnil]
      refine .nothing fun T hT => ?_
      rw [hc, List.prefix_nil] at hT
      exact T.text_ne_nil hT
  | cons x xs =>
      by_cases hdigit : x.isDigit = true
      · have hread : (Tree.digit x hdigit).read c = [⟨Parser.digitValue x, c.next⟩] := by
          rw [(Cursor.reads_next hc).eq_after]
          rfl
        rw [successes_factor_digit hc hdigit, ← hread]
        exact .sentence (.digit x hdigit) xs hc (Rule.stuck_factor xs)
      by_cases hopen : x = '('
      · subst hopen
        have hyields := hinner c.next (Cursor.length_next_lt hc)
        have hnext : c.next.unread = xs := Cursor.unread_next hc
        by_cases hclosed : ∃ (e : Tree .expr) (tail : List Char), xs = e.text ++ ')' :: tail
        · obtain ⟨e, tail, rfl⟩ := hclosed
          rw [successes_parens hc (hyields.eq_read hnext (stuck_closed tail))]
          refine .sentence (.parens e) tail ?_ (Rule.stuck_factor tail)
          rw [hc, Tree.text, List.cons_append, List.append_assoc, List.singleton_append]
        · rw [successes_unclosed hc hyields fun e tail h => hclosed ⟨e, tail, h⟩]
          refine .nothing fun T hT => ?_
          rw [hc] at hT
          obtain ⟨e, tail, _, htail⟩ := exists_parens_of_prefix hT
          exact hclosed ⟨e, tail, htail⟩
      · have hnil : (factorParser inner c).outcome.successes = [] := by
          refine successes_factor_of_not_head (fun y ys h => ?_) (fun ys h => ?_)
          · rw [hc, List.cons.injEq] at h
            rwa [← h.1]
          · rw [hc, List.cons.injEq] at h
            exact hopen h.1
        rw [hnil]
        refine .nothing fun T hT => ?_
        rw [hc] at hT
        exact T.not_prefix_of_head hdigit hopen xs hT

end Factor

/-! ## Rules -/

/-- Each rule of the grammar without a nesting limit reads what it should, wherever it is
    applied. -/
theorem yields_rule (r : Rule) (c : Cursor) :
    r.Yields c ((grammar none r).parser c).outcome.successes := by
  refine rule_induction local_expr (P := fun r c run => r.Yields c run.outcome.successes) ?_ ?_ ?_
    r c
  · intro c hinner
    exact yields_factor hinner
  · intro c hfactor hrest
    exact yields_chain Link.product hfactor hrest
  · intro c hterm hrest
    exact yields_chain Link.sum hterm hrest

/-- Without a nesting limit no rule writes a record or meets a fault. -/
theorem events_rule (r : Rule) (c : Cursor) : ((grammar none r).parser c).events = [] :=
  Run.events_eq_nil_of_emits (emits_rule local_expr (fun _ h => h) r c)

end Parsing.Arithmetic
