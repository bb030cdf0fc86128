import Mathlib.Data.List.Basic
import Parsing.Proofs.Arithmetic.Descent
import Parsing.Proofs.Arithmetic.Halt
import Parsing.Proofs.Unambiguous

set_option autoImplicit false

/-! # Parentheses passed

With a limit of nesting the rules are made anew behind each opening parenthesis that is passed, and
that is all they write to the log. `Passes` follows a rule through a text and tells at which offsets
parentheses are passed: two records are written for each of them (`Passes.events_eq`).

No parenthesis is passed twice, although chains and factors fall back. What a chain falls back to
ends before its operator, and no rule that goes on from there takes up that operator. So wherever
another rule goes on behind a success, all that was tried has been read with that success, and the
parentheses passed are those of a beginning of the text, each once (`exists_spans`). -/

namespace Parsing.Arithmetic

/-! ## Rules with a limit -/

/-- The rule `r` with at most `d` levels of parentheses. -/
abbrev limited (d : Nat) (r : Rule) : Parser Int := (grammar (some d) r).parser

/-- `r` is a chain of `k` with `op` between two of them. -/
inductive ChainOf : Rule → Char → Rule → Prop where
  | product : ChainOf .factor '*' .term
  | sum : ChainOf .term '+' .expr

theorem ChainOf.exists_link {k r : Rule} {op : Char} (h : ChainOf k op r) :
    ∃ (L : Link k r) (expected : String), L.op = op ∧
      ∀ d, limited d r = L.parser expected (limited d k) (limited d r) := by
  cases h with
  | product => exact ⟨.product, _, rfl, fun d => parser_term (local_nested d)⟩
  | sum => exact ⟨.sum, _, rfl, fun d => parser_expr (local_nested d)⟩

theorem unambiguous_limited (d : Nat) (r : Rule) : (limited d r).Unambiguous :=
  (withoutUnion_grammar (some d) r).unambiguous

/-- A rule comes to nothing, or to one success. -/
theorem limited_cases (d : Nat) (r : Rule) (c : Cursor) :
    (limited d r c).outcome.successes = [] ∨
      ∃ v e, (limited d r c).outcome.successes = [⟨v, e⟩] := by
  have hlength := unambiguous_limited d r c
  generalize (limited d r c).outcome.successes = xs at hlength
  match xs, hlength with
  | [], _ => exact .inl rfl
  | [⟨v, e⟩], _ => exact .inr ⟨v, e, rfl⟩
  | _ :: _ :: _, h => exact absurd h (by simp)

theorem eq_singleton_of_mem {d : Nat} {r : Rule} {c : Cursor} {x : Success Int}
    (h : x ∈ (limited d r c).outcome.successes) : (limited d r c).outcome.successes = [x] := by
  rcases limited_cases d r c with hnil | ⟨v, e, hsingle⟩
  · rw [hnil] at h
    exact absurd h List.not_mem_nil
  · rw [hsingle, List.mem_singleton] at h
    rw [hsingle, h]

theorem successes_innerParser_succ (d : Nat) (c : Cursor) :
    (innerParser (nested (d + 1)) c).outcome.successes = (limited d .expr c).outcome.successes := by
  rw [outcome_innerParser_succ]

/-! ## Passing -/

/-- Applied at `c`, with `d` levels of parentheses to go, the rule passes opening parentheses at
    these offsets, in this order. -/
inductive Passes : Nat → Rule → Cursor → List Nat → Prop where
  | unopened {d : Nat} {c : Cursor} (h : ∀ xs, c.unread ≠ '(' :: xs) : Passes d .factor c []
  /-- No level is left. -/
  | beyond {c : Cursor} {xs : List Char} (h : c.unread = '(' :: xs) : Passes 0 .factor c []
  | opened {d : Nat} {c : Cursor} {xs : List Char} {os : List Nat} (h : c.unread = '(' :: xs)
      (hinside : Passes d .expr c.next os) : Passes (d + 1) .factor c (c.offset :: os)
  /-- The chain's operator does not stand behind its operand, or there is no operand. -/
  | stops {d : Nat} {k r : Rule} {op : Char} {c : Cursor} {os : List Nat} (hchain : ChainOf k op r)
      (hoperand : Passes d k c os)
      (h : ∀ x ∈ (limited d k c).outcome.successes, ∀ xs, x.rest.unread ≠ op :: xs) :
      Passes d r c os
  | goes {d : Nat} {k r : Rule} {op : Char} {c : Cursor} {x : Success Int} {xs : List Char}
      {os os' : List Nat} (hchain : ChainOf k op r) (hoperand : Passes d k c os)
      (hx : x ∈ (limited d k c).outcome.successes) (hop : x.rest.unread = op :: xs)
      (hrest : Passes d r x.rest.next os') : Passes d r c (os ++ os')

/-- A chain passes what its operand passes, and what its rest passes if it goes on. -/
theorem exists_passes_chain {k r : Rule} {op : Char} {c : Cursor} (hchain : ChainOf k op r)
    (hoperand : ∀ d, ∃ os, Passes d k c os)
    (hrest : ∀ e : Cursor, e.length < c.length → ∀ d, ∃ os, Passes d r e os) (d : Nat) :
    ∃ os, Passes d r c os := by
  obtain ⟨os, hos⟩ := hoperand d
  by_cases hgo : ∃ x ∈ (limited d k c).outcome.successes, ∃ xs, x.rest.unread = op :: xs
  · obtain ⟨x, hx, xs, hxs⟩ := hgo
    have hle : x.rest.length ≤ c.length := (advances_grammar (some d) k c x hx).length_le
    have hlt : x.rest.next.length < x.rest.length := Cursor.length_next_lt hxs
    obtain ⟨os', hos'⟩ := hrest x.rest.next (by omega) d
    exact ⟨os ++ os', .goes hchain hos hx hxs hos'⟩
  · exact ⟨os, .stops hchain hos fun x hx xs hxs => hgo ⟨x, hx, xs, hxs⟩⟩

/-- Every rule passes some parentheses at each place, or none. -/
theorem exists_passes (d : Nat) (r : Rule) (c : Cursor) : ∃ os, Passes d r c os := by
  refine rule_induction local_expr (P := fun r c _ => ∀ d, ∃ os, Passes d r c os) ?_ ?_ ?_ r c d
  · intro c hinner d
    by_cases hopen : ∃ xs, c.unread = '(' :: xs
    · obtain ⟨xs, hxs⟩ := hopen
      cases d with
      | zero => exact ⟨[], .beyond hxs⟩
      | succ d =>
          obtain ⟨os, hos⟩ := hinner c.next (Cursor.length_next_lt hxs) d
          exact ⟨c.offset :: os, .opened hxs hos⟩
    · exact ⟨[], .unopened fun xs hxs => hopen ⟨xs, hxs⟩⟩
  · intro c hfactor hrest d
    exact exists_passes_chain .product hfactor hrest d
  · intro c hterm hrest d
    exact exists_passes_chain .sum hterm hrest d

/-! ## Records -/

/-- **Two records for each parenthesis.** -/
theorem Passes.events_eq {d : Nat} {r : Rule} {c : Cursor} {os : List Nat} (h : Passes d r c os) :
    (limited d r c).events = .replicate (2 * os.length) (.record .defined) := by
  induction h with
  | unopened h => exact events_factor_of_not_open h
  | beyond h => exact events_factor_open h
  | @opened d c xs os h _ ih =>
      have hrecords : (innerParser (nested (d + 1)) c.next).events
          = [.record .defined, .record .defined] ++ (limited d .expr c.next).events := by
        rw [innerParser_succ, Parser.bind, Run.events_andThen]
        exact congrArg ([Event.record .defined, .record .defined] ++ ·) (List.append_nil _)
      have hlength : 2 * (c.offset :: os).length = 2 + 2 * os.length := by
        rw [List.length_cons]
        omega
      have hfactor : (limited (d + 1) .factor c).events
          = (innerParser (nested (d + 1)) c.next).events := events_factor_open h
      rw [hfactor, hrecords, ih, hlength, ← List.replicate_append_replicate]
      rfl
  | stops hchain _ h ih =>
      obtain ⟨L, expected, rfl, hparser⟩ := hchain.exists_link
      rw [hparser, ← ih]
      exact events_chain_stop h
  | @goes d k r op c x xs os os' hchain _ hx hop _ ihoperand ihrest =>
      obtain ⟨L, expected, rfl, hparser⟩ := hchain.exists_link
      rw [hparser, List.length_append, Nat.mul_add, ← List.replicate_append_replicate, ← ihoperand,
        ← ihrest]
      exact events_chain_step (eq_singleton_of_mem hx) hop

/-! ## Offsets of parentheses -/

/-- The offsets of the opening parentheses in `s`, which begins at the offset `start`. -/
def openings (s : List Char) (start : Nat) : List Nat := s.findIdxs (· == '(') start

theorem openings_append (u v : List Char) (start : Nat) :
    openings (u ++ v) start = openings u start ++ openings v (start + u.length) :=
  List.findIdxs_append

theorem openings_open (s : List Char) (start : Nat) :
    openings ('(' :: s) start = start :: openings s (start + 1) :=
  List.findIdxs_cons

theorem openings_of_notMem {s : List Char} (h : '(' ∉ s) (start : Nat) : openings s start = [] := by
  refine List.findIdxs_eq_nil_iff.2 fun x hx => ?_
  rw [beq_eq_false_iff_ne]
  rintro rfl
  exact h hx

theorem length_openings (s : List Char) (start : Nat) : (openings s start).length = s.count '(' :=
  List.length_findIdxs

theorem pairwise_openings (s : List Char) (start : Nat) : (openings s start).Pairwise (· < ·) :=
  List.pairwise_findIdxs

theorem getElem?_of_mem_openings {s : List Char} {o : Nat} (h : o ∈ openings s 0) :
    s[o]? = some '(' := by
  obtain ⟨ho, hopen⟩ := List.mem_findIdxs_iff_exists_getElem_pos.1 h
  rw [List.getElem?_eq_getElem ho, beq_iff_eq.1 hopen]

theorem openings_begins {u s : List Char} (h : u <+: s) (start : Nat) :
    openings u start <+: openings s start := by
  obtain ⟨v, rfl⟩ := h
  rw [openings_append]
  exact List.prefix_append _ _

/-! ## What is tried is read -/

/-- `w` is a beginning of what is unread at `c`, within `d` levels. Where no operator of the rule
    stands behind its success, the success has read `w`. -/
structure Spans (d : Nat) (r : Rule) (c : Cursor) (w : List Char) : Prop where
  begins : w <+: c.unread
  within : Within d w
  whole : ∀ x ∈ (limited d r c).outcome.successes, r.Ends x.rest.unread →
    c.Reads w x.rest ∧ Balanced w

theorem rest_eq_of_mem_ifInRange {v : Int} {e : Cursor} {x : Success Int} (h : x ∈ ifInRange v e) :
    x.rest = e := by
  unfold ifInRange at h
  split at h
  · rw [List.mem_singleton.1 h]
  · exact absurd h List.not_mem_nil

section Factor

variable {d : Nat} {c : Cursor} {xs w : List Char}

/-- Nothing is tried behind what a rule does not succeed with. -/
theorem Spans.of_successes_eq_nil {r : Rule} (hbegins : w <+: c.unread) (hwithin : Within d w)
    (h : (limited d r c).outcome.successes = []) : Spans d r c w where
  begins := hbegins
  within := hwithin
  whole := by
    intro x hx
    rw [h] at hx
    exact absurd hx List.not_mem_nil

theorem exists_spans_unopened (d : Nat) (h : ∀ xs, c.unread ≠ '(' :: xs) :
    ∃ w, Spans d .factor c w ∧ '(' ∉ w := by
  by_cases hdigit : ∃ x xs, c.unread = x :: xs ∧ x.isDigit = true
  · obtain ⟨x, xs, hx, hdigit⟩ := hdigit
    have hne : x ≠ '(' := Tree.ne_of_isDigit hdigit (by decide)
    have hne' : x ≠ ')' := Tree.ne_of_isDigit hdigit (by decide)
    have hnotMem : '(' ∉ [x] := fun hmem => hne (List.mem_singleton.1 hmem).symm
    refine ⟨[x], ⟨⟨xs, hx.symm⟩, within_of_notMem d hnotMem, fun y hy _ => ?_⟩, hnotMem⟩
    have hsuccess : (limited d .factor c).outcome.successes
        = [⟨Parser.digitValue x, c.next⟩] := successes_factor_digit hx hdigit
    rw [hsuccess, List.mem_singleton] at hy
    rw [hy]
    exact ⟨Cursor.reads_next hx, balanced_singleton hne hne'⟩
  · have hnil : (limited d .factor c).outcome.successes = [] :=
      successes_factor_of_not_head (fun x xs hx hd => hdigit ⟨x, xs, hx, hd⟩) h
    exact ⟨[], .of_successes_eq_nil List.nil_prefix (within_nil d) hnil, List.not_mem_nil⟩

theorem spans_beyond (h : c.unread = '(' :: xs) : Spans 0 .factor c [] :=
  .of_successes_eq_nil List.nil_prefix (within_nil 0) (successes_factor_open_nil h rfl)

/-- A parenthesis is closed behind what its expression has read, or not at all. -/
theorem Spans.exists_opened (h : c.unread = '(' :: xs) (hinside : Spans d .expr c.next w) :
    ∃ tail, Spans (d + 1) .factor c ('(' :: (w ++ tail)) ∧ '(' ∉ tail := by
  have hunread : c.unread = '(' :: c.next.unread := by rw [h, Cursor.unread_next h]
  -- Without a success it does not matter where the parenthesis might have been closed.
  have hunclosed : (limited (d + 1) .factor c).outcome.successes = [] →
      ∃ tail, Spans (d + 1) .factor c ('(' :: (w ++ tail)) ∧ '(' ∉ tail := by
    intro hnil
    refine ⟨[], .of_successes_eq_nil ?_ ?_ hnil, List.not_mem_nil⟩
    · rw [hunread, List.append_nil]
      exact List.cons_prefix_cons.2 ⟨rfl, hinside.begins⟩
    · rw [List.append_nil]
      exact within_open_iff.2 hinside.within
  rcases limited_cases d .expr c.next with hnil | ⟨v, e, hsingle⟩
  · exact hunclosed (successes_factor_open_nil h ((successes_innerParser_succ d _).trans hnil))
  · have hinner := (successes_innerParser_succ d _).trans hsingle
    by_cases hclosed : ∃ ys, e.unread = ')' :: ys
    · obtain ⟨ys, hys⟩ := hclosed
      have hends : Rule.expr.Ends e.unread := by
        rw [hys]
        exact Rule.ends_of_notMem (by decide) ys
      obtain ⟨hreads, hbalanced⟩ := hinside.whole ⟨v, e⟩ (by rw [hsingle]; exact .head _) hends
      have hreads' : c.Reads ('(' :: (w ++ [')'])) e.next :=
        (Cursor.reads_next h).trans (hreads.trans (Cursor.reads_next hys))
      refine ⟨[')'], ⟨⟨_, hreads'.unread_eq.symm⟩, ?_, fun x hx _ => ?_⟩, by decide⟩
      · rw [within_open_iff, within_append_iff hbalanced]
        exact ⟨hinside.within, within_of_notMem d (by decide)⟩
      · have hsuccess : (limited (d + 1) .factor c).outcome.successes = [⟨v, e.next⟩] :=
          successes_factor_closed h hinner hys
        rw [hsuccess, List.mem_singleton] at hx
        rw [hx]
        refine ⟨hreads', ?_⟩
        have hclose : [')'].count '(' = 0 := rfl
        have hclose' : [')'].count ')' = 1 := rfl
        rw [Balanced, count_open, count_close_open, List.count_append, List.count_append, hclose,
          hclose', hbalanced]
    · exact hunclosed (successes_factor_unclosed h hinner fun ys hys => hclosed ⟨ys, hys⟩)

end Factor

section Chain

variable {d : Nat} {k r : Rule} {c e : Cursor} {v : Int} {xs w w' : List Char} {expected : String}
  (L : Link k r)

/-- A chain that stops has read what its operand has read. -/
theorem Spans.stop (hparser : limited d r = L.parser expected (limited d k) (limited d r))
    (hoperand : Spans d k c w)
    (h : ∀ x ∈ (limited d k c).outcome.successes, ∀ xs, x.rest.unread ≠ L.op :: xs) :
    Spans d r c w where
  begins := hoperand.begins
  within := hoperand.within
  whole := by
    intro x hx hends
    rcases limited_cases d k c with hnil | ⟨v, e, hsingle⟩
    · rw [hparser, Link.parser, successes_chain_nil hnil] at hx
      exact absurd hx List.not_mem_nil
    · have hmem : ⟨v, e⟩ ∈ (limited d k c).outcome.successes := by
        rw [hsingle]
        exact .head _
      rw [hparser, Link.parser,
        successes_chain_stop hsingle fun xs hxs => absurd hxs (h _ hmem xs)] at hx
      rw [rest_eq_of_mem_ifInRange hx] at hends ⊢
      exact hoperand.whole _ hmem (L.ends_iff.1 hends).1

/-- A chain that goes on has read its operand, the operator, and what its rest has read. What it
    falls back to without a rest stands before the operator. -/
theorem Spans.go (hparser : limited d r = L.parser expected (limited d k) (limited d r))
    (hoperand : Spans d k c w) (hsingle : (limited d k c).outcome.successes = [⟨v, e⟩])
    (hop : e.unread = L.op :: xs) (hrest : Spans d r e.next w') :
    Spans d r c (w ++ [L.op] ++ w') ∧ c.Reads (w ++ [L.op]) e.next := by
  have hends : k.Ends e.unread := by
    rw [hop]
    exact Rule.ends_of_notMem L.op_notMem xs
  obtain ⟨hreads, hbalanced⟩ := hoperand.whole ⟨v, e⟩ (by rw [hsingle]; exact .head _) hends
  have hoperator : L.op ∈ Rule.expr.operators := Rule.operators_subset L.op_mem
  have hread : c.Reads (w ++ [L.op]) e.next := hreads.trans (Cursor.reads_next hop)
  have hbalanced' : Balanced (w ++ [L.op]) := hbalanced.append (balanced_operator hoperator)
  refine ⟨⟨?_, ?_, fun x hx hends => ?_⟩, hread⟩
  · rw [hread.unread_eq]
    exact (List.prefix_append_right_inj _).2 hrest.begins
  · rw [within_append_iff hbalanced', within_append_iff hbalanced]
    exact ⟨⟨hoperand.within, within_operator d hoperator⟩, hrest.within⟩
  · rcases limited_cases d r e.next with hnil | ⟨b, f, hsingle'⟩
    · rw [hparser, Link.parser, successes_chain_stop hsingle fun _ _ => hnil] at hx
      rw [rest_eq_of_mem_ifInRange hx] at hends
      exact absurd hop (hends L.op L.op_mem xs)
    · rw [hparser, Link.parser, successes_chain_step hsingle hop hsingle'] at hx
      rw [rest_eq_of_mem_ifInRange hx] at hends ⊢
      obtain ⟨hreads', hbalanced''⟩ :=
        hrest.whole ⟨b, f⟩ (by rw [hsingle']; exact .head _) hends
      exact ⟨hread.trans hreads', hbalanced'.append hbalanced''⟩

end Chain

/-- **No parenthesis is passed twice.** The parentheses passed are those of a beginning of the text,
    and this is what has been read where the rule succeeds and none of its operators follows. -/
theorem Passes.exists_spans {d : Nat} {r : Rule} {c : Cursor} {os : List Nat}
    (h : Passes d r c os) : ∃ w, Spans d r c w ∧ os = openings w c.offset := by
  induction h with
  | @unopened d c h =>
      obtain ⟨w, hspans, hnotMem⟩ := exists_spans_unopened d h
      exact ⟨w, hspans, (openings_of_notMem hnotMem _).symm⟩
  | beyond h => exact ⟨[], spans_beyond h, rfl⟩
  | @opened d c xs os h _ ih =>
      obtain ⟨w, hspans, rfl⟩ := ih
      obtain ⟨tail, hspans', hnotMem⟩ := hspans.exists_opened h
      have hoffset : c.next.offset = c.offset + 1 := by
        rw [Cursor.next_eq_after h, Cursor.offset_after, List.length_singleton]
      refine ⟨_, hspans', ?_⟩
      rw [openings_open, openings_append, openings_of_notMem hnotMem, List.append_nil, hoffset]
  | stops hchain _ h ih =>
      obtain ⟨w, hspans, rfl⟩ := ih
      obtain ⟨L, expected, rfl, hparser⟩ := hchain.exists_link
      exact ⟨w, hspans.stop L (hparser _) h, rfl⟩
  | @goes d k r op c x xs os os' hchain _ hx hop _ ihoperand ihrest =>
      obtain ⟨w, hoperand, rfl⟩ := ihoperand
      obtain ⟨w', hrest, rfl⟩ := ihrest
      obtain ⟨L, expected, rfl, hparser⟩ := hchain.exists_link
      obtain ⟨hspans, hread⟩ := hoperand.go L (hparser d) (eq_singleton_of_mem hx) hop hrest
      have hnotMem : '(' ∉ [L.op] := by
        rcases eq_of_mem_operators (Rule.operators_subset L.op_mem) with hop | hop <;>
          rw [hop] <;> decide
      refine ⟨_, hspans, ?_⟩
      rw [openings_append, openings_append, openings_of_notMem hnotMem, List.append_nil,
        hread.eq_after, Cursor.offset_after]

/-- The parentheses that a rule passes are decided by where it is applied. -/
theorem Passes.unique {d : Nat} {r : Rule} {c : Cursor} {os os' : List Nat} (h : Passes d r c os)
    (h' : Passes d r c os') : os = os' := by
  have hlength : os.length = os'.length := by
    have hevents := congrArg List.length (h.events_eq.symm.trans h'.events_eq)
    rw [List.length_replicate, List.length_replicate] at hevents
    omega
  obtain ⟨w, hspans, rfl⟩ := h.exists_spans
  obtain ⟨w', hspans', rfl⟩ := h'.exists_spans
  have hbegins := List.prefix_of_prefix_length_le (openings_begins hspans.begins c.offset)
    (openings_begins hspans'.begins c.offset) (Nat.le_of_eq hlength)
  exact hbegins.eq_of_length hlength

end Parsing.Arithmetic
