import Parsing.Proofs.Arithmetic.Nesting
import Parsing.Proofs.Arithmetic.Stage

set_option autoImplicit false

/-! # Whole sentences and halts

Two things can happen to a rule that is applied somewhere, with a nesting limit or without. Either
it reads a `Whole` sentence, which no operator of the rule follows: the furthest failure is then at
the end of the sentence, where the operators of the rule were tried, or before it. Or it comes to a
`Halt`: at a character that no expression goes on with, at a sum or product out of range, or at a
parenthesis beyond the limit.

Whole operands make whole chains, and whole expressions whole factors. A halt of an operand, of a
rest, or between parentheses is a halt of what stands around it, with the same failure. -/

namespace Parsing.Arithmetic

open Failure

/-! ## Sentences that end -/

/-- No operator of the rule stands next. -/
def Rule.Ends (r : Rule) (rest : List Char) : Prop := ∀ op ∈ r.operators, ∀ xs, rest ≠ op :: xs

/-- No sentence of the rule that `s` begins with, and that ends there, fits. -/
def Rule.Overflows (r : Rule) (s : List Char) : Prop :=
  ∀ (T : Tree r) (rest : List Char), s = T.text ++ rest → r.Ends rest → ¬ T.Fits

/-- `f` is the furthest failure of a sentence of the rule that ends at `d`: there the operators of
    the rule were tried, if it has any. -/
def Rule.Tried (r : Rule) (d : Cursor) (f : Option Failure) : Prop :=
  if r.operators = [] then Before f d.offset
  else f = some (expecting d (r.operators.map Quoted.char))

namespace Rule

theorem Ends.stuck {r : Rule} {rest : List Char} (h : r.Ends rest) : r.Stuck rest := by
  intro op hop xs hxs
  exact absurd hxs (h op hop xs)

theorem ends_nil (r : Rule) : r.Ends [] := by
  intro op _ xs h
  exact absurd h (List.cons_ne_nil op xs).symm

theorem ends_of_notMem {r : Rule} {x : Char} (h : x ∉ r.operators) (xs : List Char) :
    r.Ends (x :: xs) := by
  intro op hop ys heq
  rw [List.cons.injEq] at heq
  rw [heq.1] at h
  exact h hop

theorem Ends.notMem {r : Rule} {x : Char} {xs : List Char} (h : r.Ends (x :: xs)) :
    x ∉ r.operators := fun hx => h x hx xs rfl

theorem ends_factor (rest : List Char) : Rule.factor.Ends rest := by
  intro op hop
  exact absurd hop List.not_mem_nil

theorem Tried.before {r : Rule} {d : Cursor} {f : Option Failure} {n : Nat} (h : r.Tried d f)
    (hd : d.offset < n) : Before f n := by
  unfold Tried at h
  split at h
  · exact h.mono (Nat.le_of_lt hd)
  · rw [h, before_some]
    exact hd

end Rule

namespace Link

variable {k r : Rule} (L : Link k r) {s s' rest : List Char}

theorem ends_iff : r.Ends rest ↔ k.Ends rest ∧ ∀ xs, rest ≠ L.op :: xs := by
  simp only [Rule.Ends, L.operators_eq, List.mem_cons, forall_eq_or_imp]
  exact And.comm

include L in
theorem tried_iff {d : Cursor} {f : Option Failure} :
    r.Tried d f ↔ f = some (expecting d (r.operators.map Quoted.char)) := by
  have hne : r.operators ≠ [] := List.ne_nil_of_mem L.op_mem
  rw [Rule.Tried, if_neg hne]

/-- Behind the operand the operator of the chain is tried too. -/
theorem tried_of_operand {d : Cursor} {f : Option Failure} (h : k.Tried d f) :
    r.Tried d (mergeOptions f (some (expecting d [Quoted.char L.op]))) := by
  rw [L.tried_iff, L.operators_eq]
  unfold Rule.Tried at h
  split at h
  · next hk =>
      rw [mergeOptions_of_before_left (g := expecting d [Quoted.char L.op]) h, hk]
      rfl
  · rw [h, mergeOptions_some, merge_expecting]
    exact congrArg some (expecting_of_perm d (List.perm_append_comm))

include L in
theorem overflows_operand (h : k.Overflows s) : r.Overflows s := by
  intro T rest hs hends hfits
  rcases L.shape T with ⟨a, rfl⟩ | ⟨a, b, rfl⟩
  · rw [L.text_one] at hs
    exact h a rest hs (L.ends_iff.1 hends).1 ((L.fits_one a).1 hfits)
  · rw [L.text_more, List.append_assoc, List.cons_append] at hs
    exact h a _ hs (Rule.ends_of_notMem L.op_notMem _) ((L.fits_more a b).1 hfits).1

theorem overflows_rest {a : Tree k} (hs : s = a.text ++ L.op :: s') (h : r.Overflows s') :
    r.Overflows s := by
  intro T rest hT hends hfits
  have hstuck : k.Stuck (L.op :: s') := Rule.stuck_of_notMem L.op_notMem s'
  rcases L.shape T with ⟨a', rfl⟩ | ⟨a', b', rfl⟩
  -- A sentence that is the operand alone does not end there: the operator follows.
  · rw [L.text_one] at hT
    obtain ⟨_, rfl⟩ := Tree.eq_of_stuck (hs.symm.trans hT) hstuck (L.ends_iff.1 hends).1.stuck
    exact (L.ends_iff.1 hends).2 s' rfl
  · rw [L.text_more, List.append_assoc, List.cons_append] at hT
    obtain ⟨_, hrest⟩ := Tree.eq_of_stuck (hs.symm.trans hT) hstuck
      (Rule.stuck_of_notMem L.op_notMem _)
    rw [List.cons.injEq] at hrest
    exact h b' rest hrest.2 hends ((L.fits_more a' b').1 hfits).2.1

theorem overflows_join {a : Tree k} {b : Tree r} (hs : s = (L.more a b).text ++ rest)
    (hends : r.Ends rest) (h : ¬ InRange (L.join a.value b.value)) : r.Overflows s := by
  intro T rest' hT hends' hfits
  obtain ⟨rfl, _⟩ := Tree.eq_of_stuck (hs.symm.trans hT) hends.stuck hends'.stuck
  exact h ((L.fits_more a b).1 hfits).2.2

end Link

theorem overflows_parens {s s' : List Char} (hs : s = '(' :: s') (h : Rule.expr.Overflows s') :
    Rule.factor.Overflows s := by
  intro T rest hT _ hfits
  rw [hs] at hT
  obtain ⟨e, tail, rfl, htail⟩ := exists_parens_of_prefix ⟨rest, hT.symm⟩
  exact h e (')' :: tail) htail (Rule.ends_of_notMem (by decide) tail) hfits

/-! ## Texts that a limit allows -/

/-- The text stays within the limit, if there is one. -/
def Allows (limit : Option Nat) (s : List Char) : Prop := ∀ d, limit = some d → Within d s

namespace Allows

variable {limit : Option Nat} {u v : List Char}

theorem append (hu : Allows limit u) (hbalanced : Balanced u) (hv : Allows limit v) :
    Allows limit (u ++ v) := by
  intro d hd
  exact (within_append_iff hbalanced).2 ⟨hu d hd, hv d hd⟩

theorem operator (limit : Option Nat) {op : Char} (h : op ∈ Rule.expr.operators) :
    Allows limit [op] := fun d _ => within_operator d h

theorem parens {e : Tree .expr} (h : Allows limit e.text) :
    Allows (limit.map (· + 1)) (Tree.parens e).text := by
  intro d hd
  rw [Option.map_eq_some_iff] at hd
  obtain ⟨d, hd, rfl⟩ := hd
  rw [Tree.text, within_open_iff, within_append_iff e.balanced_text]
  exact ⟨h d hd, within_of_notMem d (by decide)⟩

end Allows

/-! ## Whole sentences -/

/-- At `c` the rule reads the sentence `T` and ends in front of `rest`; `f` is the furthest failure
    then. -/
structure Whole (limit : Option Nat) (r : Rule) (c : Cursor) (T : Tree r) (rest : List Char)
    (f : Option Failure) : Prop where
  unread_eq : c.unread = T.text ++ rest
  ends : r.Ends rest
  fits : T.Fits
  allows : Allows limit T.text
  tried : r.Tried (c.after T.text) f

namespace Whole

variable {limit : Option Nat} {k r : Rule} {c : Cursor} {a : Tree k} {b : Tree r}
  {s rest : List Char} {f g : Option Failure}

theorem digit (limit : Option Nat) {x : Char} {xs : List Char} (hc : c.unread = x :: xs)
    (hx : x.isDigit = true) : Whole limit .factor c (.digit x hx) xs none where
  unread_eq := hc
  ends := Rule.ends_factor xs
  fits := trivial
  allows d _ := by
    apply within_of_notMem
    rw [Tree.text, List.mem_singleton]
    exact (Tree.ne_of_isDigit hx (by decide)).symm
  tried := before_none _

/-- The closing parenthesis stands behind all that was tried inside. -/
theorem parens {e : Tree .expr} (hc : c.unread = '(' :: s)
    (h : Whole limit .expr c.next e (')' :: rest) f) :
    Whole (limit.map (· + 1)) .factor c (.parens e) rest f where
  unread_eq := by
    rw [hc, ← Cursor.unread_next hc, h.unread_eq]
    simp only [Tree.text, List.cons_append, List.append_assoc, List.nil_append]
  ends := Rule.ends_factor rest
  fits := h.fits
  allows := h.allows.parens
  tried := by
    refine h.tried.before ?_
    rw [Cursor.next_eq_after hc, Cursor.offset_after, Cursor.offset_after, Cursor.offset_after]
    simp only [Tree.text, List.length_cons, List.length_append, List.length_nil]
    omega

theorem one (L : Link k r) (h : Whole limit k c a rest f) (hop : ∀ xs, rest ≠ L.op :: xs) :
    Whole limit r c (L.one a) rest
      (mergeOptions f (some (expecting (c.after a.text) [Quoted.char L.op]))) where
  unread_eq := by rw [L.text_one, h.unread_eq]
  ends := L.ends_iff.2 ⟨h.ends, hop⟩
  fits := (L.fits_one a).2 h.fits
  allows := by
    rw [L.text_one]
    exact h.allows
  tried := by
    rw [L.text_one]
    exact L.tried_of_operand h.tried

theorem rest_eq (L : Link k r) (ha : Whole limit k c a (L.op :: s) f)
    (hb : Whole limit r (c.after a.text).next b rest g) : s = b.text ++ rest := by
  rw [← Cursor.unread_after_next ha.unread_eq, hb.unread_eq]

theorem unread_more (L : Link k r) (ha : Whole limit k c a (L.op :: s) f)
    (hb : Whole limit r (c.after a.text).next b rest g) :
    c.unread = (L.more a b).text ++ rest := by
  rw [ha.unread_eq, ha.rest_eq L hb, L.text_more, List.append_assoc, List.cons_append]

theorem after_more (L : Link k r) (ha : Whole limit k c a (L.op :: s) f)
    (hb : Whole limit r (c.after a.text).next b rest g) :
    (c.after a.text).next.after b.text = c.after (L.more a b).text := by
  rw [Cursor.after_after_next ha.unread_eq (ha.rest_eq L hb), L.text_more]

theorem more (L : Link k r) (ha : Whole limit k c a (L.op :: s) f)
    (hb : Whole limit r (c.after a.text).next b rest g)
    (hrange : InRange (L.join a.value b.value)) : Whole limit r c (L.more a b) rest g where
  unread_eq := ha.unread_more L hb
  ends := hb.ends
  fits := (L.fits_more a b).2 ⟨ha.fits, hb.fits, hrange⟩
  allows := by
    have hop : L.op ∈ Rule.expr.operators := Rule.operators_subset L.op_mem
    rw [L.text_more, ← List.singleton_append]
    exact ha.allows.append a.balanced_text
      ((Allows.operator limit hop).append (balanced_operator hop) hb.allows)
  tried := by
    rw [← ha.after_more L hb]
    exact hb.tried

end Whole

/-! ## Halts -/

/-- The labels of a sum or a product out of range. -/
def overflowLabels : List String := ["product within i64 range", "sum within i64 range"]

/-- Why a rule that is applied at `c` comes to a halt, and the failure that tells it. -/
inductive Halt (limit : Option Nat) (r : Rule) (c : Cursor) : Failure → Prop where
  /-- No expression goes on, behind `w`, with what stands there. -/
  | refused {w rest : List Char} {q : Stage} (hc : c.unread = w ++ rest)
      (hwalk : Stage.start.walk w = some q) (hq : q ≠ .done) (hrefuses : q.Refuses rest.head?) :
      Halt limit r c (expecting (c.after w) q.labels)
  /-- A sum or a product is out of range. -/
  | overflow {f : Failure} {label : String} (hmem : label ∈ f.expected)
      (hlabel : label ∈ overflowLabels) (hoffset : c.offset ≤ f.position.offset)
      (hover : r.Overflows c.unread) : Halt limit r c f
  /-- A parenthesis opens a level beyond the limit. -/
  | tooDeep {d : Nat} {before rest : List Char} (hlimit : limit = some d)
      (hopening : FirstOpening d c.unread before rest) :
      Halt limit r c (expecting (c.after (before ++ ['('])) ["expression within nesting limit"])

namespace Halt

variable {limit : Option Nat} {k r : Rule} {c : Cursor} {f : Failure}

theorem offset_le (h : Halt limit r c f) : c.offset ≤ f.position.offset := by
  have hafter : ∀ w, c.offset ≤ (c.after w).offset := by
    intro w
    rw [Cursor.offset_after]
    exact Nat.le_add_right _ _
  cases h with
  | refused hc hwalk hq hrefuses => exact hafter _
  | overflow hmem hlabel hoffset hover => exact hoffset
  | tooDeep hlimit hopening => exact hafter _

/-- An operand that is halted halts its chain. -/
theorem of_operand (L : Link k r) (h : Halt limit k c f) : Halt limit r c f := by
  cases h with
  | refused hc hwalk hq hrefuses => exact .refused hc hwalk hq hrefuses
  | overflow hmem hlabel hoffset hover =>
      exact .overflow hmem hlabel hoffset (L.overflows_operand hover)
  | tooDeep hlimit hopening => exact .tooDeep hlimit hopening

/-- A rest that is halted behind a whole operand halts the chain. -/
theorem of_rest (L : Link k r) {a : Tree k} {s : List Char} {g : Option Failure}
    (ha : Whole limit k c a (L.op :: s) g) (h : Halt limit r (c.after a.text).next f) :
    Halt limit r c f := by
  have hop : L.op ∈ Rule.expr.operators := Rule.operators_subset L.op_mem
  have hnext : (c.after a.text).next = c.after (a.text ++ [L.op]) :=
    (Cursor.reads_after_next ha.unread_eq).eq_after
  have hs : (c.after a.text).next.unread = s := Cursor.unread_after_next ha.unread_eq
  have hsplit : c.unread = (a.text ++ [L.op]) ++ s := by
    rw [ha.unread_eq, List.append_assoc, List.singleton_append]
  have hoperand : Stage.start.walk (a.text ++ [L.op]) = some .start :=
    Stage.walk_text_operator a hop 0
  cases h with
  | refused hu hwalk hq hrefuses =>
      rw [hnext, ← Cursor.after_append]
      refine .refused ?_ ?_ hq hrefuses
      · rw [hsplit, ← hs, hu, ← List.append_assoc]
      · rw [Stage.walk_append_of_some hoperand, hwalk]
  | overflow hmem hlabel hoffset hover =>
      rw [hs] at hover
      refine .overflow hmem hlabel ?_ (L.overflows_rest ha.unread_eq hover)
      rw [hnext, Cursor.offset_after] at hoffset
      omega
  | @tooDeep d before rest hlimit hopening =>
      rw [hnext, ← Cursor.after_append, ← List.append_assoc]
      rw [hs] at hopening
      have hbalanced : Balanced (a.text ++ [L.op]) := a.balanced_text.append (balanced_operator hop)
      have hwithin : Within d (a.text ++ [L.op]) :=
        (ha.allows.append a.balanced_text (.operator limit hop)) d hlimit
      have hopening' := hopening.prepend hbalanced hwithin
      rw [← hsplit] at hopening'
      exact .tooDeep hlimit hopening'

/-- What halts between parentheses halts the factor, at a limit that is higher by one. -/
theorem of_parens {s : List Char} (hc : c.unread = '(' :: s) (h : Halt limit .expr c.next f) :
    Halt (limit.map (· + 1)) .factor c f := by
  have hnext : c.next = c.after ['('] := Cursor.next_eq_after hc
  have hs : c.next.unread = s := Cursor.unread_next hc
  cases h with
  | @refused w rest q hu hwalk hq hrefuses =>
      rw [hnext, ← Cursor.after_append, ← Stage.labels_deeper hq]
      refine .refused ?_ ?_ q.deeper_ne_done (hrefuses.deeper hq)
      · rw [hc, ← hs, hu]
        rfl
      · rw [List.singleton_append, Stage.start, Stage.walk_step (.opened 0)]
        exact Stage.walk_deeper hwalk
  | overflow hmem hlabel hoffset hover =>
      rw [hs] at hover
      refine .overflow hmem hlabel ?_ (overflows_parens hc hover)
      rw [hnext, Cursor.offset_after] at hoffset
      omega
  | @tooDeep d before rest hlimit hopening =>
      rw [hnext, ← Cursor.after_append, ← List.append_assoc]
      rw [hs] at hopening
      have hopening' := hopening.deeper
      rw [← hc] at hopening'
      refine .tooDeep ?_ hopening'
      rw [hlimit, Option.map_some]

end Halt

end Parsing.Arithmetic
