import Parsing.Proofs.Arithmetic.Tree

set_option autoImplicit false

/-! # Stages of an expression

While an expression is read from left to right, two things decide how it may go on: how many
parentheses are open, and whether an operand is due. These are the stages of a machine that accepts
the sentences of `expr` (`walk_text`, `exists_tree_of_walk`). The texts that it can walk through
without getting stuck are therefore the beginnings of expressions (`begins_iff`).

Between parentheses the machine does what it does outside, one level deeper (`walk_deeper`). -/

namespace Parsing.Arithmetic

/-- How far an expression has come: the number of open parentheses, and whether an operand is
    due. -/
structure Stage where
  depth : Nat
  due : Bool
  deriving DecidableEq, Repr

namespace Stage

/-- Nothing has been read. -/
def start : Stage := ⟨0, true⟩

/-- The expression may end. -/
def done : Stage := ⟨0, false⟩

/-- The stage behind a character that may stand next. -/
def next : Stage → Char → Option Stage
  | ⟨n, true⟩, x =>
    if x.isDigit then some ⟨n, false⟩ else if x = '(' then some ⟨n + 1, true⟩ else none
  | ⟨n, false⟩, x =>
    if x ∈ Rule.expr.operators then some ⟨n, true⟩
    else if x = ')' then
      match n with
      | 0 => none
      | m + 1 => some ⟨m, false⟩
    else none

/-- The stage behind a text. -/
def walk : Stage → List Char → Option Stage
  | q, [] => some q
  | q, x :: xs => (q.next x).bind fun q' => q'.walk xs

/-- What stands next cannot follow, or the text ends too early. -/
def Refuses (q : Stage) : Option Char → Prop
  | none => q ≠ done
  | some x => q.next x = none

/-- What may stand next. -/
def labels : Stage → List String
  | ⟨_, true⟩ => ["digit", "'('"]
  | ⟨0, false⟩ => ["'*'", "'+'", "end of input"]
  | ⟨_ + 1, false⟩ => ["'*'", "'+'", "')'"]

/-- The same stage between parentheses. -/
def deeper (q : Stage) : Stage := ⟨q.depth + 1, q.due⟩

theorem labels_ne_nil (q : Stage) : q.labels ≠ [] := by
  unfold labels
  split <;> exact List.cons_ne_nil _ _

/-! ## Walking -/

@[simp] theorem walk_nil (q : Stage) : q.walk [] = some q := rfl

@[simp] theorem walk_cons (q : Stage) (x : Char) (xs : List Char) :
    q.walk (x :: xs) = (q.next x).bind fun q' => q'.walk xs := rfl

theorem walk_append (q : Stage) (u v : List Char) :
    q.walk (u ++ v) = (q.walk u).bind fun q' => q'.walk v := by
  induction u generalizing q with
  | nil => rfl
  | cons x xs ih =>
      rw [List.cons_append, walk_cons, walk_cons, Option.bind_assoc]
      congr 1
      funext q'
      exact ih q'

theorem walk_append_of_some {q q' : Stage} {u : List Char} (h : q.walk u = some q')
    (v : List Char) : q.walk (u ++ v) = q'.walk v := by
  rw [walk_append, h, Option.bind_some]

/-- One character further: an operand begins or is complete, an operator follows it, or the
    parenthesis around it is closed. -/
inductive Step : Stage → Char → Stage → Prop where
  | digit (n : Nat) {x : Char} (h : x.isDigit = true) : Step ⟨n, true⟩ x ⟨n, false⟩
  | opened (n : Nat) : Step ⟨n, true⟩ '(' ⟨n + 1, true⟩
  | operator (n : Nat) {op : Char} (h : op ∈ Rule.expr.operators) : Step ⟨n, false⟩ op ⟨n, true⟩
  | closed (n : Nat) : Step ⟨n + 1, false⟩ ')' ⟨n, false⟩

theorem next_eq_some_iff {q q' : Stage} {x : Char} : q.next x = some q' ↔ Step q x q' := by
  constructor
  · intro h
    obtain ⟨n, due⟩ := q
    cases due with
    | true =>
        simp only [next] at h
        split at h
        · next hx =>
            rw [← Option.some.inj h]
            exact .digit n hx
        · split at h
          · next hx =>
              rw [← Option.some.inj h, hx]
              exact .opened n
          · exact absurd h nofun
    | false =>
        simp only [next] at h
        split at h
        · next hx =>
            rw [← Option.some.inj h]
            exact .operator n hx
        · split at h
          · next hx =>
              cases n with
              | zero => exact absurd h nofun
              | succ n =>
                  rw [← Option.some.inj h, hx]
                  exact .closed n
          · exact absurd h nofun
  · intro h
    cases h with
    | digit n hx => exact if_pos hx
    | opened n => rfl
    | operator n hop => exact if_pos hop
    | closed n => rfl

theorem next_eq_none_of_due {x : Char} (hdigit : ¬ x.isDigit = true) (hopen : x ≠ '(') (n : Nat) :
    next ⟨n, true⟩ x = none := by
  simp only [next, if_neg hdigit, if_neg hopen]

theorem next_eq_none_of_not_due {x : Char} (hop : x ∉ Rule.expr.operators) {n : Nat}
    (hclose : x = ')' → n = 0) : next ⟨n, false⟩ x = none := by
  simp only [next, if_neg hop]
  split
  · next hx => rw [hclose hx]
  · rfl

theorem walk_step {q q' : Stage} {x : Char} (h : Step q x q') (xs : List Char) :
    q.walk (x :: xs) = q'.walk xs := by
  rw [walk_cons, next_eq_some_iff.2 h, Option.bind_some]

theorem exists_step_of_walk {q q' : Stage} {x : Char} {xs : List Char}
    (h : q.walk (x :: xs) = some q') : ∃ q₁, Step q x q₁ ∧ q₁.walk xs = some q' := by
  rw [walk_cons, Option.bind_eq_some_iff] at h
  obtain ⟨q₁, hq₁, h⟩ := h
  exact ⟨q₁, next_eq_some_iff.1 hq₁, h⟩

/-- A sentence serves as an operand, at any depth. -/
theorem walk_text {r : Rule} (T : Tree r) (n : Nat) : walk ⟨n, true⟩ T.text = some ⟨n, false⟩ := by
  induction T generalizing n with
  | digit x h => exact walk_step (.digit n h) []
  | parens e ih =>
      rw [Tree.text, walk_step (.opened n), walk_append_of_some (ih (n + 1)), walk_step (.closed n)]
      rfl
  | single f ih => exact ih n
  | product f t ihf iht =>
      rw [Tree.text, walk_append_of_some (ihf n), walk_step (.operator n (by decide))]
      exact iht n
  | alone t ih => exact ih n
  | sum t e iht ihe =>
      rw [Tree.text, walk_append_of_some (iht n), walk_step (.operator n (by decide))]
      exact ihe n

/-- Behind an operator an operand is due at the same depth. -/
theorem walk_text_operator {r : Rule} (T : Tree r) {op : Char} (hop : op ∈ Rule.expr.operators)
    (n : Nat) : walk ⟨n, true⟩ (T.text ++ [op]) = some ⟨n, true⟩ := by
  rw [walk_append_of_some (walk_text T n), walk_step (.operator n hop)]
  rfl

/-! ## Deeper levels -/

theorem deeper_ne_done (q : Stage) : q.deeper ≠ done := by
  intro h
  exact absurd (congrArg depth h) (Nat.succ_ne_zero q.depth)

/-- Unless the expression may end, what may stand next is the same between parentheses. -/
theorem labels_deeper {q : Stage} (hq : q ≠ done) : q.deeper.labels = q.labels := by
  obtain ⟨n, due⟩ := q
  cases due with
  | true => rfl
  | false =>
      cases n with
      | zero => exact absurd rfl hq
      | succ n => rfl

theorem Step.deeper {q q' : Stage} {x : Char} (h : Step q x q') : Step q.deeper x q'.deeper := by
  cases h with
  | digit n hx => exact .digit (n + 1) hx
  | opened n => exact .opened (n + 1)
  | operator n hop => exact .operator (n + 1) hop
  | closed n => exact .closed (n + 1)

/-- What can follow between parentheses can follow outside, unless it closes them. -/
theorem Step.of_deeper {q q' : Stage} {x : Char} (h : Step q.deeper x q') (hq : q ≠ done) :
    ∃ q₁, Step q x q₁ := by
  obtain ⟨n, due⟩ := q
  have hdeeper : Step ⟨n + 1, due⟩ x q' := h
  cases hdeeper with
  | digit _ hx => exact ⟨_, .digit n hx⟩
  | opened => exact ⟨_, .opened n⟩
  | operator _ hop => exact ⟨_, .operator n hop⟩
  | closed =>
      cases n with
      | zero => exact absurd rfl hq
      | succ n => exact ⟨_, .closed n⟩

theorem walk_deeper {q q' : Stage} {s : List Char} (h : q.walk s = some q') :
    q.deeper.walk s = some q'.deeper := by
  induction s generalizing q with
  | nil =>
      rw [walk_nil, Option.some.injEq] at h
      rw [h, walk_nil]
  | cons x xs ih =>
      obtain ⟨q₁, hstep, h⟩ := exists_step_of_walk h
      rw [walk_step hstep.deeper]
      exact ih h

/-- What cannot follow cannot follow between parentheses either, unless they may be closed. -/
theorem Refuses.deeper {q : Stage} {x : Option Char} (h : q.Refuses x) (hq : q ≠ done) :
    q.deeper.Refuses x := by
  cases x with
  | none => exact q.deeper_ne_done
  | some x =>
      show q.deeper.next x = none
      rw [Option.eq_none_iff_forall_ne_some]
      intro q' hq'
      obtain ⟨q₁, hq₁⟩ := (next_eq_some_iff.1 hq').of_deeper hq
      have hnone : q.next x = none := h
      rw [next_eq_some_iff.2 hq₁] at hnone
      exact absurd hnone nofun

/-! ## Sentences -/

/-- Nothing, or an operator with an expression behind it. -/
def IsTail (s : List Char) : Prop :=
  s = [] ∨ ∃ op ∈ Rule.expr.operators, ∃ e : Tree .expr, s = op :: e.text

/-- `n` closing parentheses, each with a tail behind it. -/
def Closes : Nat → List Char → Prop
  | 0, s => s = []
  | n + 1, s => ∃ tail rest, s = ')' :: (tail ++ rest) ∧ IsTail tail ∧ Closes n rest

/-- A factor and a tail are an expression. -/
theorem exists_tree_of_isTail (f : Tree .factor) {tail : List Char} (h : IsTail tail) :
    ∃ e : Tree .expr, e.text = f.text ++ tail := by
  rcases h with rfl | ⟨op, hop, e, rfl⟩
  · exact ⟨.alone (.single f), (List.append_nil _).symm⟩
  · rcases eq_of_mem_operators hop with rfl | rfl
    · exact ⟨.sum (.single f) e, rfl⟩
    · cases e with
      | alone t => exact ⟨.alone (.product f t), rfl⟩
      | sum t e =>
          refine ⟨.sum (.product f t) e, ?_⟩
          simp only [Tree.text, List.append_assoc, List.cons_append]

/-- What leads to the end of the open parentheses is an operand where one is due, and otherwise a
    tail, and then what closes them. -/
theorem closes_of_walk (s : List Char) (n : Nat) :
    (walk ⟨n, true⟩ s = some done → ∃ (e : Tree .expr) (rest : List Char),
      s = e.text ++ rest ∧ Closes n rest) ∧
    (walk ⟨n, false⟩ s = some done → ∃ tail rest : List Char,
      s = tail ++ rest ∧ IsTail tail ∧ Closes n rest) := by
  induction s generalizing n with
  | nil =>
      refine ⟨fun h => absurd h nofun, fun h => ?_⟩
      rw [walk_nil, Option.some.injEq, done, Stage.mk.injEq] at h
      rw [h.1]
      exact ⟨[], [], rfl, .inl rfl, rfl⟩
  | cons x xs ih =>
      constructor
      · intro h
        obtain ⟨q, hstep, h⟩ := exists_step_of_walk h
        cases hstep with
        | digit _ hx =>
            obtain ⟨tail, rest, rfl, htail, hrest⟩ := (ih n).2 h
            obtain ⟨e, he⟩ := exists_tree_of_isTail (.digit x hx) htail
            refine ⟨e, rest, ?_, hrest⟩
            rw [he]
            rfl
        | opened =>
            obtain ⟨e, rest, rfl, tail, rest', rfl, htail, hrest'⟩ := (ih (n + 1)).1 h
            obtain ⟨e', he'⟩ := exists_tree_of_isTail (.parens e) htail
            refine ⟨e', rest', ?_, hrest'⟩
            rw [he']
            simp only [Tree.text, List.append_assoc, List.cons_append, List.nil_append]
      · intro h
        obtain ⟨q, hstep, h⟩ := exists_step_of_walk h
        cases hstep with
        | operator _ hop =>
            obtain ⟨e, rest, rfl, hrest⟩ := (ih n).1 h
            exact ⟨x :: e.text, rest, rfl, .inr ⟨x, hop, e, rfl⟩, hrest⟩
        | closed m =>
            obtain ⟨tail, rest, rfl, htail, hrest⟩ := (ih m).2 h
            exact ⟨[], _, rfl, .inl rfl, tail, rest, rfl, htail, hrest⟩

/-- What leads from the start to where an expression may end is an expression. -/
theorem exists_tree_of_walk {s : List Char} (h : start.walk s = some done) :
    ∃ T : Tree .expr, T.text = s := by
  obtain ⟨e, rest, rfl, hrest⟩ := (closes_of_walk s 0).1 h
  have hnil : rest = [] := hrest
  rw [hnil, List.append_nil]
  exact ⟨e, rfl⟩

/-! ## Beginnings -/

/-- A shortest way to end an expression that has come to the stage. -/
def completion (q : Stage) : List Char :=
  (if q.due then ['0'] else []) ++ List.replicate q.depth ')'

theorem walk_completion (q : Stage) : q.walk q.completion = some done := by
  obtain ⟨n, due⟩ := q
  have hclose : walk ⟨n, false⟩ (List.replicate n ')') = some done := by
    induction n with
    | zero => rfl
    | succ n ih => rw [List.replicate_succ, walk_step (.closed n), ih]
  cases due with
  | true =>
      rw [completion, if_pos rfl, List.singleton_append, walk_step (.digit n (by decide)), hclose]
  | false => exact hclose

end Stage

/-- An expression can begin with `u`. -/
def Begins (u : List Char) : Prop := ∃ T : Tree .expr, u <+: T.text

/-- The machine walks through the beginnings of expressions, and through nothing else. -/
theorem begins_iff {u : List Char} : Begins u ↔ ∃ q, Stage.start.walk u = some q := by
  constructor
  · rintro ⟨T, s, hs⟩
    have hwalk : Stage.start.walk (u ++ s) = some Stage.done := by
      rw [hs]
      exact Stage.walk_text T 0
    rw [Stage.walk_append, Option.bind_eq_some_iff] at hwalk
    obtain ⟨q, hq, _⟩ := hwalk
    exact ⟨q, hq⟩
  · rintro ⟨q, hq⟩
    have hwalk : Stage.start.walk (u ++ q.completion) = some Stage.done := by
      rw [Stage.walk_append_of_some hq, Stage.walk_completion]
    obtain ⟨T, hT⟩ := Stage.exists_tree_of_walk hwalk
    exact ⟨T, q.completion, hT.symm⟩

/-- `u` is the longest beginning of an expression that `s` begins with. -/
def IsLongestBeginning (u s : List Char) : Prop :=
  u <+: s ∧ Begins u ∧ ∀ v, v <+: s → Begins v → v.length ≤ u.length

theorem IsLongestBeginning.unique {u v s : List Char} (hu : IsLongestBeginning u s)
    (hv : IsLongestBeginning v s) : u = v :=
  (List.prefix_of_prefix_length_le hu.1 hv.1 (hv.2.2 u hu.1 hu.2.1)).eq_of_length_le
    (hu.2.2 v hv.1 hv.2.1)

namespace Stage

/-- Where the machine gets stuck, or the text ends too early, its longest beginning ends. -/
theorem Refuses.isLongestBeginning {s u rest : List Char} {q : Stage} (h : q.Refuses rest.head?)
    (hq : start.walk u = some q) (hs : s = u ++ rest) : IsLongestBeginning u s := by
  subst hs
  refine ⟨List.prefix_append u rest, begins_iff.2 ⟨q, hq⟩, fun v hv hbegins => ?_⟩
  cases rest with
  | nil =>
      rw [List.append_nil] at hv
      exact hv.length_le
  | cons x xs =>
      rcases Nat.lt_or_ge u.length v.length with hlt | hle
      · obtain ⟨w, rfl⟩ := List.prefix_of_prefix_length_le (List.prefix_append u (x :: xs)) hv
          (Nat.le_of_lt hlt)
        obtain ⟨q', hq'⟩ := begins_iff.1 hbegins
        rw [walk_append_of_some hq] at hq'
        cases w with
        | nil => simp at hlt
        | cons y ys =>
            have hy : y = x := (List.cons_prefix_cons.1 ((List.prefix_append_right_inj u).1 hv)).1
            have hnone : q.next x = none := h
            rw [hy, walk_cons, hnone] at hq'
            exact absurd hq' nofun
      · exact hle

/-- A sentence is not refused on the way, nor at its end. -/
theorem not_refuses_of_text {T : Tree .expr} {u rest : List Char} {q : Stage}
    (hT : T.text = u ++ rest) (hq : start.walk u = some q) : ¬ q.Refuses rest.head? := by
  intro h
  have hwalk : q.walk rest = some done := by
    rw [← walk_append_of_some hq, ← hT]
    exact walk_text T 0
  cases rest with
  | nil => exact h (Option.some.inj hwalk)
  | cons x xs =>
      have hnone : q.next x = none := h
      rw [walk_cons, hnone] at hwalk
      exact absurd hwalk nofun

/-! ## Stages from the text alone -/

theorem Step.count {q q' : Stage} {x : Char} (h : Step q x q') :
    q.depth + [x].count '(' = q'.depth + [x].count ')' := by
  cases h with
  | digit n hx =>
      have hopen : x ≠ '(' := Tree.ne_of_isDigit hx (by decide)
      have hclose : x ≠ ')' := Tree.ne_of_isDigit hx (by decide)
      simp [hopen, hclose]
  | opened n => simp
  | operator n hop =>
      rcases eq_of_mem_operators hop with rfl | rfl <;> simp
  | closed n => simp

/-- The depth is the number of parentheses opened and not closed. -/
theorem walk_count {q q' : Stage} {s : List Char} (h : q.walk s = some q') :
    q.depth + s.count '(' = q'.depth + s.count ')' := by
  induction s generalizing q with
  | nil =>
      rw [walk_nil, Option.some.injEq] at h
      simp [h]
  | cons x xs ih =>
      obtain ⟨q₁, hstep, h⟩ := exists_step_of_walk h
      have hcount := hstep.count
      have hrest := ih h
      rw [← List.singleton_append, List.count_append, List.count_append]
      omega

/-- The characters behind which an operand is due. -/
def openers : List Char := ['(', '+', '*']

theorem Step.due_iff {q q' : Stage} {x : Char} (h : Step q x q') :
    q'.due = true ↔ x ∈ openers := by
  cases h with
  | digit n hx =>
      constructor
      · exact nofun
      · intro hmem
        simp only [openers, List.mem_cons, List.not_mem_nil, or_false] at hmem
        rcases hmem with rfl | rfl | rfl <;> exact absurd hx (by decide)
  | opened n => simp [openers]
  | operator n hop =>
      rcases eq_of_mem_operators hop with rfl | rfl <;> simp [openers]
  | closed n => simp [openers]

/-- An operand is due at the start, and behind a parenthesis or an operator. -/
theorem due_iff {u : List Char} {q : Stage} (h : start.walk u = some q) :
    q.due = true ↔ ∀ x, u.getLast? = some x → x ∈ openers := by
  rcases List.eq_nil_or_concat u with rfl | ⟨v, y, rfl⟩
  · rw [walk_nil, Option.some.injEq] at h
    rw [← h]
    simp [start]
  · rw [List.concat_eq_append, walk_append, Option.bind_eq_some_iff] at h
    obtain ⟨q₁, _, h⟩ := h
    obtain ⟨q₂, hstep, h⟩ := exists_step_of_walk h
    rw [walk_nil, Option.some.injEq] at h
    rw [← h, hstep.due_iff]
    simp

end Stage

/-- The labels of what may follow a beginning of an expression: an operand at its start and behind
    a parenthesis or an operator; otherwise an operator, or else the closing parenthesis if one is
    open, or the end. -/
def mayFollow (u : List Char) : List String :=
  if u.getLast?.all (· ∈ Stage.openers) then ["digit", "'('"]
  else if u.count ')' < u.count '(' then ["'*'", "'+'", "')'"]
  else ["'*'", "'+'", "end of input"]

theorem mayFollow_eq {u : List Char} {q : Stage} (h : Stage.start.walk u = some q) :
    mayFollow u = q.labels := by
  have hcount : u.count '(' = q.depth + u.count ')' := by
    have := Stage.walk_count h
    simpa [Stage.start] using this
  have hdue := Stage.due_iff h
  obtain ⟨n, due⟩ := q
  cases due with
  | true =>
      have hlast : u.getLast?.all (· ∈ Stage.openers) = true := by
        have := hdue.1 rfl
        cases hu : u.getLast? with
        | none => rfl
        | some x => simpa using this x hu
      rw [mayFollow, if_pos hlast, Stage.labels]
  | false =>
      have hlast : ¬ u.getLast?.all (· ∈ Stage.openers) = true := by
        intro hall
        have : false = true := hdue.2 fun x hx => by simpa [hx] using hall
        exact absurd this nofun
      rw [mayFollow, if_neg hlast]
      cases n with
      | zero =>
          have hle : ¬ u.count ')' < u.count '(' := by
            simp only at hcount
            omega
          rw [if_neg hle, Stage.labels]
      | succ n =>
          have hlt : u.count ')' < u.count '(' := by
            simp only at hcount
            omega
          rw [if_pos hlt, Stage.labels]

end Parsing.Arithmetic
