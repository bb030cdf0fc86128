import Parsing.Proofs.MonadLaws

set_option autoImplicit false

/-! # The laws of alternatives

`orElse` is associative, and `never` is neutral for it on both sides. That holds of whole runs: a
failure of an alternative given up is merged behind those of the alternatives after it, whichever
way they are grouped. A parser as an alternative to itself adds nothing to the outcome, but it is
applied twice where it fails.

`bind` distributes over `union` up to the order of failures. What continues the successes of `p` is
told behind the failures of `p` and `q` on one side and before those of `q` on the other, so the two
furthest failures agree where failures of one text are merged (`merge_comm`), as they are for the
parsers of grammars and of workspaces. -/

namespace Parsing

variable {α β : Type}

/-! ## Failures of one text can be merged in either order -/

namespace Failure

section OneText

variable {start : Cursor} {f g : Failure}

theorem OccursIn.merge_comm (hf : f.OccursIn start) (hg : g.OccursIn start) :
    f.merge g = g.merge f := by
  rcases Nat.lt_trichotomy f.position.offset g.position.offset with hlt | heq | hgt
  · rw [merge_of_gt hlt, merge_of_lt hlt]
  · obtain ⟨hposition, hfound⟩ := hf.place_eq hg heq
    simp [Failure.merge, hposition, hfound, LabelSet.union_comm]
  · rw [merge_of_lt hgt, merge_of_gt hgt]

end OneText

end Failure

namespace Run

variable {start : Cursor}

theorem FailsIn.append {r q : Run α} (hr : r.FailsIn start) (hq : q.FailsIn start) :
    (r.append q).FailsIn start := by
  intro e he
  rw [outcome_append, Outcome.furthest_append] at he
  cases hf : r.outcome.furthest with
  | none =>
      rw [hf] at he
      exact hq e he
  | some f =>
      cases hg : q.outcome.furthest with
      | none =>
          rw [hf, hg] at he
          exact hr e (hf.trans he)
      | some g =>
          rw [hf, hg, Failure.mergeOptions_some, Option.some.injEq] at he
          rw [← he]
          exact (hr f hf).merge (hq g hg)

theorem failsIn_gather {next : Success α → Run β} {xs : List (Success α)}
    (h : ∀ x ∈ xs, (next x).FailsIn start) : (gather next xs).FailsIn start := by
  induction xs with
  | nil =>
      intro e he
      cases he
  | cons x xs ih =>
      rw [gather_cons]
      refine (h x List.mem_cons_self).append ?_
      exact ih fun y hy => h y (List.mem_cons_of_mem x hy)

theorem FailsIn.mergeOptions_comm {r : Run α} {q : Run β} (hr : r.FailsIn start)
    (hq : q.FailsIn start) :
    Failure.mergeOptions r.outcome.furthest q.outcome.furthest
      = Failure.mergeOptions q.outcome.furthest r.outcome.furthest := by
  cases hf : r.outcome.furthest with
  | none => exact (Failure.mergeOptions_none_right _).symm
  | some f =>
      cases hg : q.outcome.furthest with
      | none => rfl
      | some g =>
          rw [Failure.mergeOptions_some, Failure.mergeOptions_some, (hr f hf).merge_comm (hq g hg)]

theorem gather_append (next : Success α → Run β) (xs ys : List (Success α)) :
    gather next (xs ++ ys) = (gather next xs).append (gather next ys) := by
  induction xs with
  | nil => rfl
  | cons x xs ih => rw [List.cons_append, gather_cons, gather_cons, ih, append_assoc]

end Run

namespace Parser

/-! ## Committed alternatives -/

theorem orElse_assoc (p q r : Parser α) : orElse (orElse p q) r = orElse p (orElse q r) := by
  funext c
  by_cases hp : (p c).outcome.successes = []
  · have hpq := orElse_of_successes_eq_nil q hp
    rw [orElse_of_successes_eq_nil (orElse q r) hp]
    by_cases hq : (q c).outcome.successes = []
    · have hnil : (orElse p q c).outcome.successes = [] := by
        rw [hpq, Outcome.successes_withFailure, hq]
      rw [orElse_of_successes_eq_nil r hnil, orElse_of_successes_eq_nil r hq, hpq]
      simp [Outcome.withFailure, Failure.mergeOptions_assoc]
    · have hne : (orElse p q c).outcome.successes ≠ [] := by
        rwa [hpq, Outcome.successes_withFailure]
      rw [orElse_of_successes_ne_nil r hne, orElse_of_successes_ne_nil r hq, hpq]
  · have hpq := orElse_of_successes_ne_nil q hp
    have hne : (orElse p q c).outcome.successes ≠ [] := by rwa [hpq]
    rw [orElse_of_successes_ne_nil r hne, hpq, orElse_of_successes_ne_nil _ hp]

theorem never_orElse (p : Parser α) : orElse never p = p := by
  funext c
  rw [orElse_of_successes_eq_nil p rfl]
  show (⟨(p c).outcome.withFailure none, (p c).events⟩ : Run α) = p c
  simp [Outcome.withFailure]

theorem orElse_never (p : Parser α) : orElse p never = p := by
  funext c
  by_cases hp : (p c).outcome.successes = []
  · have houtcome : (⟨[], (p c).outcome.furthest⟩ : Outcome α) = (p c).outcome := by rw [← hp]
    rw [orElse_of_successes_eq_nil never hp]
    show (⟨⟨[], (p c).outcome.furthest⟩, (p c).events ++ []⟩ : Run α) = p c
    rw [List.append_nil, houtcome]
  · rw [orElse_of_successes_ne_nil never hp]

/-- The same parser again makes the same outcome, though not the same events. -/
theorem outcome_orElse_self (p : Parser α) (c : Cursor) :
    (orElse p p c).outcome = (p c).outcome := by
  by_cases hp : (p c).outcome.successes = []
  · rw [outcome_orElse_of_successes_eq_nil p hp, Failure.mergeOptions_self]
  · rw [orElse_of_successes_ne_nil p hp]

/-! ## Continuing all alternatives -/

section Union

variable (p q : Parser α) (f : α → Parser β) (c : Cursor)

theorem successes_bind_union :
    (bind (union p q) f c).outcome.successes
      = (union (bind p f) (bind q f) c).outcome.successes := by
  simp only [successes_bind, successes_union, List.flatMap_append]

variable {p q f c}

theorem outcome_bind_union {start : Cursor} (hq : (q c).FailsIn start)
    (hf : ∀ x ∈ (p c).outcome.successes, (f x.value x.rest).FailsIn start) :
    (bind (union p q) f c).outcome = (union (bind p f) (bind q f) c).outcome := by
  -- The failures of `q` and those behind `p` are merged in different orders.
  have hcomm := hq.mergeOptions_comm (Run.failsIn_gather hf)
  have hfurthest : (bind (union p q) f c).outcome.furthest
      = (union (bind p f) (bind q f) c).outcome.furthest := by
    unfold bind union Run.andThen
    rw [Run.outcome_append (p c), Outcome.successes_append, Run.gather_append]
    exact Failure.mergeOptions_exchange hcomm
  exact congrArg₂ Outcome.mk (successes_bind_union p q f c) hfurthest

theorem StaysIn.outcome_bind_union {start : Cursor} (hp : p.StaysIn start) (hq : q.StaysIn start)
    (hf : ∀ a, (f a).StaysIn start) (hc : start.Reaches c) :
    (bind (union p q) f c).outcome = (union (bind p f) (bind q f) c).outcome := by
  refine Parser.outcome_bind_union (hq.fails c hc) fun x hx => ?_
  exact (hf x.value).fails _ (hp.reaches c hc x hx)

end Union

/-! ## All of them -/

/-- **Alternatives are lawful.** `orElse` is associative and `never` is neutral for it, on whole
    runs; `orElse p p` has the outcome of `p`. `bind` distributes over `union`: the successes are the
    same, and so are the outcomes where the failures of the second alternative and those behind the
    first one occur in one text. So they always are for the parsers of grammars and of
    workspaces. -/
theorem alternation_laws :
    (∀ {α : Type} (p q r : Parser α), orElse (orElse p q) r = orElse p (orElse q r)) ∧
    (∀ {α : Type} (p : Parser α), orElse never p = p ∧ orElse p never = p) ∧
    (∀ {α : Type} (p : Parser α) (c : Cursor), (orElse p p c).outcome = (p c).outcome) ∧
    (∀ {α β : Type} (p q : Parser α) (f : α → Parser β) (c : Cursor),
      (bind (union p q) f c).outcome.successes
        = (union (bind p f) (bind q f) c).outcome.successes) ∧
    (∀ {α β : Type} (p q : Parser α) (f : α → Parser β) (c start : Cursor),
      (q c).FailsIn start →
      (∀ x ∈ (p c).outcome.successes, (f x.value x.rest).FailsIn start) →
      (bind (union p q) f c).outcome = (union (bind p f) (bind q f) c).outcome) ∧
    (∀ {ρ α β : Type} (p q : Grammar ρ α) (f : α → Grammar ρ β) (c : Cursor),
      (((p.union q).bind f).parser c).outcome
        = (((p.bind f).union (q.bind f)).parser c).outcome) ∧
    (∀ (w : Script.Workspace) (a b : Script.Built) (f : Script.Value → Script.Built) (c : Cursor),
      (bind (union (w.parser a) (w.parser b)) (fun x => w.parser (f x)) c).outcome
        = (union (bind (w.parser a) fun x => w.parser (f x))
            (bind (w.parser b) fun x => w.parser (f x)) c).outcome) := by
  refine ⟨orElse_assoc, fun p => ⟨never_orElse p, orElse_never p⟩, outcome_orElse_self,
    successes_bind_union, fun p q f c start hq hf => outcome_bind_union hq hf, fun p q f c => ?_,
    fun w a b f c => ?_⟩
  · exact (staysIn_grammar p c).outcome_bind_union (staysIn_grammar q c)
      (fun x => staysIn_grammar (f x) c) c.reaches_refl
  · exact (staysIn_built w a c).outcome_bind_union (staysIn_built w b c)
      (fun x => staysIn_built w (f x) c) c.reaches_refl

/-- In `ax` there is a `b` missing for the second alternative, and a `c` behind the first one. On
    one side the `b` is recorded first, on the other one the `c`; both are told of at one place. -/
theorem bind_union_ax :
    let p : Parser String := (Grammar.literal "a" : Grammar Unit String).parser
    let q : Parser String := (Grammar.literal "ab" : Grammar Unit String).parser
    let f : String → Parser String := fun _ => (Grammar.literal "c" : Grammar Unit String).parser
    (∀ start, q.StaysIn start ∧ ∀ read, (f read).StaysIn start) ∧
      (bind (union p q) f (.ofString "ax")).outcome
        = ⟨[], some ⟨⟨1, 2, 1⟩, some 'x', .ofList ["'b'", "'c'"]⟩⟩ ∧
      (union (bind p f) (bind q f) (.ofString "ax")).outcome
        = ⟨[], some ⟨⟨1, 2, 1⟩, some 'x', .ofList ["'b'", "'c'"]⟩⟩ := by
  intro p q f
  obtain ⟨-, -, -, -, hdistributes, -⟩ := @alternation_laws
  have hp : ∀ start, p.StaysIn start := fun start => staysIn_grammar _ start
  have hq : ∀ start, q.StaysIn start := fun start => staysIn_grammar _ start
  have hf : ∀ read start, (f read).StaysIn start := fun _ start => staysIn_grammar _ start
  have hleft : (bind (union p q) f (.ofString "ax")).outcome
      = ⟨[], some ⟨⟨1, 2, 1⟩, some 'x', .ofList ["'b'", "'c'"]⟩⟩ := by decide
  refine ⟨fun start => ⟨hq start, fun read => hf read start⟩, hleft, ?_⟩
  rw [← hleft]
  have hstart : (Cursor.ofString "ax").Reaches (.ofString "ax") := Cursor.reaches_refl _
  symm
  refine hdistributes p q f _ (.ofString "ax") ((hq _).fails _ hstart) fun x hx => ?_
  exact (hf x.value _).fails _ ((hp _).reaches _ hstart x hx)

/-- Failures that are made up can tell of two places at one offset. Which of them is told then
    depends on the side. -/
example :
    let made (line : Nat) : Parser Bool := fun _ => .quiet (.failure ⟨⟨line, 1, 0⟩, none, .empty⟩)
    (bind (union (succeed true) (made 1)) (fun _ => made 2) (.ofString "")).outcome
        = .failure ⟨⟨1, 1, 0⟩, none, .empty⟩ ∧
      (union (bind (succeed true) fun _ => made 2) (bind (made 1) fun _ => made 2)
          (.ofString "")).outcome
        = .failure ⟨⟨2, 1, 0⟩, none, .empty⟩ := by
  decide

end Parser

end Parsing
