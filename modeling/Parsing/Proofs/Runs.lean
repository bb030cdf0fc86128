import Parsing.Parser.Repeat

set_option autoImplicit false

/-! # What combinators do to successes and events

Each combinator is given here by what it does to the two lists of a run: its successes and its
events. Sequences act on them as `flatMap`, `orElse` as a choice between two lists.

The last section has the same combinators as functions of the runs that they use: `bind_congr`,
`orElse_congr` and `sequence_congr` say which runs of their parts decide a run at a given cursor. -/

namespace Parsing

variable {α β γ : Type}

namespace Run

@[simp] theorem successes_gather (next : Success α → Run β) (xs : List (Success α)) :
    (gather next xs).outcome.successes = xs.flatMap fun x => (next x).outcome.successes := by
  induction xs with
  | nil => rfl
  | cons x xs ih => simp [ih]

@[simp] theorem events_gather (next : Success α → Run β) (xs : List (Success α)) :
    (gather next xs).events = xs.flatMap fun x => (next x).events := by
  induction xs with
  | nil => rfl
  | cons x xs ih => simp [ih]

@[simp] theorem successes_andThen (r : Run α) (next : Success α → Run β) :
    (r.andThen next).outcome.successes
      = r.outcome.successes.flatMap fun x => (next x).outcome.successes := by
  simp [andThen, barren]

@[simp] theorem events_andThen (r : Run α) (next : Success α → Run β) :
    (r.andThen next).events
      = r.events ++ r.outcome.successes.flatMap fun x => (next x).events := by
  simp [andThen, barren]

/-- What writes nothing adds nothing to what is written. -/
theorem events_andThen_of_quiet {r : Run α} {next : Success α → Run β}
    (h : ∀ x ∈ r.outcome.successes, (next x).events = []) : (r.andThen next).events = r.events := by
  rw [events_andThen, List.flatMap_eq_nil_iff.2 h, List.append_nil]

/-- Each event of the run is among `P`. -/
def Emits (P : Event → Prop) (r : Run α) : Prop := ∀ e ∈ r.events, P e

theorem emits_of_events_eq_nil {P : Event → Prop} {r : Run α} (h : r.events = []) : r.Emits P := by
  intro e he
  rw [h] at he
  exact absurd he List.not_mem_nil

theorem events_eq_nil_of_emits {r : Run α} (h : r.Emits fun _ => False) : r.events = [] :=
  List.eq_nil_iff_forall_not_mem.2 h

theorem gather_congr {f g : Success α → Run β} {xs : List (Success α)} (h : ∀ x ∈ xs, f x = g x) :
    gather f xs = gather g xs := by
  induction xs with
  | nil => rfl
  | cons x xs ih =>
      rw [gather_cons, gather_cons, h x List.mem_cons_self,
        ih fun y hy => h y (List.mem_cons_of_mem x hy)]

theorem andThen_congr {r : Run α} {f g : Success α → Run β}
    (h : ∀ x ∈ r.outcome.successes, f x = g x) : r.andThen f = r.andThen g := by
  rw [andThen, andThen, gather_congr h]

/-! ## What runs come to -/

/-- After the records `xs` the run meets the fault `f`, its first one. -/
def StopsAt (xs : List Record) (f : Fault) (r : Run α) : Prop :=
  ∃ rest, r.events = xs.map .record ++ .fault f :: rest

theorem settleEvents_records (xs : List Record) (es : List Event) :
    settleEvents (xs.map .record ++ es) = (xs ++ (settleEvents es).1, (settleEvents es).2) := by
  induction xs with
  | nil => rfl
  | cons x xs ih =>
      rw [List.map_cons, List.cons_append, settleEvents, ih]
      rfl

theorem StopsAt.settle {xs : List Record} {f : Fault} {r : Run α} (h : r.StopsAt xs f) :
    r.settle = (xs, .error f) := by
  obtain ⟨rest, hrest⟩ := h
  simp [Run.settle, hrest, settleEvents_records, settleEvents]

theorem settle_of_records {xs : List Record} {r : Run α} (h : r.events = xs.map .record) :
    r.settle = (xs, .ok r.outcome) := by
  have hevents := settleEvents_records xs []
  rw [List.append_nil] at hevents
  simp [settle, h, hevents, settleEvents]

/-- A run without events comes to its outcome. -/
theorem settle_of_events_eq_nil {r : Run α} (h : r.events = []) :
    r.settle = ([], .ok r.outcome) :=
  settle_of_records h

/-- A run stops at a fault, or it only writes records. -/
theorem stopsAt_or_records (r : Run α) :
    (∃ xs f, r.StopsAt xs f) ∨ ∃ xs : List Record, r.events = xs.map .record := by
  have hevents : ∀ es : List Event,
      (∃ (xs : List Record) (f : Fault) (rest : List Event),
        es = xs.map .record ++ .fault f :: rest) ∨
      ∃ xs : List Record, es = xs.map .record := by
    intro es
    induction es with
    | nil => exact .inr ⟨[], rfl⟩
    | cons e es ih =>
        cases e with
        | fault f => exact .inl ⟨[], f, es, rfl⟩
        | record x =>
            rcases ih with ⟨xs, f, rest, rfl⟩ | ⟨xs, rfl⟩
            · exact .inl ⟨x :: xs, f, rest, rfl⟩
            · exact .inr ⟨x :: xs, rfl⟩
  exact hevents r.events

/-- A run that only writes records comes to its outcome. -/
theorem settle_of_emits_record {r : Run α} (h : r.Emits fun e => ∃ x, e = .record x) :
    r.settle.2 = .ok r.outcome := by
  rcases stopsAt_or_records r with ⟨xs, f, rest, hevents⟩ | ⟨xs, hevents⟩
  · obtain ⟨x, hx⟩ := h (.fault f) (by simp [hevents])
    cases hx
  · rw [settle_of_records hevents]

end Run

namespace Parser

/-! ## Successes and events of combinators -/

@[simp] theorem successes_succeed (v : α) (c : Cursor) :
    (succeed v c).outcome.successes = [⟨v, c⟩] := rfl

@[simp] theorem successes_fail (expected : String) (c : Cursor) :
    (fail expected c : Run α).outcome.successes = [] := rfl

@[simp] theorem successes_bind (p : Parser α) (f : α → Parser β) (c : Cursor) :
    (bind p f c).outcome.successes
      = (p c).outcome.successes.flatMap fun x => (f x.value x.rest).outcome.successes :=
  Run.successes_andThen _ _

@[simp] theorem successes_map (f : α → β) (p : Parser α) (c : Cursor) :
    (map f p c).outcome.successes = (p c).outcome.successes.map (Success.map f) := rfl

@[simp] theorem successes_sequence (join : α → β → γ) (p : Parser α) (q : Parser β) (c : Cursor) :
    (sequence join p q c).outcome.successes
      = (p c).outcome.successes.flatMap fun x =>
          (q x.rest).outcome.successes.map (Success.map (join x.value)) :=
  Run.successes_andThen _ _

theorem orElse_of_successes_ne_nil {p : Parser α} {c : Cursor} (q : Parser α)
    (h : (p c).outcome.successes ≠ []) : orElse p q c = p c := by
  simp [orElse, Outcome.isSuccess, Outcome.isFailure, h]

theorem orElse_of_successes_eq_nil {p : Parser α} {c : Cursor} (q : Parser α)
    (h : (p c).outcome.successes = []) :
    orElse p q c
      = ⟨(q c).outcome.withFailure (p c).outcome.furthest, (p c).events ++ (q c).events⟩ := by
  simp [orElse, Outcome.isSuccess, Outcome.isFailure, h]

theorem successes_orElse (p q : Parser α) (c : Cursor) :
    (orElse p q c).outcome.successes
      = if (p c).outcome.successes = [] then (q c).outcome.successes
        else (p c).outcome.successes := by
  split
  · rw [orElse_of_successes_eq_nil q ‹_›, Outcome.successes_withFailure]
  · rw [orElse_of_successes_ne_nil q ‹_›]

@[simp] theorem successes_union (p q : Parser α) (c : Cursor) :
    (union p q c).outcome.successes = (p c).outcome.successes ++ (q c).outcome.successes := rfl

/-! ## Which events there are -/

section Emits

variable {P : Event → Prop} {p : Parser α} {c : Cursor}

theorem emits_bind {f : α → Parser β} (hp : (p c).Emits P)
    (hf : ∀ x ∈ (p c).outcome.successes, (f x.value x.rest).Emits P) :
    (bind p f c).Emits P := by
  intro e he
  rw [bind, Run.events_andThen, List.mem_append, List.mem_flatMap] at he
  rcases he with he | ⟨x, hx, he⟩
  · exact hp e he
  · exact hf x hx e he

theorem emits_sequence {join : α → β → γ} {q : Parser β} (hp : (p c).Emits P)
    (hq : ∀ x ∈ (p c).outcome.successes, (q x.rest).Emits P) :
    (sequence join p q c).Emits P := by
  intro e he
  rw [sequence, Run.events_andThen, List.mem_append, List.mem_flatMap] at he
  rcases he with he | ⟨x, hx, he⟩
  · exact hp e he
  · exact hq x hx e he

theorem emits_orElse {q : Parser α} (hp : (p c).Emits P) (hq : (q c).Emits P) :
    (orElse p q c).Emits P := by
  by_cases h : (p c).outcome.successes = []
  · rw [orElse_of_successes_eq_nil q h]
    intro e he
    rcases List.mem_append.1 he with he | he
    · exact hp e he
    · exact hq e he
  · rw [orElse_of_successes_ne_nil q h]
    exact hp

end Emits

theorem events_charWhere (test : Char → Bool) (label : String) (c : Cursor) :
    (charWhere test label c).events = [] := by
  unfold charWhere
  split
  · rfl
  · split <;> rfl

theorem events_endOfInput (c : Cursor) : (endOfInput c).events = [] := by
  unfold endOfInput
  split <;> rfl

theorem emits_thenIgnore_endOfInput {P : Event → Prop} {p : Parser α} {c : Cursor}
    (h : (p c).Emits P) : (thenIgnore p endOfInput c).Emits P :=
  emits_sequence h fun x _ => Run.emits_of_events_eq_nil (events_endOfInput x.rest)

/-! ## Runs for single characters -/

theorem charWhere_of_nil (test : Char → Bool) (label : String) {c : Cursor} (h : c.unread = []) :
    charWhere test label c = fail label c := by
  simp only [charWhere, h]

theorem charWhere_of_cons (test : Char → Bool) (label : String) {c : Cursor} {x : Char}
    {xs : List Char} (h : c.unread = x :: xs) :
    charWhere test label c = if test x then succeed x c.next else fail label c := by
  simp only [charWhere, h]

theorem endOfInput_of_nil {c : Cursor} (h : c.unread = []) : endOfInput c = succeed () c := by
  simp only [endOfInput, h]

theorem endOfInput_of_cons {c : Cursor} {x : Char} {xs : List Char} (h : c.unread = x :: xs) :
    endOfInput c = fail "end of input" c := by
  simp only [endOfInput, h]

section Character

variable {x : Char} {c : Cursor}

theorem character_of_head {xs : List Char} (h : c.unread = x :: xs) :
    character x c = succeed x c.next := by
  rw [character, charWhere_of_cons _ _ h, if_pos (beq_self_eq_true x)]

theorem character_of_not_head (h : ∀ xs, c.unread ≠ x :: xs) :
    character x c = fail (Quoted.char x) c := by
  rw [character]
  cases hu : c.unread with
  | nil => exact charWhere_of_nil _ _ hu
  | cons y ys =>
      have hne : ¬ (y == x) = true := by
        intro he
        rw [beq_iff_eq] at he
        rw [he] at hu
        exact h ys hu
      rw [charWhere_of_cons _ _ hu, if_neg hne]

/-- Behind its character a parser does what it does there. -/
theorem ignoreThen_character_of_head (p : Parser α) {xs : List Char} (h : c.unread = x :: xs) :
    ignoreThen (character x) p c = p c.next := by
  have hsame : (p c.next).map (fun a => a) = p c.next := by
    have hid : Success.map (fun a : α => a) = id := rfl
    simp [Run.map, Outcome.map, hid]
  rw [ignoreThen, sequence, character_of_head h]
  show Run.empty.append (((p c.next).map fun a => a).append .empty) = p c.next
  rw [hsame, Run.append_empty, Run.empty_append]

/-- Without its character nothing behind it is tried. -/
theorem ignoreThen_character_of_not_head (p : Parser α) (h : ∀ xs, c.unread ≠ x :: xs) :
    ignoreThen (character x) p c = fail (Quoted.char x) c := by
  rw [ignoreThen, sequence, character_of_not_head h]
  rfl

end Character

/-! ## Runs decided by parts -/

theorem bind_congr {p p' : Parser α} {f f' : α → Parser β} {c : Cursor} (hp : p c = p' c)
    (hf : ∀ x ∈ (p' c).outcome.successes, f x.value x.rest = f' x.value x.rest) :
    bind p f c = bind p' f' c := by
  rw [bind, bind, hp]
  exact Run.andThen_congr hf

theorem orElse_congr {p p' q q' : Parser α} {c : Cursor} (hp : p c = p' c) (hq : q c = q' c) :
    orElse p q c = orElse p' q' c := by
  simp only [orElse, hp, hq]

theorem sequence_congr {join : α → β → γ} {p p' : Parser α} {q q' : Parser β} {c : Cursor}
    (hp : p c = p' c) (hq : ∀ x ∈ (p' c).outcome.successes, q x.rest = q' x.rest) :
    sequence join p q c = sequence join p' q' c := by
  rw [sequence, sequence, hp]
  exact Run.andThen_congr fun x hx => by rw [hq x hx]

end Parser

end Parsing
