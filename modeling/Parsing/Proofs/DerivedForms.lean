import Parsing.Proofs.PlainRepetition
import Parsing.Proofs.Remainder

set_option autoImplicit false

/-! # Derived combinators

`bind`, `sequence` and `many1` each go through the successes of their first parser and collect what
follows them, starting from the failure of that parser (`Outcome.collect`). So `map`, the sequences
of two and `many1` are what one would write for them with `bind`, `map`, `many` and `succeed`.

`many` is `many1` or else the empty list only where the parser reads something whenever it succeeds
(`many_eq_orElse`). Elsewhere the two come to different outcomes (`outcome_many_ne`): `many1` keeps
a first success that read nothing, and puts its value in front of whatever `many` reads there, so
no list that `many` finds could be the longest one. -/

namespace Parsing

variable {α β γ : Type}

/-! ## One success after the other -/

/-- What `next` makes of each success of `o` in order, put behind the failure of `o`. -/
def Outcome.collect (o : Outcome α) (next : Success α → Outcome β) : Outcome β :=
  o.successes.foldl (fun out x => out.append (next x)) (Outcome.empty.withFailure o.furthest)

namespace Run

theorem foldl_append_outcome (next : Success α → Run β) (xs : List (Success α)) (o : Outcome β) :
    xs.foldl (fun out x => out.append (next x).outcome) o = o.append (gather next xs).outcome := by
  induction xs generalizing o with
  | nil => exact (Outcome.append_empty o).symm
  | cons x xs ih =>
      rw [List.foldl_cons, ih, gather_cons, outcome_append]
      simp [Outcome.append, Failure.mergeOptions_assoc]

/-- To continue a run is to collect what follows its successes. -/
theorem outcome_andThen (r : Run α) (next : Success α → Run β) :
    (r.andThen next).outcome = r.outcome.collect fun x => (next x).outcome := by
  rw [Outcome.collect, foldl_append_outcome]
  rfl

end Run

namespace Parser

/-! ## Sequences -/

theorem map_eq_bind (f : α → β) (p : Parser α) : map f p = bind p fun a => succeed (f a) := by
  funext c
  have hgather : ∀ xs : List (Success α),
      Run.gather (fun x => succeed (f x.value) x.rest) xs
        = .quiet (.ofSuccesses (xs.map (Success.map f))) := by
    intro xs
    induction xs with
    | nil => rfl
    | cons x xs ih =>
        rw [Run.gather_cons, ih]
        rfl
  rw [bind, Run.andThen, hgather]
  simp [map, Run.map, Run.append, Run.barren, Run.quiet, Outcome.map, Outcome.append,
    Outcome.ofSuccesses]

theorem sequence_eq_bind (join : α → β → γ) (p : Parser α) (q : Parser β) :
    sequence join p q = bind p fun a => map (join a) q := rfl

theorem map_sequence {δ : Type} (f : γ → δ) (join : α → β → γ) (p : Parser α) (q : Parser β) :
    map f (sequence join p q) = sequence (fun a b => f (join a b)) p q := by
  funext c
  unfold map sequence
  rw [Run.map_andThen]
  simp only [Run.map_map]

/-! ## Repetition -/

theorem many1_eq_sequence (p : Parser α) : many1 p = sequence List.cons p (many p) := by
  funext c
  unfold many1 sequence
  congr 1
  funext x
  exact repeatFrom_eq_map p [x.value] x.rest

theorem many1_eq_map (p : Parser α) :
    many1 p = map (fun read => read.1 :: read.2) (pair p (many p)) := by
  rw [many1_eq_sequence, pair, map_sequence]

/-- `many` where each success reads something. -/
theorem many_eq_orElse {p : Parser α} {c : Cursor}
    (h : ∀ x ∈ (p c).outcome.successes, x.rest.length < c.length) :
    many p c = orElse (many1 p) (succeed []) c := by
  have hall : consuming c (p c).outcome.successes = (p c).outcome.successes := by
    simpa [consuming] using h
  by_cases hnil : (p c).outcome.successes = []
  · have hnone : many1 p c = ⟨⟨[], (p c).outcome.furthest⟩, (p c).events⟩ := by
      simp [many1, Run.andThen, hnil, Run.barren]
    rw [orElse_of_successes_eq_nil _ (by rw [hnone]), hnone, many_of_nil (by rw [hall, hnil])]
    simp [succeed, Run.quiet, Outcome.success, Outcome.withFailure]
  · have hread : many p c = many1 p c := by
      rw [many_of_ne_nil (by rwa [hall]), hall, many1_eq_sequence]
      rfl
    rw [hread, orElse_of_successes_ne_nil]
    rw [← hread]
    exact successes_many_ne_nil p c

/-! ### Where a success reads nothing -/

/-- Each value of a repetition took a character. -/
theorem length_value_le {p : Parser α} {c : Cursor} {y : Success (List α)}
    (hy : y ∈ (many p c).outcome.successes) : y.value.length ≤ c.length := by
  induction hy using many_induction with
  | nil c h => exact Nat.zero_le _
  | cons c x hx z hz ih =>
      have hlt : x.rest.length < c.length := length_lt_of_mem_consuming hx
      simp only [Success.map, List.length_cons]
      omega

theorem outcome_many_ne {p : Parser α} {c : Cursor} {x : Success α}
    (hx : x ∈ (p c).outcome.successes) (hrest : x.rest = c) :
    (many p c).outcome ≠ (orElse (many1 p) (succeed []) c).outcome := by
  intro heq
  have hmem : ∀ y ∈ (many p c).outcome.successes,
      y.map (x.value :: ·) ∈ (many1 p c).outcome.successes := by
    intro y hy
    rw [many1_eq_sequence, successes_sequence]
    exact List.mem_flatMap.2 ⟨x, hx, List.mem_map_of_mem (by rwa [hrest])⟩
  have hne : (many1 p c).outcome.successes ≠ [] := by
    obtain ⟨y, hy⟩ := List.exists_mem_of_ne_nil _ (successes_many_ne_nil p c)
    exact List.ne_nil_of_mem (hmem y hy)
  rw [orElse_of_successes_ne_nil _ hne] at heq
  -- With each list that `many` finds it finds a longer one.
  have hlong : ∀ n, ∃ y ∈ (many p c).outcome.successes, n ≤ y.value.length := by
    intro n
    induction n with
    | zero =>
        obtain ⟨y, hy⟩ := List.exists_mem_of_ne_nil _ (successes_many_ne_nil p c)
        exact ⟨y, hy, Nat.zero_le _⟩
    | succ n ih =>
        obtain ⟨y, hy, hle⟩ := ih
        refine ⟨y.map (x.value :: ·), ?_, Nat.succ_le_succ hle⟩
        rw [heq]
        exact hmem y hy
  obtain ⟨y, hy, hle⟩ := hlong (c.length + 1)
  have := length_value_le hy
  omega

/-! ## Where successes leave suffixes -/

/-- The condition on `many` in terms of places: a success that ends elsewhere has read something. -/
theorem many_eq_orElse_of_ne {p : Parser α} (hp : p.Advances) {c : Cursor}
    (h : ∀ x ∈ (p c).outcome.successes, x.rest ≠ c) :
    many p c = orElse (many1 p) (succeed []) c := by
  refine many_eq_orElse fun x hx => ?_
  have hreaches : c.Reaches x.rest := hp c x hx
  exact Nat.lt_of_le_of_ne hreaches.length_le fun heq => h x hx (hreaches.eq_of_length_eq heq)

end Parser

namespace SuffixParser

/-- At each place `many` is `many1` or else the empty list just if nothing ends there that starts
    there. -/
theorem outcome_many_eq_iff (p : SuffixParser α) (c : Cursor) :
    ((many p).parser c).outcome = ((orElse (many1 p) (succeed [])).parser c).outcome ↔
      ∀ x ∈ (p.parser c).outcome.successes, x.rest ≠ c :=
  ⟨fun heq _ hx hrest => Parser.outcome_many_ne hx hrest heq,
    fun h => congrArg Run.outcome (Parser.many_eq_orElse_of_ne p.advances h)⟩

theorem many_eq_orElse (p : SuffixParser α)
    (h : ∀ c, ∀ x ∈ (p.parser c).outcome.successes, x.rest ≠ c) :
    many p = orElse (many1 p) (succeed []) :=
  SuffixParser.ext (funext fun c => Parser.many_eq_orElse_of_ne p.advances (h c))

theorem many1_eq_map (p : SuffixParser α) :
    many1 p = map (fun read => read.1 :: read.2) (pair p (many p)) :=
  SuffixParser.ext (Parser.many1_eq_map p.parser)

end SuffixParser

/-! ## All of them -/

namespace Parser

/-- **Derived combinators are their definitions.** `bind`, `sequence` and `many1` collect what
    follows each success of their first parser. With that, `map`, the sequences of two and `many1`
    are what `bind`, `map`, `succeed` and `many` make of them, with all their events. `many` is
    `many1` or else the empty list if no success of the parser ever ends where it started, and at
    each place just if none does there.

    What is said without repetition holds of any functions from cursors to runs. Repetition is for
    parsers whose outcomes are as outcomes have to be: what a success leaves is a suffix of the
    input (`SuffixParser`). All parsers of grammars and of workspaces are so. -/
theorem derived_forms :
    (∀ {α β : Type} (p : Parser α) (f : α → Parser β) (c : Cursor),
      (bind p f c).outcome = (p c).outcome.collect fun x => (f x.value x.rest).outcome) ∧
    (∀ {α β γ : Type} (join : α → β → γ) (p : Parser α) (q : Parser β) (c : Cursor),
      (sequence join p q c).outcome
        = (p c).outcome.collect fun x => (q x.rest).outcome.map (join x.value)) ∧
    (∀ {α β : Type} (f : α → β) (p : Parser α), map f p = bind p fun a => succeed (f a)) ∧
    (∀ {α β : Type} (p : Parser α) (q : Parser β),
      pair p q = bind p (fun a => map (fun b => (a, b)) q) ∧
        thenIgnore p q = map Prod.fst (pair p q) ∧
        ignoreThen p q = map Prod.snd (pair p q)) ∧
    (∀ {α : Type} (p : SuffixParser α) (c : Cursor),
      (p.many1.parser c).outcome
        = (p.parser c).outcome.collect fun x =>
          (repeatFrom p.parser [x.value] x.rest).outcome) ∧
    (∀ {α : Type} (p : SuffixParser α),
      p.many1 = (p.pair p.many).map fun read => read.1 :: read.2) ∧
    (∀ {α : Type} (p : SuffixParser α),
      (∀ c, ∀ x ∈ (p.parser c).outcome.successes, x.rest ≠ c) →
        p.many = p.many1.orElse (.succeed [])) ∧
    (∀ {α : Type} (p : SuffixParser α) (c : Cursor),
      (p.many.parser c).outcome = ((p.many1.orElse (.succeed [])).parser c).outcome ↔
        ∀ x ∈ (p.parser c).outcome.successes, x.rest ≠ c) ∧
    (∀ {ρ α : Type} (p : Grammar ρ α), ∃ P : SuffixParser α, P.parser = p.parser) ∧
    (∀ (w : Script.Workspace) (b : Script.Built),
      ∃ P : SuffixParser Script.Value, P.parser = w.parser b) := by
  refine ⟨fun p f c => Run.outcome_andThen _ _, fun join p q c => Run.outcome_andThen _ _,
    map_eq_bind, fun p q => ⟨sequence_eq_bind Prod.mk p q, ?_, ?_⟩,
    fun p c => Run.outcome_andThen _ _, SuffixParser.many1_eq_map, SuffixParser.many_eq_orElse,
    SuffixParser.outcome_many_eq_iff, fun p => ⟨p.suffixParser, rfl⟩,
    fun w b => ⟨⟨w.parser b, w.advances_built b⟩, rfl⟩⟩
  · rw [pair, map_sequence, thenIgnore]
  · rw [pair, map_sequence, ignoreThen]

/-- One character, or two, of which the second one counts. -/
def oneOrTwo : Grammar Unit Char := .union .anyChar (.ignoreThen .anyChar .anyChar)

/-- What reads a character ends further on. -/
theorem oneOrTwo_ends_elsewhere (c : Cursor) :
    ∀ x ∈ (oneOrTwo.parser c).outcome.successes, x.rest ≠ c := by
  intro x hx hrest
  have hlt : x.rest.length < c.length := by
    obtain ⟨source, place, unread⟩ := c
    rcases unread with _ | ⟨a, _ | ⟨b, unread⟩⟩
    · exact absurd (show x ∈ [] from hx) List.not_mem_nil
    · obtain rfl : x = ⟨a, ⟨source, place.advance a, []⟩⟩ := List.mem_singleton.1 hx
      exact Nat.zero_lt_one
    · obtain rfl | rfl : x = ⟨a, ⟨source, place.advance a, b :: unread⟩⟩ ∨
          x = ⟨b, ⟨source, (place.advance a).advance b, unread⟩⟩ :=
        List.mem_pair.1 (show x ∈ [_, _] from hx)
      · exact Nat.lt_succ_self _
      · exact Nat.lt_succ_of_lt (Nat.lt_succ_self _)
  rw [hrest] at hlt
  exact Nat.lt_irrefl _ hlt

/-- What reads one character or two always reads something; what may also read nothing ends where
    it started, and is repeated in other ways. -/
theorem many_oneOrTwo :
    (∀ c, ∀ x ∈ (oneOrTwo.suffixParser.parser c).outcome.successes, x.rest ≠ c) ∧
    oneOrTwo.suffixParser.many = oneOrTwo.suffixParser.many1.orElse (.succeed []) ∧
    ⟨"", .ofString "aa"⟩ ∈ (stutter.suffixParser.parser (.ofString "aa")).outcome.successes ∧
    (stutter.suffixParser.many.parser (.ofString "aa")).outcome
      ≠ ((stutter.suffixParser.many1.orElse (.succeed [])).parser (.ofString "aa")).outcome := by
  obtain ⟨-, -, -, -, -, -, hmany, hmany_iff, -⟩ := @derived_forms
  have hnothing : ⟨"", .ofString "aa"⟩
      ∈ (stutter.suffixParser.parser (.ofString "aa")).outcome.successes := by
    decide
  exact ⟨oneOrTwo_ends_elsewhere, hmany _ oneOrTwo_ends_elsewhere, hnothing,
    fun heq => (hmany_iff _ _).1 heq _ hnothing rfl⟩

/-- A function that goes back to the start of a text from anywhere else. -/
def goesBack : Parser Char := fun c =>
  if c.offset = 0 then fail "'x'" c else succeed 'x' (.ofString "x")

/-- Its outcomes are none of a parser. It never ends where it started, and still the two come to
    different lists. -/
example :
    let c := (Cursor.ofString "x").next
    (many goesBack c).outcome.successes = [⟨[], c⟩] ∧
      (orElse (many1 goesBack) (succeed []) c).outcome.successes = [⟨['x'], .ofString "x"⟩] := by
  intro c
  have hmany : many goesBack c = ⟨⟨[⟨[], c⟩], none⟩, []⟩ := many_of_nil rfl
  have hread : (many1 goesBack c).outcome.successes = [⟨['x'], .ofString "x"⟩] := by
    have hrepeat : (repeatFrom goesBack ['x'] (.ofString "x")).outcome.successes
        = [⟨['x'], .ofString "x"⟩] := by rw [repeatFrom_of_nil ['x'] rfl]
    rw [many1, Run.successes_andThen]
    exact (List.append_nil _).trans hrepeat
  refine ⟨by rw [hmany], ?_⟩
  rw [orElse_of_successes_ne_nil _ (by simp [hread]), hread]

end Parser

end Parsing
