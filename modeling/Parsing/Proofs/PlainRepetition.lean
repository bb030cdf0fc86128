import Mathlib.Data.List.Basic
import Parsing.Proofs.Repetition

set_option autoImplicit false

/-! # Repetition as a plain recursion

What `many p` comes to can be said without a list of open branches. Where `p` has no success that
reads something, the repetition ends there with the empty list. Otherwise it goes on behind each
such success, in order, and puts the value read in front (`recurse`).

For a parser whose successes are suffixes of its input this recursion comes to an end, `many` is its
only solution, and `many` never fails (`many_solves_recursion`). The search itself comes to an end,
too: some number of rounds closes all branches, and what is finished then is the outcome. -/

namespace Parsing

variable {α : Type}

namespace Run

variable {β γ : Type}

theorem map_append (f : α → β) (r q : Run α) : (r.append q).map f = (r.map f).append (q.map f) := by
  simp [map, append, Outcome.map, Outcome.append]

theorem map_gather (f : β → γ) (next : Success α → Run β) (xs : List (Success α)) :
    (gather next xs).map f = gather (fun x => (next x).map f) xs := by
  induction xs with
  | nil => rfl
  | cons x xs ih => rw [gather_cons, gather_cons, map_append, ih]

theorem map_andThen (f : β → γ) (r : Run α) (next : Success α → Run β) :
    (r.andThen next).map f = r.andThen fun x => (next x).map f := by
  rw [andThen, map_append, map_gather]
  rfl

theorem map_map (f : α → β) (g : β → γ) (r : Run α) :
    (r.map f).map g = r.map fun a => g (f a) := by
  simp [map, Outcome.map, Success.map]

/-- The failures of runs one after the other are merged in that order. -/
theorem furthest_gather (next : Success α → Run β) (xs : List (Success α)) (f : Option Failure) :
    Failure.mergeOptions f (gather next xs).outcome.furthest
      = xs.foldl (fun f x => Failure.mergeOptions f (next x).outcome.furthest) f := by
  induction xs generalizing f with
  | nil => exact Failure.mergeOptions_none_right f
  | cons x xs ih =>
      rw [gather_cons, outcome_append, Outcome.furthest_append, ← Failure.mergeOptions_assoc, ih,
        List.foldl_cons]

end Run

namespace Parser

/-! ## The recursion -/

/-- The successes that end further on than `c`. -/
def beyond (c : Cursor) (xs : List (Success α)) : List (Success α) :=
  xs.filter fun x => decide (c.offset < x.rest.offset)

/-- What repeating `p` comes to at `c`, if it comes to `again d` at each later place `d`. -/
def recurse (p : Parser α) (again : Cursor → Outcome (List α)) (c : Cursor) : Outcome (List α) :=
  let o := (p c).outcome
  let next := beyond c o.successes
  if next.isEmpty then ⟨[⟨[], c⟩], o.furthest⟩
  else
    ⟨next.flatMap fun x => (again x.rest).successes.map (Success.map (x.value :: ·)),
      next.foldl (fun f x => Failure.mergeOptions f (again x.rest).furthest) o.furthest⟩

/-! ## The search, round by round -/

/-- A search under way: the open branches, the first one on top, the closed ones, the last one
    first, and the furthest failure so far. -/
structure Search (α : Type) where
  pending : List (Branch α)
  finished : List (Success (List α))
  furthest : Option Failure

namespace Search

/-- Nothing has been read yet. -/
def start (c : Cursor) : Search α := ⟨[⟨[], c⟩], [], none⟩

/-- Every branch is closed, and `o` is what they came to. -/
def done (o : Outcome (List α)) : Search α := ⟨[], o.successes.reverse, o.furthest⟩

/-- One round: the first open branch is closed if `p` reads nothing there, and otherwise gives way
    to the branches that follow it up. -/
def round (p : Parser α) (s : Search α) : Search α :=
  match s.pending with
  | [] => s
  | b :: pending =>
    let o := (p b.cursor).outcome
    let furthest := Failure.mergeOptions s.furthest o.furthest
    let next := beyond b.cursor o.successes
    if next.isEmpty then ⟨pending, b.close :: s.finished, furthest⟩
    else ⟨follow b next ++ pending, s.finished, furthest⟩

/-- A number of rounds. -/
def rounds (p : Parser α) : Nat → Search α → Search α
  | 0, s => s
  | n + 1, s => rounds p n (s.round p)

end Search

section Suffixes

variable {p : Parser α} (hp : p.Advances)

include hp

/-- Successes that end further on are those that leave less unread. -/
theorem beyond_eq_consuming (c : Cursor) :
    beyond c (p c).outcome.successes = consuming c (p c).outcome.successes := by
  refine List.filter_congr fun x hx => ?_
  have hreaches : c.Reaches x.rest := hp c x hx
  simp only [hreaches.offset_lt_iff]

/-- The search comes to an end, with what it has found. -/
theorem exists_rounds_eq_done (pending : List (Branch α)) (finished : List (Success (List α)))
    (furthest : Option Failure) (events : List Event) :
    ∃ n, Search.rounds p n ⟨pending, finished, furthest⟩
      = .done (expand p pending finished furthest events).outcome := by
  fun_induction expand p pending finished furthest events with
  | case1 finished furthest events =>
      refine ⟨0, ?_⟩
      simp [Search.rounds, Search.done]
  | case2 finished furthest events b pending r furthest' events' next hnext ih =>
      obtain ⟨n, hn⟩ := ih
      refine ⟨n + 1, ?_⟩
      have hnil : consuming b.cursor (p b.cursor).outcome.successes = [] := by
        simpa [next, r, follow] using hnext
      rw [Search.rounds, ← hn]
      simp only [Search.round, beyond_eq_consuming hp, hnil, List.isEmpty_nil, if_true]
      rfl
  | case3 finished furthest events b pending r furthest' events' next hnext ih =>
      obtain ⟨n, hn⟩ := ih
      refine ⟨n + 1, ?_⟩
      have hne : ¬ (consuming b.cursor (p b.cursor).outcome.successes).isEmpty = true := by
        simpa [next, r, follow] using hnext
      rw [Search.rounds, ← hn]
      simp only [Search.round, beyond_eq_consuming hp, if_neg hne]
      rfl

end Suffixes

/-! ## What a repetition finds -/

/-- Values read before come in front. -/
theorem repeatFrom_eq_map (p : Parser α) (seed : List α) (c : Cursor) :
    repeatFrom p seed c = (many p c).map (seed ++ ·) := by
  -- What is followed up leaves fewer characters unread.
  induction hn : c.length using Nat.strongRecOn generalizing c seed with
  | ind n ih =>
      show repeatFrom p seed c = (repeatFrom p [] c).map (seed ++ ·)
      by_cases hnil : consuming c (p c).outcome.successes = []
      · rw [repeatFrom_of_nil seed hnil, repeatFrom_of_nil [] hnil]
        simp [Run.map, Outcome.map, Success.map]
      · rw [repeatFrom_of_ne_nil seed hnil, repeatFrom_of_ne_nil [] hnil, Run.map_append,
          Run.map_gather]
        have hbranches : ∀ x ∈ consuming c (p c).outcome.successes,
            repeatFrom p (seed ++ [x.value]) x.rest
              = (repeatFrom p ([] ++ [x.value]) x.rest).map (seed ++ ·) := by
          intro x hx
          have hlt : x.rest.length < n := hn ▸ length_lt_of_mem_consuming hx
          rw [ih _ hlt _ _ rfl, ih _ hlt _ _ rfl, Run.map_map]
          simp
        rw [Run.gather_congr hbranches]
        rfl

/-- One step of `many` where it ends. -/
theorem many_of_nil {p : Parser α} {c : Cursor} (h : consuming c (p c).outcome.successes = []) :
    many p c = ⟨⟨[⟨[], c⟩], (p c).outcome.furthest⟩, (p c).events⟩ :=
  repeatFrom_of_nil [] h

/-- One step of `many` where it goes on. -/
theorem many_of_ne_nil {p : Parser α} {c : Cursor} (h : consuming c (p c).outcome.successes ≠ []) :
    many p c
      = (p c).barren.append
          (Run.gather (fun x => (many p x.rest).map (x.value :: ·))
            (consuming c (p c).outcome.successes)) := by
  have hbranches : ∀ x : Success α,
      repeatFrom p ([] ++ [x.value]) x.rest = (many p x.rest).map (x.value :: ·) :=
    fun x => repeatFrom_eq_map p [x.value] x.rest
  rw [many, repeatFrom_of_ne_nil [] h]
  simp only [hbranches, many]

/-- A repetition has read nothing where `p` reads nothing; otherwise it has read something by `p`,
    and then what a repetition reads from there. -/
theorem mem_successes_many {p : Parser α} {c : Cursor} {y : Success (List α)} :
    y ∈ (many p c).outcome.successes ↔
      (consuming c (p c).outcome.successes = [] ∧ y = ⟨[], c⟩) ∨
        ∃ x ∈ consuming c (p c).outcome.successes, ∃ z ∈ (many p x.rest).outcome.successes,
          y = z.map (x.value :: ·) := by
  by_cases hnil : consuming c (p c).outcome.successes = []
  · simp [many_of_nil hnil, hnil]
  · rw [many_of_ne_nil hnil, Run.outcome_append, Outcome.successes_append, Run.successes_gather]
    simp [Run.barren, hnil, eq_comm]

/-- Induction along what a repetition has read. -/
theorem many_induction {p : Parser α}
    {motive : (c : Cursor) → (y : Success (List α)) → y ∈ (many p c).outcome.successes → Prop}
    (nil : ∀ (c : Cursor) (h : consuming c (p c).outcome.successes = []),
      motive c ⟨[], c⟩ (mem_successes_many.2 (.inl ⟨h, rfl⟩)))
    (cons : ∀ (c : Cursor) (x : Success α) (hx : x ∈ consuming c (p c).outcome.successes)
      (z : Success (List α)) (hz : z ∈ (many p x.rest).outcome.successes), motive x.rest z hz →
        motive c (z.map (x.value :: ·)) (mem_successes_many.2 (.inr ⟨x, hx, z, hz, rfl⟩)))
    {c : Cursor} {y : Success (List α)} (hy : y ∈ (many p c).outcome.successes) :
    motive c y hy := by
  induction hn : c.length using Nat.strongRecOn generalizing c y with
  | ind n ih =>
      rcases mem_successes_many.1 hy with ⟨h, rfl⟩ | ⟨x, hx, z, hz, rfl⟩
      · exact nil c h
      · have hlt : x.rest.length < n := hn ▸ length_lt_of_mem_consuming hx
        exact cons c x hx z hz (ih _ hlt hz rfl)

/-- Repetition never fails. -/
theorem successes_many_ne_nil (p : Parser α) (c : Cursor) : (many p c).outcome.successes ≠ [] := by
  induction hn : c.length using Nat.strongRecOn generalizing c with
  | ind n ih =>
      by_cases hnil : consuming c (p c).outcome.successes = []
      · exact List.ne_nil_of_mem (mem_successes_many.2 (.inl ⟨hnil, rfl⟩))
      · obtain ⟨x, hx⟩ := List.exists_mem_of_ne_nil _ hnil
        have hlt : x.rest.length < n := hn ▸ length_lt_of_mem_consuming hx
        obtain ⟨z, hz⟩ := List.exists_mem_of_ne_nil _ (ih _ hlt x.rest rfl)
        exact List.ne_nil_of_mem (mem_successes_many.2 (.inr ⟨x, hx, z, hz, rfl⟩))

/-! ## Repetition solves the recursion -/

section Suffixes

variable {p : Parser α} (hp : p.Advances)

include hp

theorem outcome_many (c : Cursor) :
    (many p c).outcome = recurse p (fun d => (many p d).outcome) c := by
  rw [recurse]
  simp only [beyond_eq_consuming hp]
  by_cases hnil : consuming c (p c).outcome.successes = []
  · rw [many_of_nil hnil, hnil]
    rfl
  · rw [many_of_ne_nil hnil, if_neg (by simpa using hnil), Run.outcome_append, Outcome.append]
    congr 1
    · simp [Run.barren]
    · exact Run.furthest_gather _ _ _

/-- Only what is later than `c` counts for the recursion at `c`. -/
theorem recurse_congr {again again' : Cursor → Outcome (List α)} {c : Cursor}
    (h : ∀ d : Cursor, d.length < c.length → again d = again' d) :
    recurse p again c = recurse p again' c := by
  have hnext : ∀ x ∈ beyond c (p c).outcome.successes, again x.rest = again' x.rest := by
    intro x hx
    rw [beyond_eq_consuming hp] at hx
    exact h x.rest (length_lt_of_mem_consuming hx)
  simp only [recurse]
  split
  · rfl
  · congr 1
    · exact List.flatMap_congr fun x hx => by rw [hnext x hx]
    · exact List.foldl_ext _ _ _ fun _ x hx => by rw [hnext x hx]

/-- The recursion has no other solution. -/
theorem eq_outcome_many {M : Cursor → Outcome (List α)} (hM : ∀ c, M c = recurse p M c)
    (c : Cursor) : M c = (many p c).outcome := by
  induction hn : c.length using Nat.strongRecOn generalizing c with
  | ind n ih =>
      rw [hM, outcome_many hp]
      exact recurse_congr hp fun d hd => ih _ (hn ▸ hd) d rfl

end Suffixes

/-- **Repetition is a plain recursion.** For a parser whose successes are suffixes of its input,
    `many` never fails, its search closes all branches in some number of rounds, and its outcomes
    are the only solution of the recursion. -/
theorem many_solves_recursion (p : Parser α) (hp : p.Advances) :
    (∀ c, (many p c).outcome.successes ≠ []) ∧
    (∀ c, ∃ n, Search.rounds p n (.start c) = .done (many p c).outcome) ∧
    ∀ M : Cursor → Outcome (List α),
      (∀ c, M c = recurse p M c) ↔ ∀ c, M c = (many p c).outcome := by
  refine ⟨successes_many_ne_nil p, fun c => exists_rounds_eq_done hp [⟨[], c⟩] [] none [],
    fun M => ⟨eq_outcome_many hp, fun hM c => ?_⟩⟩
  rw [hM c, outcome_many hp]
  exact recurse_congr hp fun d _ => (hM d).symm

/-- One `a`, nothing, or two of them: ambiguous, and not always reading something. -/
def stutter : Grammar Unit String :=
  .union (.literal "a") (.union (.succeed "") (.literal "aa"))

/-- Two characters are read as `a` and `a` or as `aa`, in this order; what reads nothing is left
    out. A third `a` is missing at the end, whichever way they were read. -/
theorem many_stutter :
    stutter.parser.Advances ∧
    (∃ n, Search.rounds stutter.parser n (.start (.ofString "aa"))
      = .done (many stutter.parser (.ofString "aa")).outcome) ∧
    (many stutter.parser (.ofString "aa")).outcome
      = ⟨[⟨["a", "a"], (Cursor.ofString "aa").drop 2⟩, ⟨["aa"], (Cursor.ofString "aa").drop 2⟩],
          some ⟨⟨1, 3, 2⟩, none, .singleton "'a'"⟩⟩ := by
  have hstutter : stutter.parser.Advances := stutter.advances_parserIn Grammar.advances_empty
  obtain ⟨-, hrounds, hsolution⟩ := many_solves_recursion stutter.parser hstutter
  have hrecurse : ∀ c, (many stutter.parser c).outcome
      = recurse stutter.parser (fun d => (many stutter.parser d).outcome) c :=
    (hsolution _).2 fun _ => rfl
  have hend : (many stutter.parser ((Cursor.ofString "aa").drop 2)).outcome
      = ⟨[⟨[], (Cursor.ofString "aa").drop 2⟩], some ⟨⟨1, 3, 2⟩, none, .singleton "'a'"⟩⟩ := by
    rw [hrecurse]
    rfl
  have hmiddle : (many stutter.parser ((Cursor.ofString "aa").drop 1)).outcome
      = ⟨[⟨["a"], (Cursor.ofString "aa").drop 2⟩], some ⟨⟨1, 3, 2⟩, none, .singleton "'a'"⟩⟩ := by
    have hbeyond : beyond ((Cursor.ofString "aa").drop 1)
        (stutter.parser ((Cursor.ofString "aa").drop 1)).outcome.successes
          = [⟨"a", (Cursor.ofString "aa").drop 2⟩] := rfl
    rw [hrecurse, recurse, hbeyond]
    simp only [List.flatMap_cons, List.foldl_cons, hend]
    rfl
  have hbeyond : beyond (.ofString "aa") (stutter.parser (.ofString "aa")).outcome.successes
      = [⟨"a", (Cursor.ofString "aa").drop 1⟩, ⟨"aa", (Cursor.ofString "aa").drop 2⟩] := rfl
  refine ⟨hstutter, hrounds _, ?_⟩
  rw [hrecurse, recurse, hbeyond]
  simp only [List.flatMap_cons, List.foldl_cons, hmiddle, hend]
  rfl

end Parser

end Parsing
