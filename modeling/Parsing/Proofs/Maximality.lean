import Parsing.Proofs.PlainRepetition

set_option autoImplicit false

/-! # Repetition reads as much as there is

A success of `many p` ends where `p` reads nothing more (`consuming_eq_nil_of_mem_many`). So a
repetition of a repetition has nothing left to repeat: behind each success of `many p` that read
something, `many p` comes to the empty list, and the outer repetition is over. Each list that
`many p` finds stands alone then, and where it found nothing there is no list at all (`regroup`).

No failure is new, either. At the end of each success the outer repetition tries `p` again, and what
it is told there is covered by what `many p` was told before (`covers_of_mem_many`). -/

namespace Parsing

variable {α β : Type}

namespace Run

/-- What one of several runs has told is told by all of them together. -/
theorem covers_gather {next : Success α → Run β} {xs : List (Success α)} {x : Success α}
    {f : Option Failure} (hx : x ∈ xs) (h : Failure.Covers (next x).outcome.furthest f) :
    Failure.Covers (gather next xs).outcome.furthest f := by
  induction xs with
  | nil => exact absurd hx List.not_mem_nil
  | cons y ys ih =>
      rw [gather_cons, outcome_append, Outcome.furthest_append]
      rcases List.mem_cons.1 hx with rfl | hx
      · exact h.merge_right _
      · exact (ih hx).merge_left _

/-- Runs that tell nothing new tell nothing new together. -/
theorem gather_covered {next : Success α → Run β} {xs : List (Success α)} {f : Option Failure}
    (h : ∀ x ∈ xs, Failure.Covers f (next x).outcome.furthest) :
    Failure.Covers f (gather next xs).outcome.furthest := by
  induction xs with
  | nil => exact Failure.covers_none f
  | cons y ys ih =>
      rw [gather_cons, outcome_append, Outcome.furthest_append]
      refine (h y List.mem_cons_self).merge ?_
      exact ih fun x hx => h x (List.mem_cons_of_mem y hx)

end Run

namespace Parser

variable {p : Parser α} {c : Cursor} {y : Success (List α)}

/-! ## Where a repetition ends -/

/-- A repetition ends where nothing more can be read. -/
theorem consuming_eq_nil_of_mem_many (hy : y ∈ (many p c).outcome.successes) :
    consuming y.rest (p y.rest).outcome.successes = [] := by
  induction hy using many_induction with
  | nil c h => exact h
  | cons c x hx z hz ih => exact ih

theorem length_rest_le_of_mem_many (hy : y ∈ (many p c).outcome.successes) :
    y.rest.length ≤ c.length := by
  induction hy using many_induction with
  | nil c h => exact Nat.le_refl _
  | cons c x hx z hz ih => exact Nat.le_trans ih (Nat.le_of_lt (length_lt_of_mem_consuming hx))

/-- Where something can be read, a repetition reads something. -/
theorem length_rest_lt_of_mem_many (hy : y ∈ (many p c).outcome.successes)
    (h : consuming c (p c).outcome.successes ≠ []) : y.rest.length < c.length := by
  rcases mem_successes_many.1 hy with ⟨hnil, -⟩ | ⟨x, hx, z, hz, rfl⟩
  · exact absurd hnil h
  · have hle : z.rest.length ≤ x.rest.length := length_rest_le_of_mem_many hz
    exact Nat.lt_of_le_of_lt hle (length_lt_of_mem_consuming hx)

/-- What `p` tells at the end of a repetition is told by the repetition. -/
theorem covers_of_mem_many (hy : y ∈ (many p c).outcome.successes) :
    Failure.Covers (many p c).outcome.furthest (p y.rest).outcome.furthest := by
  induction hy using many_induction with
  | nil c h =>
      rw [many_of_nil h]
      exact Failure.covers_self _
  | cons c x hx z hz ih =>
      rw [many_of_ne_nil (List.ne_nil_of_mem hx), Run.outcome_append, Outcome.furthest_append]
      exact Failure.Covers.merge_left (Run.covers_gather hx ih) _

/-! ## Repeating a repetition -/

/-- A list found from `c` on, as the only one, or as no list if nothing was read. -/
def regroup (c : Cursor) (y : Success (List α)) : Success (List (List α)) :=
  ⟨if y.rest = c then [] else [y.value], y.rest⟩

/-- Where nothing can be read, there is nothing to repeat. -/
theorem many_many_of_nil (h : consuming c (p c).outcome.successes = []) :
    many (many p) c = ⟨⟨[⟨[], c⟩], (p c).outcome.furthest⟩, (p c).events⟩ := by
  have hnil : consuming c (many p c).outcome.successes = [] := by
    simp [many_of_nil h, consuming]
  rw [many_of_nil hnil, many_of_nil h]

theorem outcome_many_many (p : Parser α) (c : Cursor) :
    (many (many p) c).outcome
      = ⟨(many p c).outcome.successes.map (regroup c), (many p c).outcome.furthest⟩ := by
  by_cases hnil : consuming c (p c).outcome.successes = []
  · rw [many_many_of_nil hnil, many_of_nil hnil]
    simp [regroup]
  · have hlt : ∀ y ∈ (many p c).outcome.successes, y.rest.length < c.length :=
      fun y hy => length_rest_lt_of_mem_many hy hnil
    have hall : consuming c (many p c).outcome.successes = (many p c).outcome.successes := by
      simpa [consuming] using hlt
    -- Behind each list the inner repetition comes to the empty list, which ends the outer one.
    have hlast : ∀ y ∈ (many p c).outcome.successes, (many (many p) y.rest).map (y.value :: ·)
        = ⟨⟨[regroup c y], (p y.rest).outcome.furthest⟩, (p y.rest).events⟩ := by
      intro y hy
      have hne : y.rest ≠ c := fun heq => absurd (hlt y hy) (by simp [heq])
      rw [many_many_of_nil (consuming_eq_nil_of_mem_many hy)]
      simp [Run.map, Outcome.map, Success.map, regroup, hne]
    rw [many_of_ne_nil (by rw [hall]; exact successes_many_ne_nil p c), hall,
      Run.gather_congr hlast, Run.outcome_append, Outcome.append]
    congr 1
    · simp [Run.barren, List.map_eq_flatMap]
    · refine Run.gather_covered fun y hy => ?_
      exact covers_of_mem_many hy

/-- **Repetition is maximal and idempotent.** For a parser whose successes are suffixes of its
    input, each success of `many p` ends where no success of `p` reads anything. `many (many p)` has
    the successes of `many p`, in order and with what they leave, each list alone in a list, or no
    list where nothing was read; and it tells of the same furthest failure. -/
theorem many_maximal_idempotent (p : Parser α) (hp : p.Advances) (c : Cursor) :
    (∀ y ∈ (many p c).outcome.successes, ∀ x ∈ (p y.rest).outcome.successes, x.rest = y.rest) ∧
    (many (many p) c).outcome
      = ⟨(many p c).outcome.successes.map (regroup c), (many p c).outcome.furthest⟩ := by
  refine ⟨fun y hy x hx => ?_, outcome_many_many p c⟩
  have hreaches : y.rest.Reaches x.rest := hp y.rest x hx
  refine hreaches.eq_of_length_eq (Nat.le_antisymm hreaches.length_le (Nat.not_lt.1 fun hlt => ?_))
  have hmem : x ∈ consuming y.rest (p y.rest).outcome.successes :=
    List.mem_filter.2 ⟨hx, decide_eq_true hlt⟩
  rw [consuming_eq_nil_of_mem_many hy] at hmem
  exact List.not_mem_nil hmem

/-- Two characters are read as `a` and `a` or as `aa`, and each of these lists is then repeated
    once. At a `b` nothing is read, and nothing repeated. -/
theorem many_many_stutter :
    stutter.parser.Advances ∧
    (many (many stutter.parser) (.ofString "aa")).outcome
      = ⟨[⟨[["a", "a"]], (Cursor.ofString "aa").drop 2⟩, ⟨[["aa"]], (Cursor.ofString "aa").drop 2⟩],
          some ⟨⟨1, 3, 2⟩, none, .singleton "'a'"⟩⟩ ∧
    (many (many stutter.parser) (.ofString "b")).outcome
      = ⟨[⟨[], .ofString "b"⟩], some ⟨⟨1, 1, 0⟩, some 'b', .singleton "'a'"⟩⟩ := by
  have hstutter : stutter.parser.Advances := stutter.advances_parserIn Grammar.advances_empty
  have hend : many stutter.parser ((Cursor.ofString "aa").drop 2)
      = .quiet ⟨[⟨[], (Cursor.ofString "aa").drop 2⟩],
          some ⟨⟨1, 3, 2⟩, none, .singleton "'a'"⟩⟩ := many_of_nil rfl
  have hmiddle : many stutter.parser ((Cursor.ofString "aa").drop 1)
      = .quiet ⟨[⟨["a"], (Cursor.ofString "aa").drop 2⟩],
          some ⟨⟨1, 3, 2⟩, none, .singleton "'a'"⟩⟩ := by
    have hread : consuming ((Cursor.ofString "aa").drop 1)
        (stutter.parser ((Cursor.ofString "aa").drop 1)).outcome.successes
          = [⟨"a", (Cursor.ofString "aa").drop 2⟩] := rfl
    rw [many_of_ne_nil (by simp [hread]), hread, Run.gather_cons, hend]
    rfl
  have hstart : many stutter.parser (.ofString "aa")
      = .quiet ⟨[⟨["a", "a"], (Cursor.ofString "aa").drop 2⟩,
            ⟨["aa"], (Cursor.ofString "aa").drop 2⟩],
          some ⟨⟨1, 3, 2⟩, none, .singleton "'a'"⟩⟩ := by
    have hread : consuming (.ofString "aa") (stutter.parser (.ofString "aa")).outcome.successes
        = [⟨"a", (Cursor.ofString "aa").drop 1⟩, ⟨"aa", (Cursor.ofString "aa").drop 2⟩] := rfl
    rw [many_of_ne_nil (by simp [hread]), hread, Run.gather_cons, Run.gather_cons, hmiddle, hend]
    rfl
  have hnone : many stutter.parser (.ofString "b")
      = .quiet ⟨[⟨[], .ofString "b"⟩], some ⟨⟨1, 1, 0⟩, some 'b', .singleton "'a'"⟩⟩ :=
    many_of_nil rfl
  refine ⟨hstutter, ?_, ?_⟩
  · rw [(many_maximal_idempotent stutter.parser hstutter _).2, hstart]
    rfl
  · rw [(many_maximal_idempotent stutter.parser hstutter _).2, hnone]
    rfl

end Parser

end Parsing
