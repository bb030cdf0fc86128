import Parsing.Proofs.Remainder
import Parsing.Proofs.Simulation

set_option autoImplicit false

/-! # Where failures happen

A failure is recorded at a cursor and tells of that place: its position, the character there, and a
label. Merging keeps what one of two failures tells, and naming only changes labels, so the furthest
failure of a run tells of a place too: one between the cursor where the parser was applied and the
end of the text (`describes_of_furthest_eq_some`). So does the error of a text that no reading was
found of, unless nothing at all was recorded.

The places reached from a cursor on, each related to itself only, are a simulation (`readingFrom`):
what is related to itself by it happened there. -/

namespace Parsing

/-- Moving forward passes the characters in between. -/
theorem Cursor.position_drop (n : Nat) (c : Cursor) :
    (c.drop n).position = c.position.advanceAll (c.unread.take n) := by
  induction n generalizing c with
  | zero => rfl
  | succ n ih =>
      obtain ⟨s, p, _ | ⟨x, xs⟩⟩ := c
      · rfl
      · rw [drop_succ rfl, ih]
        rfl

namespace Failure

/-- What `f` tells is true of `d`, and it tells what was expected. -/
structure HappensAt (f : Failure) (d : Cursor) : Prop where
  position_eq : f.position = d.position
  found_eq : f.found = d.unread.head?
  expects : ∃ label, label ∈ f.expected

theorem happensAt_missing (d : Cursor) (label : String) : (missing d label).HappensAt d :=
  ⟨rfl, rfl, label, by simp [missing, expect]⟩

theorem HappensAt.relabel {f : Failure} {d : Cursor} (h : f.HappensAt d) (c : Cursor)
    (name : String) : (f.relabel c name).HappensAt d := by
  unfold Failure.relabel
  split
  · exact ⟨h.position_eq, h.found_eq, name, LabelSet.mem_singleton.2 rfl⟩
  · exact h

theorem HappensAt.pool {f : Failure} {d : Cursor} (h : f.HappensAt d) (g : Failure) :
    HappensAt { f with expected := f.expected.union g.expected } d := by
  obtain ⟨label, hlabel⟩ := h.expects
  exact ⟨h.position_eq, h.found_eq, label, LabelSet.mem_union.2 (.inl hlabel)⟩

/-- What `f` tells is true of the place `n` characters behind `c`, for some `n`: its position, and
    the character there, which is missing just at the end. -/
def Describes (f : Failure) (c : Cursor) : Prop :=
  ∃ n ≤ c.length, f.position = (c.drop n).position ∧ f.position.offset = c.offset + n ∧
    f.found = c.unread[n]? ∧ (f.found = none ↔ n = c.length) ∧ ∃ label, label ∈ f.expected

theorem HappensAt.describes {f : Failure} {c d : Cursor} (h : f.HappensAt d) (hd : c.Reaches d) :
    f.Describes c := by
  obtain ⟨cs, hcs⟩ := hd
  have hlength : c.length = cs.length + d.length := hcs.length_eq
  have hfound : f.found = c.unread[cs.length]? := by
    rw [h.found_eq, hcs.unread_eq, List.getElem?_append_right (Nat.le_refl _), Nat.sub_self,
      List.head?_eq_getElem?]
  refine ⟨cs.length, by omega, ?_, ?_, hfound, ?_, h.expects⟩
  · rw [h.position_eq, hcs.eq_drop]
  · rw [h.position_eq, hcs.position_eq, Position.offset_advanceAll]
    rfl
  · rw [hfound, List.getElem?_eq_none_iff, ← Cursor.length, hlength]
    omega

end Failure

/-! ## The places reached from a cursor on -/

namespace Simulation

/-- Each place from `start` on is related to itself, and so is each failure that happens there. -/
def readingFrom (start : Cursor) : Simulation where
  cursors c d := c = d ∧ start.Reaches c
  failures f g := f = g ∧ ∃ d, start.Reaches d ∧ f.HappensAt d
  unread_eq := by
    rintro c d ⟨rfl, _⟩
    rfl
  next := by
    rintro c d ⟨rfl, hc⟩
    exact ⟨rfl, hc.trans c.reaches_next⟩
  missing := by
    rintro c d label ⟨rfl, hc⟩
    exact ⟨rfl, c, hc, Failure.happensAt_missing c label⟩
  merge := by
    rintro f g f' g' ⟨rfl, d, hd, hf⟩ ⟨rfl, d', hd', hf'⟩
    refine ⟨rfl, ?_⟩
    unfold Failure.merge
    split
    · exact ⟨d, hd, hf⟩
    · split
      · exact ⟨d', hd', hf'⟩
      · exact ⟨d, hd, hf.pool f'⟩
  relabel := by
    rintro c c' f g name ⟨rfl, _⟩ ⟨rfl, d, hd, hf⟩
    exact ⟨rfl, d, hd, hf.relabel c name⟩

/-- A parser that keeps to the places reached has its furthest failure at one of them. -/
theorem describes_of_related {α : Type} {p : Parser α} {c : Cursor} {f : Failure}
    (hp : (readingFrom c).Related p p) (hf : (p c).outcome.furthest = some f) :
    f.Describes c := by
  have hrel := (hp c c ⟨rfl, c.reaches_refl⟩).furthest
  rw [hf] at hrel
  cases hrel with
  | some h =>
      obtain ⟨_, d, hd, hfd⟩ := h
      exact hfd.describes hd

end Simulation

/-! ## All parsers -/

/-- What `e` tells is true of a place in `text`, and it tells what was expected there. -/
def ParseError.Describes (e : ParseError) (text : String) : Prop :=
  ∃ n ≤ text.length, e.position = Position.start.advanceAll (text.toList.take n) ∧
    e.found = text.toList[n]? ∧ e.expected ≠ []

theorem Failure.Describes.error {text : String} {f : Failure}
    (h : f.Describes (.ofString text)) : (ParseError.ofFailure f).Describes text := by
  obtain ⟨n, hn, hposition, _, hfound, _, label, hlabel⟩ := h
  refine ⟨n, ?_, ?_, hfound, List.ne_nil_of_mem hlabel⟩
  · rwa [← String.length_toList]
  · exact hposition.trans (Cursor.position_drop n _)

/-- The error of an outcome is that of its furthest failure, or of no failure at all. -/
theorem Outcome.describes_of_result_eq_error {α : Type} {o : Outcome α} {text : String}
    {e : ParseError} (ho : ∀ f, o.furthest = some f → f.Describes (.ofString text))
    (he : o.result = .error e) : (o.furthest = none ∧ e = .unexplained) ∨ e.Describes text := by
  unfold Outcome.result at he
  split at he
  · cases he
  · cases he
    cases hf : o.furthest with
    | none => exact .inl ⟨rfl, rfl⟩
    | some f => exact .inr (ho f hf).error

/-- **Failures tell of real places.** The furthest failure of any parser, described by a grammar or
    built in a workspace, describes a place from its input on. The error of a text is that of no
    failure at all, or its position and the character found occur in the text. -/
theorem describes_of_furthest_eq_some :
    (∀ {ρ α : Type} (p : Grammar ρ α) (c : Cursor) (f : Failure),
      (p.parser c).outcome.furthest = some f → f.Describes c) ∧
    (∀ (w : Script.Workspace) (b : Script.Built) (c : Cursor) (f : Failure),
      (w.parser b c).outcome.furthest = some f → f.Describes c) ∧
    (∀ {ρ α : Type} (p : Grammar ρ α) (text : String) (e : ParseError),
      (p.parser.applyText text).outcome.result = .error e →
        ((p.parser.applyText text).outcome.furthest = none ∧ e = .unexplained) ∨
          e.Describes text) ∧
    (∀ (w : Script.Workspace) (b : Script.Built) (text : String) (e : ParseError),
      ((w.parser b).applyText text).outcome.result = .error e →
        (((w.parser b).applyText text).outcome.furthest = none ∧ e = .unexplained) ∨
          e.Describes text) := by
  have hgrammar : ∀ {ρ α : Type} (p : Grammar ρ α) (c : Cursor) (f : Failure),
      (p.parser c).outcome.furthest = some f → f.Describes c :=
    fun p c f hf => Simulation.describes_of_related (Simulation.grammars_self p).related hf
  have hbuilt : ∀ (w : Script.Workspace) (b : Script.Built) (c : Cursor) (f : Failure),
      (w.parser b c).outcome.furthest = some f → f.Describes c :=
    fun w b c f hf => Simulation.describes_of_related (Simulation.related_built_self w b) hf
  refine ⟨hgrammar, hbuilt, fun p text e he => ?_, fun w b text e he => ?_⟩
  · exact Outcome.describes_of_result_eq_error (hgrammar p _) he
  · exact Outcome.describes_of_result_eq_error (hbuilt w b _) he

/-- Two lines read exactly, or anything said to be a word. -/
def linesOrWord : Grammar Unit String :=
  .orElse (.literal "a\nbc") (.label "word" (.map String.singleton (.satisfy Char.isUpper)))

/-- The lines by themselves, as a parser built in a workspace. -/
def builtLines : Script.Built := ⟨.map .text (.literal "a\nbc"), []⟩

/-- The lines are given up at the second character of the second line; the word behind them is
    given up at the start of the text and not told of. By themselves and in a text that ends with
    the first line, the lines are given up at the end. -/
theorem describes_linesOrWord :
    (linesOrWord.parser (.ofString "a\nbx")).outcome.furthest
        = some ⟨⟨2, 2, 3⟩, some 'x', .singleton "'c'"⟩ ∧
      Failure.Describes ⟨⟨2, 2, 3⟩, some 'x', .singleton "'c'"⟩ (.ofString "a\nbx") ∧
      ParseError.Describes ⟨⟨2, 2, 3⟩, some 'x', ["'c'"]⟩ "a\nbx" ∧
      (Script.Workspace.empty.parser builtLines (.ofString "a\n")).outcome.furthest
        = some ⟨⟨2, 1, 2⟩, none, .singleton "'b'"⟩ ∧
      Failure.Describes ⟨⟨2, 1, 2⟩, none, .singleton "'b'"⟩ (.ofString "a\n") ∧
      ParseError.Describes ⟨⟨2, 1, 2⟩, none, ["'b'"]⟩ "a\n" := by
  have hword : (linesOrWord.parser (.ofString "a\nbx")).outcome.furthest
      = some ⟨⟨2, 2, 3⟩, some 'x', .singleton "'c'"⟩ := by decide
  have hwordError : (linesOrWord.parser.applyText "a\nbx").outcome.result
      = .error ⟨⟨2, 2, 3⟩, some 'x', ["'c'"]⟩ := by decide
  have hlines : (Script.Workspace.empty.parser builtLines (.ofString "a\n")).outcome.furthest
      = some ⟨⟨2, 1, 2⟩, none, .singleton "'b'"⟩ := by decide
  have hlinesError : ((Script.Workspace.empty.parser builtLines).applyText "a\n").outcome.result
      = .error ⟨⟨2, 1, 2⟩, none, ["'b'"]⟩ := by decide
  refine ⟨hword, describes_of_furthest_eq_some.1 linesOrWord _ _ hword, ?_,
    hlines, describes_of_furthest_eq_some.2.1 .empty builtLines _ _ hlines, ?_⟩
  · rcases describes_of_furthest_eq_some.2.2.1 linesOrWord _ _ hwordError with hnone | hplace
    · exact absurd hnone.2 (by decide)
    · exact hplace
  · rcases describes_of_furthest_eq_some.2.2.2 .empty builtLines _ _ hlinesError with hnone | hplace
    · exact absurd hnone.2 (by decide)
    · exact hplace

end Parsing
