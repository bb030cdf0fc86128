import Mathlib.Data.List.Induction
import Parsing.Proofs.Remainder
import Parsing.Proofs.Simulation

set_option autoImplicit false

/-! # What lies behind the cursor does not matter

A text that stands in front of another one moves the places of the other one: offsets by its number
of characters, lines by its number of line feeds, and columns, on the first line only, by the length
of its last line (`Position.behind`). That is all it does to parsing: a parser applied where the
front text ends makes of the rest what it makes of the rest by itself, with all places moved
(`outcome_behind`).

A cursor and the same cursor with its place moved are related by a simulation (`behind`). -/

namespace Parsing

/-! ## Moved places -/

namespace Position

/-- The number of characters after the last line feed. -/
def lastLine (a : List Char) : Nat := (a.reverse.takeWhile fun x => decide (x ≠ '\n')).length

/-- The place `p` of a text when `a` stands in front of that text. -/
def behind (a : List Char) (p : Position) : Position :=
  ⟨p.line + a.count '\n', if p.line = 1 then p.column + lastLine a else p.column,
    p.offset + a.length⟩

@[simp] theorem offset_behind (a : List Char) (p : Position) :
    (p.behind a).offset = p.offset + a.length := rfl

theorem lastLine_concat_break (a : List Char) : lastLine (a ++ ['\n']) = 0 := by
  simp [lastLine]

theorem lastLine_concat {x : Char} (h : x ≠ '\n') (a : List Char) :
    lastLine (a ++ [x]) = lastLine a + 1 := by
  simp [lastLine, h]

theorem advance_break (p : Position) : p.advance '\n' = ⟨p.line + 1, 1, p.offset + 1⟩ := rfl

theorem advance_of_ne {x : Char} (h : x ≠ '\n') (p : Position) :
    p.advance x = ⟨p.line, p.column + 1, p.offset + 1⟩ := by
  rw [advance, if_neg h]

/-- A text starts where the one in front of it ends. -/
theorem advanceAll_start (a : List Char) : start.advanceAll a = start.behind a := by
  induction a using List.reverseRecOn with
  | nil => rfl
  | append_singleton a x ih =>
      have hstep : start.advanceAll (a ++ [x]) = (start.advanceAll a).advance x := by
        rw [advanceAll, List.foldl_append]
        rfl
      rw [hstep, ih]
      by_cases hx : x = '\n'
      · subst hx
        rw [advance_break]
        simp only [behind, start, lastLine_concat_break, List.count_append, List.length_append,
          List.count_singleton_self, List.length_singleton, if_true]
        rfl
      · have hcount : (a ++ [x]).count '\n' = a.count '\n' := by
          rw [List.count_append, List.count_singleton, if_neg (by simpa using hx), Nat.add_zero]
        rw [advance_of_ne hx]
        simp only [behind, start, lastLine_concat hx, hcount, List.length_append,
          List.length_singleton, if_true]
        rfl

/-- Lines are counted from one, so only the first line is moved sideways. -/
theorem advance_behind (a : List Char) {p : Position} (hline : 1 ≤ p.line) (x : Char) :
    (p.behind a).advance x = (p.advance x).behind a := by
  by_cases hx : x = '\n'
  · subst hx
    have hnext : p.line + 1 ≠ 1 := by omega
    rw [advance_break, advance_break]
    simp only [behind, if_neg hnext, mk.injEq, true_and]
    exact ⟨Nat.add_right_comm _ _ _, Nat.add_right_comm _ _ _⟩
  · rw [advance_of_ne hx, advance_of_ne hx]
    simp only [behind, mk.injEq, true_and]
    split <;> omega

theorem one_le_line_advance {p : Position} (hline : 1 ≤ p.line) (x : Char) :
    1 ≤ (p.advance x).line := by
  unfold advance
  split
  · exact Nat.le_add_left 1 p.line
  · exact hline

end Position

/-- The cursor of the source `source` that has the text of `c` before it and `a` in front of it. -/
def Cursor.behind (source : Nat) (a : List Char) (c : Cursor) : Cursor :=
  ⟨source, c.position.behind a, c.unread⟩

/-- The failure with its place moved. -/
def Failure.behind (a : List Char) (f : Failure) : Failure :=
  { f with position := f.position.behind a }

/-- The outcome with all its places moved, in the source `source`. -/
def Outcome.behind {α : Type} (source : Nat) (a : List Char) (o : Outcome α) : Outcome α :=
  ⟨o.successes.map fun x => ⟨x.value, x.rest.behind source a⟩, o.furthest.map (·.behind a)⟩

theorem Cursor.next_behind (source : Nat) (a : List Char) {c : Cursor}
    (hline : 1 ≤ c.position.line) : (c.behind source a).next = c.next.behind source a := by
  obtain ⟨s, p, _ | ⟨x, xs⟩⟩ := c
  · rfl
  · simp only [behind, next_cons, Position.advance_behind a hline]

theorem Cursor.one_le_line_next {c : Cursor} (hline : 1 ≤ c.position.line) :
    1 ≤ c.next.position.line := by
  obtain ⟨s, p, _ | ⟨x, xs⟩⟩ := c
  · exact hline
  · exact Position.one_le_line_advance hline x

/-- Moved alike, failures compare as before. -/
theorem Failure.merge_behind (a : List Char) (f g : Failure) :
    (f.behind a).merge (g.behind a) = (f.merge g).behind a := by
  simp only [merge, behind, Position.offset_behind, Nat.add_lt_add_iff_right]
  split
  · rfl
  · split <;> rfl

theorem Failure.relabel_behind (source : Nat) (a : List Char) (c : Cursor) (name : String)
    (f : Failure) :
    (f.behind a).relabel (c.behind source a) name = (f.relabel c name).behind a := by
  have hiff : (f.behind a).position.offset = (c.behind source a).offset
      ↔ f.position.offset = c.offset := Nat.add_right_cancel_iff
  by_cases h : f.position.offset = c.offset
  · rw [relabel, relabel, if_pos h, if_pos (hiff.2 h)]
    rfl
  · rw [relabel, relabel, if_neg h, if_neg (fun h' => h (hiff.1 h'))]

/-! ## All parsers -/

namespace Simulation

/-- A cursor is related to the one with `a` in front of it. -/
def behind (source : Nat) (a : List Char) : Simulation where
  cursors c d := c = d.behind source a ∧ 1 ≤ d.position.line
  failures f g := f = g.behind a
  unread_eq := by
    rintro c d ⟨rfl, _⟩
    rfl
  next := by
    rintro c d ⟨rfl, hline⟩
    exact ⟨Cursor.next_behind source a hline, Cursor.one_le_line_next hline⟩
  missing := by
    rintro c d label ⟨rfl, _⟩
    rfl
  merge := by
    rintro f g f' g' rfl rfl
    exact Failure.merge_behind a g g'
  relabel := by
    rintro c d f g name ⟨rfl, _⟩ rfl
    exact Failure.relabel_behind source a d name g

theorem Runs.outcome_eq_behind {α : Type} {source : Nat} {a : List Char} {r q : Run α}
    (h : (behind source a).Runs r q) : r.outcome = q.outcome.behind source a := by
  have hcursors : ∀ c d, (behind source a).cursors c d → c = d.behind source a :=
    fun _ _ hcd => hcd.1
  have hsuccesses : r.outcome.successes
      = q.outcome.successes.map fun y => ⟨y.value, y.rest.behind source a⟩ :=
    successes_eq_map hcursors h.successes
  have hfurthest : r.outcome.furthest.map id = q.outcome.furthest.map (·.behind a) :=
    furthest_map_eq (fun _ _ hf => hf) h.furthest
  rw [Option.map_id_fun, id] at hfurthest
  rw [Outcome.behind, ← hsuccesses, ← hfurthest]

end Simulation

/-- The text in front of a cursor and the source that it belongs to do not matter to `p`: behind
    `a` it makes of `b` what it makes of `b` by itself, with all places moved. -/
def Parser.IgnoresFront {α : Type} (p : Parser α) : Prop :=
  ∀ (source source' : Nat) (a b : String),
    let inside := p ((Cursor.ofSource source (a ++ b)).drop a.length)
    let alone := p (Cursor.ofSource source' b)
    inside.outcome = alone.outcome.behind source a.toList ∧ inside.events = alone.events

/-- Where the front text ends, the other one starts. -/
theorem Cursor.drop_front (source source' : Nat) (a b : String) :
    (Cursor.ofSource source (a ++ b)).drop a.length
      = (Cursor.ofSource source' b).behind source a.toList := by
  have hunread : (Cursor.ofSource source (a ++ b)).unread = a.toList ++ b.toList :=
    String.toList_append
  have hdrop := (reads_after hunread).eq_drop
  rw [String.length_toList] at hdrop
  rw [← hdrop, after, behind, hunread, List.drop_left]
  exact congrArg (Cursor.mk source · b.toList) (Position.advanceAll_start a.toList)

theorem Parser.ignoresFront_of_related {α : Type} {p : Parser α}
    (hp : ∀ source a, (Simulation.behind source a).Related p p) : p.IgnoresFront := by
  intro source source' a b
  have hruns := hp source a.toList _ _ ⟨Cursor.drop_front source source' a b, Nat.le_refl 1⟩
  exact ⟨hruns.outcome_eq_behind, hruns.events⟩

/-- **Parsing does not depend on what lies behind the cursor.** This holds of the parsers that
    grammars describe and of those built in a workspace. -/
theorem outcome_behind :
    (∀ {ρ α : Type} (p : Grammar ρ α), p.parser.IgnoresFront) ∧
    (∀ (w : Script.Workspace) (b : Script.Built), (w.parser b).IgnoresFront) := by
  constructor
  · intro ρ α p
    exact Parser.ignoresFront_of_related fun _ _ => (Simulation.grammars_self p).related
  · intro w b
    exact Parser.ignoresFront_of_related fun _ _ => Simulation.related_built_self w b

end Parsing
