import Parsing.Script.Workspace
import Parsing.Proofs.Suffix

set_option autoImplicit false

/-! # What a success leaves unread

Every success of every parser leaves its input moved forward by some number of characters, at most
to the end (`movesTo_of_mem_successes`): a cursor of the same source, at a place between that of
the input and the end of the text. This holds of the parsers that grammars describe, with any
functions as continuations, and of those that refer to the definitions of a workspace, whatever has
been supplied or dropped there. -/

namespace Parsing

namespace Cursor

/-! ## Moving by a number of characters -/

theorem drop_succ {c : Cursor} {x : Char} {xs : List Char} (h : c.unread = x :: xs) (n : Nat) :
    c.drop (n + 1) = c.next.drop n := by
  simp [drop, isEmpty, h]

/-- Reading characters moves forward by as many. -/
theorem Reads.eq_drop {c d : Cursor} {cs : List Char} (h : c.Reads cs d) :
    d = c.drop cs.length := by
  induction cs generalizing c with
  | nil => exact h.eq_after.trans (reads_nil c).eq_after.symm
  | cons x xs ih =>
      rw [List.length_cons, drop_succ h.unread_eq]
      exact ih h.tail

/-- `d` is `c` moved forward by some number of characters, to the end at most. -/
def MovesTo (c d : Cursor) : Prop :=
  ∃ n ≤ c.length, d = c.drop n ∧ d.source = c.source ∧ d.offset = c.offset + n

theorem Reaches.movesTo {c d : Cursor} (h : c.Reaches d) : c.MovesTo d := by
  obtain ⟨cs, hcs⟩ := h
  refine ⟨cs.length, ?_, hcs.eq_drop, hcs.source_eq, ?_⟩
  · have := hcs.length_eq
    omega
  · rw [offset, hcs.position_eq, Position.offset_advanceAll]
    rfl

theorem MovesTo.isSuffixOf {c d : Cursor} (h : c.MovesTo d) : d.isSuffixOf c = true := by
  obtain ⟨n, _, _, hsource, hoffset⟩ := h
  simp [Cursor.isSuffixOf, hsource, hoffset]

end Cursor

/-! ## Parsers of a workspace -/

namespace Script.Workspace

theorem advances_meaning (w : Workspace) (alive : List Nat) {self : Nat → Parser Value}
    (hself : ∀ d, (self d).Advances) (r : Ref) : (w.meaning alive self r).Advances := by
  cases r with
  | name x => exact Parser.advances_of_successes_eq_nil fun _ => rfl
  | owner d => exact hself d
  | handle d =>
      intro c x hx
      rw [meaning] at hx
      split at hx
      · split at hx
        · exact hself d c x hx
        · exact absurd hx List.not_mem_nil
      · exact absurd hx List.not_mem_nil

theorem advances_bodyParser (w : Workspace) (alive : List Nat) {self : Nat → Parser Value}
    (hself : ∀ d, (self d).Advances) (d : Nat) : (w.bodyParser alive self d).Advances := by
  unfold bodyParser
  split
  · exact Grammar.advances_parserIn _ (w.advances_meaning alive hself)
  · exact Parser.advances_of_successes_eq_nil fun _ => rfl

/-- The bodies of definitions advance, since what they refer to is bodies again. -/
theorem advances_bodies (w : Workspace) (alive : List Nat) (d : Nat) :
    (Parser.knot (List.range w.bodies.length) (w.bodyParser alive) d).Advances :=
  Parser.advances_knot (fun _ => w.advances_bodyParser alive) d

theorem advances_built (w : Workspace) (b : Built) : (w.parser b).Advances :=
  Grammar.advances_parserIn b.rules (w.advances_meaning w.alive (w.advances_bodies w.alive))

end Script.Workspace

/-! ## All parsers -/

/-- **Successes leave suffixes.** A success of any parser, described by a grammar or built in a
    workspace, leaves the input moved forward, to the end at most. -/
theorem movesTo_of_mem_successes :
    (∀ {ρ α : Type} (p : Grammar ρ α) (c : Cursor), ∀ x ∈ (p.parser c).outcome.successes,
      c.MovesTo x.rest ∧ x.rest.isSuffixOf c = true) ∧
    (∀ (w : Script.Workspace) (b : Script.Built) (c : Cursor),
      ∀ x ∈ (w.parser b c).outcome.successes, c.MovesTo x.rest ∧ x.rest.isSuffixOf c = true) := by
  constructor
  · intro ρ α p c x hx
    have hreaches : c.Reaches x.rest := p.advances_parserIn Grammar.advances_empty c x hx
    exact ⟨hreaches.movesTo, hreaches.movesTo.isSuffixOf⟩
  · intro w b c x hx
    have hreaches : c.Reaches x.rest := w.advances_built b c x hx
    exact ⟨hreaches.movesTo, hreaches.movesTo.isSuffixOf⟩

/-- A character looked at, or a character and the same one again: where both can be read there are
    two successes. -/
def lookOrTwice : Grammar Unit Char :=
  .union (.look .anyChar) (.bind .anyChar fun x => .character x)

/-- The second way of reading `aa` leaves nothing, and the first one leaves all of it. -/
theorem movesTo_lookOrTwice :
    (lookOrTwice.parser (.ofString "aa")).outcome.successes
        = [⟨'a', .ofString "aa"⟩, ⟨'a', (Cursor.ofString "aa").drop 2⟩] ∧
      (Cursor.ofString "aa").MovesTo ((Cursor.ofString "aa").drop 2) := by
  have hsuccesses : (lookOrTwice.parser (.ofString "aa")).outcome.successes
      = [⟨'a', .ofString "aa"⟩, ⟨'a', (Cursor.ofString "aa").drop 2⟩] := by decide
  have hmem : ⟨'a', (Cursor.ofString "aa").drop 2⟩
      ∈ (lookOrTwice.parser (.ofString "aa")).outcome.successes := by
    rw [hsuccesses]
    exact List.mem_cons_of_mem _ List.mem_cons_self
  exact ⟨hsuccesses, (movesTo_of_mem_successes.1 lookOrTwice _ _ hmem).1⟩

end Parsing
