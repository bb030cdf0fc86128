import Parsing.Proofs.DerivedForms
import Parsing.Proofs.MonadLaws

set_option autoImplicit false

/-! # Literals

A literal is read as its characters are read one after the other (`spell`): it stops at the first
one that is missing, and that one is what was expected there. So it succeeds just where the unread
text begins with it, and a literal can be cut in two anywhere (`literal_spells`). -/

namespace Parsing.Parser

variable {α β : Type}

/-! ## Characters in turn -/

/-- Reads the characters given one after the other, and then what `p` reads. -/
def spell (p : Parser α) : List Char → Parser α
  | [] => p
  | x :: xs => ignoreThen (character x) (spell p xs)

theorem spell_append (p : Parser α) (xs ys : List Char) :
    spell p (xs ++ ys) = spell (spell p ys) xs := by
  induction xs with
  | nil => rfl
  | cons x xs ih => rw [List.cons_append, spell, spell, ih]

theorem spell_cons_of_head (p : Parser α) {c : Cursor} {x : Char} (xs : List Char)
    {rest : List Char} (h : c.unread = x :: rest) : spell p (x :: xs) c = spell p xs c.next :=
  ignoreThen_character_of_head (spell p xs) h

theorem spell_cons_of_not_head (p : Parser α) {c : Cursor} {x : Char} (xs : List Char)
    (h : ∀ rest, c.unread ≠ x :: rest) : spell p (x :: xs) c = fail (Quoted.char x) c :=
  ignoreThen_character_of_not_head (spell p xs) h

theorem unread_ne_of_head?_ne {c : Cursor} {x : Char} (h : c.unread.head? ≠ some x)
    (rest : List Char) : c.unread ≠ x :: rest := by
  intro hrest
  rw [hrest] at h
  exact h rfl

/-- Where the characters stand, `p` comes behind them. -/
theorem spell_of_reads (p : Parser α) {xs : List Char} {c d : Cursor} (h : c.Reads xs d) :
    spell p xs c = p d := by
  induction xs generalizing c with
  | nil => rw [h.eq_after, ← (Cursor.reads_nil c).eq_after, spell]
  | cons x xs ih => rw [spell_cons_of_head p xs h.unread_eq, ih h.tail]

/-- The characters stand at `c` up to `d`, and then `x` is the first one missing. -/
def MissesAt (xs : List Char) (c : Cursor) (x : Char) (d : Cursor) : Prop :=
  ∃ before behind, xs = before ++ x :: behind ∧ c.Reads before d ∧ d.unread.head? ≠ some x

theorem exists_missesAt {xs : List Char} {c : Cursor} (h : ¬ xs <+: c.unread) :
    ∃ x d, MissesAt xs c x d := by
  induction xs generalizing c with
  | nil => exact absurd List.nil_prefix h
  | cons x xs ih =>
      by_cases hx : c.unread.head? = some x
      · obtain ⟨rest, hc⟩ : ∃ rest, c.unread = x :: rest := List.head?_eq_some_iff.1 hx
        have hrest : ¬ xs <+: c.next.unread := by
          rw [Cursor.unread_next hc]
          intro hprefix
          rw [hc] at h
          exact h (List.cons_prefix_cons.2 ⟨rfl, hprefix⟩)
        obtain ⟨y, d, before, behind, hxs, hreads, hd⟩ := ih hrest
        exact ⟨y, d, x :: before, behind, by rw [hxs, List.cons_append],
          (Cursor.reads_next hc).trans hreads, hd⟩
      · exact ⟨x, c, [], xs, rfl, c.reads_nil, hx⟩

/-- Where a character is missing, that is all that can be told. -/
theorem spell_of_missesAt (p : Parser α) {xs : List Char} {c d : Cursor} {x : Char}
    (h : MissesAt xs c x d) : spell p xs c = fail (Quoted.char x) d := by
  obtain ⟨before, behind, rfl, hreads, hd⟩ := h
  rw [spell_append, spell_of_reads _ hreads,
    spell_cons_of_not_head p behind (unread_ne_of_head?_ne hd)]

/-- What comes behind the characters goes on behind them. -/
theorem bind_spell (p : Parser α) (xs : List Char) (f : α → Parser β) :
    bind (spell p xs) f = spell (bind p f) xs := by
  funext c
  by_cases h : xs <+: c.unread
  · obtain ⟨rest, hrest⟩ := h
    have hreads : c.Reads xs (c.after xs) := Cursor.reads_after hrest.symm
    rw [spell_of_reads _ hreads, bind, spell_of_reads _ hreads, bind]
  · obtain ⟨x, d, hmisses⟩ := exists_missesAt h
    rw [spell_of_missesAt _ hmisses, bind, spell_of_missesAt _ hmisses]
    rfl

/-! ## Literals -/

theorem literalFrom_eq_spell (text : String) (xs : List Char) :
    literalFrom text xs = spell (succeed text) xs := by
  induction xs with
  | nil => rfl
  | cons x xs ih =>
      funext c
      by_cases hx : c.unread.head? = some x
      · obtain ⟨rest, hc⟩ : ∃ rest, c.unread = x :: rest := List.head?_eq_some_iff.1 hx
        rw [spell_cons_of_head _ xs hc, ← ih]
        simp only [literalFrom, hc, if_true]
      · have hmissing : ∀ rest, c.unread ≠ x :: rest := unread_ne_of_head?_ne hx
        rw [spell_cons_of_not_head _ xs hmissing]
        cases hc : c.unread with
        | nil => simp only [literalFrom, hc]
        | cons y ys =>
            have hne : y ≠ x := fun hyx => hmissing ys (hyx ▸ hc)
            simp only [literalFrom, hc, if_neg hne]

theorem literal_eq_spell (text : String) : literal text = spell (succeed text) text.toList :=
  literalFrom_eq_spell text text.toList

theorem literal_append (a b : String) :
    literal (a ++ b) = sequence (fun x y => x ++ y) (literal a) (literal b) := by
  symm
  calc sequence (fun x y => x ++ y) (literal a) (literal b)
      = bind (spell (succeed a) a.toList) fun x => map (x ++ ·) (literal b) := by
        rw [sequence_eq_bind, literal_eq_spell a]
    _ = spell (map (a ++ ·) (literal b)) a.toList := by rw [bind_spell, bind_succeed_left]
    _ = spell (bind (spell (succeed b) b.toList) fun y => succeed (a ++ y)) a.toList := by
        rw [map_eq_bind, literal_eq_spell b]
    _ = spell (spell (succeed (a ++ b)) b.toList) a.toList := by rw [bind_spell, bind_succeed_left]
    _ = literal (a ++ b) := by rw [← spell_append, ← String.toList_append, ← literal_eq_spell]

theorem isSuccess_literal_iff (text : String) (c : Cursor) :
    (literal text c).outcome.isSuccess = true ↔ text.toList <+: c.unread := by
  constructor
  · intro hsuccess
    by_contra h
    obtain ⟨x, d, hmisses⟩ := exists_missesAt h
    rw [literal_eq_spell, spell_of_missesAt _ hmisses] at hsuccess
    exact Bool.false_ne_true hsuccess
  · rintro ⟨rest, hrest⟩
    rw [literal_eq_spell, spell_of_reads _ (Cursor.reads_after hrest.symm)]
    rfl

/-- **A literal is its characters in turn.** It succeeds just where the unread text begins with it,
    leaves the rest of that text, and records no failure then. Elsewhere it fails at the first
    character that is another one, or that is not there, and expected just the character of the
    literal at that place. Two literals one after the other are one, with their texts joined. -/
theorem literal_spells :
    (∀ text : String, literal text = spell (succeed text) text.toList) ∧
    (∀ (text : String) (c : Cursor),
      (literal text c).outcome.isSuccess = true ↔ text.toList <+: c.unread) ∧
    (∀ (text : String) (c : Cursor), text.toList <+: c.unread →
      ∃ d, c.Reads text.toList d ∧ literal text c = .quiet ⟨[⟨text, d⟩], none⟩) ∧
    (∀ (text : String) (c : Cursor), ¬ text.toList <+: c.unread →
      ∃ before x behind d, text.toList = before ++ x :: behind ∧ c.Reads before d ∧
        d.unread.head? ≠ some x ∧
        literal text c
          = .quiet ⟨[], some ⟨d.position, d.unread.head?, .singleton (Quoted.char x)⟩⟩) ∧
    (∀ a b : String, literal (a ++ b) = sequence (fun x y => x ++ y) (literal a) (literal b)) := by
  refine ⟨literal_eq_spell, isSuccess_literal_iff, fun text c h => ?_, fun text c h => ?_,
    literal_append⟩
  · obtain ⟨rest, hrest⟩ := h
    have hreads : c.Reads text.toList (c.after text.toList) := Cursor.reads_after hrest.symm
    refine ⟨_, hreads, ?_⟩
    rw [literal_eq_spell, spell_of_reads _ hreads]
    rfl
  · obtain ⟨x, d, hmisses⟩ := exists_missesAt h
    have hrun : literal text c = fail (Quoted.char x) d := by
      rw [literal_eq_spell, spell_of_missesAt _ hmisses]
    obtain ⟨before, behind, htext, hreads, hd⟩ := hmisses
    exact ⟨before, x, behind, d, htext, hreads, hd, hrun⟩

/-- Two lines are given up at the second character of the second line; a word is read where more
    text follows it. -/
theorem literal_spells_lines :
    (¬ "ab\nce".toList <+: (Cursor.ofString "ab\ncd").unread ∧
      (∃ before x behind d, "ab\nce".toList = before ++ x :: behind ∧
        (Cursor.ofString "ab\ncd").Reads before d ∧ d.unread.head? ≠ some x ∧
        literal "ab\nce" (.ofString "ab\ncd")
          = .quiet ⟨[], some ⟨d.position, d.unread.head?, .singleton (Quoted.char x)⟩⟩) ∧
      literal "ab\nce" (.ofString "ab\ncd")
        = .quiet ⟨[], some ⟨⟨2, 2, 4⟩, some 'd', .singleton "'e'"⟩⟩) ∧
    ("let".toList <+: (Cursor.ofString "let x").unread ∧
      ∃ d, (Cursor.ofString "let x").Reads "let".toList d ∧
        literal "let" (.ofString "let x") = .quiet ⟨[⟨"let", d⟩], none⟩) := by
  obtain ⟨-, -, hreads, hmisses, -⟩ := literal_spells
  have hlines : ¬ "ab\nce".toList <+: (Cursor.ofString "ab\ncd").unread := by decide
  have hword : "let".toList <+: (Cursor.ofString "let x").unread := by decide
  exact ⟨⟨hlines, hmisses _ _ hlines, by decide⟩, hword, hreads _ _ hword⟩

/-- The empty literal reads nothing. -/
example (c : Cursor) : literal "" c = .quiet ⟨[⟨"", c⟩], none⟩ := rfl

end Parsing.Parser
