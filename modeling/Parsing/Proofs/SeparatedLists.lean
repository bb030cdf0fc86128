import Parsing.Proofs.DerivedForms
import Parsing.Proofs.References

set_option autoImplicit false

/-! # Lists with a separator

A word is some characters that pass a test, and a list is words with a separator between them that
does not pass it. Reading a list gives the words back, whatever text follows that could not go on
with the last word or with one word more (`sepBy_intercalate`).

Repetitions of a parser that has one success at each step read in one way (`Goes`): this covers the
characters of a word, and the words behind separators. -/

namespace Parsing.Parser

variable {α β : Type}

/-! ## Repetitions without a choice -/

/-- Reading `p` as often as possible from `c` on gives the values `vs`, one success at each step,
    and ends at `d`. -/
inductive Goes (p : Parser α) : Cursor → List α → Cursor → Prop where
  | stop {c : Cursor} (h : (p c).outcome.successes = []) : Goes p c [] c
  | step {c d e : Cursor} {v : α} {vs : List α} (h : (p c).outcome.successes = [⟨v, d⟩])
      (hlt : d.length < c.length) (hrest : Goes p d vs e) : Goes p c (v :: vs) e

theorem Goes.successes_many {p : Parser α} {c d : Cursor} {vs : List α} (h : Goes p c vs d) :
    (many p c).outcome.successes = [⟨vs, d⟩] := by
  induction h with
  | stop h => rw [many_of_nil (by rw [h]; rfl)]
  | @step c d e v vs h hlt _ ih =>
      have hone : consuming c (p c).outcome.successes = [⟨v, d⟩] := by
        simp [consuming, h, hlt]
      rw [many_of_ne_nil (by simp [hone]), hone]
      simp [Run.barren, ih, Success.map]

theorem Goes.successes_many1 {p : Parser α} {c d e : Cursor} {v : α} {vs : List α}
    (hrest : Goes p d vs e) (h : (p c).outcome.successes = [⟨v, d⟩]) :
    (many1 p c).outcome.successes = [⟨v :: vs, e⟩] := by
  rw [many1_eq_sequence, successes_sequence, h, List.flatMap_singleton, hrest.successes_many]
  rfl

/-! ## Words -/

section Words

variable {test : Char → Bool} {c : Cursor} {word rest : List Char}

/-- The text given does not begin with a character that passes the test. -/
def NotAhead (test : Char → Bool) (rest : List Char) : Prop :=
  ∀ x xs, rest = x :: xs → test x = false

theorem successes_satisfy_nil (h : NotAhead test c.unread) :
    (satisfy test c).outcome.successes = [] := by
  cases hc : c.unread with
  | nil => rw [satisfy, charWhere_of_nil _ _ hc, successes_fail]
  | cons x xs => rw [satisfy, charWhere_of_cons _ _ hc, h x xs hc]; rfl

theorem successes_satisfy_cons {x : Char} {xs : List Char} (h : c.unread = x :: xs)
    (hx : test x = true) : (satisfy test c).outcome.successes = [⟨x, c.next⟩] := by
  rw [satisfy, charWhere_of_cons _ _ h, if_pos hx, successes_succeed]

/-- The characters of a word are read one after the other. -/
theorem goes_word (hc : c.unread = word ++ rest) (hword : ∀ x ∈ word, test x = true)
    (hrest : NotAhead test rest) : Goes (satisfy test) c word (c.after word) := by
  induction word generalizing c with
  | nil =>
      rw [← (Cursor.reads_nil c).eq_after]
      exact .stop (successes_satisfy_nil (by rwa [hc]))
  | cons x xs ih =>
      rw [List.forall_mem_cons] at hword
      have hgoes := ih (Cursor.unread_next hc) hword.2
      have hafter : c.after (x :: xs) = c.next.after xs := by
        rw [Cursor.next_eq_after hc, ← Cursor.after_append]
        rfl
      rw [hafter]
      exact .step (successes_satisfy_cons hc hword.1) (Cursor.length_next_lt hc) hgoes

theorem successes_word (hc : c.unread = word ++ rest) (hne : word ≠ [])
    (hword : ∀ x ∈ word, test x = true) (hrest : NotAhead test rest) :
    (many1 (satisfy test) c).outcome.successes = [⟨word, c.after word⟩] := by
  obtain ⟨x, xs, rfl⟩ := List.exists_cons_of_ne_nil hne
  cases goes_word hc hword hrest with
  | step h _ hgoes => exact hgoes.successes_many1 h

theorem successes_word_nil (h : NotAhead test c.unread) :
    (many1 (satisfy test) c).outcome.successes = [] := by
  rw [many1_eq_sequence, successes_sequence, successes_satisfy_nil h, List.flatMap_nil]

end Words

/-! ## Lists -/

section Lists

variable {test : Char → Bool} {separator : Char} {c : Cursor} {rest : List Char}

/-- A word behind a separator. -/
def further (test : Char → Bool) (separator : Char) : Parser (List Char) :=
  ignoreThen (character separator) (many1 (satisfy test))

/-- What stands behind the first of several words. -/
def behindFirst (separator : Char) (words : List (List Char)) : List Char :=
  words.flatMap (separator :: ·)

theorem intercalate_cons_eq (separator : Char) (word : List Char) (words : List (List Char)) :
    [separator].intercalate (word :: words) = word ++ behindFirst separator words := by
  induction words generalizing word with
  | nil => simp [behindFirst]
  | cons next words ih =>
      rw [List.intercalate_cons_cons, ih, behindFirst, behindFirst, List.flatMap_cons]
      simp

/-- The words are not empty, and all their characters pass the test. -/
def Words (test : Char → Bool) (words : List (List Char)) : Prop :=
  ∀ word ∈ words, word ≠ [] ∧ ∀ x ∈ word, test x = true

/-- The text given goes on neither with the last word of a list nor with a separator and one word
    more. -/
structure Ends (test : Char → Bool) (separator : Char) (rest : List Char) : Prop where
  word : NotAhead test rest
  list : ∀ xs, rest = separator :: xs → NotAhead test xs

/-- A word ends before a separator, and at the end of its list. -/
theorem notAhead_behindFirst (hseparator : test separator = false) (words : List (List Char))
    (hrest : NotAhead test rest) : NotAhead test (behindFirst separator words ++ rest) := by
  cases words with
  | nil => exact hrest
  | cons word words =>
      intro x xs h
      obtain rfl : separator = x := (List.cons.inj h).1
      exact hseparator

theorem successes_further {word : List Char} (hc : c.unread = separator :: (word ++ rest))
    (hne : word ≠ []) (hword : ∀ x ∈ word, test x = true) (hrest : NotAhead test rest) :
    (further test separator c).outcome.successes = [⟨word, c.after (separator :: word)⟩] := by
  have hafter : c.after (separator :: word) = c.next.after word := by
    rw [Cursor.next_eq_after hc, ← Cursor.after_append, List.singleton_append]
  rw [further, ignoreThen_character_of_head _ hc,
    successes_word (Cursor.unread_next hc) hne hword hrest, hafter]

/-- A separator with no word behind it is not read. -/
theorem successes_further_nil (h : ∀ xs, c.unread = separator :: xs → NotAhead test xs) :
    (further test separator c).outcome.successes = [] := by
  by_cases hc : ∃ xs, c.unread = separator :: xs
  · obtain ⟨xs, hxs⟩ := hc
    have hnext : NotAhead test c.next.unread := by
      rw [Cursor.unread_next hxs]
      exact h xs hxs
    rw [further, ignoreThen_character_of_head _ hxs, successes_word_nil hnext]
  · rw [further, ignoreThen_character_of_not_head _ fun xs hxs => hc ⟨xs, hxs⟩, successes_fail]

/-- The words behind the first one are read one after the other. -/
theorem goes_further {words : List (List Char)}
    (hc : c.unread = behindFirst separator words ++ rest) (hwords : Words test words)
    (hseparator : test separator = false) (hrest : Ends test separator rest) :
    Goes (further test separator) c words (c.after (behindFirst separator words)) := by
  induction words generalizing c with
  | nil =>
      rw [behindFirst, List.flatMap_nil, ← (Cursor.reads_nil c).eq_after]
      exact .stop (successes_further_nil (by rw [hc]; exact hrest.list))
  | cons word words ih =>
      obtain ⟨⟨hne, hword⟩, hwords⟩ := List.forall_mem_cons.1 hwords
      have hsplit : behindFirst separator (word :: words)
          = (separator :: word) ++ behindFirst separator words := List.flatMap_cons
      rw [hsplit, List.append_assoc] at hc
      have hreads : c.Reads (separator :: word) (c.after (separator :: word)) :=
        Cursor.reads_after hc
      have hgoes := ih (Cursor.unread_after hc) hwords
      rw [hsplit, Cursor.after_append]
      refine .step (successes_further hc hne hword
        (notAhead_behindFirst hseparator words hrest.word)) ?_ hgoes
      have := hreads.length_eq
      rw [List.length_cons] at this
      omega

/-- The words of a list with one word at least. -/
theorem successes_list_cons {word : List Char} {words : List (List Char)}
    (hc : c.unread = [separator].intercalate (word :: words) ++ rest)
    (hwords : Words test (word :: words)) (hseparator : test separator = false)
    (hrest : Ends test separator rest) :
    (sepBy (many1 (satisfy test)) (character separator) c).outcome.successes
      = [⟨word :: words, c.after ([separator].intercalate (word :: words))⟩] := by
  obtain ⟨⟨hne, hword⟩, hwords⟩ := List.forall_mem_cons.1 hwords
  rw [intercalate_cons_eq] at hc ⊢
  rw [List.append_assoc] at hc
  have hfirst : (many1 (satisfy test) c).outcome.successes = [⟨word, c.after word⟩] :=
    successes_word hc hne hword (notAhead_behindFirst hseparator words hrest.word)
  have hothers : (many (further test separator) (c.after word)).outcome.successes
      = [⟨words, c.after (word ++ behindFirst separator words)⟩] := by
    rw [Cursor.after_append]
    exact (goes_further (Cursor.unread_after hc) hwords hseparator hrest).successes_many
  have hitems : (sequence List.cons (many1 (satisfy test)) (many (further test separator))
      c).outcome.successes = [⟨word :: words, c.after (word ++ behindFirst separator words)⟩] := by
    rw [successes_sequence, hfirst, List.flatMap_singleton, hothers]
    rfl
  rw [sepBy, ← further, orElse_of_successes_ne_nil _ (by rw [hitems]; exact List.cons_ne_nil _ _),
    hitems]

/-- Where no word begins, the list is empty. -/
theorem successes_list_nil (h : NotAhead test c.unread) :
    (sepBy (many1 (satisfy test)) (character separator) c).outcome.successes = [⟨[], c⟩] := by
  rw [sepBy, orElse_of_successes_eq_nil]
  · rfl
  · rw [successes_sequence, successes_word_nil h, List.flatMap_nil]

theorem events_list (c : Cursor) :
    (sepBy (many1 (satisfy test)) (character separator) c).events = [] := by
  have hword : (many1 (satisfy test)).EmitsOnly fun _ => False :=
    emitsOnly_many1 (emitsOnly_of_events_eq_nil (events_charWhere test _))
  have hfurther : (further test separator).EmitsOnly fun _ => False :=
    emitsOnly_sequence _ (emitsOnly_of_events_eq_nil (events_charWhere _ _)) hword
  refine Run.events_eq_nil_of_emits (emitsOnly_orElse ?_ ?_ c)
  · exact emitsOnly_sequence _ hword (emitsOnly_repeatFrom hfurther [])
  · exact emitsOnly_of_events_eq_nil fun _ => rfl

end Lists

/-- **Reading a list undoes joining it.** Behind words with a separator between them let a text
    stand that goes on neither with the last word nor with a separator and one word more. Reading
    words with the separator between them has then one success: just those words, and just that
    text unread. There need not be any word, and a separator with no word behind it stays
    unread. -/
theorem sepBy_intercalate (test : Char → Bool) (separator : Char)
    (hseparator : test separator = false) (words : List (List Char))
    (hwords : ∀ word ∈ words, word ≠ [] ∧ ∀ x ∈ word, test x = true) (rest : List Char)
    (hrest : ∀ x xs, rest = x :: xs → test x = false)
    (hlist : ∀ x xs, rest = separator :: x :: xs → test x = false) (c : Cursor)
    (hc : c.unread = [separator].intercalate words ++ rest) :
    ∃ d, (sepBy (many1 (satisfy test)) (character separator) c).outcome.successes = [⟨words, d⟩] ∧
      c.Reads ([separator].intercalate words) d ∧ d.unread = rest ∧
      (sepBy (many1 (satisfy test)) (character separator) c).events = [] := by
  have hends : Ends test separator rest :=
    ⟨hrest, fun xs hxs x ys hys => hlist x ys (hys ▸ hxs)⟩
  refine ⟨c.after ([separator].intercalate words), ?_, Cursor.reads_after hc,
    Cursor.unread_after hc, events_list c⟩
  cases words with
  | nil =>
      have hnil : c.unread = rest := hc
      rw [List.intercalate_nil, ← (Cursor.reads_nil c).eq_after]
      exact successes_list_nil (by rwa [hnil])
  | cons word words => exact successes_list_cons hc hwords hseparator hends

/-- Two words, and a separator that is left unread. -/
theorem sepBy_intercalate_dangling :
    Char.isAlpha ',' = false ∧
    (∀ word ∈ [['a', 'b'], ['c']], word ≠ [] ∧ ∀ x ∈ word, Char.isAlpha x = true) ∧
    (∀ x xs, [',', '1'] = x :: xs → Char.isAlpha x = false) ∧
    (∀ x xs, [',', '1'] = ',' :: x :: xs → Char.isAlpha x = false) ∧
    (Cursor.ofString "ab,c,1").unread = [','].intercalate [['a', 'b'], ['c']] ++ [',', '1'] ∧
    ∃ d, (sepBy (many1 (satisfy Char.isAlpha)) (character ',')
        (.ofString "ab,c,1")).outcome.successes = [⟨[['a', 'b'], ['c']], d⟩] ∧
      (Cursor.ofString "ab,c,1").Reads ['a', 'b', ',', 'c'] d ∧ d.unread = [',', '1'] := by
  have hwords : ∀ word ∈ [['a', 'b'], ['c']], word ≠ [] ∧ ∀ x ∈ word, Char.isAlpha x = true := by
    refine List.forall_mem_cons.2 ⟨⟨List.cons_ne_nil _ _, ?_⟩, List.forall_mem_singleton.2
      ⟨List.cons_ne_nil _ _, List.forall_mem_singleton.2 rfl⟩⟩
    exact List.forall_mem_cons.2 ⟨rfl, List.forall_mem_singleton.2 rfl⟩
  have hrest : ∀ x xs, [',', '1'] = x :: xs → Char.isAlpha x = false := by
    rintro x xs ⟨⟩
    rfl
  have hlist : ∀ x xs, [',', '1'] = ',' :: x :: xs → Char.isAlpha x = false := by
    rintro x xs ⟨⟩
    rfl
  have hc : (Cursor.ofString "ab,c,1").unread
      = [','].intercalate [['a', 'b'], ['c']] ++ [',', '1'] := by decide
  obtain ⟨d, hsuccesses, hreads, hunread, -⟩ :=
    sepBy_intercalate Char.isAlpha ',' rfl _ hwords _ hrest hlist _ hc
  exact ⟨rfl, hwords, hrest, hlist, hc, d, hsuccesses, hreads, hunread⟩

end Parsing.Parser
