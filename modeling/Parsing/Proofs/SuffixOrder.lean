import Parsing.Proofs.RegisterRuns

set_option autoImplicit false

/-! # The order of cursors

`isSuffixOf` compares sources and indices. On cursors that come from reading texts (`Arises`) this
is the order of what is left to read: `s` is a suffix of `t` just if some number of characters split
off `t`, one after the other, leave `s` (`isSuffixOf_iff`). So the cursors of one reading are
ordered in a row, and those of different readings are not related, whatever the texts are.

Every cursor that is ever in a register comes from the reading that the steps tell
(`Traced.steps`). -/

namespace Parsing

namespace IndexedCursor

/-! ## Splitting off characters -/

/-- The cursor behind `n` characters split off one after the other, if there are as many. -/
def unconsTimes : Nat → IndexedCursor → Option IndexedCursor
  | 0, s => some s
  | n + 1, s =>
    match s.uncons with
    | some (_, rest) => unconsTimes n rest
    | none => none

theorem StandsAt.unconsTimes_eq {s : IndexedCursor} {text : String} {i : Nat}
    (h : s.StandsAt text i) (n : Nat) :
    s.unconsTimes n = if i + n ≤ text.length then some (s.seek (i + n)) else none := by
  induction n generalizing s i with
  | zero => rw [unconsTimes, Nat.add_zero, if_pos h.le_length, h.seek_index]
  | succ n ih =>
      have hlength : i < text.length ↔ i < text.toList.length := by rw [String.length_toList]
      rw [unconsTimes, h.uncons_eq]
      by_cases hi : i < text.length
      · have hshift : i + 1 + n = i + (n + 1) := by omega
        rw [List.getElem?_eq_getElem (hlength.1 hi), Option.map_some]
        simp only
        rw [ih (h.seek hi), hshift]
        rfl
      · have hbeyond : ¬ i + (n + 1) ≤ text.length := by omega
        rw [List.getElem?_eq_none (Nat.le_of_not_lt fun hlt => hi (hlength.2 hlt)),
          Option.map_none, if_neg hbeyond]

/-! ## Where cursors come from -/

/-- `s` comes from reading number `i` of `texts`: it is the start of that text, or it was split off
    a cursor that comes from there, or taken from it by `next` or `nth`, or left by a parser applied
    to it. A copy of a cursor is that cursor. -/
inductive Arises (texts : List String) (i : Nat) : IndexedCursor → Prop where
  | read {text : String} (h : texts[i]? = some text) : Arises texts i (.ofSource i text)
  | uncons {s rest : IndexedCursor} {x : Located} (h : Arises texts i s)
      (hx : s.uncons = some (x, rest)) : Arises texts i rest
  | next {s : IndexedCursor} (h : Arises texts i s) : Arises texts i s.next.2
  | nth {s : IndexedCursor} (n : Nat) (h : Arises texts i s) : Arises texts i (s.nth n).2
  | parsed {ρ α : Type} (p : Grammar ρ α) {s : IndexedCursor} {x : Success α}
      (h : Arises texts i s) (hx : x ∈ (p.parser s.cursor).outcome.successes) :
      Arises texts i (s.seek x.rest.offset)
  | parsedIn (w : Script.Workspace) (b : Script.Built) {s : IndexedCursor}
      {x : Success Script.Value} (h : Arises texts i s)
      (hx : x ∈ (w.parser b s.cursor).outcome.successes) : Arises texts i (s.seek x.rest.offset)

theorem Arises.append {texts : List String} {i : Nat} {s : IndexedCursor} (h : Arises texts i s)
    (more : List String) : Arises (texts ++ more) i s := by
  induction h with
  | read h =>
      refine .read ?_
      rwa [List.getElem?_append_left (List.getElem?_eq_some_iff.1 h).1]
  | uncons _ hx ih => exact ih.uncons hx
  | next _ ih => exact ih.next
  | nth n _ ih => exact ih.nth n
  | parsed p _ hx ih => exact ih.parsed p hx
  | parsedIn w b _ hx ih => exact ih.parsedIn w b hx

/-- A cursor that comes from a reading stands somewhere in what was read. -/
theorem Arises.standsAt {texts : List String} {i : Nat} {s : IndexedCursor}
    (h : Arises texts i s) :
    s.source = i ∧ ∃ text j, texts[i]? = some text ∧ s.StandsAt text j := by
  induction h with
  | @read text h => exact ⟨rfl, text, 0, h, standsAt_ofSource i text⟩
  | uncons _ hx ih =>
      obtain ⟨hsource, text, j, htext, hs⟩ := ih
      rw [hs.uncons_eq, Option.map_eq_some_iff] at hx
      obtain ⟨y, hy, hrest⟩ := hx
      rw [← (Prod.mk.inj hrest).2]
      exact ⟨hsource, text, _, htext, hs.seek (lt_length_of_getElem? hy)⟩
  | next _ ih =>
      obtain ⟨hsource, text, j, htext, hs⟩ := ih
      rw [hs.next_eq]
      exact ⟨hsource, text, _, htext, hs.seek (Nat.min_le_right _ _)⟩
  | nth n _ ih =>
      obtain ⟨hsource, text, j, htext, hs⟩ := ih
      rw [hs.nth_eq n]
      exact ⟨hsource, text, _, htext, hs.seek (Nat.min_le_right _ _)⟩
  | parsed p _ hx ih =>
      obtain ⟨hsource, text, j, htext, hs⟩ := ih
      obtain ⟨cs, hcs⟩ := p.advances_parserIn Grammar.advances_empty _ _ hx
      exact ⟨hsource, text, _, htext, (hs.seek_offset hcs).1⟩
  | parsedIn w b _ hx ih =>
      obtain ⟨hsource, text, j, htext, hs⟩ := ih
      obtain ⟨cs, hcs⟩ := w.advances_built b _ _ hx
      exact ⟨hsource, text, _, htext, (hs.seek_offset hcs).1⟩

/-! ## The order -/

theorem isSuffixOf_iff_index {s t : IndexedCursor} :
    s.isSuffixOf t = true ↔ s.source = t.source ∧ t.index ≤ s.index := by
  simp [isSuffixOf]

theorem same_iff_index {s t : IndexedCursor} :
    s.same t = true ↔ s.source = t.source ∧ s.index = t.index := by
  simp [same]

theorem isSuffixOf_refl (s : IndexedCursor) : s.isSuffixOf s = true := by
  simp [isSuffixOf]

theorem isSuffixOf_trans {s t u : IndexedCursor} (hst : s.isSuffixOf t = true)
    (htu : t.isSuffixOf u = true) : s.isSuffixOf u = true := by
  rw [isSuffixOf_iff_index] at hst htu ⊢
  exact ⟨hst.1.trans htu.1, Nat.le_trans htu.2 hst.2⟩

/-- Each is a suffix of the other just if both read the same from the same place. -/
theorem isSuffixOf_antisymm_iff {s t : IndexedCursor} :
    s.isSuffixOf t = true ∧ t.isSuffixOf s = true ↔ s.same t = true := by
  rw [isSuffixOf_iff_index, isSuffixOf_iff_index, same_iff_index]
  omega

section Arising

variable {texts : List String} {i j : Nat} {s t : IndexedCursor}

/-- The cursors of one reading differ in their indices only. -/
theorem Arises.eq_seek (hs : Arises texts i s) (ht : Arises texts i t) : s = t.seek s.index := by
  obtain ⟨hsource, text, k, htext, hk⟩ := hs.standsAt
  obtain ⟨htsource, text', k', htext', hk'⟩ := ht.standsAt
  obtain rfl : text = text' := Option.some.inj (htext.symm.trans htext')
  rw [hk.index_eq, hk.eq_seek, hk'.eq_seek, hsource, htsource]
  rfl

/-- Cursors that are the same are equal. -/
theorem Arises.same_iff (hs : Arises texts i s) (ht : Arises texts j t) :
    s.same t = true ↔ s = t := by
  constructor
  · intro h
    obtain ⟨hsource, hindex⟩ := same_iff_index.1 h
    obtain rfl : i = j := hs.standsAt.1.symm.trans (hsource.trans ht.standsAt.1)
    rw [hs.eq_seek ht, hindex]
    rfl
  · rintro rfl
    exact same_iff_index.2 ⟨rfl, rfl⟩

/-- **Suffixes are what splitting off characters leads to.** -/
theorem Arises.isSuffixOf_iff (hs : Arises texts i s) (ht : Arises texts j t) :
    s.isSuffixOf t = true ↔ ∃ n, t.unconsTimes n = some s := by
  obtain ⟨htsource, text, k, htext, hk⟩ := ht.standsAt
  rw [isSuffixOf_iff_index]
  constructor
  · rintro ⟨hsource, hindex⟩
    obtain rfl : i = j := hs.standsAt.1.symm.trans (hsource.trans htsource)
    obtain ⟨_, text', k', htext', hk'⟩ := hs.standsAt
    obtain rfl : text = text' := Option.some.inj (htext.symm.trans htext')
    have hle : k ≤ k' := by rwa [hk.index_eq, hk'.index_eq] at hindex
    have hsplit : k + (k' - k) = k' := by omega
    refine ⟨k' - k, ?_⟩
    rw [hk.unconsTimes_eq, hsplit, if_pos hk'.le_length, hs.eq_seek ht, hk'.index_eq]
  · rintro ⟨n, hn⟩
    rw [hk.unconsTimes_eq] at hn
    split at hn
    · rw [← Option.some.inj hn]
      refine ⟨rfl, ?_⟩
      rw [hk.index_eq]
      exact Nat.le_add_right k n
    · cases hn

/-- Of two cursors of one reading, one is a suffix of the other. -/
theorem Arises.total (hs : Arises texts i s) (ht : Arises texts i t) :
    s.isSuffixOf t = true ∨ t.isSuffixOf s = true := by
  have hsource : s.source = t.source := hs.standsAt.1.trans ht.standsAt.1.symm
  rw [isSuffixOf_iff_index, isSuffixOf_iff_index]
  omega

/-- Cursors of different readings are not related. -/
theorem Arises.apart (hs : Arises texts i s) (ht : Arises texts j t) (hij : i ≠ j) :
    s.isSuffixOf t = false ∧ s.same t = false := by
  have hsource : s.source ≠ t.source := by
    rw [hs.standsAt.1, ht.standsAt.1]
    exact hij
  rw [Bool.eq_false_iff, Bool.eq_false_iff, ne_eq, ne_eq, isSuffixOf_iff_index, same_iff_index]
  exact ⟨fun h => hsource h.1, fun h => hsource h.1⟩

end Arising

/-- `isSuffixOf` orders the cursors that come from the readings `arises` tells of: it says which of
    them are reached by splitting off characters, it is reflexive, transitive and antisymmetric up
    to being the same, which is being equal, and it is total on the cursors of one reading. Those of
    different readings are not related. -/
structure Ordered (arises : Nat → IndexedCursor → Prop) : Prop where
  reached_iff {i j : Nat} {s t : IndexedCursor} (hs : arises i s) (ht : arises j t) :
    s.isSuffixOf t = true ↔ ∃ n, t.unconsTimes n = some s
  same_iff {i j : Nat} {s t : IndexedCursor} (hs : arises i s) (ht : arises j t) :
    s.same t = true ↔ s = t
  refl {i : Nat} {s : IndexedCursor} (hs : arises i s) : s.isSuffixOf s = true
  trans {i j k : Nat} {s t u : IndexedCursor} (hs : arises i s) (ht : arises j t)
    (hu : arises k u) (hst : s.isSuffixOf t = true) (htu : t.isSuffixOf u = true) :
    s.isSuffixOf u = true
  antisymm_iff {i j : Nat} {s t : IndexedCursor} (hs : arises i s) (ht : arises j t) :
    s.isSuffixOf t = true ∧ t.isSuffixOf s = true ↔ s.same t = true
  total {i : Nat} {s t : IndexedCursor} (hs : arises i s) (ht : arises i t) :
    s.isSuffixOf t = true ∨ t.isSuffixOf s = true
  apart {i j : Nat} {s t : IndexedCursor} (hs : arises i s) (ht : arises j t) (hij : i ≠ j) :
    s.isSuffixOf t = false ∧ s.same t = false

theorem ordered_arises (texts : List String) : Ordered (Arises texts) where
  reached_iff hs ht := hs.isSuffixOf_iff ht
  same_iff hs ht := hs.same_iff ht
  refl {_ s} _ := isSuffixOf_refl s
  trans _ _ _ hst htu := isSuffixOf_trans hst htu
  antisymm_iff _ _ := isSuffixOf_antisymm_iff
  total hs ht := hs.total ht
  apart hs ht hij := hs.apart ht hij

end IndexedCursor

namespace Registers

open IndexedCursor

/-- The number of the reading that the cursors added by a step come from, where `readings` texts
    have been read, and the cursor that the step is on comes from number `origin`. -/
def CursorStep.origin (readings origin : Nat) : CursorStep → Nat
  | .read _ => readings
  | _ => origin

namespace Cursors

/-! ## Registers -/

/-- The number of the reading that each register's cursor comes from, after a run of steps. -/
def originsAfter (cs : Cursors) (readings : Nat) (origins : List Nat) :
    List (Nat × CursorStep) → List Nat
  | [] => origins
  | (k, action) :: rest =>
    let after := (cs.step k action).1
    let added := after.row.length - cs.row.length
    after.originsAfter (readings + (cs.textsOf k action).length)
      (origins ++ .replicate added (action.origin readings (origins.getD k 0))) rest

/-- Each register's cursor comes from the reading given for it. -/
structure Traced (texts : List String) (origins : List Nat) (row : List IndexedCursor) : Prop where
  length_eq : origins.length = row.length
  arises : ∀ (k : Nat) (s : IndexedCursor), row[k]? = some s →
    ∃ i, origins[k]? = some i ∧ Arises texts i s

section Traced

variable {texts : List String} {origins : List Nat} {row : List IndexedCursor}

theorem Traced.append (h : Traced texts origins row) (more : List String) :
    Traced (texts ++ more) origins row where
  length_eq := h.length_eq
  arises := by
    intro k s hs
    obtain ⟨i, hi, harises⟩ := h.arises k s hs
    exact ⟨i, hi, harises.append more⟩

/-- What is added comes from one reading. -/
theorem Traced.push (h : Traced texts origins row) {i : Nat} {more : List IndexedCursor}
    (hmore : ∀ s ∈ more, Arises texts i s) :
    Traced texts (origins ++ .replicate ((row ++ more).length - row.length) i) (row ++ more) where
  length_eq := by
    simp only [List.length_append, List.length_replicate, h.length_eq]
    omega
  arises := by
    intro k s hs
    rcases Nat.lt_or_ge k row.length with hk | hk
    · rw [List.getElem?_append_left hk] at hs
      obtain ⟨j, hj, harises⟩ := h.arises k s hs
      refine ⟨j, ?_, harises⟩
      rw [List.getElem?_append_left (by rw [h.length_eq]; exact hk), hj]
    · have hlt := (List.getElem?_eq_some_iff.1 hs).1
      rw [List.getElem?_append_right hk] at hs
      refine ⟨i, ?_, hmore s (List.mem_of_getElem? hs)⟩
      rw [List.getElem?_append_right (by rw [h.length_eq]; exact hk), h.length_eq,
        List.getElem?_replicate, if_pos (by omega)]

theorem Traced.set (h : Traced texts origins row) {k : Nat} {c : IndexedCursor}
    (hc : ∀ i, origins[k]? = some i → Arises texts i c) : Traced texts origins (row.set k c) where
  length_eq := by rw [h.length_eq, List.length_set]
  arises := by
    intro j s hs
    rw [List.getElem?_set] at hs
    split at hs
    · next hjk =>
        subst hjk
        split at hs
        · next hlt =>
            have hlt' : k < origins.length := by rwa [h.length_eq]
            rw [← Option.some.inj hs]
            exact ⟨origins[k], List.getElem?_eq_getElem hlt', hc _ (List.getElem?_eq_getElem hlt')⟩
        · cases hs
    · exact h.arises j s hs

/-- A step that adds nothing, and moves nothing, leaves all as it is. -/
theorem Traced.stay (h : Traced texts origins row) (i : Nat) :
    Traced texts (origins ++ .replicate (row.length - row.length) i) row := by
  rw [Nat.sub_self, List.replicate_zero, List.append_nil]
  exact h

end Traced

variable {cs : Cursors} {texts : List String} {origins : List Nat}

theorem Traced.stepOn (h : Traced texts origins cs.row) (hsources : cs.sources = texts.length)
    {k i : Nat} {c : IndexedCursor} (hi : origins[k]? = some i) (hc : Arises texts i c)
    (action : CursorStep) :
    Traced (texts ++ action.texts)
      (origins ++ .replicate ((cs.stepOn k c action).1.row.length - cs.row.length)
        (action.origin texts.length i)) (cs.stepOn k c action).1.row := by
  have hset : ∀ {d : IndexedCursor}, Arises texts i d →
      Traced (texts ++ []) (origins ++ .replicate ((cs.row.set k d).length - cs.row.length) i)
        (cs.row.set k d) := by
    intro d hd
    rw [List.append_nil, List.length_set, Nat.sub_self, List.replicate_zero, List.append_nil]
    refine h.set fun j hj => ?_
    rw [hi] at hj
    rwa [← Option.some.inj hj]
  have hstay := (h.append []).stay i
  cases action with
  | read text =>
      refine (h.append [text]).push fun s hs => ?_
      rw [List.mem_singleton.1 hs, hsources]
      exact .read List.getElem?_concat_length
  | copy => exact (h.append []).push fun s hs => List.mem_singleton.1 hs ▸ hc.append []
  | uncons =>
      rw [Cursors.stepOn]
      split
      · exact hstay
      · next x rest hx =>
          exact (h.append []).push fun s hs => List.mem_singleton.1 hs ▸ (hc.uncons hx).append []
  | next => exact hset hc.next
  | nth n => exact hset (hc.nth n)
  | apply parser =>
      refine (h.append []).push fun s hs => ?_
      obtain ⟨x, hx, rfl⟩ := List.mem_map.1 hs
      exact (hc.parsed parser.grammar hx).append []
  | peek | collect | offset | isEmpty | text | describe | sizeHint | isSuffixOf other
  | equals other => exact hstay

/-- A step keeps track of where all registers come from. -/
theorem Traced.step (h : Traced texts origins cs.row) (hsources : cs.sources = texts.length)
    (k : Nat) (action : CursorStep) :
    Traced (texts ++ cs.textsOf k action)
      (origins ++ .replicate ((cs.step k action).1.row.length - cs.row.length)
        (action.origin texts.length (origins.getD k 0))) (cs.step k action).1.row := by
  unfold Cursors.step
  split
  · next c hc =>
      obtain ⟨i, hi, harises⟩ := h.arises k c hc
      rw [textsOf, if_pos (List.getElem?_eq_some_iff.1 hc).1, List.getD_eq_getElem?_getD, hi]
      exact h.stepOn hsources hi harises action
  · next hnone =>
      rw [textsOf, if_neg (Nat.not_lt.2 (List.getElem?_eq_none_iff.1 hnone))]
      exact (h.append []).stay _

/-- So does a run. -/
theorem Traced.steps (h : Traced texts origins cs.row) (hvalid : cs.Valid texts)
    (run : List (Nat × CursorStep)) :
    Traced (texts ++ cs.textsRead run) (cs.originsAfter texts.length origins run)
      (cs.steps run).row := by
  induction run generalizing cs texts origins with
  | nil => exact h.append []
  | cons first rest ih =>
      obtain ⟨k, action⟩ := first
      have hstep := ih (h.step hvalid.sources_eq k action) (hvalid.step k action)
      rw [List.length_append] at hstep
      rw [textsRead, ← List.append_assoc]
      exact hstep

theorem traced_start (text : String) : Traced [text] [0] (start text).row where
  length_eq := rfl
  arises := by
    intro k s hs
    cases k with
    | zero =>
        rw [← Option.some.inj hs]
        exact ⟨0, rfl, .read rfl⟩
    | succ k => cases hs

/-- The texts read in the first part of a run come first. -/
theorem textsRead_append (cs : Cursors) (run rest : List (Nat × CursorStep)) :
    cs.textsRead (run ++ rest) = cs.textsRead run ++ (cs.steps run).textsRead rest := by
  induction run generalizing cs with
  | nil => rfl
  | cons first run ih =>
      obtain ⟨k, action⟩ := first
      rw [List.cons_append, textsRead, textsRead, steps, ih, List.append_assoc]

/-- **Suffixes of cursors.** Among all cursors that come from reading some texts, `isSuffixOf` says
    which are reached from which by splitting off characters, and it is an order: total on the
    cursors of one reading, and never between those of different readings. At any time of any run
    the registers hold such cursors, where each step that reads a text is a reading of its own. -/
theorem suffixes_are_reached :
    (∀ texts : List String, Ordered (Arises texts)) ∧
    ∀ (text : String) (run rest : List (Nat × CursorStep)) (k : Nat) (s : IndexedCursor),
      ((start text).steps run).row[k]? = some s →
        ∃ i, ((start text).originsAfter 1 [0] run)[k]? = some i ∧
          Arises (text :: (start text).textsRead (run ++ rest)) i s := by
  refine ⟨ordered_arises, fun text run rest k s hs => ?_⟩
  have htraced := ((traced_start text).steps (valid_start text) run).append
    (((start text).steps run).textsRead rest)
  rw [List.append_assoc, ← textsRead_append] at htraced
  exact htraced.arises k s hs

/-- One text read twice. A copy moved past the end of the first reading is left by splitting one
    character off a cursor inside of it, and is no suffix of the second reading. -/
theorem suffixes_of_two_readings :
    let run : List (Nat × CursorStep) := [(0, .read "ab"), (0, .copy), (2, .nth 5), (0, .uncons)]
    let past := (IndexedCursor.ofSource 0 "ab").seek 2
    let inside := (IndexedCursor.ofSource 0 "ab").seek 1
    let again := IndexedCursor.ofSource 1 "ab"
    ((start "ab").steps run).row = [.ofSource 0 "ab", again, past, inside] ∧
      (∃ n, inside.unconsTimes n = some past) ∧ past.isSuffixOf again = false ∧
      (IndexedCursor.ofSource 0 "ab").same again = false := by
  intro run past inside again
  have hrow : ((start "ab").steps run).row = [.ofSource 0 "ab", again, past, inside] := rfl
  have arises := suffixes_are_reached.2 "ab" run []
  have ordered := suffixes_are_reached.1 ("ab" :: (start "ab").textsRead (run ++ []))
  obtain ⟨_, ⟨⟩, hstart⟩ := arises 0 (.ofSource 0 "ab") (by rw [hrow]; rfl)
  obtain ⟨_, ⟨⟩, hagain⟩ := arises 1 again (by rw [hrow]; rfl)
  obtain ⟨_, ⟨⟩, hpast⟩ := arises 2 past (by rw [hrow]; rfl)
  obtain ⟨_, ⟨⟩, hinside⟩ := arises 3 inside (by rw [hrow]; rfl)
  exact ⟨hrow, (ordered.reached_iff hpast hinside).1 rfl,
    (ordered.apart hpast hagain Nat.zero_ne_one).1, (ordered.apart hstart hagain Nat.zero_ne_one).2⟩

end Cursors

end Registers

end Parsing
