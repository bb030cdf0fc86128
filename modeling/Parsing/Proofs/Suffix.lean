import Parsing.Grammar
import Parsing.Proofs.Knot
import Parsing.Proofs.Runs

set_option autoImplicit false

/-! # Parsers leave a suffix of their input

`c.Reads cs d`: reading the characters `cs` leads from the cursor `c` to the cursor `d`, which
belongs to the same source and stands where `cs` ends. `d` is a suffix of `c` (`c.Reaches d`) if
some characters lead there.

A parser `Advances` if each of its successes leaves a suffix of the input. Each combinator keeps
this, and so does the knot that ties rules to each other. Hence every parser that a grammar
describes advances, if what its references stand for does (`Grammar.advances_parserIn`).

A `SuffixParser` carries that invariant with it, for laws that hold of no other functions. -/

namespace Parsing

namespace Cursor

/-! ## Reading characters -/

/-- Reading `cs` leads from `c` to `d`. -/
structure Reads (c : Cursor) (cs : List Char) (d : Cursor) : Prop where
  unread_eq : c.unread = cs ++ d.unread
  position_eq : d.position = c.position.advanceAll cs
  source_eq : d.source = c.source

/-- Reading some characters leads from `c` to `d`. -/
def Reaches (c d : Cursor) : Prop := ∃ cs, c.Reads cs d

/-- The cursor behind `cs`, which stand at `c`. -/
def after (c : Cursor) (cs : List Char) : Cursor :=
  ⟨c.source, c.position.advanceAll cs, c.unread.drop cs.length⟩

theorem reads_nil (c : Cursor) : c.Reads [] c := ⟨rfl, rfl, rfl⟩

theorem Reads.trans {c d e : Cursor} {cs ds : List Char} (h : c.Reads cs d) (h' : d.Reads ds e) :
    c.Reads (cs ++ ds) e where
  unread_eq := by rw [h.unread_eq, h'.unread_eq, List.append_assoc]
  position_eq := by
    rw [h'.position_eq, h.position_eq, Position.advanceAll, Position.advanceAll,
      Position.advanceAll, List.foldl_append]
  source_eq := h'.source_eq.trans h.source_eq

theorem reads_next {c : Cursor} {x : Char} {xs : List Char} (h : c.unread = x :: xs) :
    c.Reads [x] c.next := by
  obtain ⟨s, p, u⟩ := c
  subst h
  exact ⟨rfl, rfl, rfl⟩

theorem unread_next {c : Cursor} {x : Char} {xs : List Char} (h : c.unread = x :: xs) :
    c.next.unread = xs := by
  obtain ⟨s, p, u⟩ := c
  subst h
  rfl

/-- Behind its first character the others are read. -/
theorem Reads.tail {c d : Cursor} {x : Char} {xs : List Char} (h : c.Reads (x :: xs) d) :
    c.next.Reads xs d := by
  obtain ⟨s, p, u⟩ := c
  obtain ⟨hu, hp, hs⟩ := h
  simp only at hu hp hs
  subst hu
  exact ⟨rfl, hp, hs⟩

theorem reads_after {c : Cursor} {cs rest : List Char} (h : c.unread = cs ++ rest) :
    c.Reads cs (c.after cs) := by
  refine ⟨?_, rfl, rfl⟩
  rw [after, h, List.drop_left]

theorem unread_after {c : Cursor} {cs rest : List Char} (h : c.unread = cs ++ rest) :
    (c.after cs).unread = rest := by
  rw [after, h, List.drop_left]

/-- The characters read decide where reading them leads. -/
theorem Reads.eq_after {c d : Cursor} {cs : List Char} (h : c.Reads cs d) : d = c.after cs := by
  obtain ⟨s, p, u⟩ := d
  obtain ⟨hu, hp, hs⟩ := h
  simp only at hu hp hs
  rw [after, hu, List.drop_left, hp, hs]

theorem after_append (c : Cursor) (u v : List Char) : c.after (u ++ v) = (c.after u).after v := by
  simp [after, Position.advanceAll]

theorem offset_after (c : Cursor) (cs : List Char) : (c.after cs).offset = c.offset + cs.length :=
  Position.offset_advanceAll c.position cs

theorem next_eq_after {c : Cursor} {x : Char} {xs : List Char} (h : c.unread = x :: xs) :
    c.next = c.after [x] := (reads_next h).eq_after

theorem Reads.length_eq {c d : Cursor} {cs : List Char} (h : c.Reads cs d) :
    c.length = cs.length + d.length := by
  rw [length, h.unread_eq, List.length_append, length]

theorem length_next_lt {c : Cursor} {x : Char} {xs : List Char} (h : c.unread = x :: xs) :
    c.next.length < c.length := by
  have := (reads_next h).length_eq
  simp only [List.length_singleton] at this
  omega

/-! ### Behind an operator -/

section Operator

variable {c : Cursor} {cs rest : List Char} {op : Char}

theorem reads_after_next (h : c.unread = cs ++ op :: rest) :
    c.Reads (cs ++ [op]) (c.after cs).next :=
  (reads_after h).trans (reads_next (unread_after h))

theorem unread_after_next (h : c.unread = cs ++ op :: rest) : (c.after cs).next.unread = rest :=
  unread_next (unread_after h)

theorem length_after_next_lt (h : c.unread = cs ++ op :: rest) :
    (c.after cs).next.length < c.length := by
  have := (reads_after_next h).length_eq
  rw [List.length_append, List.length_singleton] at this
  omega

theorem after_after_next (h : c.unread = cs ++ op :: rest) {ds rest' : List Char}
    (hrest : rest = ds ++ rest') :
    (c.after cs).next.after ds = c.after (cs ++ op :: ds) := by
  rw [← unread_after_next h] at hrest
  have hreads := (reads_after_next h).trans (reads_after hrest)
  rw [List.append_assoc, List.singleton_append] at hreads
  exact hreads.eq_after

end Operator

/-! ## Suffixes -/

theorem reaches_refl (c : Cursor) : c.Reaches c := ⟨[], reads_nil c⟩

theorem Reaches.trans {c d e : Cursor} (h : c.Reaches d) (h' : d.Reaches e) : c.Reaches e := by
  obtain ⟨cs, hcs⟩ := h
  obtain ⟨ds, hds⟩ := h'
  exact ⟨cs ++ ds, hcs.trans hds⟩

theorem reaches_next (c : Cursor) : c.Reaches c.next := by
  cases h : c.unread with
  | nil =>
      have : c.next = c := by simp only [next, h]
      rw [this]
      exact reaches_refl c
  | cons x xs => exact ⟨[x], reads_next h⟩

theorem Reaches.length_le {c d : Cursor} (h : c.Reaches d) : d.length ≤ c.length := by
  obtain ⟨cs, hcs⟩ := h
  have := hcs.length_eq
  omega

/-- A suffix that starts later is shorter. -/
theorem Reaches.offset_lt_iff {c d : Cursor} (h : c.Reaches d) :
    c.offset < d.offset ↔ d.length < c.length := by
  obtain ⟨cs, hcs⟩ := h
  have hlength : c.length = cs.length + d.length := hcs.length_eq
  have hoffset : d.offset = c.offset + cs.length := by
    rw [hcs.eq_after, offset_after]
  omega

/-- Nothing has been read where as much is left. -/
theorem Reaches.eq_of_length_eq {c d : Cursor} (h : c.Reaches d) (hlength : d.length = c.length) :
    d = c := by
  obtain ⟨cs, hcs⟩ := h
  have hnil : cs = [] := by
    have := hcs.length_eq
    exact List.eq_nil_of_length_eq_zero (by omega)
  rw [hcs.eq_after, hnil]
  rfl

/-- A text has one cursor at an offset. -/
theorem Reaches.eq_of_offset_eq {start c d : Cursor} (hc : start.Reaches c) (hd : start.Reaches d)
    (hoffset : c.offset = d.offset) : c = d := by
  obtain ⟨cs, hcs⟩ := hc
  obtain ⟨ds, hds⟩ := hd
  have hlength : cs.length = ds.length := by
    rw [hcs.eq_after, hds.eq_after, offset_after, offset_after] at hoffset
    omega
  have hunread : cs ++ c.unread = ds ++ d.unread := by rw [← hcs.unread_eq, hds.unread_eq]
  have hread : cs = ds := (List.append_inj hunread hlength).1
  rw [hcs.eq_after, hds.eq_after, hread]

end Cursor

namespace Parser

variable {α β γ : Type}

/-! ## Combinators keep suffixes -/

/-- Each success of `p` leaves a suffix of the input. -/
def Advances (p : Parser α) : Prop := ∀ c, ∀ x ∈ (p c).outcome.successes, c.Reaches x.rest

theorem advances_succeed (v : α) : (succeed v).Advances := by
  intro c x hx
  rw [successes_succeed, List.mem_singleton] at hx
  rw [hx]
  exact c.reaches_refl

theorem advances_of_successes_eq_nil {p : Parser α} (h : ∀ c, (p c).outcome.successes = []) :
    p.Advances := by
  intro c x hx
  rw [h c] at hx
  exact absurd hx List.not_mem_nil

theorem advances_charWhere (test : Char → Bool) (label : String) :
    (charWhere test label).Advances := by
  intro c x hx
  cases h : c.unread with
  | nil =>
      rw [charWhere_of_nil test label h] at hx
      exact absurd hx List.not_mem_nil
  | cons y ys =>
      rw [charWhere_of_cons test label h] at hx
      split at hx
      · rw [successes_succeed, List.mem_singleton] at hx
        rw [hx]
        exact c.reaches_next
      · exact absurd hx List.not_mem_nil

theorem advances_literalFrom (text : String) (xs : List Char) :
    (literalFrom text xs).Advances := by
  induction xs with
  | nil => exact advances_succeed text
  | cons x xs ih =>
      intro c y hy
      simp only [literalFrom] at hy
      split at hy
      · exact absurd hy List.not_mem_nil
      · split at hy
        · exact c.reaches_next.trans (ih c.next y hy)
        · exact absurd hy List.not_mem_nil

theorem advances_endOfInput : endOfInput.Advances := by
  intro c x hx
  unfold endOfInput at hx
  split at hx
  · exact advances_succeed () c x hx
  · exact absurd hx List.not_mem_nil

theorem advances_bind {p : Parser α} {f : α → Parser β} (hp : p.Advances)
    (hf : ∀ a, (f a).Advances) : (bind p f).Advances := by
  intro c y hy
  rw [successes_bind, List.mem_flatMap] at hy
  obtain ⟨x, hx, hy⟩ := hy
  exact (hp c x hx).trans (hf x.value x.rest y hy)

theorem advances_map (f : α → β) {p : Parser α} (hp : p.Advances) : (map f p).Advances := by
  intro c y hy
  rw [successes_map, List.mem_map] at hy
  obtain ⟨x, hx, rfl⟩ := hy
  exact hp c x hx

theorem advances_orElse {p q : Parser α} (hp : p.Advances) (hq : q.Advances) :
    (orElse p q).Advances := by
  intro c x hx
  rw [successes_orElse] at hx
  split at hx
  · exact hq c x hx
  · exact hp c x hx

theorem advances_sequence (join : α → β → γ) {p : Parser α} {q : Parser β} (hp : p.Advances)
    (hq : q.Advances) : (sequence join p q).Advances := by
  intro c y hy
  rw [successes_sequence, List.mem_flatMap] at hy
  obtain ⟨x, hx, hy⟩ := hy
  obtain ⟨z, hz, rfl⟩ := List.mem_map.1 hy
  exact (hp c x hx).trans (hq x.rest z hz)

theorem advances_union {p q : Parser α} (hp : p.Advances) (hq : q.Advances) :
    (union p q).Advances := by
  intro c x hx
  rw [successes_union, List.mem_append] at hx
  rcases hx with hx | hx
  · exact hp c x hx
  · exact hq c x hx

theorem advances_look (p : Parser α) : (look p).Advances := by
  intro c y hy
  obtain ⟨x, _, rfl⟩ := List.mem_map.1 hy
  exact c.reaches_refl

/-! ## Repetition

The cursors of all branches, open and closed, are suffixes of the place where the search began. -/

theorem reaches_of_mem_follow {p : Parser α} (hp : p.Advances) {c : Cursor} {b : Branch α}
    (hb : c.Reaches b.cursor) {b' : Branch α}
    (h : b' ∈ follow b (consuming b.cursor (p b.cursor).outcome.successes)) :
    c.Reaches b'.cursor := by
  obtain ⟨x, hx, rfl⟩ := List.mem_map.1 h
  exact hb.trans (hp b.cursor x (List.mem_filter.1 hx).1)

theorem reaches_of_mem_expand {p : Parser α} (hp : p.Advances) {c : Cursor}
    (pending : List (Branch α)) (finished : List (Success (List α))) (furthest : Option Failure)
    (events : List Event) (hpending : ∀ b ∈ pending, c.Reaches b.cursor)
    (hfinished : ∀ x ∈ finished, c.Reaches x.rest) :
    ∀ x ∈ (expand p pending finished furthest events).outcome.successes, c.Reaches x.rest := by
  fun_induction expand p pending finished furthest events with
  | case1 finished furthest events =>
      intro x hx
      exact hfinished x (List.mem_reverse.1 hx)
  | case2 finished furthest events b pending r furthest' events' next hnext ih =>
      have hb : c.Reaches b.cursor := hpending b List.mem_cons_self
      refine ih (fun b' hb' => hpending b' (List.mem_cons_of_mem b hb')) fun x hx => ?_
      rcases List.mem_cons.1 hx with rfl | hx
      · exact hb
      · exact hfinished x hx
  | case3 finished furthest events b pending r furthest' events' next hnext ih =>
      have hb : c.Reaches b.cursor := hpending b List.mem_cons_self
      refine ih (fun b' hb' => ?_) hfinished
      rcases List.mem_append.1 hb' with hb' | hb'
      · exact reaches_of_mem_follow hp hb hb'
      · exact hpending b' (List.mem_cons_of_mem b hb')

theorem advances_repeatFrom {p : Parser α} (hp : p.Advances) (seed : List α) :
    (repeatFrom p seed).Advances := by
  intro c
  refine reaches_of_mem_expand hp _ _ _ _ (fun b hb => ?_) (fun x hx => ?_)
  · rw [List.mem_singleton] at hb
    rw [hb]
    exact c.reaches_refl
  · exact absurd hx List.not_mem_nil

theorem advances_many1 {p : Parser α} (hp : p.Advances) : (many1 p).Advances := by
  intro c y hy
  rw [many1, Run.successes_andThen, List.mem_flatMap] at hy
  obtain ⟨x, hx, hy⟩ := hy
  exact (hp c x hx).trans (advances_repeatFrom hp [x.value] x.rest y hy)

/-! ## Knots -/

variable {κ ρ : Type} [DecidableEq κ]

/-- Rules that advance when their references do advance when they are tied to each other. -/
theorem advances_enter {keys : List κ} {rules : (κ → Parser ρ) → κ → Parser ρ}
    (h : ∀ self, (∀ k, (self k).Advances) → ∀ k, (rules self k).Advances) (place : Nat)
    (entered : List κ) (key : κ) : (enter keys rules place entered key).Advances :=
  enter_induction (Q := fun c r => ∀ x ∈ r.outcome.successes, c.Reaches x.rest)
    (fun _ _ hx => absurd hx List.not_mem_nil) h place entered key

theorem advances_knot {keys : List κ} {rules : (κ → Parser ρ) → κ → Parser ρ}
    (h : ∀ self, (∀ k, (self k).Advances) → ∀ k, (rules self k).Advances) (key : κ) :
    (knot keys rules key).Advances := fun c => advances_enter h c.length [key] key c

end Parser

namespace Grammar

variable {ρ α : Type}

/-! ## Grammars -/

theorem advances_empty (r : Ref) : ((Env.empty : Env ρ) r).Advances := by
  intro c x hx
  exact absurd hx List.not_mem_nil

theorem advances_extend {env : Env ρ} {names : List String} {rule : String → Parser ρ}
    (henv : ∀ r, (env r).Advances) (hrule : ∀ x, (rule x).Advances) (r : Ref) :
    (env.extend names rule r).Advances := by
  cases r with
  | name x =>
      rw [Env.extend]
      split
      · exact hrule x
      · exact henv (.name x)
  | handle d => exact henv (.handle d)
  | owner d => exact henv (.owner d)

/-- Every parser that a grammar describes advances, if its references do. -/
theorem advances_parserIn (p : Grammar ρ α) {env : Env ρ} (henv : ∀ r, (env r).Advances) :
    (p.parserIn env).Advances := by
  induction p with
  | succeed v => exact Parser.advances_succeed v
  | fail expected => exact Parser.advances_of_successes_eq_nil fun _ => rfl
  | never => exact Parser.advances_of_successes_eq_nil fun _ => rfl
  | charWhere test expected => exact Parser.advances_charWhere test expected
  | literal text => exact Parser.advances_literalFrom text _
  | endOfInput => exact Parser.advances_endOfInput
  | record records => exact Parser.advances_succeed ()
  | bind p f ihp ihf => exact Parser.advances_bind (ihp henv) fun a => ihf a henv
  | map f p ih => exact Parser.advances_map f (ih henv)
  | orElse p q ihp ihq => exact Parser.advances_orElse (ihp henv) (ihq henv)
  | sequence join p q ihp ihq => exact Parser.advances_sequence join (ihp henv) (ihq henv)
  | union p q ihp ihq => exact Parser.advances_union (ihp henv) (ihq henv)
  | many p ih => exact Parser.advances_repeatFrom (ih henv) []
  | many1 p ih => exact Parser.advances_many1 (ih henv)
  | label name p ih => exact ih henv
  | note expected p ih => exact ih henv
  | look p ih => exact Parser.advances_look _
  | ref r => exact henv r
  | letrec names rule main ihrule ihmain =>
      have hknot : ∀ x, (Parser.knot names
          (fun self x => (rule x).parserIn (env.extend names self)) x).Advances :=
        Parser.advances_knot fun self hself x => ihrule x (advances_extend henv hself)
      exact ihmain (advances_extend henv hknot)
  | closed p ih => exact ih advances_empty

end Grammar

/-! ## Parsers and the invariant of outcomes -/

/-- A parser, with the invariant of outcomes: what a success leaves is a suffix of the input. A
    function that goes back to a cursor met before, or on to one of another text, is none. -/
@[ext] structure SuffixParser (α : Type) where
  parser : Parser α
  advances : parser.Advances

namespace SuffixParser

variable {α β : Type}

/-- Reads nothing and gives `value`. -/
def succeed (value : α) : SuffixParser α := ⟨.succeed value, Parser.advances_succeed value⟩

/-- Changes every value. -/
def map (f : α → β) (p : SuffixParser α) : SuffixParser β :=
  ⟨.map f p.parser, Parser.advances_map f p.advances⟩

/-- `p` where it has a success, and otherwise `q` from the same place. -/
def orElse (p q : SuffixParser α) : SuffixParser α :=
  ⟨.orElse p.parser q.parser, Parser.advances_orElse p.advances q.advances⟩

/-- `p` and then `q`, with both values. -/
def pair (p : SuffixParser α) (q : SuffixParser β) : SuffixParser (α × β) :=
  ⟨.pair p.parser q.parser, Parser.advances_sequence Prod.mk p.advances q.advances⟩

/-- `p` as often as possible, even never. -/
def many (p : SuffixParser α) : SuffixParser (List α) :=
  ⟨.many p.parser, Parser.advances_repeatFrom p.advances []⟩

/-- `p` once, and then as often as possible. -/
def many1 (p : SuffixParser α) : SuffixParser (List α) :=
  ⟨.many1 p.parser, Parser.advances_many1 p.advances⟩

end SuffixParser

/-- The parser of a grammar. -/
def Grammar.suffixParser {ρ α : Type} (p : Grammar ρ α) : SuffixParser α :=
  ⟨p.parser, p.advances_parserIn Grammar.advances_empty⟩

end Parsing
