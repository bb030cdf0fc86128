import Mathlib.Data.List.Perm.Basic
import Parsing.Proofs.DerivedForms
import Parsing.Proofs.FailurePlace
import Parsing.Proofs.Pooling

set_option autoImplicit false

/-! # The laws of `bind`

`succeed` is neutral for `bind` on both sides. Nesting `bind` to the left or to the right makes the
same successes in the same order, but merges the failures in different orders: all of `f` before
all of `g`, or each of `g` behind the success of `f` that it continues. Merging keeps the place told
by its left side, so the two furthest failures could tell of different places at one offset.

They cannot where failures tell of the cursors of one text (`Failure.OccursIn`), since a text has
only one cursor at an offset: what a list of such failures pools to does not depend on their order
(`Failure.Pools.unique`). Every parser described by a grammar and every parser built in a workspace
stays in the text that it reads (`Parser.StaysIn`). -/

namespace Parsing

/-! ## Failures of one text -/

namespace Failure

/-- What `f` tells is true of a cursor of the text that `start` reads. -/
def OccursIn (f : Failure) (start : Cursor) : Prop :=
  ∃ d, start.Reaches d ∧ f.position = d.position ∧ f.found = d.unread.head?

section Unique

variable {start : Cursor} {f g : Failure} {fs : List Failure}

/-- Two failures of one text at one offset tell of the same place. -/
theorem OccursIn.place_eq (hf : f.OccursIn start) (hg : g.OccursIn start)
    (hoffset : f.position.offset = g.position.offset) :
    f.position = g.position ∧ f.found = g.found := by
  obtain ⟨c, hc, hposition, hfound⟩ := hf
  obtain ⟨d, hd, hposition', hfound'⟩ := hg
  have hcd : c = d := by
    refine hc.eq_of_offset_eq hd ?_
    rw [Cursor.offset, Cursor.offset, ← hposition, ← hposition', hoffset]
  rw [hposition, hposition', hfound, hfound', hcd]
  exact ⟨rfl, rfl⟩

theorem OccursIn.merge (hf : f.OccursIn start) (hg : g.OccursIn start) :
    (f.merge g).OccursIn start := by
  unfold Failure.merge
  split
  · exact hf
  · split
    · exact hg
    · exact hf

theorem IsPool.occursIn (hf : f.IsPool fs) (hfs : ∀ e ∈ fs, e.OccursIn start) :
    f.OccursIn start := by
  obtain ⟨e, he, hposition, hfound⟩ := hf.place
  obtain ⟨d, hd, hplace⟩ := hfs e he
  rw [hposition, hfound] at hplace
  exact ⟨d, hd, hplace⟩

theorem IsPool.offset_le_of_isPool (hf : f.IsPool fs) (hg : g.IsPool fs) :
    f.position.offset ≤ g.position.offset := by
  obtain ⟨e, he, hposition, _⟩ := hf.place
  rw [← hposition]
  exact hg.offset_le e he

theorem IsPool.offset_eq (hf : f.IsPool fs) (hg : g.IsPool fs) :
    f.position.offset = g.position.offset :=
  Nat.le_antisymm (hf.offset_le_of_isPool hg) (hg.offset_le_of_isPool hf)

/-- Pools of the same failures differ in what they tell of their place only. -/
theorem IsPool.eq_of_place (hf : f.IsPool fs) (hg : g.IsPool fs)
    (hposition : f.position = g.position) (hfound : f.found = g.found) : f = g := by
  have hexpected : f.expected = g.expected := by
    apply LabelSet.ext_mem
    intro label
    rw [hf.expected, hg.expected, hposition]
  cases f
  cases g
  exact (Failure.mk.injEq ..).mpr ⟨hposition, hfound, hexpected⟩

theorem IsPool.unique (hf : f.IsPool fs) (hg : g.IsPool fs)
    (hfs : ∀ e ∈ fs, e.OccursIn start) : f = g := by
  obtain ⟨hposition, hfound⟩ := (hf.occursIn hfs).place_eq (hg.occursIn hfs) (hf.offset_eq hg)
  exact hf.eq_of_place hg hposition hfound

/-- **Failures of one text pool to one failure.** -/
theorem Pools.unique {f g : Option Failure} (hf : Pools f fs) (hg : Pools g fs)
    (hfs : ∀ e ∈ fs, e.OccursIn start) : f = g := by
  cases f with
  | none =>
      have hnil : fs = [] := hf
      cases g with
      | none => rfl
      | some g =>
          obtain ⟨e, he, _⟩ := IsPool.place hg
          exact absurd (hnil ▸ he) List.not_mem_nil
  | some f =>
      cases g with
      | none =>
          have hnil : fs = [] := hg
          obtain ⟨e, he, _⟩ := IsPool.place hf
          exact absurd (hnil ▸ he) List.not_mem_nil
      | some g => exact congrArg some (IsPool.unique hf hg hfs)

end Unique

end Failure

variable {α β γ : Type}

/-- The furthest failure of the run, if there is one, occurs in the text that `start` reads. -/
def Run.FailsIn (start : Cursor) (r : Run α) : Prop :=
  ∀ f, r.outcome.furthest = some f → f.OccursIn start

/-- Each place from `start` on is related to itself, and so is each failure that occurs there. -/
def Simulation.within (start : Cursor) : Simulation where
  cursors c d := start.Reaches c ∧ c = d
  failures f g := f.OccursIn start ∧ f = g
  unread_eq := by
    rintro c d ⟨_, rfl⟩
    rfl
  next := by
    rintro c d ⟨hc, rfl⟩
    exact ⟨hc.trans c.reaches_next, rfl⟩
  missing := by
    rintro c d label ⟨hc, rfl⟩
    exact ⟨⟨c, hc, rfl, rfl⟩, rfl⟩
  merge := by
    rintro f g f' g' ⟨hf, rfl⟩ ⟨hf', rfl⟩
    exact ⟨hf.merge hf', rfl⟩
  relabel := by
    rintro c c' f g name ⟨_, rfl⟩ ⟨⟨d, hd, hposition, hfound⟩, rfl⟩
    refine ⟨⟨d, hd, ?_, ?_⟩, rfl⟩
    · rw [Failure.position_relabel, hposition]
    · rw [Failure.found_relabel, hfound]

namespace Parser

/-- Applied to a text, the parser fails in that text and leaves a suffix of it. -/
structure StaysIn (start : Cursor) (p : Parser α) : Prop where
  fails : ∀ c, start.Reaches c → (p c).FailsIn start
  reaches : ∀ c, start.Reaches c → ∀ x ∈ (p c).outcome.successes, start.Reaches x.rest

/-- To stay in a text is to be related to itself by the simulation of its places. -/
theorem related_within_iff {start : Cursor} {p : Parser α} :
    (Simulation.within start).Related p p ↔ p.StaysIn start := by
  constructor
  · intro h
    refine ⟨fun c hc f hf => ?_, fun c hc x hx => ?_⟩
    · have hfurthest := (h c c ⟨hc, rfl⟩).furthest
      rw [hf] at hfurthest
      cases hfurthest with
      | some hff => exact hff.1
    · exact (List.forall₂_same.1 (h c c ⟨hc, rfl⟩).successes x hx).2.1
  · rintro h c _ ⟨hc, rfl⟩
    refine ⟨List.forall₂_same.2 fun x hx => ⟨rfl, h.reaches c hc x hx, rfl⟩, ?_, rfl⟩
    cases hf : (p c).outcome.furthest with
    | none => exact .none
    | some f => exact .some ⟨h.fails c hc f hf, rfl⟩

/-! ## Sequences nested to the left and to the right -/

/-- What is listed for all of `xs` and then for all that follows them, and what is listed for each
    of `xs` together with what follows it. -/
theorem perm_flatMap_flatMap {ε : Type} (es : List ε) (xs : List α) (ys : α → List β)
    (a : α → List ε) (b : β → List ε) :
    ((es ++ xs.flatMap a) ++ (xs.flatMap ys).flatMap b).Perm
      (es ++ xs.flatMap fun x => a x ++ (ys x).flatMap b) := by
  rw [List.append_assoc, List.flatMap_assoc]
  exact (List.flatMap_append_perm xs a fun x => (ys x).flatMap b).append_left es

theorem bind_succeed_left (v : α) (f : α → Parser β) : bind (succeed v) f = f v := by
  funext c
  show Run.empty.append ((f v c).append .empty) = f v c
  rw [Run.empty_append, Run.append_empty]

theorem bind_succeed_right (p : Parser α) : bind p succeed = p := by
  have hsame : (Success.map fun a : α => a) = id := rfl
  calc bind p succeed
      = map (fun a => a) p := (map_eq_bind (fun a => a) p).symm
    _ = p := by
        funext c
        simp [map, Run.map, Outcome.map, hsame]

/-- A parser told as a whole: all that it records is the failure that it ends in, if any. -/
def asTracer (p : Parser α) : Tracer α := fun c =>
  ⟨(p c).outcome.successes, (p c).outcome.furthest.toList⟩

theorem tracedBy_asTracer (p : Parser α) : p.TracedBy p.asTracer :=
  fun c => ⟨rfl, Failure.pools_toList (p c).outcome.furthest⟩

section Associative

variable (p : Parser α) (f : α → Parser β) (g : β → Parser γ) (c : Cursor)

theorem successes_bind_assoc :
    (bind (bind p f) g c).outcome.successes
      = (bind p (fun x => bind (f x) g) c).outcome.successes := by
  simp [List.flatMap_assoc]

theorem perm_events_bind_assoc :
    (bind (bind p f) g c).events.Perm (bind p (fun x => bind (f x) g) c).events := by
  simp only [bind, Run.events_andThen, Run.successes_andThen]
  exact perm_flatMap_flatMap _ _ _ _ _

/-- The failures pooled by `bind p fun x => bind (f x) g`: those of `p`, and then those of `f` at
    each success of `p`, followed by those of `g` at what `f` leaves. -/
def nestedFailures : List Failure :=
  (p c).outcome.furthest.toList ++ (p c).outcome.successes.flatMap fun x =>
    (f x.value x.rest).outcome.furthest.toList ++
      (f x.value x.rest).outcome.successes.flatMap fun y =>
        (g y.value y.rest).outcome.furthest.toList

theorem pools_bind_right :
    Failure.Pools (bind p (fun x => bind (f x) g) c).outcome.furthest (nestedFailures p f g c) :=
  (tracedBy_bind (tracedBy_asTracer p) (fun x =>
    tracedBy_bind (tracedBy_asTracer (f x)) fun y => tracedBy_asTracer (g y)) c).pools

theorem pools_bind_left :
    Failure.Pools (bind (bind p f) g c).outcome.furthest (nestedFailures p f g c) := by
  have hleft := (tracedBy_bind (tracedBy_bind (tracedBy_asTracer p) fun x =>
    tracedBy_asTracer (f x)) (fun y => tracedBy_asTracer (g y)) c).pools
  refine hleft.congr fun e => ?_
  exact (perm_flatMap_flatMap _ _ _ _ _).mem_iff

variable {p f g c}

/-- What is pooled by both nestings can differ only where failures of several texts meet. -/
theorem outcome_bind_assoc {start : Cursor} (hp : (p c).FailsIn start)
    (hf : ∀ x ∈ (p c).outcome.successes, (f x.value x.rest).FailsIn start)
    (hg : ∀ x ∈ (p c).outcome.successes, ∀ y ∈ (f x.value x.rest).outcome.successes,
      (g y.value y.rest).FailsIn start) :
    (bind (bind p f) g c).outcome = (bind p (fun x => bind (f x) g) c).outcome := by
  have hfailures : ∀ e ∈ nestedFailures p f g c, e.OccursIn start := by
    intro e he
    simp only [nestedFailures, List.mem_append, List.mem_flatMap, Option.mem_toList] at he
    rcases he with he | ⟨x, hx, he | ⟨y, hy, he⟩⟩
    · exact hp e he
    · exact hf x hx e he
    · exact hg x hx y hy e he
  have hsuccesses := successes_bind_assoc p f g c
  have hfurthest := (pools_bind_left p f g c).unique (pools_bind_right p f g c) hfailures
  generalize bind (bind p f) g c = r, bind p (fun x => bind (f x) g) c = q at *
  obtain ⟨⟨xs, e⟩, events⟩ := r
  obtain ⟨⟨ys, e'⟩, events'⟩ := q
  simp only at hsuccesses hfurthest
  rw [hsuccesses, hfurthest]

theorem StaysIn.outcome_bind_assoc {start : Cursor} (hp : p.StaysIn start)
    (hf : ∀ a, (f a).StaysIn start) (hg : ∀ b, (g b).StaysIn start) (hc : start.Reaches c) :
    (bind (bind p f) g c).outcome = (bind p (fun x => bind (f x) g) c).outcome := by
  have hx : ∀ x ∈ (p c).outcome.successes, start.Reaches x.rest := hp.reaches c hc
  refine Parser.outcome_bind_assoc (hp.fails c hc) (fun x hmem => ?_) fun x hmem y hmem' => ?_
  · exact (hf x.value).fails _ (hx x hmem)
  · exact (hg y.value).fails _ ((hf x.value).reaches _ (hx x hmem) y hmem')

end Associative

/-! ## All parsers stay in the text -/

theorem staysIn_parserIn {ρ : Type} (p : Grammar ρ α) {env : Grammar.Env ρ} {start : Cursor}
    (henv : ∀ r, (env r).StaysIn start) : (p.parserIn env).StaysIn start := by
  rw [← related_within_iff]
  exact Simulation.grammars_self p env env fun r => related_within_iff.2 (henv r)

theorem staysIn_empty {ρ : Type} (start : Cursor) (r : Ref) :
    ((Grammar.Env.empty : Grammar.Env ρ) r).StaysIn start :=
  related_within_iff.1 (Simulation.related_empty r)

theorem staysIn_grammar {ρ : Type} (p : Grammar ρ α) (start : Cursor) : p.parser.StaysIn start :=
  staysIn_parserIn p (staysIn_empty start)

theorem staysIn_built (w : Script.Workspace) (b : Script.Built) (start : Cursor) :
    (w.parser b).StaysIn start :=
  related_within_iff.1 (Simulation.related_built_self w b)

/-- **`bind` is lawful.** `succeed` is neutral on both sides. Both nestings of `bind` have the same
    successes in the same order and the same events up to their order; they have the same outcome
    where all failures occur in one text. Whatever is put together from parsers that stay in the
    text stays there. So both nestings always agree for the parsers of grammars and of
    workspaces. -/
theorem bind_lawful :
    (∀ {α β : Type} (v : α) (f : α → Parser β), bind (succeed v) f = f v) ∧
    (∀ {α : Type} (p : Parser α), bind p succeed = p) ∧
    (∀ {α β γ : Type} (p : Parser α) (f : α → Parser β) (g : β → Parser γ) (c : Cursor),
      (bind (bind p f) g c).outcome.successes
          = (bind p (fun x => bind (f x) g) c).outcome.successes ∧
        (bind (bind p f) g c).events.Perm (bind p (fun x => bind (f x) g) c).events) ∧
    (∀ {α β γ : Type} (p : Parser α) (f : α → Parser β) (g : β → Parser γ) (c start : Cursor),
      (p c).FailsIn start →
      (∀ x ∈ (p c).outcome.successes, (f x.value x.rest).FailsIn start ∧
        ∀ y ∈ (f x.value x.rest).outcome.successes, (g y.value y.rest).FailsIn start) →
      (bind (bind p f) g c).outcome = (bind p (fun x => bind (f x) g) c).outcome) ∧
    (∀ {ρ α : Type} (p : Grammar ρ α) (env : Grammar.Env ρ) (start : Cursor),
      (∀ r, (env r).StaysIn start) → (p.parserIn env).StaysIn start) ∧
    (∀ (w : Script.Workspace) (b : Script.Built) (start : Cursor), (w.parser b).StaysIn start) ∧
    (∀ {ρ α β γ : Type} (p : Grammar ρ α) (f : α → Grammar ρ β) (g : β → Grammar ρ γ)
      (c : Cursor), (((p.bind f).bind g).parser c).outcome
        = ((p.bind fun x => (f x).bind g).parser c).outcome) ∧
    (∀ (w : Script.Workspace) (b : Script.Built) (f g : Script.Value → Script.Built) (c : Cursor),
      (bind (bind (w.parser b) fun x => w.parser (f x)) (fun y => w.parser (g y)) c).outcome
        = (bind (w.parser b) (fun x =>
            bind (w.parser (f x)) fun y => w.parser (g y)) c).outcome) := by
  refine ⟨bind_succeed_left, bind_succeed_right, fun p f g c => ?_, ?_,
    fun p _ _ henv => staysIn_parserIn p henv, staysIn_built, fun p f g c => ?_,
    fun w b f g c => ?_⟩
  · exact ⟨successes_bind_assoc p f g c, perm_events_bind_assoc p f g c⟩
  · intro α β γ p f g c start hp hnext
    exact outcome_bind_assoc hp (fun x hx => (hnext x hx).1) fun x hx => (hnext x hx).2
  · exact (staysIn_grammar p c).outcome_bind_assoc (fun a => staysIn_grammar (f a) c)
      (fun b => staysIn_grammar (g b) c) c.reaches_refl
  · exact (staysIn_built w b c).outcome_bind_assoc (fun a => staysIn_built w (f a) c)
      (fun b => staysIn_built w (g b) c) c.reaches_refl

/-- `a`, or `ab`. -/
def oneOrBoth : Grammar Unit String := .union (.literal "a") (.literal "ab")

/-- What is to follow: `b` behind `a`, and `d` behind `ab`. -/
def following (read : String) : Grammar Unit String :=
  .literal (if read = "a" then "b" else "d")

/-- In `abx` there is a `c` missing behind `a` and `b`, which nesting to the left records last and
    nesting to the right records first, and a `d` behind `ab`. Both are told of. -/
theorem bind_oneOrBoth :
    let p := oneOrBoth.parser
    let f := fun read => (following read).parser
    let g := fun _ : String => (Grammar.literal "c" : Grammar Unit String).parser
    (∀ start, p.StaysIn start) ∧
      (bind (bind p f) g (.ofString "abx")).outcome
        = ⟨[], some ⟨⟨1, 3, 2⟩, some 'x', .ofList ["'c'", "'d'"]⟩⟩ ∧
      (bind p (fun x => bind (f x) g) (.ofString "abx")).outcome
        = ⟨[], some ⟨⟨1, 3, 2⟩, some 'x', .ofList ["'c'", "'d'"]⟩⟩ := by
  intro p f g
  obtain ⟨-, -, -, hassoc, hstays, -⟩ := @bind_lawful
  have hp : ∀ start, p.StaysIn start := fun start => hstays oneOrBoth _ start (staysIn_empty start)
  have hf : ∀ read start, (f read).StaysIn start :=
    fun read start => hstays (following read) _ start (staysIn_empty start)
  have hg : ∀ read start, (g read).StaysIn start :=
    fun _ start => hstays (.literal "c") _ start (staysIn_empty start)
  have hleft : (bind (bind p f) g (.ofString "abx")).outcome
      = ⟨[], some ⟨⟨1, 3, 2⟩, some 'x', .ofList ["'c'", "'d'"]⟩⟩ := by decide
  refine ⟨hp, hleft, ?_⟩
  rw [← hleft]
  have hstart : (Cursor.ofString "abx").Reaches (.ofString "abx") := Cursor.reaches_refl _
  symm
  refine hassoc p f g _ (.ofString "abx") ((hp _).fails _ hstart) fun x hx => ?_
  have hrest := (hp _).reaches _ hstart x hx
  refine ⟨(hf x.value _).fails _ hrest, fun y hy => ?_⟩
  exact (hg y.value _).fails _ ((hf x.value _).reaches _ hrest y hy)

/-- Failures that are made up can tell of two places at one offset. Which of them is told then
    depends on the nesting. -/
example :
    let made (line : Nat) : Parser Bool := fun _ => .quiet (.failure ⟨⟨line, 1, 0⟩, none, .empty⟩)
    let p : Parser Bool := union (succeed true) (succeed false)
    let f (first : Bool) : Parser Bool := if first then succeed true else made 1
    let g (_ : Bool) : Parser Bool := made 2
    (bind (bind p f) g (.ofString "")).outcome
        = .failure ⟨⟨1, 1, 0⟩, none, .empty⟩ ∧
      (bind p (fun x => bind (f x) g) (.ofString "")).outcome
        = .failure ⟨⟨2, 1, 0⟩, none, .empty⟩ := by
  decide

end Parser

end Parsing
