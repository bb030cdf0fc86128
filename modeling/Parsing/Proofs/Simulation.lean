import Mathlib.Data.List.Forall2
import Parsing.Script.Workspace
import Parsing.Proofs.Repetition

set_option autoImplicit false

/-! # Simulations

A simulation relates cursors with each other and failures with each other, such that related
cursors have the same text before them and what parsers do to cursors and failures keeps them
related. Two parsers are `Related` if they make related runs of related cursors: the same values
with related rests in the same order, related furthest failures, and the same events.

Each combinator keeps parsers related, and so do knots. Hence every parser that a grammar describes
is related to itself (`grammars_self`), and so is every parser of a workspace
(`related_built_self`).
What holds of all parsers because none of them can tell related cursors apart is shown by giving a
simulation. -/

namespace Parsing

/-- A relation of cursors and one of failures that reading, failing, merging and naming keep. -/
structure Simulation where
  cursors : Cursor → Cursor → Prop
  failures : Failure → Failure → Prop
  unread_eq {c d : Cursor} : cursors c d → c.unread = d.unread
  next {c d : Cursor} : cursors c d → cursors c.next d.next
  missing {c d : Cursor} (label : String) : cursors c d →
    failures (.missing c label) (.missing d label)
  merge {f g f' g' : Failure} : failures f g → failures f' g' →
    failures (f.merge f') (g.merge g')
  relabel {c d : Cursor} {f g : Failure} (name : String) : cursors c d → failures f g →
    failures (f.relabel c name) (g.relabel d name)

namespace Simulation

variable {α β γ : Type} (S : Simulation)

/-! ## Related runs -/

/-- The same value, with related cursors behind it. -/
def Successes (x y : Success α) : Prop := x.value = y.value ∧ S.cursors x.rest y.rest

/-- The same values in the same order, and related failures. -/
structure Runs (r q : Run α) : Prop where
  successes : List.Forall₂ S.Successes r.outcome.successes q.outcome.successes
  furthest : Option.Rel S.failures r.outcome.furthest q.outcome.furthest
  events : r.events = q.events

variable {S}

theorem length_eq {c d : Cursor} (h : S.cursors c d) : c.length = d.length := by
  rw [Cursor.length, S.unread_eq h, Cursor.length]

theorem mergeOptions {f g f' g' : Option Failure} (h : Option.Rel S.failures f g)
    (h' : Option.Rel S.failures f' g') :
    Option.Rel S.failures (Failure.mergeOptions f f') (Failure.mergeOptions g g') := by
  cases h with
  | none => exact h'
  | some h =>
      cases h' with
      | none => exact .some h
      | some h' => exact .some (S.merge h h')

theorem rel_map {φ ψ : Failure → Failure}
    (hφψ : ∀ f g, S.failures f g → S.failures (φ f) (ψ g)) {f g : Option Failure}
    (h : Option.Rel S.failures f g) : Option.Rel S.failures (f.map φ) (g.map ψ) := by
  cases h with
  | none => exact .none
  | some h => exact .some (hφψ _ _ h)

/-- Where a cursor is known from the one it is related to, the successes are. -/
theorem successes_eq_map {move : Cursor → Cursor} (hmove : ∀ c d, S.cursors c d → c = move d)
    {xs ys : List (Success α)} (h : List.Forall₂ S.Successes xs ys) :
    xs = ys.map fun y => ⟨y.value, move y.rest⟩ := by
  induction h with
  | nil => rfl
  | @cons x y xs ys hxy _ ih =>
      obtain ⟨hvalue, hrest⟩ := hxy
      rw [List.map_cons, ← ih, ← hvalue, ← hmove _ _ hrest]

/-- What related failures have in common, related furthest failures have. -/
theorem furthest_map_eq {φ ψ : Failure → β} (hφψ : ∀ f g, S.failures f g → φ f = ψ g)
    {f g : Option Failure} (h : Option.Rel S.failures f g) : f.map φ = g.map ψ := by
  cases h with
  | none => rfl
  | some h => exact congrArg some (hφψ _ _ h)

theorem runs_faulty (f : Fault) : S.Runs (.faulty f : Run α) (.faulty f) := ⟨.nil, .none, rfl⟩

theorem runs_empty : S.Runs (.empty : Run α) .empty := ⟨.nil, .none, rfl⟩

theorem Runs.append {r q r' q' : Run α} (h : S.Runs r q) (h' : S.Runs r' q') :
    S.Runs (r.append r') (q.append q') where
  successes := List.rel_append h.successes h'.successes
  furthest := mergeOptions h.furthest h'.furthest
  events := by rw [Run.events_append, Run.events_append, h.events, h'.events]

theorem Runs.barren {r q : Run α} (h : S.Runs r q) : S.Runs (r.barren : Run β) q.barren :=
  ⟨.nil, h.furthest, h.events⟩

theorem Runs.map (f : α → β) {r q : Run α} (h : S.Runs r q) : S.Runs (r.map f) (q.map f) where
  successes := by
    refine List.rel_map ?_ h.successes
    rintro x y ⟨hvalue, hrest⟩
    exact ⟨congrArg f hvalue, hrest⟩
  furthest := h.furthest
  events := h.events

theorem runs_gather {next next' : Success α → Run β} {xs ys : List (Success α)}
    (h : List.Forall₂ S.Successes xs ys)
    (hnext : ∀ x ∈ xs, ∀ y, S.Successes x y → S.Runs (next x) (next' y)) :
    S.Runs (Run.gather next xs) (Run.gather next' ys) := by
  induction h with
  | nil => exact runs_empty
  | @cons x y xs ys hxy _ ih =>
      have hfirst : S.Runs (next x) (next' y) := hnext x List.mem_cons_self y hxy
      exact hfirst.append (ih fun z hz => hnext z (List.mem_cons_of_mem x hz))

theorem Runs.andThen {r q : Run α} {next next' : Success α → Run β} (h : S.Runs r q)
    (hnext : ∀ x y, S.Successes x y → S.Runs (next x) (next' y)) :
    S.Runs (r.andThen next) (q.andThen next') :=
  h.barren.append (runs_gather h.successes fun x _ y hxy => hnext x y hxy)

/-! ## Related parsers -/

variable (S) in
/-- Related runs from related cursors. -/
def Related (p q : Parser α) : Prop := ∀ c d, S.cursors c d → S.Runs (p c) (q d)

theorem related_faulty (f : Fault) : S.Related (fun _ => .faulty f : Parser α) fun _ => .faulty f :=
  fun _ _ _ => runs_faulty f

theorem related_succeed (v : α) : S.Related (.succeed v) (.succeed v) := by
  intro c d h
  exact ⟨.cons ⟨rfl, h⟩ .nil, .none, rfl⟩

/-- Labels may differ where the simulation does not look at them. -/
theorem related_fail {label label' : String}
    (h : ∀ c d, S.cursors c d → S.failures (.missing c label) (.missing d label')) :
    S.Related (.fail label : Parser α) (.fail label') := by
  intro c d hcd
  exact ⟨.nil, .some (h c d hcd), rfl⟩

theorem related_fail_self (label : String) :
    S.Related (.fail label : Parser α) (.fail label) :=
  related_fail fun _ _ => S.missing label

theorem related_never : S.Related (.never : Parser α) .never := fun _ _ _ => runs_empty

theorem related_charWhere (test : Char → Bool) {label label' : String}
    (h : ∀ c d, S.cursors c d → S.failures (.missing c label) (.missing d label')) :
    S.Related (.charWhere test label) (.charWhere test label') := by
  intro c d hcd
  have hfail : S.Runs (Parser.fail label c : Run Char) (Parser.fail label' d) :=
    related_fail h c d hcd
  cases hd : d.unread with
  | nil =>
      have hc : c.unread = [] := (S.unread_eq hcd).trans hd
      rw [Parser.charWhere_of_nil test label hc, Parser.charWhere_of_nil test label' hd]
      exact hfail
  | cons x xs =>
      have hc : c.unread = x :: xs := (S.unread_eq hcd).trans hd
      rw [Parser.charWhere_of_cons test label hc, Parser.charWhere_of_cons test label' hd]
      split
      · exact related_succeed x _ _ (S.next hcd)
      · exact hfail

theorem related_literalFrom (text : String) (xs : List Char) :
    S.Related (.literalFrom text xs) (.literalFrom text xs) := by
  induction xs with
  | nil => exact related_succeed text
  | cons x xs ih =>
      intro c d hcd
      have hfail : S.Runs (Parser.fail (Quoted.char x) c : Run String)
          (Parser.fail (Quoted.char x) d) := related_fail_self (Quoted.char x) c d hcd
      simp only [Parser.literalFrom, S.unread_eq hcd]
      split
      · exact hfail
      · split
        · exact ih _ _ (S.next hcd)
        · exact hfail

theorem related_endOfInput : S.Related .endOfInput .endOfInput := by
  intro c d hcd
  simp only [Parser.endOfInput, S.unread_eq hcd]
  split
  · exact related_succeed () c d hcd
  · exact related_fail_self "end of input" c d hcd

theorem related_record (records : List Record) :
    S.Related (.record records) (.record records) := by
  intro c d hcd
  exact ⟨.cons ⟨rfl, hcd⟩ .nil, .none, rfl⟩

theorem related_bind {p q : Parser α} {f g : α → Parser β} (hp : S.Related p q)
    (hf : ∀ a, S.Related (f a) (g a)) : S.Related (.bind p f) (.bind q g) := by
  intro c d hcd
  refine (hp c d hcd).andThen ?_
  rintro x y ⟨hvalue, hrest⟩
  rw [hvalue]
  exact hf y.value _ _ hrest

theorem related_map (f : α → β) {p q : Parser α} (h : S.Related p q) :
    S.Related (.map f p) (.map f q) :=
  fun c d hcd => (h c d hcd).map f

theorem related_sequence (join : α → β → γ) {p q : Parser α} {p' q' : Parser β}
    (h : S.Related p q) (h' : S.Related p' q') :
    S.Related (.sequence join p p') (.sequence join q q') := by
  intro c d hcd
  refine (h c d hcd).andThen ?_
  rintro x y ⟨hvalue, hrest⟩
  rw [hvalue]
  exact (h' _ _ hrest).map (join y.value)

theorem Runs.successes_eq_nil_iff {r q : Run α} (h : S.Runs r q) :
    r.outcome.successes = [] ↔ q.outcome.successes = [] := by
  rw [← List.length_eq_zero_iff, h.successes.length_eq, List.length_eq_zero_iff]

theorem related_orElse {p q p' q' : Parser α} (h : S.Related p q) (h' : S.Related p' q') :
    S.Related (.orElse p p') (.orElse q q') := by
  intro c d hcd
  have hfirst : S.Runs (p c) (q d) := h c d hcd
  have hsecond : S.Runs (p' c) (q' d) := h' c d hcd
  by_cases hq : (q d).outcome.successes = []
  · rw [Parser.orElse_of_successes_eq_nil p' (hfirst.successes_eq_nil_iff.2 hq),
      Parser.orElse_of_successes_eq_nil q' hq]
    exact {
      successes := hsecond.successes
      furthest := mergeOptions hsecond.furthest hfirst.furthest
      events := by rw [hfirst.events, hsecond.events] }
  · have hp : (p c).outcome.successes ≠ [] := fun hnil => hq (hfirst.successes_eq_nil_iff.1 hnil)
    rw [Parser.orElse_of_successes_ne_nil p' hp, Parser.orElse_of_successes_ne_nil q' hq]
    exact hfirst

theorem related_union {p q p' q' : Parser α} (h : S.Related p q) (h' : S.Related p' q') :
    S.Related (.union p p') (.union q q') :=
  fun c d hcd => (h c d hcd).append (h' c d hcd)

theorem related_label (name : String) {p q : Parser α} (h : S.Related p q) :
    S.Related (.label name p) (.label name q) := by
  intro c d hcd
  have hrun : S.Runs (p c) (q d) := h c d hcd
  have hnamed := rel_map (fun _ _ => S.relabel name hcd) hrun.furthest
  exact ⟨hrun.successes, hnamed, hrun.events⟩

theorem related_note {label label' : String}
    (h : ∀ c d, S.cursors c d → S.failures (.missing c label) (.missing d label'))
    {p q : Parser α} (hp : S.Related p q) : S.Related (.note label p) (.note label' q) := by
  intro c d hcd
  have hrun : S.Runs (p c) (q d) := hp c d hcd
  exact ⟨hrun.successes, mergeOptions hrun.furthest (.some (h c d hcd)), hrun.events⟩

theorem related_look {p q : Parser α} (h : S.Related p q) : S.Related (.look p) (.look q) := by
  intro c d hcd
  have hrun : S.Runs (p c) (q d) := h c d hcd
  refine ⟨?_, hrun.furthest, hrun.events⟩
  refine List.rel_map ?_ hrun.successes
  rintro x y ⟨hvalue, _⟩
  exact ⟨hvalue, hcd⟩

/-! ### Repetition -/

/-- Related cursors have as much text before them, so the same successes read something. -/
theorem rel_consuming {c d : Cursor} (hcd : S.cursors c d) {xs ys : List (Success α)}
    (h : List.Forall₂ S.Successes xs ys) :
    List.Forall₂ S.Successes (Parser.consuming c xs) (Parser.consuming d ys) := by
  refine List.rel_filter ?_ h
  rintro x y ⟨_, hrest⟩
  simp only [length_eq hrest, length_eq hcd]

theorem related_repeatFrom {p q : Parser α} (h : S.Related p q) (seed : List α) :
    S.Related (.repeatFrom p seed) (.repeatFrom q seed) := by
  intro c d hcd
  -- What is followed up leaves fewer characters unread.
  induction hn : c.length using Nat.strongRecOn generalizing c d seed with
  | ind n ih =>
      have hrun : S.Runs (p c) (q d) := h c d hcd
      have hnext : List.Forall₂ S.Successes (Parser.consuming c (p c).outcome.successes)
          (Parser.consuming d (q d).outcome.successes) := rel_consuming hcd hrun.successes
      by_cases hd : Parser.consuming d (q d).outcome.successes = []
      · have hc : Parser.consuming c (p c).outcome.successes = [] := by
          rw [hd] at hnext
          exact List.forall₂_nil_right_iff.1 hnext
        rw [Parser.repeatFrom_of_nil seed hc, Parser.repeatFrom_of_nil seed hd]
        exact ⟨.cons ⟨rfl, hcd⟩ .nil, hrun.furthest, hrun.events⟩
      · have hc : Parser.consuming c (p c).outcome.successes ≠ [] := by
          intro hc
          rw [hc] at hnext
          exact hd (List.forall₂_nil_left_iff.1 hnext)
        rw [Parser.repeatFrom_of_ne_nil seed hc, Parser.repeatFrom_of_ne_nil seed hd]
        refine hrun.barren.append (runs_gather hnext ?_)
        rintro x hx y ⟨hvalue, hrest⟩
        have hlt : x.rest.length < n := hn ▸ Parser.length_lt_of_mem_consuming hx
        rw [hvalue]
        exact ih _ hlt _ _ _ hrest rfl

theorem related_many1 {p q : Parser α} (h : S.Related p q) :
    S.Related (.many1 p) (.many1 q) := by
  intro c d hcd
  refine (h c d hcd).andThen ?_
  rintro x y ⟨hvalue, hrest⟩
  rw [hvalue]
  exact related_repeatFrom h [y.value] _ _ hrest

/-! ### Knots -/

section Knots

variable {κ ρ : Type} [DecidableEq κ] {keys : List κ}
  {rules rules' : (κ → Parser ρ) → κ → Parser ρ}

theorem related_enter
    (h : ∀ self self', (∀ k, S.Related (self k) (self' k)) →
      ∀ k, S.Related (rules self k) (rules' self' k))
    (place : Nat) (entered : List κ) (key : κ) :
    S.Related (.enter keys rules place entered key) (.enter keys rules' place entered key) := by
  -- The induction is the recursion of `enter`; both sides count the same unread characters.
  fun_induction Parser.enter keys rules place entered key with
  | case1 place entered key ih₁ ih₂ =>
      rw [Parser.enter]
      refine h _ _ (fun k c d hcd => ?_) key
      simp only [length_eq hcd]
      split
      · exact ih₁ k d ‹_› c d hcd
      · split
        · exact ih₂ k d ‹_› c d hcd
        · exact runs_faulty _

theorem related_knot
    (h : ∀ self self', (∀ k, S.Related (self k) (self' k)) →
      ∀ k, S.Related (rules self k) (rules' self' k)) (key : κ) :
    S.Related (.knot keys rules key) (.knot keys rules' key) := by
  intro c d hcd
  rw [Parser.knot, Parser.knot, length_eq hcd]
  exact related_enter h d.length [key] key c d hcd

end Knots

/-! ## Grammars -/

section Grammars

variable {ρ : Type}

theorem related_empty (r : Ref) :
    S.Related ((Grammar.Env.empty : Grammar.Env ρ) r) (Grammar.Env.empty r) :=
  related_faulty .dropped

theorem related_extend {env env' : Grammar.Env ρ} {names : List String}
    {rule rule' : String → Parser ρ} (henv : ∀ r, S.Related (env r) (env' r))
    (hrule : ∀ x, S.Related (rule x) (rule' x)) (r : Ref) :
    S.Related (env.extend names rule r) (env'.extend names rule' r) := by
  cases r with
  | name x =>
      rw [Grammar.Env.extend, Grammar.Env.extend]
      split
      · exact hrule x
      · exact henv (.name x)
  | handle d => exact henv (.handle d)
  | owner d => exact henv (.owner d)

variable (S) in
/-- Related parsers wherever references stand for related parsers. -/
def Grammars (p q : Grammar ρ α) : Prop :=
  ∀ env env' : Grammar.Env ρ, (∀ r, S.Related (env r) (env' r)) →
    S.Related (p.parserIn env) (q.parserIn env')

theorem related_letrec {names : List String} {rule rule' : String → Grammar ρ ρ}
    {main main' : Grammar ρ α} (hrule : ∀ x, S.Grammars (rule x) (rule' x))
    (hmain : S.Grammars main main') :
    S.Grammars (.letrec names rule main) (.letrec names rule' main') := by
  intro env env' henv
  refine hmain _ _ (related_extend henv (related_knot fun self self' hself x => ?_))
  exact hrule x _ _ (related_extend henv hself)

/-- **No parser can tell related cursors apart.** -/
theorem grammars_self (p : Grammar ρ α) : S.Grammars p p := by
  intro env env' henv
  induction p with
  | succeed v => exact related_succeed v
  | fail expected => exact related_fail_self expected
  | never => exact related_never
  | charWhere test expected => exact related_charWhere test fun _ _ => S.missing expected
  | literal text => exact related_literalFrom text _
  | endOfInput => exact related_endOfInput
  | record records => exact related_record records
  | bind p f ihp ihf => exact related_bind (ihp _ _ henv) fun a => ihf a _ _ henv
  | map f p ih => exact related_map f (ih _ _ henv)
  | orElse p q ihp ihq => exact related_orElse (ihp _ _ henv) (ihq _ _ henv)
  | sequence join p q ihp ihq => exact related_sequence join (ihp _ _ henv) (ihq _ _ henv)
  | union p q ihp ihq => exact related_union (ihp _ _ henv) (ihq _ _ henv)
  | many p ih => exact related_repeatFrom (ih _ _ henv) []
  | many1 p ih => exact related_many1 (ih _ _ henv)
  | label name p ih => exact related_label name (ih _ _ henv)
  | note expected p ih => exact related_note (fun _ _ => S.missing expected) (ih _ _ henv)
  | look p ih => exact related_look (ih _ _ henv)
  | ref r => exact henv r
  | letrec names rule main ihrule ihmain =>
      exact related_letrec ihrule ihmain _ _ henv
  | closed p ih => exact ih _ _ related_empty

theorem Grammars.related {p q : Grammar ρ α} (h : S.Grammars p q) :
    S.Related p.parser q.parser := h _ _ related_empty

end Grammars

/-! ## Workspaces -/

section Workspaces

open Script

variable {w w' : Workspace}

theorem related_meaning {alive : List Nat} {R : Built → Built → Prop}
    (hbody : ∀ d, Option.Rel R (w.body d) (w'.body d)) {self self' : Nat → Parser Value}
    (hself : ∀ d, S.Related (self d) (self' d)) (r : Ref) :
    S.Related (w.meaning alive self r) (w'.meaning alive self' r) := by
  cases r with
  | name x => exact related_faulty .dropped
  | owner d => exact hself d
  | handle d =>
      intro c c' hcc'
      have hd : Option.Rel R (w.body d) (w'.body d) := hbody d
      simp only [Workspace.meaning]
      split
      · generalize w.body d = o, w'.body d = o' at hd
        cases hd with
        | none => exact runs_faulty .undefined
        | some _ => exact hself d c c' hcc'
      · exact runs_faulty .dropped

/-- Workspaces with the same definitions alive and related bodies have related parsers. -/
theorem related_built (hlength : w.bodies.length = w'.bodies.length) (halive : w.alive = w'.alive)
    (hbody : ∀ d, Option.Rel (fun b b' => S.Grammars b.rules b'.rules) (w.body d) (w'.body d))
    {b b' : Built} (hb : S.Grammars b.rules b'.rules) :
    S.Related (w.parser b) (w'.parser b') := by
  rw [Workspace.parser, Workspace.parser, hlength, halive]
  refine hb _ _ (related_meaning hbody (related_knot fun self self' hself d => ?_))
  have hd : Option.Rel _ (w.body d) (w'.body d) := hbody d
  rw [Workspace.bodyParser, Workspace.bodyParser]
  generalize w.body d = o, w'.body d = o' at hd
  cases hd with
  | none => exact related_faulty .undefined
  | some h => exact h _ _ (related_meaning hbody hself)

theorem related_built_self (w : Workspace) (b : Built) : S.Related (w.parser b) (w.parser b) := by
  refine related_built rfl rfl (fun d => ?_) (grammars_self b.rules)
  cases w.body d with
  | none => exact .none
  | some b => exact .some (grammars_self b.rules)

end Workspaces

end Simulation

end Parsing
