import Parsing.Proofs.Repetition
import Parsing.Proofs.Trace

set_option autoImplicit false

/-! # No failure is lost

The furthest failure of a run pools the failures recorded on the way (`Failure.Pools`): it lies as
far on as the furthest of them, and expects what any of those there expected. There is one as soon
as anything was recorded, in an alternative given up or in one that succeeded
(`furthest_pools_trace`).

Every combinator makes of runs that pool their traces a run that pools its trace (`Run.TracedBy`),
since merging two failures pools what both of them pool (`Pools.merge`). -/

namespace Parsing

namespace Failure

/-! ## Pooling -/

/-- `f` is what the failures `fs` come to, taken together: it has the greatest of their offsets,
    tells of the place of one of them, and expects what any of those at that offset expected. -/
structure IsPool (f : Failure) (fs : List Failure) : Prop where
  place : ∃ g ∈ fs, g.position = f.position ∧ g.found = f.found
  offset_le : ∀ g ∈ fs, g.position.offset ≤ f.position.offset
  expected : ∀ label, label ∈ f.expected ↔
    ∃ g ∈ fs, g.position.offset = f.position.offset ∧ label ∈ g.expected

/-- The failure that pools `fs`, which is missing just if there are none. -/
def Pools : Option Failure → List Failure → Prop
  | none, fs => fs = []
  | some f, fs => f.IsPool fs

theorem isPool_singleton (f : Failure) : f.IsPool [f] where
  place := ⟨f, List.mem_singleton_self f, rfl, rfl⟩
  offset_le := by
    intro g hg
    have hgf : g = f := List.mem_singleton.1 hg
    exact Nat.le_of_eq (congrArg (fun e => e.position.offset) hgf)
  expected := by simp

theorem pools_toList (f : Option Failure) : Pools f f.toList := by
  cases f with
  | none => rfl
  | some f => exact isPool_singleton f

section IsPool

variable {f g : Failure} {fs gs : List Failure}

/-- The order in which failures were recorded does not matter, nor how often. -/
theorem IsPool.congr (h : f.IsPool fs) (hmem : ∀ e, e ∈ fs ↔ e ∈ gs) : f.IsPool gs where
  place := by
    obtain ⟨e, he, hplace⟩ := h.place
    exact ⟨e, (hmem e).1 he, hplace⟩
  offset_le e he := h.offset_le e ((hmem e).2 he)
  expected label := by simp only [h.expected label, hmem]

/-- Failures further back are lost in those further on. -/
theorem IsPool.append_of_lt (h : f.IsPool fs)
    (hlt : ∀ e ∈ gs, e.position.offset < f.position.offset) : f.IsPool (fs ++ gs) where
  place := by
    obtain ⟨e, he, hplace⟩ := h.place
    exact ⟨e, List.mem_append_left gs he, hplace⟩
  offset_le := by
    intro e he
    rcases List.mem_append.1 he with he | he
    · exact h.offset_le e he
    · exact Nat.le_of_lt (hlt e he)
  expected := by
    intro label
    rw [h.expected label]
    constructor
    · rintro ⟨e, he, hlabel⟩
      exact ⟨e, List.mem_append_left gs he, hlabel⟩
    · rintro ⟨e, he, hoffset, hlabel⟩
      rcases List.mem_append.1 he with he | he
      · exact ⟨e, he, hoffset, hlabel⟩
      · exact absurd hoffset (Nat.ne_of_lt (hlt e he))

/-- At one offset what was expected is put together. -/
theorem IsPool.append_of_eq (h : f.IsPool fs) (h' : g.IsPool gs)
    (hoffset : f.position.offset = g.position.offset) :
    IsPool { f with expected := f.expected.union g.expected } (fs ++ gs) where
  place := by
    obtain ⟨e, he, hplace⟩ := h.place
    exact ⟨e, List.mem_append_left gs he, hplace⟩
  offset_le := by
    intro e he
    rcases List.mem_append.1 he with he | he
    · exact h.offset_le e he
    · show e.position.offset ≤ f.position.offset
      rw [hoffset]
      exact h'.offset_le e he
  expected := by
    intro label
    simp only [LabelSet.mem_union, h.expected label, h'.expected label, ← hoffset,
      List.mem_append, or_and_right, exists_or]

theorem IsPool.merge (h : f.IsPool fs) (h' : g.IsPool gs) : (f.merge g).IsPool (fs ++ gs) := by
  rcases Nat.lt_trichotomy f.position.offset g.position.offset with hlt | heq | hgt
  · rw [merge_of_gt hlt]
    have hpool : g.IsPool (gs ++ fs) :=
      h'.append_of_lt fun e he => Nat.lt_of_le_of_lt (h.offset_le e he) hlt
    exact hpool.congr fun e => by rw [List.mem_append, List.mem_append, or_comm]
  · rw [Failure.merge, if_neg (by omega), if_neg (by omega)]
    exact h.append_of_eq h' heq
  · rw [merge_of_lt hgt]
    exact h.append_of_lt fun e he => Nat.lt_of_le_of_lt (h'.offset_le e he) hgt

end IsPool

theorem Pools.congr {f : Option Failure} {fs gs : List Failure} (h : Pools f fs)
    (hmem : ∀ e, e ∈ fs ↔ e ∈ gs) : Pools f gs := by
  cases f with
  | none =>
      have hfs : fs = [] := h
      refine List.eq_nil_iff_forall_not_mem.2 fun e he => ?_
      rw [← hmem, hfs] at he
      exact List.not_mem_nil he
  | some f => exact IsPool.congr h hmem

/-- **Merging pools what both sides pool.** -/
theorem Pools.merge {f g : Option Failure} {fs gs : List Failure} (h : Pools f fs)
    (h' : Pools g gs) : Pools (mergeOptions f g) (fs ++ gs) := by
  cases f with
  | none =>
      have hfs : fs = [] := h
      rw [hfs]
      exact h'
  | some f =>
      cases g with
      | none =>
          have hgs : gs = [] := h'
          rw [hgs, List.append_nil]
          exact h
      | some g => exact IsPool.merge h h'

/-! ### Renaming -/

theorem mem_expected_relabel (c : Cursor) (name label : String) (f : Failure) :
    label ∈ (f.relabel c name).expected ↔
      (f.position.offset = c.offset ∧ label = name) ∨
        (f.position.offset ≠ c.offset ∧ label ∈ f.expected) := by
  by_cases h : f.position.offset = c.offset
  · simp [relabel, h]
  · simp [relabel, h]

/-- Those at the offset of the pool are renamed just if the pool is. -/
theorem IsPool.relabel {f : Failure} {fs : List Failure} (h : f.IsPool fs) (c : Cursor)
    (name : String) : (f.relabel c name).IsPool (fs.map (·.relabel c name)) where
  place := by
    obtain ⟨g, hg, hposition, hfound⟩ := h.place
    refine ⟨g.relabel c name, List.mem_map_of_mem hg, ?_, ?_⟩
    · rw [position_relabel, position_relabel, hposition]
    · rw [found_relabel, found_relabel, hfound]
  offset_le := by
    intro e he
    obtain ⟨g, hg, rfl⟩ := List.mem_map.1 he
    rw [position_relabel, position_relabel]
    exact h.offset_le g hg
  expected := by
    intro label
    rw [mem_expected_relabel, position_relabel]
    constructor
    · rintro (⟨hstart, hname⟩ | ⟨hstart, hlabel⟩)
      · obtain ⟨g, hg, hposition, _⟩ := h.place
        refine ⟨g.relabel c name, List.mem_map_of_mem hg, by rw [position_relabel, hposition], ?_⟩
        exact (mem_expected_relabel c name label g).2 (.inl ⟨by rwa [hposition], hname⟩)
      · obtain ⟨g, hg, hoffset, hmem⟩ := (h.expected label).1 hlabel
        refine ⟨g.relabel c name, List.mem_map_of_mem hg, by rwa [position_relabel], ?_⟩
        exact (mem_expected_relabel c name label g).2 (.inr ⟨by rwa [hoffset], hmem⟩)
    · rintro ⟨e, he, hoffset, hlabel⟩
      obtain ⟨g, hg, rfl⟩ := List.mem_map.1 he
      rw [position_relabel] at hoffset
      rw [mem_expected_relabel, hoffset] at hlabel
      rcases hlabel with ⟨hstart, hname⟩ | ⟨hstart, hmem⟩
      · exact .inl ⟨hstart, hname⟩
      · exact .inr ⟨hstart, (h.expected label).2 ⟨g, hg, hoffset, hmem⟩⟩

theorem Pools.relabel {f : Option Failure} {fs : List Failure} (h : Pools f fs) (c : Cursor)
    (name : String) : Pools (f.map (·.relabel c name)) (fs.map (·.relabel c name)) := by
  cases f with
  | none => exact congrArg (List.map _) h
  | some f => exact IsPool.relabel h c name

end Failure

variable {α β γ : Type}

/-! ## Runs and their traces -/

/-- The run has the successes of the trace, and its furthest failure pools those of the trace. -/
structure Run.TracedBy (r : Run α) (t : Trace α) : Prop where
  successes : r.outcome.successes = t.successes
  pools : Failure.Pools r.outcome.furthest t.failures

namespace Run

theorem tracedBy_faulty (f : Fault) : (faulty f : Run α).TracedBy .empty := ⟨rfl, rfl⟩

theorem TracedBy.append {r q : Run α} {t u : Trace α} (h : r.TracedBy t) (h' : q.TracedBy u) :
    (r.append q).TracedBy (t.append u) where
  successes := by
    show r.outcome.successes ++ q.outcome.successes = t.successes ++ u.successes
    rw [h.successes, h'.successes]
  pools := h.pools.merge h'.pools

theorem TracedBy.map (f : α → β) {r : Run α} {t : Trace α} (h : r.TracedBy t) :
    (r.map f).TracedBy (t.map f) :=
  ⟨congrArg (List.map (Success.map f)) h.successes, h.pools⟩

theorem TracedBy.barren {r : Run α} {t : Trace α} (h : r.TracedBy t) :
    (r.barren : Run β).TracedBy ⟨[], t.failures⟩ := ⟨rfl, h.pools⟩

theorem tracedBy_gather {next : Success α → Run β} {next' : Success α → Trace β}
    {xs : List (Success α)} (h : ∀ x ∈ xs, (next x).TracedBy (next' x)) :
    (gather next xs).TracedBy (Trace.gather next' xs) := by
  induction xs with
  | nil => exact ⟨rfl, rfl⟩
  | cons x xs ih =>
      have hfirst : (next x).TracedBy (next' x) := h x List.mem_cons_self
      exact hfirst.append (ih fun y hy => h y (List.mem_cons_of_mem x hy))

theorem TracedBy.andThen {r : Run α} {t : Trace α} {next : Success α → Run β}
    {next' : Success α → Trace β} (h : r.TracedBy t) (hnext : ∀ x, (next x).TracedBy (next' x)) :
    (r.andThen next).TracedBy (t.andThen next') := by
  rw [Run.andThen, Trace.andThen, ← h.successes]
  exact h.barren.append (tracedBy_gather fun x _ => hnext x)

end Run

namespace Parser

/-- Every run of the parser is traced by the tracer. -/
def TracedBy (p : Parser α) (t : Tracer α) : Prop := ∀ c, (p c).TracedBy (t c)

theorem tracedBy_succeed (value : α) : (succeed value).TracedBy (.succeed value) :=
  fun _ => ⟨rfl, rfl⟩

theorem tracedBy_fail (expected : String) :
    (fail expected : Parser α).TracedBy (.missing expected) :=
  fun c => ⟨rfl, Failure.isPool_singleton (.missing c expected)⟩

theorem tracedBy_charWhere (test : Char → Bool) (expected : String) :
    (charWhere test expected).TracedBy (.charWhere test expected) := by
  intro c
  rw [charWhere, Tracer.charWhere]
  cases c.unread with
  | nil => exact tracedBy_fail expected c
  | cons x xs =>
      dsimp only
      split
      · exact tracedBy_succeed x c.next
      · exact tracedBy_fail expected c

theorem tracedBy_literalFrom (text : String) (xs : List Char) :
    (literalFrom text xs).TracedBy (.literalFrom text xs) := by
  induction xs with
  | nil => exact tracedBy_succeed text
  | cons x xs ih =>
      intro c
      simp only [literalFrom, Tracer.literalFrom]
      cases c.unread with
      | nil => exact tracedBy_fail (Quoted.char x) c
      | cons y ys =>
          simp only [List.head?_cons, Option.some.injEq]
          split
          · exact ih c.next
          · exact tracedBy_fail (Quoted.char x) c

theorem tracedBy_endOfInput : endOfInput.TracedBy .endOfInput := by
  intro c
  rw [endOfInput, Tracer.endOfInput]
  cases c.unread with
  | nil => exact tracedBy_succeed () c
  | cons x xs => exact tracedBy_fail "end of input" c

theorem tracedBy_record (records : List Record) : (record records).TracedBy (.succeed ()) :=
  fun _ => ⟨rfl, rfl⟩

theorem tracedBy_faulty (f : Fault) : TracedBy (fun _ => .faulty f : Parser α) .never :=
  fun _ => Run.tracedBy_faulty f

theorem tracedBy_never : (never : Parser α).TracedBy .never := fun _ => ⟨rfl, rfl⟩

theorem tracedBy_bind {p : Parser α} {t : Tracer α} {f : α → Parser β} {u : α → Tracer β}
    (h : p.TracedBy t) (hf : ∀ a, (f a).TracedBy (u a)) : (bind p f).TracedBy (t.bind u) :=
  fun c => (h c).andThen fun x => hf x.value x.rest

theorem tracedBy_map (f : α → β) {p : Parser α} {t : Tracer α} (h : p.TracedBy t) :
    (map f p).TracedBy (t.map f) :=
  fun c => (h c).map f

theorem tracedBy_sequence (join : α → β → γ) {p : Parser α} {t : Tracer α} {q : Parser β}
    {u : Tracer β} (h : p.TracedBy t) (h' : q.TracedBy u) :
    (sequence join p q).TracedBy (t.sequence join u) :=
  fun c => (h c).andThen fun x => (h' x.rest).map (join x.value)

section Alternatives

variable {p q : Parser α} {t u : Tracer α}

/-- The second alternative's failures are recorded later and merged first. -/
theorem tracedBy_orElse (h : p.TracedBy t) (h' : q.TracedBy u) :
    (orElse p q).TracedBy (t.orElse u) := by
  intro c
  have hp : (p c).TracedBy (t c) := h c
  have hq : (q c).TracedBy (u c) := h' c
  unfold Tracer.orElse
  split
  · rename_i hnil
    rw [List.isEmpty_iff, ← hp.successes] at hnil
    rw [orElse_of_successes_eq_nil q hnil]
    refine ⟨hq.successes, (hq.pools.merge hp.pools).congr fun e => ?_⟩
    rw [List.mem_append, List.mem_append, or_comm]
  · rename_i hne
    rw [List.isEmpty_iff, ← hp.successes] at hne
    rw [orElse_of_successes_ne_nil q hne]
    exact hp

theorem tracedBy_union (h : p.TracedBy t) (h' : q.TracedBy u) :
    (union p q).TracedBy (t.union u) :=
  fun c => (h c).append (h' c)

theorem tracedBy_label (name : String) (h : p.TracedBy t) :
    (label name p).TracedBy (t.label name) :=
  fun c => ⟨(h c).successes, (h c).pools.relabel c name⟩

theorem tracedBy_note (expected : String) (h : p.TracedBy t) :
    (note expected p).TracedBy (t.note expected) :=
  fun c => ⟨(h c).successes, (h c).pools.merge (Failure.isPool_singleton (.missing c expected))⟩

theorem tracedBy_look (h : p.TracedBy t) : (look p).TracedBy t.look :=
  fun c => ⟨congrArg (List.map _) (h c).successes, (h c).pools⟩

end Alternatives

/-! ### Repetition -/

section Repetition

variable {p : Parser α} {t : Tracer α}

theorem tracedBy_repeatFrom (h : p.TracedBy t) (seed : List α) :
    (repeatFrom p seed).TracedBy (t.repeatFrom seed) := by
  intro c
  -- What is followed up leaves fewer characters unread.
  induction hn : c.length using Nat.strongRecOn generalizing c seed with
  | ind n ih =>
      have hrun : (p c).TracedBy (t c) := h c
      by_cases hnil : consuming c (t c).successes = []
      · rw [repeatFrom_of_nil seed (by rwa [hrun.successes]), Tracer.repeatFrom_of_nil seed hnil]
        exact ⟨rfl, hrun.pools⟩
      · rw [repeatFrom_of_ne_nil seed (by rwa [hrun.successes]),
          Tracer.repeatFrom_of_ne_nil seed hnil, hrun.successes]
        refine hrun.barren.append (Run.tracedBy_gather fun x hx => ?_)
        have hlt : x.rest.length < n := hn ▸ length_lt_of_mem_consuming hx
        exact ih _ hlt _ _ rfl

theorem tracedBy_many1 (h : p.TracedBy t) : (many1 p).TracedBy t.many1 :=
  fun c => (h c).andThen fun x => tracedBy_repeatFrom h [x.value] x.rest

end Repetition

/-! ### Knots -/

section Knots

variable {κ ρ : Type} [DecidableEq κ] {keys : List κ} {rules : (κ → Parser ρ) → κ → Parser ρ}
  {tracers : (κ → Tracer ρ) → κ → Tracer ρ}

theorem tracedBy_enter
    (h : ∀ self self', (∀ k, (self k).TracedBy (self' k)) →
      ∀ k, (rules self k).TracedBy (tracers self' k))
    (place : Nat) (entered : List κ) (key : κ) :
    (enter keys rules place entered key).TracedBy (.enter keys tracers place entered key) := by
  -- The induction is the recursion of `enter`, which is the same on both sides.
  fun_induction enter keys rules place entered key with
  | case1 place entered key ih₁ ih₂ =>
      rw [Tracer.enter]
      refine h _ _ (fun k c => ?_) key
      dsimp only
      split
      · exact ih₁ k c ‹_› c
      · split
        · exact ih₂ k c ‹_› c
        · exact Run.tracedBy_faulty .leftRecursion

theorem tracedBy_knot
    (h : ∀ self self', (∀ k, (self k).TracedBy (self' k)) →
      ∀ k, (rules self k).TracedBy (tracers self' k)) (key : κ) :
    (knot keys rules key).TracedBy (.knot keys tracers key) :=
  fun c => tracedBy_enter h c.length [key] key c

end Knots

end Parser

/-! ## Grammars -/

namespace Grammar

variable {ρ : Type}

theorem tracedBy_extend {env : Env ρ} {tenv : Ref → Tracer ρ} {names : List String}
    {rule : String → Parser ρ} {rule' : String → Tracer ρ} (henv : ∀ r, (env r).TracedBy (tenv r))
    (hrule : ∀ x, (rule x).TracedBy (rule' x)) (r : Ref) :
    (env.extend names rule r).TracedBy (Tracer.extend tenv names rule' r) := by
  cases r with
  | name x =>
      rw [Env.extend, Tracer.extend]
      split
      · exact hrule x
      · exact henv (.name x)
  | handle d => exact henv (.handle d)
  | owner d => exact henv (.owner d)

/-- The parser that a grammar describes is traced by its tracer, if its references are. -/
theorem tracedBy_tracerIn (p : Grammar ρ α) {env : Env ρ} {tenv : Ref → Tracer ρ}
    (henv : ∀ r, (env r).TracedBy (tenv r)) : (p.parserIn env).TracedBy (p.tracerIn tenv) := by
  induction p with
  | succeed v => exact Parser.tracedBy_succeed v
  | fail expected => exact Parser.tracedBy_fail expected
  | never => exact Parser.tracedBy_never
  | charWhere test expected => exact Parser.tracedBy_charWhere test expected
  | literal text => exact Parser.tracedBy_literalFrom text text.toList
  | endOfInput => exact Parser.tracedBy_endOfInput
  | record records => exact Parser.tracedBy_record records
  | bind p f ihp ihf => exact Parser.tracedBy_bind (ihp henv) fun a => ihf a henv
  | map f p ih => exact Parser.tracedBy_map f (ih henv)
  | orElse p q ihp ihq => exact Parser.tracedBy_orElse (ihp henv) (ihq henv)
  | sequence join p q ihp ihq => exact Parser.tracedBy_sequence join (ihp henv) (ihq henv)
  | union p q ihp ihq => exact Parser.tracedBy_union (ihp henv) (ihq henv)
  | many p ih => exact Parser.tracedBy_repeatFrom (ih henv) []
  | many1 p ih => exact Parser.tracedBy_many1 (ih henv)
  | label name p ih => exact Parser.tracedBy_label name (ih henv)
  | note expected p ih => exact Parser.tracedBy_note expected (ih henv)
  | look p ih => exact Parser.tracedBy_look (ih henv)
  | ref r => exact henv r
  | letrec names rule main ihrule ihmain =>
      refine ihmain (tracedBy_extend henv (Parser.tracedBy_knot fun self self' hself x => ?_))
      exact ihrule x (tracedBy_extend henv hself)
  | closed p ih => exact ih fun _ => Parser.tracedBy_faulty .dropped

end Grammar

/-! ## Workspaces -/

namespace Script.Workspace

variable (w : Workspace) (alive : List Nat)

theorem tracedBy_meaning {self : Nat → Parser Value} {self' : Nat → Tracer Value}
    (hself : ∀ d, (self d).TracedBy (self' d)) (r : Ref) :
    (w.meaning alive self r).TracedBy (w.tracerMeaning alive self' r) := by
  cases r with
  | name x => exact Parser.tracedBy_faulty .dropped
  | owner d => exact hself d
  | handle d =>
      intro c
      by_cases halive : d ∈ alive
      · cases hbody : w.body d with
        | none =>
            simp only [meaning, tracerMeaning, hbody, if_pos halive]
            exact Run.tracedBy_faulty .undefined
        | some b =>
            simp only [meaning, tracerMeaning, hbody, if_pos halive]
            exact hself d c
      · simp only [meaning, tracerMeaning, if_neg halive]
        exact Run.tracedBy_faulty .dropped

theorem tracedBy_trace (b : Built) : (w.parser b).TracedBy (w.trace b) := by
  refine b.rules.tracedBy_tracerIn (w.tracedBy_meaning w.alive (Parser.tracedBy_knot ?_))
  intro self self' hself d
  rw [bodyParser, bodyTracer]
  cases w.body d with
  | none => exact Parser.tracedBy_faulty .undefined
  | some b => exact b.rules.tracedBy_tracerIn (w.tracedBy_meaning w.alive hself)

end Script.Workspace

/-! ## All parsers -/

/-- **No failure is lost.** A run has the successes of its trace, and its furthest failure pools all
    failures of the trace. This holds of the parsers that grammars describe and of those built in a
    workspace. -/
theorem furthest_pools_trace :
    (∀ {ρ α : Type} (p : Grammar ρ α) (c : Cursor),
      (p.parser c).outcome.successes = (p.trace c).successes ∧
      Failure.Pools (p.parser c).outcome.furthest (p.trace c).failures) ∧
    (∀ (w : Script.Workspace) (b : Script.Built) (c : Cursor),
      (w.parser b c).outcome.successes = (w.trace b c).successes ∧
      Failure.Pools (w.parser b c).outcome.furthest (w.trace b c).failures) := by
  constructor
  · intro ρ α p c
    have htraced : (p.parser c).TracedBy (p.trace c) :=
      p.tracedBy_tracerIn (fun _ => Parser.tracedBy_faulty .dropped) c
    exact ⟨htraced.successes, htraced.pools⟩
  · intro w b c
    have htraced : (w.parser b c).TracedBy (w.trace b c) := w.tracedBy_trace b c
    exact ⟨htraced.successes, htraced.pools⟩

/-- The alternative given up is told of although the other one succeeds, and what is noted there
    lies further back. -/
example :
    let p : Grammar Unit Unit :=
      .orElse (.map (fun _ => ()) (.literal "ab")) (.note "letter" (.map (fun _ => ()) .anyChar))
    (p.trace (.ofString "ac")).failures
        = [⟨⟨1, 2, 1⟩, some 'c', .singleton "'b'"⟩, ⟨⟨1, 1, 0⟩, some 'a', .singleton "letter"⟩] ∧
      (p.parser (.ofString "ac")).outcome
        = ⟨[⟨(), (Cursor.ofString "ac").next⟩],
          some ⟨⟨1, 2, 1⟩, some 'c', .singleton "'b'"⟩⟩ := by
  decide

end Parsing
