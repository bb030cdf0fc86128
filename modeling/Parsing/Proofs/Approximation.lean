import Parsing.Proofs.Knot
import Parsing.Proofs.References
import Parsing.Proofs.Repetition

set_option autoImplicit false

/-! # Rules as solutions of their equations

A run hangs if it stops at a rule that is entered again with nothing read in between. Such a rule
never comes to an end, so a run that hangs may be worth any other run: `r.Below q` says that `r`
hangs, or stops at the same fault as `q` after the same records, or is `q`.

All combinators keep this order, and entering a rule where fewer rules have been entered before only
turns runs that hang into others. Hence a knot solves its equations: a rule comes to the same as its
body with the rules themselves for what it refers to (`Parser.settle_knot`). The fault of the knot
and the fault of the body may come at different depths, so this is about what runs come to and not
about all of their events. -/

namespace Parsing

variable {α β γ ρ : Type}

/-! ## Runs that hang -/

namespace Run

/-- The run stops at a rule that is entered again with nothing read in between. -/
def Hangs (r : Run α) : Prop := ∃ xs, r.StopsAt xs .leftRecursion

theorem Hangs.settle {r : Run α} (h : r.Hangs) : r.settle.2 = .error .leftRecursion := by
  obtain ⟨xs, hxs⟩ := h
  rw [hxs.settle]

section Stops

variable {xs : List Record} {f : Fault}

theorem StopsAt.of_events {r : Run α} {q : Run β} {es : List Event} (h : r.StopsAt xs f)
    (hq : q.events = r.events ++ es) : q.StopsAt xs f := by
  obtain ⟨rest, hrest⟩ := h
  exact ⟨rest ++ es, by rw [hq, hrest, List.append_assoc, List.cons_append]⟩

/-- A run stops where its first part does. -/
theorem StopsAt.append_left {r : Run α} (h : r.StopsAt xs f) (q : Run α) :
    (r.append q).StopsAt xs f :=
  h.of_events rfl

theorem StopsAt.append_right {r q : Run α} {ys : List Record} (hr : r.events = ys.map .record)
    (h : q.StopsAt xs f) : (r.append q).StopsAt (ys ++ xs) f := by
  obtain ⟨rest, hrest⟩ := h
  exact ⟨rest, by rw [events_append, hr, hrest, List.map_append, List.append_assoc]⟩

theorem StopsAt.andThen {r : Run α} (h : r.StopsAt xs f) (next : Success α → Run β) :
    (r.andThen next).StopsAt xs f :=
  h.of_events (events_andThen r next)

end Stops

/-! ## The order -/

/-- `r` hangs, or it stops just where `q` stops, or it is `q`. -/
inductive Below : Run α → Run α → Prop where
  | hangs {r q : Run α} (h : r.Hangs) : Below r q
  | stops {r q : Run α} {xs : List Record} {f : Fault} (h : r.StopsAt xs f)
      (h' : q.StopsAt xs f) : Below r q
  | same (r : Run α) : Below r r

theorem below_faulty (q : Run α) : (faulty .leftRecursion : Run α).Below q :=
  .hangs ⟨[], [], rfl⟩

/-- Only what hangs is below what hangs. -/
theorem Below.hangs_of_hangs {r q : Run α} (h : r.Below q) (hq : q.Hangs) : r.Hangs := by
  cases h with
  | hangs h => exact h
  | stops h h' =>
      rename_i xs f
      have hf : f = .leftRecursion := by
        have hsettle := hq.settle
        rw [h'.settle] at hsettle
        exact Except.error.inj hsettle
      exact ⟨xs, hf ▸ h⟩
  | same => exact hq

theorem Below.symm {r q : Run α} (h : r.Below q) (hr : ¬ r.Hangs) : q.Below r := by
  cases h with
  | hangs h => exact absurd h hr
  | stops h h' => exact .stops h' h
  | same => exact .same r

/-- Runs below each other come to the same. -/
theorem Below.settle_eq {r q : Run α} (h : r.Below q) (h' : q.Below r) :
    r.settle.2 = q.settle.2 := by
  cases h with
  | hangs hr => rw [hr.settle, (h'.hangs_of_hangs hr).settle]
  | stops hr hq => rw [hr.settle, hq.settle]
  | same => rfl

/-- The order looks at events only where a run stops. -/
theorem Below.mapOutcome {r q : Run α} (h : r.Below q) (φ : Outcome α → Outcome β) :
    Below ⟨φ r.outcome, r.events⟩ ⟨φ q.outcome, q.events⟩ := by
  cases h with
  | hangs h => exact .hangs h
  | stops h h' => exact .stops h h'
  | same => exact .same _

theorem Below.append {r r' q q' : Run α} (h : r.Below r') (h' : q.Below q') :
    (r.append q).Below (r'.append q') := by
  cases h with
  | hangs h =>
      obtain ⟨xs, hxs⟩ := h
      exact .hangs ⟨xs, hxs.append_left q⟩
  | stops hr hr' => exact .stops (hr.append_left q) (hr'.append_left q')
  | same =>
      rcases stopsAt_or_records r with ⟨xs, f, hr⟩ | ⟨xs, hr⟩
      · exact .stops (hr.append_left q) (hr.append_left q')
      · cases h' with
        | hangs h =>
            obtain ⟨ys, hys⟩ := h
            exact .hangs ⟨xs ++ ys, hys.append_right hr⟩
        | stops hq hq' => exact .stops (hq.append_right hr) (hq'.append_right hr)
        | same => exact .same _

theorem below_gather {next next' : Success α → Run β} {xs : List (Success α)}
    (h : ∀ x ∈ xs, (next x).Below (next' x)) : (gather next xs).Below (gather next' xs) := by
  induction xs with
  | nil => exact .same _
  | cons x xs ih =>
      have hfirst : (next x).Below (next' x) := h x List.mem_cons_self
      exact hfirst.append (ih fun y hy => h y (List.mem_cons_of_mem x hy))

theorem Below.andThen {r r' : Run α} {next next' : Success α → Run β} (h : r.Below r')
    (hnext : ∀ x ∈ r.outcome.successes, (next x).Below (next' x)) :
    (r.andThen next).Below (r'.andThen next') := by
  cases h with
  | hangs h =>
      obtain ⟨xs, hxs⟩ := h
      exact .hangs ⟨xs, hxs.andThen next⟩
  | stops h h' => exact .stops (h.andThen next) (h'.andThen next')
  | same => exact Below.append (.same _) (below_gather hnext)

end Run

namespace Parser

/-! ## Combinators -/

/-- From `start` on, each run of `p` is below that of `q`. -/
def Below (start : Cursor) (p q : Parser α) : Prop := ∀ c, start.Reaches c → (p c).Below (q c)

variable {start : Cursor}

theorem below_refl (p : Parser α) : p.Below start p := fun c _ => .same (p c)

theorem below_bind {p p' : Parser α} {f f' : α → Parser β} (hadvances : p.Advances)
    (hp : p.Below start p') (hf : ∀ a, (f a).Below start (f' a)) :
    (bind p f).Below start (bind p' f') :=
  fun c hc => (hp c hc).andThen fun x hx => hf x.value x.rest (hc.trans (hadvances c x hx))

theorem below_map (f : α → β) {p p' : Parser α} (hp : p.Below start p') :
    (map f p).Below start (map f p') :=
  fun c hc => (hp c hc).mapOutcome (Outcome.map f)

theorem below_sequence (join : α → β → γ) {p p' : Parser α} {q q' : Parser β}
    (hadvances : p.Advances) (hp : p.Below start p') (hq : q.Below start q') :
    (sequence join p q).Below start (sequence join p' q') :=
  fun c hc => (hp c hc).andThen fun x hx =>
    (hq x.rest (hc.trans (hadvances c x hx))).mapOutcome (Outcome.map (join x.value))

theorem below_union {p p' q q' : Parser α} (hp : p.Below start p') (hq : q.Below start q') :
    (union p q).Below start (union p' q') :=
  fun c hc => (hp c hc).append (hq c hc)

theorem stopsAt_orElse {p : Parser α} {c : Cursor} {xs : List Record} {f : Fault}
    (h : (p c).StopsAt xs f) (q : Parser α) : (orElse p q c).StopsAt xs f := by
  by_cases hnil : (p c).outcome.successes = []
  · rw [orElse_of_successes_eq_nil q hnil]
    exact h.of_events rfl
  · rwa [orElse_of_successes_ne_nil q hnil]

theorem below_orElse {p p' q q' : Parser α} (hp : p.Below start p') (hq : q.Below start q') :
    (orElse p q).Below start (orElse p' q') := by
  intro c hc
  have hfirst : (p c).Below (p' c) := hp c hc
  generalize hr' : p' c = r' at hfirst
  cases hfirst with
  | hangs h =>
      obtain ⟨xs, hxs⟩ := h
      exact .hangs ⟨xs, stopsAt_orElse hxs q⟩
  | stops h h' =>
      rw [← hr'] at h'
      exact .stops (stopsAt_orElse h q) (stopsAt_orElse h' q')
  | same =>
      by_cases hnil : (p c).outcome.successes = []
      · rw [orElse_of_successes_eq_nil q hnil, orElse_of_successes_eq_nil q' (hr' ▸ hnil), hr']
        have hsecond : (Run.append ⟨⟨[], none⟩, (p c).events⟩ (q c)).Below
            (Run.append ⟨⟨[], none⟩, (p c).events⟩ (q' c)) :=
          Run.Below.append (.same _) (hq c hc)
        exact hsecond.mapOutcome fun o => o.withFailure (p c).outcome.furthest
      · rw [orElse_of_successes_ne_nil q hnil, orElse_of_successes_ne_nil q' (hr' ▸ hnil), hr']
        exact .same _

theorem stopsAt_repeatFrom {p : Parser α} {c : Cursor} {xs : List Record} {f : Fault}
    (h : (p c).StopsAt xs f) (seed : List α) : (repeatFrom p seed c).StopsAt xs f := by
  by_cases hnil : consuming c (p c).outcome.successes = []
  · rw [repeatFrom_of_nil seed hnil]
    exact h
  · rw [repeatFrom_of_ne_nil seed hnil]
    exact h.of_events rfl

theorem below_repeatFrom {p p' : Parser α} (hadvances : p.Advances) (hp : p.Below start p')
    (seed : List α) : (repeatFrom p seed).Below start (repeatFrom p' seed) := by
  intro c hc
  -- What is followed up leaves fewer characters unread.
  induction hn : c.length using Nat.strongRecOn generalizing c seed with
  | ind n ih =>
      have hfirst : (p c).Below (p' c) := hp c hc
      generalize hr' : p' c = r' at hfirst
      cases hfirst with
      | hangs h =>
          obtain ⟨xs, hxs⟩ := h
          exact .hangs ⟨xs, stopsAt_repeatFrom hxs seed⟩
      | stops h h' =>
          rw [← hr'] at h'
          exact .stops (stopsAt_repeatFrom h seed) (stopsAt_repeatFrom h' seed)
      | same =>
          by_cases hnil : consuming c (p c).outcome.successes = []
          · rw [repeatFrom_of_nil seed hnil, repeatFrom_of_nil seed (by rwa [hr']), hr']
            exact .same _
          · rw [repeatFrom_of_ne_nil seed hnil, repeatFrom_of_ne_nil seed (by rwa [hr']), hr']
            refine Run.Below.append (.same _) (Run.below_gather fun x hx => ?_)
            have hlt : x.rest.length < n := hn ▸ length_lt_of_mem_consuming hx
            exact ih _ hlt _ _ (hc.trans (hadvances c x (List.mem_filter.1 hx).1)) rfl

theorem below_many1 {p p' : Parser α} (hadvances : p.Advances) (hp : p.Below start p') :
    (many1 p).Below start (many1 p') :=
  fun c hc => (hp c hc).andThen fun x hx =>
    below_repeatFrom hadvances hp [x.value] x.rest (hc.trans (hadvances c x hx))

theorem below_label (name : String) {p p' : Parser α} (hp : p.Below start p') :
    (label name p).Below start (label name p') :=
  fun c hc => (hp c hc).mapOutcome fun o =>
    ⟨o.successes, o.furthest.map (Failure.relabel c name)⟩

theorem below_note (expected : String) {p p' : Parser α} (hp : p.Below start p') :
    (note expected p).Below start (note expected p') :=
  fun c hc => (hp c hc).mapOutcome fun o => o.withFailure (some (.missing c expected))

theorem below_look {p p' : Parser α} (hp : p.Below start p') :
    (look p).Below start (look p') :=
  fun c hc => (hp c hc).mapOutcome fun o => ⟨o.successes.map fun x => ⟨x.value, c⟩, o.furthest⟩

/-! ## Knots -/

section Knots

variable {κ : Type} [DecidableEq κ] {keys : List κ} {rules rules' : (κ → Parser ρ) → κ → Parser ρ}

/-- Bodies that refer to rules below others are below the bodies that refer to those. -/
def Monotone (start : Cursor) (keys : List κ) (rules rules' : (κ → Parser ρ) → κ → Parser ρ) :
    Prop :=
  ∀ self self', (∀ k, (self k).Advances) → (∀ k ∈ keys, (self k).Below start (self' k)) →
    ∀ k, (rules self k).Below start (rules' self' k)

/-- The rule `k` hangs wherever `place` characters are left. -/
def Dead (start : Cursor) (keys : List κ) (rules : (κ → Parser ρ) → κ → Parser ρ) (place : Nat)
    (k : κ) : Prop :=
  ∀ c, start.Reaches c → c.length = place → (knot keys rules k c).Hangs

section Entering

variable (hadvances : ∀ self, (∀ k, (self k).Advances) → ∀ k, (rules self k).Advances)

include hadvances

theorem advances_reference (place : Nat) (entered : List κ) (k : κ) :
    (reference keys rules place entered k).Advances := by
  intro c x hx
  unfold reference at hx
  split at hx
  · exact advances_knot hadvances k c x hx
  · split at hx
    · exact advances_enter hadvances place (k :: entered) k c x hx
    · exact absurd hx List.not_mem_nil

/-- Entering a rule where others have been entered only makes runs hang. Whether a rule that hangs
    anyway has been entered does not matter. -/
theorem below_enter (hrules : Monotone start keys rules rules') (place : Nat) (entered : List κ)
    (key : κ) (entered' : List κ)
    (hentered : ∀ k ∈ entered', k ∈ entered ∨ Dead start keys rules' place k) :
    (enter keys rules place entered key).Below start (enter keys rules' place entered' key) := by
  fun_induction enter keys rules place entered key generalizing entered' with
  | case1 place entered key ih₁ ih₂ =>
      have hreferences : ∀ k ∈ keys, (reference keys rules place entered k).Below start
          (reference keys rules' place entered' k) := by
        intro k _ c hc
        unfold reference
        by_cases hlt : c.length < place
        · rw [if_pos hlt, if_pos hlt]
          exact ih₁ k c hlt [k] (fun x hx => .inl hx) c hc
        · rw [if_neg hlt, if_neg hlt]
          by_cases hfresh : c.length = place ∧ k ∈ keys ∧ k ∉ entered
          · rw [if_pos hfresh]
            by_cases hk : k ∈ entered'
            · -- The rule has been entered on the right only, so it hangs anyway.
              have hdead := (hentered k hk).resolve_left hfresh.2.2 c hc hfresh.1
              rw [knot, hfresh.1] at hdead
              have hbelow := ih₂ k c hfresh [k] (fun x hx => .inl (by simp_all)) c hc
              exact .hangs (hbelow.hangs_of_hangs hdead)
            · rw [if_pos ⟨hfresh.1, hfresh.2.1, hk⟩]
              refine ih₂ k c hfresh (k :: entered') (fun x hx => ?_) c hc
              rcases List.mem_cons.1 hx with rfl | hx
              · exact .inl List.mem_cons_self
              · exact (hentered x hx).imp_left (List.mem_cons_of_mem k)
          · rw [if_neg hfresh]
            exact Run.below_faulty _
      rw [enter]
      exact hrules _ _ (advances_reference hadvances place entered) hreferences key

theorem below_knot (hrules : Monotone start keys rules rules') (key : κ) :
    (knot keys rules key).Below start (knot keys rules' key) :=
  fun c hc => below_enter hadvances hrules c.length [key] key [key] (fun _ hk => .inl hk) c hc

end Entering

section Solution

variable (hadvances : ∀ self, (∀ k, (self k).Advances) → ∀ k, (rules self k).Advances)
  (hrules : ∀ start, Monotone start keys rules rules)

include hadvances hrules

theorem knot_below (key : κ) (c : Cursor) :
    (knot keys rules key c).Below (rules (knot keys rules) key c) := by
  rw [knot_eq]
  refine hrules c _ _ (advances_reference hadvances c.length [key]) ?_ key c c.reaches_refl
  intro k _ d hd
  unfold reference
  split
  · exact .same _
  · split
    · rename_i hfresh
      have hbelow := below_enter hadvances (hrules c) c.length [k, key] k [k]
        (fun x hx => .inl (by simp_all)) d hd
      rwa [knot, hfresh.1]
    · exact Run.below_faulty _

theorem below_knot_self (key : κ) (c : Cursor) :
    (rules (knot keys rules) key c).Below (knot keys rules key c) := by
  by_cases hhangs : (knot keys rules key c).Hangs
  · rw [knot_eq]
    refine hrules c _ _ (advances_knot hadvances) ?_ key c c.reaches_refl
    intro k hk d hd
    have hplace : ∀ e, c.Reaches e → e.length = c.length → e = c :=
      fun e he hlength => he.eq_of_length_eq hlength
    by_cases hlt : d.length < c.length
    · rw [reference_of_lt _ _ hlt]
      exact .same _
    · have hdc : d = c := hplace d hd (Nat.le_antisymm hd.length_le (Nat.le_of_not_lt hlt))
      rw [hdc]
      by_cases hkey : k = key
      · rw [hkey]
        exact .hangs hhangs
      · rw [reference_of_fresh hk (by simpa using hkey)]
        refine below_enter hadvances (hrules c) c.length [k] k [k, key] ?_ c
          c.reaches_refl
        intro x hx
        rcases List.mem_cons.1 hx with rfl | hx
        · exact .inl List.mem_cons_self
        · refine .inr fun e he hlength => ?_
          rw [List.mem_singleton.1 hx, hplace e he hlength]
          exact hhangs
  · exact (knot_below hadvances hrules key c).symm hhangs

/-- **A knot solves its equations.** A rule comes to the same as its body does when it refers to the
    rules themselves. -/
theorem settle_knot (key : κ) (c : Cursor) :
    (knot keys rules key c).settle.2 = (rules (knot keys rules) key c).settle.2 :=
  (knot_below hadvances hrules key c).settle_eq (below_knot_self hadvances hrules key c)

end Solution

end Knots

end Parser

/-! ## Grammars -/

namespace Grammar

variable {start : Cursor}

theorem below_extend {ready : List String} {S : Ref → Prop} {env env' : Env ρ} {names : List String}
    {rule rule' : String → Parser ρ} (henv : ∀ r, S r → (env r).Below start (env' r))
    (hrule : ∀ x ∈ names, (rule x).Below start (rule' x)) (r : Ref)
    (hr : Ref.inside S names ready r) :
    (env.extend names rule r).Below start (env'.extend names rule' r) :=
  extend_inside (R := Parser.Below start) henv hrule r hr

/-- A parser whose references are below others is below the parser with those. -/
theorem below_parserIn {ready : List String → List String} (p : Grammar ρ α) {S : Ref → Prop}
    {env env' : Env ρ} (hp : p.RefersTo ready S) (hadvances : ∀ r, (env r).Advances)
    (henv : ∀ r, S r → (env r).Below start (env' r)) :
    (p.parserIn env).Below start (p.parserIn env') := by
  induction p generalizing S start with
  | succeed | fail | never | charWhere | literal | endOfInput | record =>
      exact Parser.below_refl _
  | bind p f ihp ihf =>
      exact Parser.below_bind (p.advances_parserIn hadvances) (ihp hp.1 hadvances henv)
        fun a => ihf a (hp.2 a) hadvances henv
  | map f p ih => exact Parser.below_map f (ih hp hadvances henv)
  | orElse p q ihp ihq =>
      exact Parser.below_orElse (ihp hp.1 hadvances henv) (ihq hp.2 hadvances henv)
  | sequence join p q ihp ihq =>
      exact Parser.below_sequence join (p.advances_parserIn hadvances) (ihp hp.1 hadvances henv)
        (ihq hp.2 hadvances henv)
  | union p q ihp ihq =>
      exact Parser.below_union (ihp hp.1 hadvances henv) (ihq hp.2 hadvances henv)
  | many p ih =>
      exact Parser.below_repeatFrom (p.advances_parserIn hadvances) (ih hp hadvances henv) []
  | many1 p ih =>
      exact Parser.below_many1 (p.advances_parserIn hadvances) (ih hp hadvances henv)
  | label name p ih => exact Parser.below_label name (ih hp hadvances henv)
  | note expected p ih => exact Parser.below_note expected (ih hp hadvances henv)
  | look p ih => exact Parser.below_look (ih hp hadvances henv)
  | ref r => exact henv r hp
  | letrec names rule main ihrule ihmain =>
      have hknot : ∀ self : String → Parser _, (∀ x, (self x).Advances) →
          ∀ x, ((rule x).parserIn (env.extend names self)).Advances :=
        fun self hself x => (rule x).advances_parserIn (advances_extend hadvances hself)
      refine ihmain hp.2 (advances_extend hadvances (Parser.advances_knot hknot)) ?_
      refine below_extend henv fun x _ => Parser.below_knot hknot ?_ x
      intro self self' hself hbelow x
      exact ihrule x (hp.1 x) (advances_extend hadvances hself) (below_extend henv hbelow)
  | closed p ih => exact ih hp advances_empty fun r hr => hr.elim

end Grammar

end Parsing
