import Parsing.Proofs.Suffix

set_option autoImplicit false

/-! # What grammars refer to

`p.RefersTo ready S`: each reference in `p` is in `S` or names a rule of a `letrec` around it. Which
rules of a `letrec` count is given by `ready`, so that the same predicate says what a grammar refers
to and what it may rely on where not every rule is kept.

Only what is referred to is ever applied. So the events of a parser are among `P` if those of its
references are (`Grammar.emits_parserIn`); of its own it only writes records and comes back to a
rule without having read anything. -/

namespace Parsing

variable {ρ α β γ : Type}

/-! ## References -/

/-- What can be referred to inside a `letrec` of `names`, of which `ready` are kept, if `S` can be
    referred to around it. -/
def Ref.inside (S : Ref → Prop) (names ready : List String) : Ref → Prop
  | .name x => if x ∈ names then x ∈ ready else S (.name x)
  | r => S r

/-- Each reference is in `S` or names a rule of a `letrec` around it, one of those that `ready`
    gives for the rules of that `letrec`. -/
def Grammar.RefersTo (ready : List String → List String) :
    {ρ α : Type} → Grammar ρ α → (Ref → Prop) → Prop
  | _, _, .succeed _, _ => True
  | _, _, .fail _, _ => True
  | _, _, .never, _ => True
  | _, _, .charWhere _ _, _ => True
  | _, _, .literal _, _ => True
  | _, _, .endOfInput, _ => True
  | _, _, .record _, _ => True
  | _, _, .bind p f, S => p.RefersTo ready S ∧ ∀ a, (f a).RefersTo ready S
  | _, _, .map _ p, S => p.RefersTo ready S
  | _, _, .orElse p q, S => p.RefersTo ready S ∧ q.RefersTo ready S
  | _, _, .sequence _ p q, S => p.RefersTo ready S ∧ q.RefersTo ready S
  | _, _, .union p q, S => p.RefersTo ready S ∧ q.RefersTo ready S
  | _, _, .many p, S => p.RefersTo ready S
  | _, _, .many1 p, S => p.RefersTo ready S
  | _, _, .label _ p, S => p.RefersTo ready S
  | _, _, .note _ p, S => p.RefersTo ready S
  | _, _, .look p, S => p.RefersTo ready S
  | _, _, .ref r, S => S r
  | _, _, .letrec names rule main, S =>
    (∀ x, (rule x).RefersTo ready (Ref.inside S names (ready names))) ∧
      main.RefersTo ready (Ref.inside S names (ready names))
  | _, _, .closed p, _ => p.RefersTo ready fun _ => False

theorem Ref.inside_mono {S S' : Ref → Prop} (h : ∀ r, S r → S' r) {names ready : List String}
    {r : Ref} (hr : inside S names ready r) : inside S' names ready r := by
  cases r with
  | name x =>
      simp only [inside] at hr ⊢
      split at hr
      · rwa [if_pos ‹_›]
      · rw [if_neg ‹_›]
        exact h _ hr
  | handle d => exact h _ hr
  | owner d => exact h _ hr

/-- Where all rules are ready, more can be referred to inside a `letrec` than around it. -/
theorem Ref.inside_of_ready {ready : List String → List String}
    (hready : ∀ names x, x ∈ names → x ∈ ready names) {S : Ref → Prop} {names : List String}
    (r : Ref) (hr : S r) : inside S names (ready names) r := by
  cases r with
  | name x =>
      simp only [inside]
      split
      · exact hready names x ‹_›
      · exact hr
  | handle d => exact hr
  | owner d => exact hr

/-- The names bound around a place can be referred to there. -/
theorem Ref.inside_of_mem_append {ready : List String → List String}
    (hready : ∀ names x, x ∈ names → x ∈ ready names) {S : Ref → Prop} (names : List String)
    {bound : List String} (hbound : ∀ x ∈ bound, S (.name x)) :
    ∀ x ∈ names ++ bound, inside S names (ready names) (.name x) := by
  intro x hx
  rcases List.mem_append.1 hx with hx | hx
  · simp only [inside, if_pos hx]
    exact hready names x hx
  · exact inside_of_ready hready _ (hbound x hx)

theorem Grammar.RefersTo.mono {ready : List String → List String} {p : Grammar ρ α}
    {S S' : Ref → Prop} (hp : p.RefersTo ready S) (h : ∀ r, S r → S' r) : p.RefersTo ready S' := by
  induction p generalizing S S' with
  | succeed | fail | never | charWhere | literal | endOfInput | record => exact trivial
  | bind p f ihp ihf => exact ⟨ihp hp.1 h, fun a => ihf a (hp.2 a) h⟩
  | orElse p q ihp ihq => exact ⟨ihp hp.1 h, ihq hp.2 h⟩
  | sequence join p q ihp ihq => exact ⟨ihp hp.1 h, ihq hp.2 h⟩
  | union p q ihp ihq => exact ⟨ihp hp.1 h, ihq hp.2 h⟩
  | map f p ih => exact ih hp h
  | many p ih => exact ih hp h
  | many1 p ih => exact ih hp h
  | label name p ih => exact ih hp h
  | note expected p ih => exact ih hp h
  | look p ih => exact ih hp h
  | ref r => exact h r hp
  | letrec names rule main ihrule ihmain =>
      exact ⟨fun x => ihrule x (hp.1 x) fun r => Ref.inside_mono h,
        ihmain hp.2 fun r => Ref.inside_mono h⟩
  | closed p ih => exact hp

/-- What relates the meanings of all that can be referred to around a `letrec`, and of its rules,
    relates the meanings of all that can be referred to inside. -/
theorem Grammar.extend_inside {σ : Type} {R : Parser ρ → Parser σ → Prop} {S : Ref → Prop}
    {names ready : List String} {env : Env ρ} {env' : Env σ} {rule : String → Parser ρ}
    {rule' : String → Parser σ} (henv : ∀ r, S r → R (env r) (env' r))
    (hrule : ∀ x ∈ names, R (rule x) (rule' x)) (r : Ref) (hr : Ref.inside S names ready r) :
    R (env.extend names rule r) (env'.extend names rule' r) := by
  cases r with
  | name x =>
      simp only [Ref.inside] at hr
      rw [Env.extend, Env.extend]
      split at hr
      · rw [if_pos ‹_›, if_pos ‹_›]
        exact hrule x ‹_›
      · rw [if_neg ‹_›, if_neg ‹_›]
        exact henv _ hr
  | handle d => exact henv _ hr
  | owner d => exact henv _ hr

theorem Grammar.Env.extend_congr (env : Env ρ) {names : List String}
    {rule rule' : String → Parser ρ} (h : ∀ x ∈ names, rule x = rule' x) :
    env.extend names rule = env.extend names rule' := by
  funext r
  cases r with
  | name x =>
      simp only [extend]
      split
      · exact h x ‹_›
      · rfl
  | handle d => rfl
  | owner d => rfl

/-- A parser depends only on what the references in its grammar mean. -/
theorem Grammar.parserIn_congr {ready : List String → List String} (p : Grammar ρ α)
    {S : Ref → Prop} {env env' : Env ρ} (hp : p.RefersTo ready S)
    (henv : ∀ r, S r → env r = env' r) : p.parserIn env = p.parserIn env' := by
  induction p generalizing S with
  | succeed | fail | never | charWhere | literal | endOfInput | record => rfl
  | bind p f ihp ihf =>
      have hf : (fun a => (f a).parserIn env) = fun a => (f a).parserIn env' :=
        funext fun a => ihf a (hp.2 a) henv
      simp only [parserIn, ihp hp.1 henv, hf]
  | orElse p q ihp ihq => simp only [parserIn, ihp hp.1 henv, ihq hp.2 henv]
  | sequence join p q ihp ihq => simp only [parserIn, ihp hp.1 henv, ihq hp.2 henv]
  | union p q ihp ihq => simp only [parserIn, ihp hp.1 henv, ihq hp.2 henv]
  | map _ p ih | many p ih | many1 p ih | label _ p ih | note _ p ih | look p ih =>
      simp only [parserIn, ih hp henv]
  | ref r => exact henv r hp
  | letrec names rule main ihrule ihmain =>
      have hinside : ∀ (self : String → Parser _) (r : Ref), Ref.inside S names (ready names) r →
          env.extend names self r = env'.extend names self r :=
        fun self => extend_inside (R := Eq) henv fun _ _ => rfl
      have hrules : (fun (self : String → Parser _) x => (rule x).parserIn (env.extend names self))
          = fun self x => (rule x).parserIn (env'.extend names self) :=
        funext fun self => funext fun x => ihrule x (hp.1 x) (hinside self)
      simp only [parserIn, hrules]
      exact ihmain hp.2 (hinside _)
  | closed p ih => rfl

/-! ## Events -/

namespace Parser

variable {P : Event → Prop}

/-- Each event of each run of `p` is among `P`. -/
def EmitsOnly (P : Event → Prop) (p : Parser α) : Prop := ∀ c, (p c).Emits P

theorem emitsOnly_of_events_eq_nil {p : Parser α} (h : ∀ c, (p c).events = []) :
    p.EmitsOnly P :=
  fun c => Run.emits_of_events_eq_nil (h c)

theorem events_literalFrom (text : String) (xs : List Char) (c : Cursor) :
    (literalFrom text xs c).events = [] := by
  induction xs generalizing c with
  | nil => rfl
  | cons x xs ih =>
      simp only [literalFrom]
      split
      · rfl
      · split
        · exact ih _
        · rfl

theorem emitsOnly_bind {p : Parser α} {f : α → Parser β} (hp : p.EmitsOnly P)
    (hf : ∀ a, (f a).EmitsOnly P) : (bind p f).EmitsOnly P :=
  fun c => emits_bind (hp c) fun x _ => hf x.value x.rest

theorem emitsOnly_sequence (join : α → β → γ) {p : Parser α} {q : Parser β} (hp : p.EmitsOnly P)
    (hq : q.EmitsOnly P) : (sequence join p q).EmitsOnly P :=
  fun c => emits_sequence (hp c) fun x _ => hq x.rest

theorem emitsOnly_orElse {p q : Parser α} (hp : p.EmitsOnly P) (hq : q.EmitsOnly P) :
    (orElse p q).EmitsOnly P :=
  fun c => emits_orElse (hp c) (hq c)

theorem emitsOnly_union {p q : Parser α} (hp : p.EmitsOnly P) (hq : q.EmitsOnly P) :
    (union p q).EmitsOnly P := by
  intro c e he
  rcases List.mem_append.1 he with he | he
  · exact hp c e he
  · exact hq c e he

theorem emitsOnly_repeatFrom {p : Parser α} (hp : p.EmitsOnly P) (seed : List α) :
    (repeatFrom p seed).EmitsOnly P := by
  intro c
  -- The events are those of the branches worked off, whatever is left to do.
  suffices h : ∀ pending finished furthest events, (∀ e ∈ events, P e) →
      (expand p pending finished furthest events).Emits P by
    exact h _ _ _ _ fun e he => absurd he List.not_mem_nil
  intro pending finished furthest events
  fun_induction expand p pending finished furthest events with
  | case1 finished furthest events => exact fun h => h
  | case2 finished furthest events b pending r furthest' events' next hnext ih =>
      intro h
      refine ih fun e he => ?_
      rcases List.mem_append.1 he with he | he
      · exact h e he
      · exact hp b.cursor e he
  | case3 finished furthest events b pending r furthest' events' next hnext ih =>
      intro h
      refine ih fun e he => ?_
      rcases List.mem_append.1 he with he | he
      · exact h e he
      · exact hp b.cursor e he

theorem emitsOnly_many1 {p : Parser α} (hp : p.EmitsOnly P) : (many1 p).EmitsOnly P := by
  intro c e he
  rw [many1, Run.events_andThen, List.mem_append, List.mem_flatMap] at he
  rcases he with he | ⟨x, _, he⟩
  · exact hp c e he
  · exact emitsOnly_repeatFrom hp [x.value] x.rest e he

section Knots

variable {κ : Type} [DecidableEq κ] {keys : List κ} {rules : (κ → Parser ρ) → κ → Parser ρ}

theorem emitsOnly_knot (hrecursion : P (.fault .leftRecursion))
    (h : ∀ self, (∀ k, (self k).EmitsOnly P) → ∀ k, (rules self k).EmitsOnly P) (key : κ) :
    (knot keys rules key).EmitsOnly P := by
  refine knot_induction (Q := fun _ r => r.Emits P) (fun c e he => ?_) h key
  rwa [List.mem_singleton.1 he]

end Knots

end Parser

namespace Grammar

variable {P : Event → Prop}

theorem emitsOnly_extend {ready : List String} {S : Ref → Prop} {env : Env ρ} {names : List String}
    {rule : String → Parser ρ} (henv : ∀ r, S r → (env r).EmitsOnly P)
    (hrule : ∀ x, (rule x).EmitsOnly P) (r : Ref) (hr : Ref.inside S names ready r) :
    (env.extend names rule r).EmitsOnly P := by
  cases r with
  | name x =>
      simp only [Ref.inside] at hr
      rw [Env.extend]
      split at hr
      · rw [if_pos ‹_›]
        exact hrule x
      · rw [if_neg ‹_›]
        exact henv _ hr
  | handle d => exact henv _ hr
  | owner d => exact henv _ hr

/-- **The events of a parser are those of its references**, apart from records and from rules that
    are entered again with nothing read in between. -/
theorem emits_parserIn {ready : List String → List String} (p : Grammar ρ α) {S : Ref → Prop}
    {env : Env ρ} (hrecord : ∀ x, P (.record x)) (hrecursion : P (.fault .leftRecursion))
    (hp : p.RefersTo ready S) (henv : ∀ r, S r → (env r).EmitsOnly P) :
    (p.parserIn env).EmitsOnly P := by
  induction p generalizing S with
  | succeed v => exact Parser.emitsOnly_of_events_eq_nil fun _ => rfl
  | fail expected => exact Parser.emitsOnly_of_events_eq_nil fun _ => rfl
  | never => exact Parser.emitsOnly_of_events_eq_nil fun _ => rfl
  | charWhere test expected =>
      exact Parser.emitsOnly_of_events_eq_nil (Parser.events_charWhere test expected)
  | literal text =>
      exact Parser.emitsOnly_of_events_eq_nil (Parser.events_literalFrom text text.toList)
  | endOfInput => exact Parser.emitsOnly_of_events_eq_nil Parser.events_endOfInput
  | record records =>
      intro c e he
      obtain ⟨x, _, rfl⟩ := List.mem_map.1 he
      exact hrecord x
  | bind p f ihp ihf =>
      exact Parser.emitsOnly_bind (ihp hp.1 henv) fun a => ihf a (hp.2 a) henv
  | map f p ih => exact ih hp henv
  | orElse p q ihp ihq => exact Parser.emitsOnly_orElse (ihp hp.1 henv) (ihq hp.2 henv)
  | sequence join p q ihp ihq =>
      exact Parser.emitsOnly_sequence join (ihp hp.1 henv) (ihq hp.2 henv)
  | union p q ihp ihq => exact Parser.emitsOnly_union (ihp hp.1 henv) (ihq hp.2 henv)
  | many p ih => exact Parser.emitsOnly_repeatFrom (ih hp henv) []
  | many1 p ih => exact Parser.emitsOnly_many1 (ih hp henv)
  | label name p ih => exact ih hp henv
  | note expected p ih => exact ih hp henv
  | look p ih => exact ih hp henv
  | ref r => exact henv r hp
  | letrec names rule main ihrule ihmain =>
      have hknot : ∀ x, (Parser.knot names
          (fun self x => (rule x).parserIn (env.extend names self)) x).EmitsOnly P :=
        Parser.emitsOnly_knot hrecursion fun self hself x =>
          ihrule x (hp.1 x) (emitsOnly_extend henv hself)
      exact ihmain hp.2 (emitsOnly_extend henv hknot)
  | closed p ih => exact ih hp fun r hr => hr.elim

end Grammar

end Parsing
