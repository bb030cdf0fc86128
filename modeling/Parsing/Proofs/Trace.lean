import Parsing.Script.Workspace

set_option autoImplicit false

/-! # Every failure on the way

A run keeps the furthest of its failures. A trace keeps all of them, in the order in which they were
recorded: by each parser for a character, a text or the end that did not find it, and by each
failure and note, wherever the parser got to, in alternatives given up and in ones that succeeded.
`Grammar.trace` is the second meaning of grammars that collects them; nothing is merged there. Its
repetitions recur on what each step leaves, without a list of open branches.

A label renames the failures recorded inside it where it starts. In a grammar without labels, what
is collected is what was recorded. -/

namespace Parsing

/-- What a parser made of its input, and the failures recorded on the way, in order. -/
structure Trace (α : Type) where
  successes : List (Success α)
  failures : List Failure
  deriving Repr

namespace Trace

variable {α β : Type}

/-- Nothing was tried. -/
def empty : Trace α := ⟨[], []⟩

/-- One trace, then another. -/
def append (t u : Trace α) : Trace α := ⟨t.successes ++ u.successes, t.failures ++ u.failures⟩

/-- Every value is replaced by its image. -/
def map (f : α → β) (t : Trace α) : Trace β := ⟨t.successes.map (Success.map f), t.failures⟩

/-- The traces that start at the successes given, one after the other. -/
def gather (next : Success α → Trace β) (xs : List (Success α)) : Trace β :=
  ⟨xs.flatMap fun x => (next x).successes, xs.flatMap fun x => (next x).failures⟩

/-- A trace continued from each of its successes in order. -/
def andThen (t : Trace α) (next : Success α → Trace β) : Trace β :=
  append ⟨[], t.failures⟩ (gather next t.successes)

end Trace

/-- A function from a place in a text to what can be read there and the failures recorded. -/
def Tracer (α : Type) : Type := Cursor → Trace α

namespace Tracer

variable {α β γ : Type}

/-! ## Nothing, a character, a text, the end -/

/-- Reads nothing, gives `value` and records nothing. -/
def succeed (value : α) : Tracer α := fun c => ⟨[⟨value, c⟩], []⟩

/-- Records that `expected` is missing here. -/
def missing (expected : String) : Tracer α := fun c => ⟨[], [.missing c expected]⟩

/-- Nothing is tried. -/
def never : Tracer α := fun _ => .empty

/-- Reads a character that passes the test. Where there is none, `expected` is missing. -/
def charWhere (test : Char → Bool) (expected : String) : Tracer Char := fun c =>
  match c.unread with
  | [] => missing expected c
  | x :: _ => if test x then succeed x c.next else missing expected c

/-- Reads the characters `xs` and gives `text`. The first of them that does not stand there is
    missing where it should stand. -/
def literalFrom (text : String) : List Char → Tracer String
  | [] => succeed text
  | x :: xs => fun c =>
    if c.unread.head? = some x then literalFrom text xs c.next else missing (Quoted.char x) c

/-- Succeeds where nothing is left to read. Elsewhere the end of the input is missing. -/
def endOfInput : Tracer Unit := fun c =>
  if c.unread.isEmpty then succeed () c else missing "end of input" c

/-! ## Combinators -/

/-- Continues each success of `p` with the tracer that its value chooses. -/
def bind (p : Tracer α) (f : α → Tracer β) : Tracer β := fun c =>
  (p c).andThen fun x => f x.value x.rest

/-- Changes every value. -/
def map (f : α → β) (p : Tracer α) : Tracer β := fun c => (p c).map f

/-- `p` where it has a success, and otherwise `q` after it. -/
def orElse (p q : Tracer α) : Tracer α := fun c =>
  if (p c).successes.isEmpty then ⟨(q c).successes, (p c).failures ++ (q c).failures⟩ else p c

/-- `p` and then `q` on what each success of `p` leaves, their values joined. -/
def sequence (join : α → β → γ) (p : Tracer α) (q : Tracer β) : Tracer γ := fun c =>
  (p c).andThen fun x => (q x.rest).map (join x.value)

/-- `p` and then `q`, both from the same place. -/
def union (p q : Tracer α) : Tracer α := fun c => (p c).append (q c)

/-- `p`, with the failures recorded where it started told as `name`. -/
def label (name : String) (p : Tracer α) : Tracer α := fun c =>
  ⟨(p c).successes, (p c).failures.map (·.relabel c name)⟩

/-- `p`, and then a record that `expected` was expected where it started. -/
def note (expected : String) (p : Tracer α) : Tracer α := fun c =>
  ⟨(p c).successes, (p c).failures ++ [.missing c expected]⟩

/-- `p` without reading. -/
def look (p : Tracer α) : Tracer α := fun c =>
  ⟨(p c).successes.map fun x => ⟨x.value, c⟩, (p c).failures⟩

/-! ## Repetition -/

/-- Every way of reading on with `p`, after the values in `seed` have been read. -/
def repeatFrom (p : Tracer α) (seed : List α) (c : Cursor) : Trace (List α) :=
  let t := p c
  let next := Parser.consuming c t.successes
  if next.isEmpty then ⟨[⟨seed, c⟩], t.failures⟩
  else
    ⟨next.attach.flatMap fun x => (repeatFrom p (seed ++ [x.1.value]) x.1.rest).successes,
      t.failures ++
        next.attach.flatMap fun x => (repeatFrom p (seed ++ [x.1.value]) x.1.rest).failures⟩
termination_by c.length
decreasing_by
  all_goals
    have hmem := x.2
    simp only [next, Parser.consuming, List.mem_filter, decide_eq_true_eq] at hmem
    exact hmem.2

section Steps

variable {p : Tracer α} {c : Cursor}

theorem repeatFrom_of_nil (seed : List α) (h : Parser.consuming c (p c).successes = []) :
    repeatFrom p seed c = ⟨[⟨seed, c⟩], (p c).failures⟩ := by
  rw [repeatFrom]
  simp only [h, List.isEmpty_nil, if_true]

theorem repeatFrom_of_ne_nil (seed : List α) (h : Parser.consuming c (p c).successes ≠ []) :
    repeatFrom p seed c
      = Trace.append ⟨[], (p c).failures⟩
          (Trace.gather (fun x => repeatFrom p (seed ++ [x.value]) x.rest)
            (Parser.consuming c (p c).successes)) := by
  rw [repeatFrom]
  simp only [List.isEmpty_iff, h, if_false, Trace.gather, Trace.append, List.nil_append,
    List.flatMap_subtype, List.unattach_attach]

end Steps

/-- `p` once, and then as often as possible. -/
def many1 (p : Tracer α) : Tracer (List α) := fun c =>
  (p c).andThen fun x => repeatFrom p [x.value] x.rest

/-! ## Rules that refer to each other -/

section Knots

variable {κ ρ : Type} [DecidableEq κ]

/-- The body of the rule `key`, entered with `place` characters unread, where the rules `entered`
    have been entered one inside the other. Entering one of them there again comes to nothing. -/
def enter (keys : List κ) (rules : (κ → Tracer ρ) → κ → Tracer ρ) (place : Nat) (entered : List κ)
    (key : κ) : Tracer ρ :=
  rules (fun k c =>
    let left := c.length
    if left < place then enter keys rules left [k] k c
    else if left = place ∧ k ∈ keys ∧ k ∉ entered then enter keys rules place (k :: entered) k c
    else .empty) key
termination_by (place, (keys.filter (· ∉ entered)).length)
decreasing_by
  · exact Prod.Lex.left _ _ ‹_›
  · rename_i h
    exact Prod.Lex.right _ (Parser.length_filter_entered_lt h.2.1 h.2.2)

/-- The rule `key` of rules that refer to each other. -/
def knot (keys : List κ) (rules : (κ → Tracer ρ) → κ → Tracer ρ) (key : κ) : Tracer ρ := fun c =>
  enter keys rules c.length [key] key c

end Knots

/-- The names given stand for what `rule` says, and all other references for what they stood for. -/
def extend {ρ : Type} (env : Ref → Tracer ρ) (names : List String) (rule : String → Tracer ρ) :
    Ref → Tracer ρ
  | .name x => if x ∈ names then rule x else env (.name x)
  | r => env r

end Tracer

/-! ## Grammars -/

/-- The tracer that a grammar describes, where `env` gives the meaning of references. -/
def Grammar.tracerIn : {ρ α : Type} → Grammar ρ α → (Ref → Tracer ρ) → Tracer α
  | _, _, .succeed v, _ => .succeed v
  | _, _, .fail expected, _ => .missing expected
  | _, _, .never, _ => .never
  | _, _, .charWhere test expected, _ => .charWhere test expected
  | _, _, .literal text, _ => .literalFrom text text.toList
  | _, _, .endOfInput, _ => .endOfInput
  | _, _, .record _, _ => .succeed ()
  | _, _, .bind p f, env => .bind (p.tracerIn env) fun a => (f a).tracerIn env
  | _, _, .map f p, env => .map f (p.tracerIn env)
  | _, _, .orElse p q, env => .orElse (p.tracerIn env) (q.tracerIn env)
  | _, _, .sequence join p q, env => .sequence join (p.tracerIn env) (q.tracerIn env)
  | _, _, .union p q, env => .union (p.tracerIn env) (q.tracerIn env)
  | _, _, .many p, env => .repeatFrom (p.tracerIn env) []
  | _, _, .many1 p, env => .many1 (p.tracerIn env)
  | _, _, .label name p, env => .label name (p.tracerIn env)
  | _, _, .note expected p, env => .note expected (p.tracerIn env)
  | _, _, .look p, env => .look (p.tracerIn env)
  | _, _, .ref r, env => env r
  | _, _, .letrec names rule main, env =>
    main.tracerIn (Tracer.extend env names
      (.knot names fun self x => (rule x).tracerIn (Tracer.extend env names self)))
  | _, _, .closed p, _ => p.tracerIn fun _ => .never

/-- The tracer that a grammar describes by itself. -/
def Grammar.trace {ρ α : Type} (p : Grammar ρ α) : Tracer α := p.tracerIn fun _ => .never

/-! ## Workspaces -/

namespace Script.Workspace

/-- What references stand for when `self` are the tracers of the bodies. -/
def tracerMeaning (w : Workspace) (alive : List Nat) (self : Nat → Tracer Value) :
    Ref → Tracer Value
  | .name _ => .never
  | .owner d => self d
  | .handle d =>
    if d ∈ alive then
      match w.body d with
      | some _ => self d
      | none => .never
    else .never

/-- The body of a definition as a tracer. -/
def bodyTracer (w : Workspace) (alive : List Nat) (self : Nat → Tracer Value) (d : Nat) :
    Tracer Value :=
  match w.body d with
  | some b => b.rules.tracerIn (w.tracerMeaning alive self)
  | none => .never

/-- The tracer of a built parser as it works in the workspace. -/
def trace (w : Workspace) (b : Built) : Tracer Value :=
  b.rules.tracerIn (w.tracerMeaning w.alive
    (.knot (List.range w.bodies.length) (w.bodyTracer w.alive)))

end Script.Workspace

end Parsing
