import Parsing.Grammar
import Parsing.Logged

set_option autoImplicit false

/-! # Deferred parsers

Rules that refer to each other are built from placeholders. `deferred` makes a definition without a
body, and with it a handle, which can be used in other parsers, and a definer; `define` supplies the
body and gives the owner.

A part is a parser under construction, and tells which definitions it keeps alive. A handle keeps
none. An owner keeps its definition, and whatever captures an owner keeps it too (`Part.closure`,
`Part.ownedBy`). A definition is alive while a part in use keeps it, by itself or through the bodies
of definitions that are alive (`Slots.alive`). Applying a handle is a fault when its definition is
dead or has no body yet. -/

namespace Parsing

variable {ρ σ α β : Type}

/-! ## Parts -/

/-- A parser under construction. -/
structure Part (ρ α : Type) where
  /-- The parser, where `links` tells what handles and owners lead to. -/
  code : (links : Grammar.Env ρ) → Parser α
  /-- The definitions that it keeps alive by itself. -/
  keeps : List Nat

namespace Part

/-- A parser that uses no definitions. -/
def plain (p : Parser α) : Part ρ α := ⟨fun _ => p, []⟩

/-- Stands for a definition without keeping it. -/
def handle (d : Nat) : Part ρ ρ := ⟨fun links => links (.handle d), []⟩

/-- Stands for a definition and keeps it. -/
def owner (d : Nat) : Part ρ ρ := ⟨fun links => links (.owner d), [d]⟩

/-- The part under the name `x`, the first one if there are several. -/
def among (captured : List (String × Part ρ ρ)) (x : String) : Part ρ ρ :=
  (captured.lookup x).getD (plain fun _ => .faulty .undefined)

/-- What `code` makes of the parts captured, each under its name. It keeps what they keep. All other
    references are as in `env`, and what they stand for is not kept. -/
def closure (captured : List (String × Part ρ ρ)) (env : Grammar.Env ρ)
    (code : Grammar.Env ρ → Parser α) : Part ρ α where
  code links := code (env.extend (captured.map Prod.fst) fun x => (among captured x).code links)
  keeps := captured.flatMap fun part => part.2.keeps

/-- The same parser, which keeps also what `owner` keeps. -/
def ownedBy (part : Part ρ α) (owner : Part ρ β) : Part ρ α :=
  ⟨part.code, part.keeps ++ owner.keeps⟩

end Part

/-! ## What is alive -/

/-- The definitions made so far. -/
structure Slots (ρ : Type) where
  /-- The bodies by number; none where it is still missing. -/
  bodies : List (Option (Part ρ ρ))

namespace Slots

/-- Nothing is defined. -/
def empty : Slots ρ := ⟨[]⟩

/-- The body of a definition, if it has been supplied. -/
def body (s : Slots ρ) (d : Nat) : Option (Part ρ ρ) := (s.bodies[d]?).join

/-- The definitions that the body of `d` keeps alive. -/
def keptBy (s : Slots ρ) (d : Nat) : List Nat :=
  match s.body d with
  | some part => part.keeps
  | none => []

/-- The definitions that are reached from `roots` in at most `n` steps through bodies. -/
def reached (s : Slots ρ) (roots : List Nat) : Nat → List Nat
  | 0 => roots
  | n + 1 =>
    let ds := s.reached roots n
    (List.range s.bodies.length).filter fun d =>
      ds.contains d || ds.any fun e => (s.keptBy e).contains d

/-- The definitions that are alive while those of `roots` are kept. No chain of bodies is longer
    than there are definitions. -/
def alive (s : Slots ρ) (roots : List Nat) : List Nat := s.reached roots s.bodies.length

/-! ## Applying parts -/

/-- What references stand for when `self` are the bodies of the definitions: an owner for the body,
    a handle only if that is alive and has been supplied. -/
def links (s : Slots ρ) (alive : List Nat) (self : Nat → Parser ρ) : Grammar.Env ρ
  | .name _ => fun _ => .faulty .dropped
  | .owner d => self d
  | .handle d => fun c =>
    if d ∈ alive then
      match s.body d with
      | some _ => self d c
      | none => .faulty .undefined
    else .faulty .dropped

/-- The body of a definition as a parser. -/
def bodyParser (s : Slots ρ) (alive : List Nat) (self : Nat → Parser ρ) (d : Nat) : Parser ρ :=
  match s.body d with
  | some part => part.code (s.links alive self)
  | none => fun _ => .faulty .undefined

/-- What handles and owners lead to while `roots` are kept. -/
def linksFrom (s : Slots ρ) (roots : List Nat) : Grammar.Env ρ :=
  let alive := s.alive roots
  s.links alive (.knot (List.range s.bodies.length) (s.bodyParser alive))

end Slots

/-! ## Building -/

/-- A step of building. It makes definitions and writes to the log. -/
abbrev Making (ρ : Type) := StateT (Slots ρ) Logged

/-- What supplies the body of a definition. -/
structure Definer where
  number : Nat

/-- A handle of the definition. -/
def Definer.handle (definer : Definer) : Part ρ ρ := .handle definer.number

namespace Making

/-- Makes a definition. -/
def deferred : Making ρ (Part ρ ρ × Definer) := fun s =>
  let definer : Definer := ⟨s.bodies.length⟩
  .silent ((definer.handle, definer), ⟨s.bodies ++ [none]⟩)

/-- Supplies the body and gives the owner. -/
def define (definer : Definer) (body : Part ρ ρ) : Making ρ (Part ρ ρ) := fun s =>
  ⟨[Record.defined], (.owner definer.number, ⟨s.bodies.set definer.number (some body)⟩)⟩

/-- What refers to itself by the name `x`. -/
def recursive (x : String) (env : Grammar.Env ρ) (body : Grammar.Env ρ → Parser ρ) :
    Making ρ (Part ρ ρ) := do
  let (handle, definer) ← deferred
  define definer (.closure [(x, handle)] env body)

/-- A definition for each name. -/
def deferAll : List String → Making ρ (List (String × Definer))
  | [] => return []
  | x :: names => do
    let (_, definer) ← deferred
    let definers ← deferAll names
    return (x, definer) :: definers

/-- Supplies the bodies in order and gives the owners. -/
def defineAll (body : String → Part ρ ρ) : List (String × Definer) → Making ρ (List (Part ρ ρ))
  | [] => return []
  | (x, definer) :: definers => do
    let owner ← define definer (body x)
    let owners ← defineAll body definers
    return owner :: owners

/-- Rules that refer to each other by `names`, and `main`, which refers to them. The handles are
    captured by all of them. The owners live as long as `main`. -/
def letrec (names : List String) (env : Grammar.Env ρ) (rule : String → Grammar.Env ρ → Parser ρ)
    (main : Grammar.Env ρ → Parser α) : Making ρ (Part ρ α) := do
  let definers ← deferAll names
  let handles := definers.map fun made => (made.1, made.2.handle)
  let owners ← defineAll (fun x => .closure handles env (rule x)) definers
  return owners.foldl .ownedBy (.closure handles env main)

/-! ## Using what was built -/

/-- The parser that was built, when all else that was built has been dropped. -/
def alone (making : Making ρ (Part ρ α)) : Parser α :=
  let (part, slots) := (making .empty).value
  part.code (slots.linksFrom part.keeps)

/-- Builds a parser each time it is applied, and drops it afterwards. -/
def whenApplied (making : Making ρ (Part ρ α)) : Part σ α :=
  .plain (.bind (.record (making .empty).records) fun _ => making.alone)

end Making

end Parsing
