import Parsing.Script.Term
import Parsing.Table

set_option autoImplicit false

/-! # Definitions that are supplied later

A workspace names parsers before they are defined. `defer` makes a definition without a body, and
with it a definer, which can supply the body once, and a handle, which stands for the definition in
other parsers. Supplying the body gives the owner of the definition.

A definition stays alive while its definer is still in the workspace, or while its owner, or any
parser built with the owner, can be reached from there. Handles do not keep it alive. Applying a
handle is a fault when its definition is dead or has no body yet. -/

namespace Parsing.Script

/-- A parser built from a term, and the definitions that it keeps alive by itself. -/
structure Built where
  rules : Rules
  keeps : List Nat

/-- Named parsers and definers, and the definitions made so far. -/
structure Workspace where
  /-- The bodies of the definitions, by number; none where it is still missing. -/
  bodies : List (Option Built)
  /-- The numbers of the definitions that still have a definer, by the definer's name. -/
  definers : Table Nat
  /-- The parsers by name: handles, owners and others. -/
  parsers : Table Built

namespace Workspace

/-- Nothing is named or defined. -/
def empty : Workspace := ⟨[], .empty, .empty⟩

/-! ## What is alive -/

/-- The body of a definition, if it has been supplied. -/
def body (w : Workspace) (d : Nat) : Option Built := (w.bodies[d]?).join

/-- The definitions kept alive from the tables themselves. -/
def roots (w : Workspace) : List Nat := w.definers.values ++ w.parsers.values.flatMap (·.keeps)

/-- The definitions that the body of `d` keeps alive. -/
def keptBy (w : Workspace) (d : Nat) : List Nat :=
  match w.body d with
  | some b => b.keeps
  | none => []

/-- The definitions that are reached from the tables in at most `n` steps through bodies. -/
def reached (w : Workspace) : Nat → List Nat
  | 0 => w.roots
  | n + 1 =>
    let ds := w.reached n
    (List.range w.bodies.length).filter fun d =>
      ds.contains d || ds.any fun e => (w.keptBy e).contains d

/-- The definitions that are alive. No chain of bodies is longer than there are definitions. -/
def alive (w : Workspace) : List Nat := w.reached w.bodies.length

/-! ## Building parsers -/

/-- What a name in a term stands for. -/
def lookup (w : Workspace) (x : String) : Rules :=
  match w.parsers.get? x with
  | some b => b.rules
  | none => .ref (.name x)

/-- The definitions that the parser named `x` keeps alive by itself. -/
def keptUnder (w : Workspace) (x : String) : List Nat :=
  match w.parsers.get? x with
  | some b => b.keeps
  | none => []

/-- The parser that a term describes, with a copy of each parser that it names. -/
def build (w : Workspace) (t : Term) : Built :=
  ⟨t.grammarIn w.lookup [], (t.freeNames []).flatMap w.keptUnder⟩

/-! ## Applying parsers -/

/-- What references stand for when `self` are the bodies of the definitions: an owner for the body,
    a handle only if that is alive and has been supplied. -/
def meaning (w : Workspace) (alive : List Nat) (self : Nat → Parser Value) : Grammar.Env Value
  | .name _ => fun _ => .faulty .dropped
  | .owner d => self d
  | .handle d => fun c =>
    if d ∈ alive then
      match w.body d with
      | some _ => self d c
      | none => .faulty .undefined
    else .faulty .dropped

/-- The body of a definition as a parser. -/
def bodyParser (w : Workspace) (alive : List Nat) (self : Nat → Parser Value) (d : Nat) :
    Parser Value :=
  match w.body d with
  | some b => b.rules.parserIn (w.meaning alive self)
  | none => fun _ => .faulty .undefined

/-- A built parser as it works in the workspace. -/
def parser (w : Workspace) (b : Built) : Parser Value :=
  let alive := w.alive
  b.rules.parserIn (w.meaning alive
    (.knot (List.range w.bodies.length) (w.bodyParser alive)))

/-! ## Steps -/

/-- A step of work. -/
inductive Step where
  /-- Makes a definition, its definer and a handle. -/
  | defer (definer handle : String)
  /-- Makes another handle. -/
  | handle (definer target : String)
  /-- Supplies a body and names the owner. -/
  | define (definer : String) (body : Term) (owner : String)
  /-- Names a parser. -/
  | bind (name : String) (body : Term)
  | dropDefiner (name : String)
  | drop (name : String)
  | apply (name : String) (text : String)

/-- What a step answers. -/
inductive Reply where
  | done
  /-- Whether there was something to drop. -/
  | dropped (found : Bool)
  | outcome (o : Outcome Value)
  | fault (f : Fault)
  /-- Nothing has the name. -/
  | unknown
  deriving DecidableEq, Repr

/-- The workspace with `b` under the name `x`. -/
def name (w : Workspace) (x : String) (b : Built) : Workspace :=
  { w with parsers := w.parsers.insert x b }

/-- One step: the workspace after it, what it logs, and its answer. -/
def step (w : Workspace) : Step → Workspace × Logged Reply
  | .defer definer handle =>
    let d := w.bodies.length
    let w := { w with bodies := w.bodies ++ [none], definers := w.definers.insert definer d }
    (w.name handle ⟨.ref (.handle d), []⟩, .silent .done)
  | .handle definer target =>
    match w.definers.get? definer with
    | none => (w, .silent .unknown)
    | some d => (w.name target ⟨.ref (.handle d), []⟩, .silent .done)
  | .define definer body owner =>
    match w.definers.get? definer with
    | none => (w, .silent .unknown)
    | some d =>
      let bodies := w.bodies.set d (some (w.build body))
      let w := { w with bodies := bodies, definers := w.definers.erase definer }
      (w.name owner ⟨.ref (.owner d), [d]⟩,
        ⟨body.records ++ [Record.defined], .done⟩)
  | .bind name body => (w.name name (w.build body), ⟨body.records, .done⟩)
  | .dropDefiner name =>
    ({ w with definers := w.definers.erase name }, .silent (.dropped (w.definers.contains name)))
  | .drop name =>
    ({ w with parsers := w.parsers.erase name }, .silent (.dropped (w.parsers.contains name)))
  | .apply name text =>
    match w.parsers.get? name with
    | none => (w, .silent .unknown)
    | some b =>
      let run := (w.parser b).applyText text
      (w, ⟨run.settle.1, match run.settle.2 with
        | .ok o => .outcome o
        | .error f => .fault f⟩)

/-- Steps one after the other. -/
def steps (w : Workspace) : List Step → Workspace × Logged (List Reply)
  | [] => (w, .silent [])
  | s :: rest =>
    let (w, first) := w.step s
    let (w, others) := w.steps rest
    (w, ⟨first.records ++ others.records, first.value :: others.value⟩)

end Workspace

end Parsing.Script
