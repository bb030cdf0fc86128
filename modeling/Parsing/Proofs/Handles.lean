import Parsing.Proofs.Approximation
import Parsing.Proofs.Lifecycle
import Parsing.Proofs.Remainder

set_option autoImplicit false

/-! # What applying a handle comes to

Wherever an application reaches a handle, the status of the definition decides: a fault of its own
while the definition is undefined, another one when it has been dropped, and otherwise what the
parser supplied comes to there (`Workspace.answer`). The owner comes to the same as the parser
supplied.

The bodies of definitions are tied to each other by a knot, so this is the solution of its equations
(`Parser.settle_knot`) for the references that a parser of the workspace can have. -/

namespace Parsing.Script.Workspace

variable {w : Workspace} {start : Cursor}

/-- The definition number `d` as its owner runs it. -/
def definition (w : Workspace) : Nat → Parser Value :=
  .knot (List.range w.bodies.length) (w.bodyParser w.alive)

/-- The parser that was supplied for the definition number `d`. -/
def supplied (w : Workspace) (d : Nat) : Parser Value :=
  match w.body d with
  | some b => w.parser b
  | none => fun _ => .faulty .undefined

/-- What a reference comes to, by the status of its definition. -/
def answer (w : Workspace) : Grammar.Env Value
  | .name _ => fun _ => .faulty .dropped
  | .owner d => w.supplied d
  | .handle d =>
    match w.status d with
    | .undefined => fun _ => .faulty .undefined
    | .defined => w.supplied d
    | .dropped => fun _ => .faulty .dropped

/-! ## Bodies and their references -/

theorem below_meaning {self self' : Nat → Parser Value}
    (h : ∀ d ∈ List.range w.bodies.length, (self d).Below start (self' d)) (r : Ref)
    (hr : Ref.Made w.bodies.length r) :
    (w.meaning w.alive self r).Below start (w.meaning w.alive self' r) := by
  cases r with
  | name x => exact Parser.below_refl _
  | owner d => exact h d (List.mem_range.2 hr)
  | handle d =>
      intro c hc
      simp only [meaning]
      split
      · split
        · exact h d (List.mem_range.2 hr) c hc
        · exact .same _
      · exact .same _

theorem monotone_bodyParser (hw : w.Valid) (start : Cursor) :
    Parser.Monotone start (List.range w.bodies.length) (w.bodyParser w.alive)
      (w.bodyParser w.alive) := by
  intro self self' hadvances h d
  unfold bodyParser
  split
  · rename_i b hb
    exact Grammar.below_parserIn _ (hw.bodies d b hb).rules (w.advances_meaning w.alive hadvances)
      (below_meaning h)
  · exact Parser.below_refl _

/-- Tying the bodies and running the parser that was supplied are the same in two ways. -/
theorem bodyParser_definition (w : Workspace) (d : Nat) :
    w.bodyParser w.alive w.definition d = w.supplied d := by
  unfold bodyParser supplied
  cases w.body d <;> rfl

theorem definition_below (hw : w.Valid) (d : Nat) :
    (w.definition d).Below start (w.supplied d) := by
  rw [← bodyParser_definition]
  exact fun c _ =>
    Parser.knot_below (fun _ => w.advances_bodyParser w.alive) (monotone_bodyParser hw) d c

theorem below_definition (hw : w.Valid) (d : Nat) :
    (w.supplied d).Below start (w.definition d) := by
  rw [← bodyParser_definition]
  exact fun c _ =>
    Parser.below_knot_self (fun _ => w.advances_bodyParser w.alive) (monotone_bodyParser hw) d c

/-- **An owner comes to what the parser supplied comes to.** -/
theorem settle_definition (hw : w.Valid) (d : Nat) (c : Cursor) :
    (w.definition d c).settle.2 = (w.supplied d c).settle.2 := by
  rw [← bodyParser_definition]
  exact Parser.settle_knot (fun _ => w.advances_bodyParser w.alive) (monotone_bodyParser hw) d c

/-! ## Answers -/

theorem answer_eq_meaning (w : Workspace) (r : Ref) :
    w.answer r = w.meaning w.alive w.supplied r := by
  cases r with
  | name x => rfl
  | owner d => rfl
  | handle d =>
      funext c
      simp only [answer, meaning, status]
      by_cases halive : d ∈ w.alive
      · rw [if_pos halive, if_pos halive]
        cases w.body d <;> rfl
      · rw [if_neg halive, if_neg halive]

/-- **Wherever a handle is reached, its status decides.** -/
theorem settle_built (hw : w.Valid) {b : Built} (hb : Knows w.bodies.length b) (c : Cursor) :
    (w.parser b c).settle.2 = (b.rules.parserIn w.answer c).settle.2 := by
  have hanswer : w.answer = w.meaning w.alive w.supplied := funext (answer_eq_meaning w)
  have hdefinition : ∀ d, (w.definition d).Advances :=
    w.advances_bodies w.alive
  have hsupplied : ∀ d, (w.supplied d).Advances := by
    intro d
    rw [← bodyParser_definition]
    exact w.advances_bodyParser w.alive hdefinition d
  rw [hanswer]
  have hbelow : (w.parser b).Below c (b.rules.parserIn (w.meaning w.alive w.supplied)) :=
    Grammar.below_parserIn b.rules hb.rules (w.advances_meaning w.alive hdefinition)
      (below_meaning fun d _ => definition_below hw d)
  have habove : Parser.Below c (b.rules.parserIn (w.meaning w.alive w.supplied)) (w.parser b) :=
    Grammar.below_parserIn b.rules hb.rules (w.advances_meaning w.alive hsupplied)
      (below_meaning fun d _ => below_definition hw d)
  exact (hbelow c c.reaches_refl).settle_eq (habove c c.reaches_refl)

/-! ## Handles -/

section Handles

variable {d : Nat} (keeps : List Nat) (c : Cursor)

theorem run_handle_of_undefined (h : w.status d = .undefined) :
    w.parser ⟨.ref (.handle d), keeps⟩ c = .faulty .undefined := by
  obtain ⟨halive, hbody⟩ := status_eq_undefined_iff.1 h
  show w.meaning w.alive w.definition (.handle d) c = _
  simp only [meaning, if_pos halive, hbody]

theorem run_handle_of_dropped (h : w.status d = .dropped) :
    w.parser ⟨.ref (.handle d), keeps⟩ c = .faulty .dropped := by
  show w.meaning w.alive w.definition (.handle d) c = _
  simp only [meaning, if_neg (status_eq_dropped_iff.1 h)]

/-- A handle of a definition that is alive and has its body runs as the owner does. -/
theorem run_handle_of_defined (h : w.status d = .defined) :
    w.parser ⟨.ref (.handle d), keeps⟩ c = w.definition d c := by
  obtain ⟨halive, hbody⟩ := status_eq_defined_iff.1 h
  obtain ⟨b, hb⟩ := Option.ne_none_iff_exists'.1 hbody
  show w.meaning w.alive w.definition (.handle d) c = _
  simp only [meaning, if_pos halive, hb]

end Handles

/-! ## All runs of steps -/

/-- What an application answers. -/
def Reply.of : Except Fault (Outcome Value) → Reply
  | .ok o => .outcome o
  | .error f => .fault f

/-- Supplying a body makes the definition a defined one. -/
theorem status_step_define (hw : w.Valid) {definer : String} {d : Nat}
    (hd : w.definers.get? definer = some d) (body : Term) (owner : String) :
    (w.step (.define definer body owner)).1.body d = some (w.build body) ∧
      (w.step (.define definer body owner)).1.status d = .defined := by
  have hbody : (w.step (.define definer body owner)).1.body d = some (w.build body) := by
    rw [body_step_define hw hd, if_pos rfl]
  have hvalid := valid_step hw (.define definer body owner)
  refine ⟨hbody, status_eq_defined_iff.2 ⟨?_, by simp [hbody]⟩⟩
  rw [mem_alive_iff hvalid.keepsMade]
  refine .root (mem_roots.2 (.inr ⟨⟨.ref (.owner d), [d]⟩, ?_, List.mem_singleton_self d⟩))
  simp only [step, hd]
  exact List.mem_cons_self

theorem apply_eq (hw : w.Valid) {x : String} {b : Built} (hb : w.parsers.get? x = some b)
    (text : String) :
    (w.step (.apply x text)).1 = w ∧
      (w.step (.apply x text)).2.value
        = .of (b.rules.parserIn w.answer (.ofString text)).settle.2 := by
  have hsettle := settle_built hw (hw.parsers b (Table.mem_values_of_get? hb)) (.ofString text)
  simp only [step, hb, Parser.applyText, hsettle, true_and]
  cases (b.rules.parserIn w.answer (.ofString text)).settle.2 <;> rfl

/-- **Definitions live once, and their handles follow.** Wherever steps lead from the empty
    workspace, the status of a definition tells whether it can be reached and has its body. It is
    undefined when it is made, and defined when its body is supplied; from then on it only goes
    from undefined to defined to dropped, or is dropped undefined, with the body it was given. A
    handle comes to the fault of its status, or to what its owner comes to, which is what the parser
    supplied comes to. This holds wherever a parser reaches the handle, and in particular when a
    parser of the workspace is applied to a text. -/
theorem definitions_live_once (before : List Step) :
    let w := (empty.steps before).1
    (∀ d, (w.status d = .undefined ↔ w.Reachable d ∧ w.body d = none) ∧
      (w.status d = .defined ↔ w.Reachable d ∧ w.body d ≠ none) ∧
      (w.status d = .dropped ↔ ¬ w.Reachable d)) ∧
    (∀ definer handle, (w.step (.defer definer handle)).1.status w.bodies.length = .undefined) ∧
    (∀ definer d body owner, w.definers.get? definer = some d →
      w.body d = none ∧ (w.step (.define definer body owner)).1.body d = some (w.build body) ∧
        (w.step (.define definer body owner)).1.status d = .defined) ∧
    (∀ after d, d < w.bodies.length →
      (w.status d).Leads ((w.steps after).1.status d) ∧
        (∀ b, w.body d = some b → (w.steps after).1.body d = some b) ∧
        (w.status d = .dropped → (w.steps after).1.status d = .dropped)) ∧
    (∀ d c keeps keeps',
      (w.status d = .undefined → w.parser ⟨.ref (.handle d), keeps⟩ c = .faulty .undefined) ∧
      (w.status d = .dropped → w.parser ⟨.ref (.handle d), keeps⟩ c = .faulty .dropped) ∧
      (w.status d = .defined → ∃ b, w.body d = some b ∧
        w.parser ⟨.ref (.handle d), keeps⟩ c = w.parser ⟨.ref (.owner d), keeps'⟩ c ∧
        (w.parser ⟨.ref (.handle d), keeps⟩ c).settle.2 = (w.parser b c).settle.2)) ∧
    (∀ b c, Knows w.bodies.length b →
      (w.parser b c).settle.2 = (b.rules.parserIn w.answer c).settle.2) ∧
    (∀ x b text, w.parsers.get? x = some b →
      (w.step (.apply x text)).1 = w ∧
        (w.step (.apply x text)).2.value
          = .of (b.rules.parserIn w.answer (.ofString text)).settle.2) := by
  intro w
  have hw : w.Valid := valid_reached before
  refine ⟨fun d => ?_, status_step_defer hw, fun definer d body owner hd => ?_,
    fun after d hd => ?_, fun d c keeps keeps' => ?_, fun b c hb => settle_built hw hb c,
    fun x b text hb => apply_eq hw hb text⟩
  · rw [← mem_alive_iff hw.keepsMade]
    exact ⟨status_eq_undefined_iff, status_eq_defined_iff, status_eq_dropped_iff⟩
  · exact ⟨hw.definers_body d (Table.mem_values_of_get? hd), status_step_define hw hd body owner⟩
  · refine ⟨leads_steps hw after hd, fun b hb => body_steps hw after hb, fun hdropped => ?_⟩
    have hleads := leads_steps hw after hd
    rw [hdropped] at hleads
    exact hleads.of_dropped
  · refine ⟨run_handle_of_undefined keeps c, run_handle_of_dropped keeps c, fun h => ?_⟩
    obtain ⟨-, hbody⟩ := status_eq_defined_iff.1 h
    obtain ⟨b, hb⟩ := Option.ne_none_iff_exists'.1 hbody
    have hhandle := run_handle_of_defined keeps c h
    refine ⟨b, hb, hhandle, ?_⟩
    rw [hhandle, settle_definition hw d c, supplied, hb]

/-- A definition with a parser that refers to it. -/
def deferring : List Step :=
  [.defer "d" "h", .bind "p" (.ignoreThen .anyChar (.ref "h"))]

/-- Its body is supplied. -/
def supplying : List Step := deferring ++ [.define "d" (.character 'a') "o"]

/-- Its owner is dropped. -/
def dropping : List Step := supplying ++ [.drop "o"]

/-- A handle reached behind one character: its definition is still undefined, then it reads an `a`
    as its owner does, and at last it has been dropped. -/
theorem definitions_live_once_deferring :
    (empty.steps deferring).1.status 0 = .undefined ∧
      ((empty.steps deferring).1.step (.apply "p" "xa")).2.value = .fault .undefined ∧
      (empty.steps supplying).1.status 0 = .defined ∧
      ((empty.steps supplying).1.step (.apply "p" "xa")).2.value
        = .outcome ⟨[⟨.char 'a', (Cursor.ofString "xa").drop 2⟩], none⟩ ∧
      ((empty.steps supplying).1.step (.apply "o" "a")).2.value
        = .outcome ⟨[⟨.char 'a', (Cursor.ofString "a").drop 1⟩], none⟩ ∧
      (empty.steps dropping).1.status 0 = .dropped ∧
      ((empty.steps dropping).1.step (.apply "p" "xa")).2.value = .fault .dropped ∧
      ((empty.steps dropping).1.steps [.defer "d" "h"]).1.status 0 = .dropped := by
  obtain ⟨-, -, -, -, -, -, hundefined⟩ := definitions_live_once deferring
  obtain ⟨-, -, -, -, -, -, hdefined⟩ := definitions_live_once supplying
  obtain ⟨-, -, -, hlife, -, -, hdropped⟩ := definitions_live_once dropping
  have hgone : (empty.steps dropping).1.status 0 = .dropped := by decide
  refine ⟨by decide, (hundefined "p" _ "xa" rfl).2.trans rfl, by decide,
    (hdefined "p" _ "xa" rfl).2.trans rfl, (hdefined "o" _ "a" rfl).2.trans rfl, hgone,
    (hdropped "p" _ "xa" rfl).2.trans rfl, ?_⟩
  exact (hlife [.defer "d" "h"] 0 (by decide)).2.2 hgone

end Parsing.Script.Workspace
