import Mathlib.Algebra.BigOperators.Group.Finset.Basic
import Mathlib.Logic.Relation
import Mathlib.Order.Interval.Finset.Nat
import Parsing.Proofs.Handles
import Parsing.Proofs.StepEffects

set_option autoImplicit false

/-! # Owners never hold each other in a circle

A definition holds another one if the parser supplied for it was built with the owner of the other
(`Workspace.BuiltWith`). An owner is there only once its definition has been supplied, so each
definition is supplied after all that it holds. Put on levels in this order, every definition is
above those that it holds (`Workspace.Layered`); no step disturbs that, whatever the definitions
refer to through handles, and so they do not hold each other in a circle.

That is why it is enough to count links. A definition to which no link is left is freed, and with it
go the links from its body (`Memory`). In a circle some links would always be left. As there is
none, the definitions left when nothing more can be freed are those that can be reached
(`Memory.After.mem_live_iff`). -/

namespace Parsing

/-- A reference that keeps no definition alive but those of `keeps`. -/
def Ref.HeldBy (keeps : List Nat) : Ref → Prop
  | .owner d => d ∈ keeps
  | _ => True

namespace Script

/-- The parser keeps the definitions of all owners in it. -/
def Built.HoldsOwners (b : Built) : Prop := b.rules.RefersTo id (Ref.HeldBy b.keeps)

theorem Built.HoldsOwners.mono {b : Built} {keeps : List Nat} (h : b.HoldsOwners)
    (hkeeps : ∀ d ∈ b.keeps, d ∈ keeps) : b.rules.RefersTo id (Ref.HeldBy keeps) := by
  refine Grammar.RefersTo.mono h fun r hr => ?_
  cases r with
  | name x => exact trivial
  | handle d => exact trivial
  | owner d => exact hkeeps d hr

namespace Workspace

/-- The parser supplied for the definition `d` was built with the owner of the definition `e`. -/
def BuiltWith (w : Workspace) (d e : Nat) : Prop := e ∈ w.keptBy d

variable {w : Workspace}

theorem builtWith_iff {d e : Nat} : w.BuiltWith d e ↔ ∃ b, w.body d = some b ∧ e ∈ b.keeps := by
  unfold BuiltWith keptBy
  cases w.body d <;> simp

/-! ## Levels -/

/-- Only what has been supplied is held, and definitions are on higher levels than those that they
    hold. No level is above `top`. -/
structure Layered (w : Workspace) (level : Nat → Nat) (top : Nat) : Prop where
  owners : ∀ b ∈ w.parsers.values, b.HoldsOwners
  supplied : ∀ b ∈ w.parsers.values, ∀ d ∈ b.keeps, w.body d ≠ none
  bodies : ∀ d b, w.body d = some b → b.HoldsOwners
  below : ∀ d e, w.BuiltWith d e → w.body e ≠ none ∧ level e < level d
  level_le : ∀ d, level d ≤ top

theorem layered_empty : empty.Layered (fun _ => 0) 0 where
  owners b hb := absurd hb List.not_mem_nil
  supplied b hb := absurd hb List.not_mem_nil
  bodies d b hb := by simp [body, empty] at hb
  below d e h := by simp [BuiltWith, keptBy, body, empty] at h
  level_le d := Nat.le_refl 0

namespace Layered

variable {level : Nat → Nat} {top : Nat} (h : w.Layered level top)

include h

theorem holdsOwners_build (t : Term) : (w.build t).HoldsOwners := by
  refine t.refersTo_grammarIn (fun _ _ hx => hx) (fun _ hx => absurd hx List.not_mem_nil)
    fun x hx => ?_
  unfold lookup
  cases hb : w.parsers.get? x with
  | none => exact trivial
  | some b =>
      refine (h.owners b (Table.mem_values_of_get? hb)).mono fun d hd => ?_
      refine List.mem_flatMap.2 ⟨x, hx, ?_⟩
      simpa only [keptUnder, hb] using hd

theorem body_of_mem_keeps {t : Term} {d : Nat} (hd : d ∈ (w.build t).keeps) :
    w.body d ≠ none := by
  obtain ⟨b, hb, hd⟩ := exists_parser_of_mem_keeps hd
  exact h.supplied b hb d hd

/-- A step leaves definitions on their levels, apart from those without a body: these go on top of
    all others. Nothing holds them yet, and a body supplied now holds none of them. -/
theorem step (hw : w.Valid) (s : Step) :
    (w.step s).1.Layered (fun d => if w.body d = none then top + 1 else level d) (top + 1) := by
  have hfollows := follows_step hw s
  have hkept : ∀ d, w.body d ≠ none → (w.step s).1.body d ≠ none := by
    intro d hd
    obtain ⟨b, hb⟩ := Option.ne_none_iff_exists'.1 hd
    simp [hfollows.body_eq hb]
  exact {
    owners := by
      intro b hb
      cases named_step hw s b hb with
      | kept hb => exact h.owners b hb
      | handle d => exact trivial
      | owner hd => exact List.mem_singleton_self _
      | built _ => exact h.holdsOwners_build _
    supplied := by
      intro b hb d hd
      cases named_step hw s b hb with
      | kept hb => exact hkept d (h.supplied b hb d hd)
      | handle d => exact absurd hd List.not_mem_nil
      | owner hbody => rwa [List.mem_singleton.1 hd]
      | built _ => exact hkept d (h.body_of_mem_keeps hd)
    bodies := by
      intro d b hb
      rcases hfollows.body d with hsame | ⟨_, t, hbuilt⟩
      · exact h.bodies d b (hsame ▸ hb)
      · rw [hbuilt, Option.some.injEq] at hb
        exact hb ▸ h.holdsOwners_build t
    below := by
      intro d e hde
      obtain ⟨b, hb, he⟩ := builtWith_iff.1 hde
      rcases hfollows.body d with hsame | ⟨hnone, t, hbuilt⟩
      · rw [hsame] at hb
        obtain ⟨hbody, hlt⟩ := h.below d e (builtWith_iff.2 ⟨b, hb, he⟩)
        refine ⟨hkept e hbody, ?_⟩
        rwa [if_neg hbody, if_neg (by simp [hb])]
      · rw [hbuilt, Option.some.injEq] at hb
        have hbody : w.body e ≠ none := h.body_of_mem_keeps (hb ▸ he)
        refine ⟨hkept e hbody, ?_⟩
        rw [if_neg hbody, if_pos hnone]
        exact Nat.lt_succ_of_le (h.level_le e)
    level_le := by
      intro d
      split
      · exact Nat.le_refl _
      · exact Nat.le_succ_of_le (h.level_le d) }

theorem level_lt_of_transGen {d e : Nat} (hde : Relation.TransGen w.BuiltWith d e) :
    level e < level d := by
  induction hde with
  | single hde => exact (h.below _ _ hde).2
  | tail _ hde ih => exact Nat.lt_trans (h.below _ _ hde).2 ih

end Layered

theorem layered_steps {level : Nat → Nat} {top : Nat} (hw : w.Valid) (h : w.Layered level top)
    (ss : List Step) : ∃ level top, (w.steps ss).1.Layered level top := by
  induction ss generalizing w level top with
  | nil => exact ⟨level, top, h⟩
  | cons s ss ih => exact ih (valid_step hw s) (h.step hw s)

/-- The definitions of a workspace that steps lead to can be put on levels. -/
theorem layered_reached (ss : List Step) : ∃ level top, (empty.steps ss).1.Layered level top :=
  layered_steps valid_empty layered_empty ss

/-! ## Counting links -/

/-- A workspace, and the definitions that have not been freed. -/
structure Memory where
  workspace : Workspace
  live : Finset Nat

namespace Memory

/-- The number of links to the definition `d`: from the tables, and from the bodies of definitions
    that have not been freed. -/
def links (m : Memory) (d : Nat) : Nat :=
  m.workspace.roots.count d + m.live.sum fun e => (m.workspace.keptBy e).count d

/-- A step of work. What it makes is live. -/
def work (m : Memory) (s : Step) : Memory where
  workspace := (m.workspace.step s).1
  live := m.live ∪ Finset.Ico m.workspace.bodies.length (m.workspace.step s).1.bodies.length

/-- The definition `d` is freed. -/
def free (m : Memory) (d : Nat) : Memory := { m with live := m.live.erase d }

/-- There is a link to each live definition, so that nothing can be freed. -/
def Settled (m : Memory) : Prop := ∀ d ∈ m.live, m.links d ≠ 0

/-- What the memory can be after the steps `ss` from the empty workspace, where at any time a
    definition can be freed to which there is no link. -/
inductive After : List Step → Memory → Prop where
  | start : After [] ⟨.empty, ∅⟩
  | work {ss : List Step} {m : Memory} (h : After ss m) (s : Step) : After (ss ++ [s]) (m.work s)
  | free {ss : List Step} {m : Memory} {d : Nat} (h : After ss m) (hd : d ∈ m.live)
      (hlinks : m.links d = 0) : After ss (m.free d)

variable {m : Memory} {ss : List Step} {d : Nat}

theorem links_ne_zero_iff :
    m.links d ≠ 0 ↔ d ∈ m.workspace.roots ∨ ∃ e ∈ m.live, m.workspace.BuiltWith e d := by
  rw [Ne, links, Nat.add_eq_zero_iff, Finset.sum_eq_zero_iff, List.count_eq_zero]
  simp only [List.count_eq_zero, BuiltWith]
  grind

theorem After.workspace_eq (h : After ss m) : m.workspace = (empty.steps ss).1 := by
  induction h with
  | start => rfl
  | work h s ih =>
      rw [steps_concat, ← ih]
      rfl
  | free h hd hlinks ih => exact ih

/-- What can be reached is not freed. -/
theorem After.mem_live (h : After ss m) (hd : m.workspace.Reachable d) : d ∈ m.live := by
  induction h generalizing d with
  | start =>
      cases hd with
      | root hd => exact absurd hd List.not_mem_nil
      | kept _ he => simp [keptBy, body, empty] at he
  | @work ss m h s ih =>
      have hw : m.workspace.Valid := h.workspace_eq ▸ valid_reached ss
      rw [Memory.work, Finset.mem_union, Finset.mem_Ico]
      by_cases hlt : d < m.workspace.bodies.length
      · exact .inl (ih ((follows_step hw s).reachable hd hlt))
      · exact .inr ⟨Nat.le_of_not_lt hlt, (valid_step hw s).keepsMade.lt_of_reachable hd⟩
  | @free ss m d' h hd' hlinks ih =>
      refine Finset.mem_erase.2 ⟨?_, ih hd⟩
      rintro rfl
      refine absurd hlinks (links_ne_zero_iff.2 ?_)
      cases hd with
      | root hd => exact .inl hd
      | kept he hde => exact .inr ⟨_, ih he, hde⟩

/-- **Counting links is enough.** When nothing more can be freed, just the definitions that can be
    reached are left. -/
theorem After.mem_live_iff (h : After ss m) (hm : m.Settled) :
    d ∈ m.live ↔ m.workspace.Reachable d := by
  refine ⟨fun hd => ?_, h.mem_live⟩
  obtain ⟨level, top, hlayered⟩ := layered_reached ss
  rw [← h.workspace_eq] at hlayered
  -- The definition that holds another one is on a higher level, so this goes up to the tables.
  induction hn : top - level d using Nat.strongRecOn generalizing d with
  | ind n ih =>
      rcases links_ne_zero_iff.1 (hm d hd) with hroot | ⟨e, he, hed⟩
      · exact .root hroot
      · have hlt : level d < level e := (hlayered.below e d hed).2
        have hle : level e ≤ top := hlayered.level_le e
        exact .kept (ih (top - level e) (by omega) he rfl) hed

/-- Freeing comes to an end. -/
theorem After.exists_settled (h : After ss m) : ∃ m', After ss m' ∧ m'.Settled := by
  induction hn : m.live.card using Nat.strongRecOn generalizing m with
  | ind n ih =>
      by_cases hm : m.Settled
      · exact ⟨m, h, hm⟩
      · simp only [Settled, not_forall, not_not] at hm
        obtain ⟨d, hd, hlinks⟩ := hm
        exact ih _ (hn ▸ Finset.card_erase_lt_of_mem hd) (h.free hd hlinks) rfl

theorem exists_after (ss : List Step) : ∃ m, After ss m ∧ m.Settled := by
  induction ss using List.reverseRecOn with
  | nil => exact After.start.exists_settled
  | append_singleton ss s ih =>
      obtain ⟨m, hm, -⟩ := ih
      exact (hm.work s).exists_settled

end Memory

/-! ## When nothing is kept any more -/

/-- The tables keep no definition: there is no definer, no owner, and no parser built with one. -/
def KeepsNothing (w : Workspace) : Prop :=
  w.definers.values = [] ∧ ∀ b ∈ w.parsers.values, b.keeps = []

namespace KeepsNothing

variable (h : w.KeepsNothing)

include h

theorem not_reachable (d : Nat) : ¬ w.Reachable d := by
  intro hd
  induction hd with
  | @root d hd =>
      rcases mem_roots.1 hd with hd | ⟨b, hb, hd⟩
      · rw [h.1] at hd
        exact List.not_mem_nil hd
      · rw [h.2 b hb] at hd
        exact List.not_mem_nil hd
  | kept _ _ ih => exact ih

theorem status_eq (hw : w.Valid) (d : Nat) : w.status d = .dropped :=
  status_eq_dropped_iff.2 fun hd => h.not_reachable d ((mem_alive_iff hw.keepsMade).1 hd)

theorem live_eq {m : Memory} {ss : List Step} (hm : Memory.After ss m) (hsettled : m.Settled)
    (hw : m.workspace = w) : m.live = ∅ := by
  refine Finset.eq_empty_of_forall_notMem fun d hd => h.not_reachable d ?_
  exact hw ▸ (hm.mem_live_iff hsettled).1 hd

theorem apply_handle (hw : w.Valid) {x : String} {d : Nat} {keeps : List Nat}
    (hx : w.parsers.get? x = some ⟨.ref (.handle d), keeps⟩) (text : String) :
    (w.step (.apply x text)).2.value = .fault .dropped := by
  simp only [step, hx, Parser.applyText, run_handle_of_dropped keeps _ (h.status_eq hw d)]
  rfl

end KeepsNothing

/-- **Definitions do not hold each other in a circle.** Wherever steps lead from the empty
    workspace, a parser supplied for a definition has owners of those definitions only that it was
    built with, and no definition is built with its own owner through however many others. So
    counting links frees just what cannot be reached. Once the tables keep nothing, all definitions
    are dropped and freed, and each handle that is left fails. -/
theorem owners_form_no_circle (before : List Step) :
    let w := (empty.steps before).1
    (∀ d b, w.body d = some b → b.rules.RefersTo id (Ref.HeldBy (w.keptBy d))) ∧
    (∀ d, ¬ Relation.TransGen w.BuiltWith d d) ∧
    (∃ m, Memory.After before m ∧ m.Settled) ∧
    (∀ m, Memory.After before m → m.Settled →
      m.workspace = w ∧ ∀ d, d ∈ m.live ↔ w.status d ≠ .dropped) ∧
    (w.KeepsNothing →
      (∀ d, w.status d = .dropped) ∧
      (∀ m, Memory.After before m → m.Settled → m.live = ∅) ∧
      ∀ x d keeps, w.parsers.get? x = some ⟨.ref (.handle d), keeps⟩ →
        ∀ text, (w.step (.apply x text)).2.value = .fault .dropped) := by
  intro w
  have hw : w.Valid := valid_reached before
  obtain ⟨level, top, hlayered⟩ := layered_reached before
  refine ⟨fun d b hb => ?_, fun d hd => ?_, Memory.exists_after before, fun m hm hsettled => ?_,
    fun h => ⟨h.status_eq hw, fun m hm hsettled => h.live_eq hm hsettled hm.workspace_eq,
      fun x d keeps hx text => h.apply_handle hw hx text⟩⟩
  · have hkept : w.keptBy d = b.keeps := by simp only [keptBy, hb]
    exact hkept ▸ hlayered.bodies d b hb
  · exact Nat.lt_irrefl _ (hlayered.level_lt_of_transGen hd)
  · refine ⟨hm.workspace_eq, fun d => ?_⟩
    rw [hm.mem_live_iff hsettled, hm.workspace_eq, Ne, status_eq_dropped_iff, not_not,
      mem_alive_iff hw.keepsMade]

/-- Sums over ones and sums in parentheses: the rule of sums is built with the owner of the other
    rule, which has a handle of the rule of sums. -/
def tyingSums : List Step :=
  [.defer "sum" "s", .defer "operand" "o", .handle "sum" "h",
    .define "operand" (.orElse (.character '1')
      (.ignoreThen (.character '(') (.thenIgnore (.ref "s") (.character ')')))) "o",
    .define "sum" (.pair (.ref "o") (.optional (.ignoreThen (.character '+') (.ref "s")))) "s"]

/-- The owners are dropped, and a handle is left. -/
def droppingSums : List Step := tyingSums ++ [.drop "s", .drop "o"]

/-- The rule of sums holds the other rule, which does not hold it. Once both owners are dropped, the
    handle that is left fails. -/
theorem owners_form_no_circle_sums :
    (empty.steps tyingSums).1.BuiltWith 0 1 ∧
      ¬ Relation.TransGen (empty.steps tyingSums).1.BuiltWith 0 0 ∧
      (empty.steps tyingSums).1.status 0 = .defined ∧
      (empty.steps droppingSums).1.KeepsNothing ∧
      (empty.steps droppingSums).1.status 0 = .dropped ∧
      ((empty.steps droppingSums).1.step (.apply "h" "1")).2.value = .fault .dropped := by
  have htied := owners_form_no_circle tyingSums
  have hnothing : (empty.steps droppingSums).1.KeepsNothing := ⟨by decide, by decide⟩
  obtain ⟨hdropped, -, hhandles⟩ := (owners_form_no_circle droppingSums).2.2.2.2 hnothing
  exact ⟨List.mem_singleton_self 1, htied.2.1 0, by decide, hnothing, hdropped 0,
    hhandles "h" 0 [] rfl "1"⟩

end Workspace

end Script

end Parsing
