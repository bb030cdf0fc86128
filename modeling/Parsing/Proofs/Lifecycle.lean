import Mathlib.Data.List.Nodup
import Parsing.Proofs.Alive
import Parsing.Proofs.TermReferences

set_option autoImplicit false

/-! # The life of a definition

A definition is undefined while it is alive and its body is missing, defined while it is alive and
has its body, and dropped when it is not alive. No step revives it or changes its body
(`Workspace.Follows`), so it goes from undefined to defined to dropped, or from undefined to
dropped, and never back.

`Workspace.Valid` is the invariant that carries this through all steps: each definer stands for a
definition of its own without a body, and parsers refer only to definitions that have been made. -/

namespace Parsing

/-! ## What a table holds after a change -/

namespace Table

universe u

variable {α : Type u} {t : Table α} {x : String} {u v : α}

theorem mem_of_find {entries : List (String × α)} (h : find x entries = some v) :
    (x, v) ∈ entries := by
  induction entries with
  | nil => exact absurd h (by simp [find])
  | cons e entries ih =>
      obtain ⟨y, u⟩ := e
      by_cases hy : y = x
      · simp only [find, if_pos hy, Option.some.injEq] at h
        simp [hy, h]
      · simp only [find, if_neg hy] at h
        exact List.mem_cons_of_mem _ (ih h)

theorem mem_values_of_get? (h : t.get? x = some v) : v ∈ t.values :=
  List.mem_map_of_mem (mem_of_find h)

theorem sublist_values_erase (t : Table α) (x : String) :
    List.Sublist (t.erase x).values t.values :=
  List.filter_sublist.map Prod.snd

theorem mem_of_mem_values_erase (h : v ∈ (t.erase x).values) : v ∈ t.values :=
  (sublist_values_erase t x).subset h

theorem mem_values_insert (h : v ∈ (t.insert x u).values) : v = u ∨ v ∈ t.values :=
  (List.mem_cons.1 h).imp_right mem_of_mem_values_erase

/-- Where no two entries hold the same, erasing an entry leaves none that holds the same. -/
theorem not_mem_values_erase (hnodup : t.values.Nodup) (h : t.get? x = some v) :
    v ∉ (t.erase x).values := by
  intro hmem
  obtain ⟨⟨y, u⟩, hy, rfl⟩ := List.mem_map.1 hmem
  obtain ⟨hy, hne⟩ := List.mem_filter.1 hy
  have hsame : (y, u) = (x, u) := List.inj_on_of_nodup_map hnodup hy (mem_of_find h) rfl
  simp_all

end Table

/-- A reference to one of the first `n` definitions. Names do not refer to definitions. -/
def Ref.Made (n : Nat) : Ref → Prop
  | .name _ => True
  | .handle d => d < n
  | .owner d => d < n

namespace Script

/-! ## Status -/

/-- What can be said of a definition. -/
inductive Status where
  | undefined
  | defined
  | dropped
  deriving DecidableEq, Repr

/-- The ways on from a status. -/
inductive Status.Leads : Status → Status → Prop where
  | stay (s : Status) : Leads s s
  | supply : Leads .undefined .defined
  | drop (s : Status) : Leads s .dropped

theorem Status.Leads.trans {s t u : Status} (h : s.Leads t) (h' : t.Leads u) : s.Leads u := by
  cases h with
  | stay => exact h'
  | supply =>
      cases h' with
      | stay => exact .supply
      | drop => exact .drop _
  | drop =>
      cases h' with
      | stay => exact .drop _
      | drop => exact .drop _

theorem Status.Leads.of_dropped {s : Status} (h : Status.dropped.Leads s) : s = .dropped := by
  cases h with
  | stay => rfl
  | drop => rfl

namespace Workspace

/-- The status of the definition number `d`. -/
def status (w : Workspace) (d : Nat) : Status :=
  if d ∈ w.alive then
    match w.body d with
    | none => .undefined
    | some _ => .defined
  else .dropped

section Status

variable {w : Workspace} {d : Nat}

theorem status_of_alive (h : d ∈ w.alive) :
    w.status d = if w.body d = none then .undefined else .defined := by
  rw [status, if_pos h]
  cases w.body d <;> simp

theorem status_of_not_alive (h : d ∉ w.alive) : w.status d = .dropped := if_neg h

theorem status_eq_undefined_iff : w.status d = .undefined ↔ d ∈ w.alive ∧ w.body d = none := by
  by_cases h : d ∈ w.alive
  · simp [status_of_alive h, h]
  · simp [status_of_not_alive h, h]

theorem status_eq_defined_iff : w.status d = .defined ↔ d ∈ w.alive ∧ w.body d ≠ none := by
  by_cases h : d ∈ w.alive
  · simp [status_of_alive h, h]
  · simp [status_of_not_alive h, h]

theorem status_eq_dropped_iff : w.status d = .dropped ↔ d ∉ w.alive := by
  by_cases h : d ∈ w.alive
  · simp only [status_of_alive h, h]
    split <;> simp
  · simp [status_of_not_alive h, h]

end Status

/-! ## The invariant -/

/-- The parser refers only to the first `n` definitions, and keeps only such definitions. -/
structure Knows (n : Nat) (b : Built) : Prop where
  rules : b.rules.RefersTo id (Ref.Made n)
  keeps : ∀ d ∈ b.keeps, d < n

theorem Knows.mono {n m : Nat} {b : Built} (h : Knows n b) (hnm : n ≤ m) : Knows m b where
  rules := by
    refine h.rules.mono fun r hr => ?_
    cases r with
    | name x => exact trivial
    | handle d => exact Nat.lt_of_lt_of_le hr hnm
    | owner d => exact Nat.lt_of_lt_of_le hr hnm
  keeps d hd := Nat.lt_of_lt_of_le (h.keeps d hd) hnm

/-- Definers stand for definitions of their own without a body, and everything that is referred to
    has been made. -/
structure Valid (w : Workspace) : Prop where
  definers_lt : ∀ d ∈ w.definers.values, d < w.bodies.length
  definers_body : ∀ d ∈ w.definers.values, w.body d = none
  definers_nodup : w.definers.values.Nodup
  parsers : ∀ b ∈ w.parsers.values, Knows w.bodies.length b
  bodies : ∀ d b, w.body d = some b → Knows w.bodies.length b

theorem valid_empty : empty.Valid where
  definers_lt d hd := absurd hd List.not_mem_nil
  definers_body d hd := absurd hd List.not_mem_nil
  definers_nodup := List.nodup_nil
  parsers b hb := absurd hb List.not_mem_nil
  bodies d b hb := by simp [body, empty] at hb

section Valid

variable {w : Workspace}

theorem Valid.keepsMade (hw : w.Valid) : w.KeepsMade where
  roots := by
    intro d hd
    rcases List.mem_append.1 hd with hd | hd
    · exact hw.definers_lt d hd
    · obtain ⟨b, hb, hd⟩ := List.mem_flatMap.1 hd
      exact (hw.parsers b hb).keeps d hd
  keptBy := by
    intro d e he
    unfold keptBy at he
    split at he
    · exact (hw.bodies d _ ‹_›).keeps e he
    · exact absurd he List.not_mem_nil

theorem knows_lookup (hw : w.Valid) (x : String) :
    (w.lookup x).RefersTo id (Ref.Made w.bodies.length) := by
  unfold lookup
  split
  · exact (hw.parsers _ (Table.mem_values_of_get? ‹_›)).rules
  · exact trivial

theorem mem_roots {d : Nat} :
    d ∈ w.roots ↔ d ∈ w.definers.values ∨ ∃ b ∈ w.parsers.values, d ∈ b.keeps := by
  simp [roots]

/-- What a parser that is built keeps alive is kept by the parsers that it was built with. -/
theorem exists_parser_of_mem_keeps {t : Term} {d : Nat} (hd : d ∈ (w.build t).keeps) :
    ∃ b ∈ w.parsers.values, d ∈ b.keeps := by
  obtain ⟨x, -, hd⟩ := List.mem_flatMap.1 hd
  unfold keptUnder at hd
  split at hd
  · exact ⟨_, Table.mem_values_of_get? ‹_›, hd⟩
  · exact absurd hd List.not_mem_nil

theorem keeps_build_subset {t : Term} : ∀ d ∈ (w.build t).keeps, d ∈ w.roots :=
  fun _ hd => mem_roots.2 (.inr (exists_parser_of_mem_keeps hd))

theorem knows_build (hw : w.Valid) (t : Term) : Knows w.bodies.length (w.build t) where
  rules := t.refersTo_grammarIn (fun _ _ hx => hx) (fun _ hx => absurd hx List.not_mem_nil)
    fun x _ => knows_lookup hw x
  keeps d hd := hw.keepsMade.roots d (keeps_build_subset d hd)

end Valid

/-! ## What a step changes -/

/-- `w'` can come after `w`: nothing is kept that was not kept before, apart from new definitions,
    and a body is supplied only where there was none. -/
structure Follows (w w' : Workspace) : Prop where
  length_le : w.bodies.length ≤ w'.bodies.length
  roots : ∀ d ∈ w'.roots, d < w.bodies.length → d ∈ w.roots
  body : ∀ d, w'.body d = w.body d ∨ w.body d = none ∧ ∃ t, w'.body d = some (w.build t)

namespace Follows

variable {w w' : Workspace} {d : Nat} (h : w.Follows w')

include h

/-- No definition is revived. -/
theorem reachable (hd : w'.Reachable d) (hlt : d < w.bodies.length) : w.Reachable d := by
  induction hd with
  | root hd => exact .root (h.roots _ hd hlt)
  | @kept d e _ he ih =>
      unfold keptBy at he
      rcases h.body d with hbody | ⟨_, t, hbody⟩
      · rw [hbody] at he
        split at he
        · rename_i b hb
          have hd : d < w.bodies.length := by
            by_contra hge
            simp [Workspace.body, List.getElem?_eq_none (Nat.le_of_not_lt hge)] at hb
          refine .kept (ih hd) ?_
          rwa [keptBy, hb]
        · exact absurd he List.not_mem_nil
      · rw [hbody] at he
        exact .root (keeps_build_subset e he)

theorem body_eq {b : Built} (hb : w.body d = some b) : w'.body d = some b := by
  rcases h.body d with hbody | ⟨hnone, _⟩
  · rw [hbody, hb]
  · rw [hnone] at hb
    cases hb

/-- **A definition only goes on.** -/
theorem leads (hw : w.KeepsMade) (hw' : w'.KeepsMade) (hd : d < w.bodies.length) :
    (w.status d).Leads (w'.status d) := by
  by_cases halive' : d ∈ w'.alive
  · have halive : d ∈ w.alive :=
      (mem_alive_iff hw).2 (h.reachable ((mem_alive_iff hw').1 halive') hd)
    rw [status_of_alive halive, status_of_alive halive']
    cases hb : w.body d with
    | none =>
        rw [if_pos rfl]
        split
        · exact .stay _
        · exact .supply
    | some b =>
        rw [h.body_eq hb]
        exact .stay _
  · rw [status_of_not_alive halive']
    exact .drop _

end Follows

section Changes

variable {w : Workspace}

theorem follows_refl (w : Workspace) : w.Follows w :=
  ⟨Nat.le_refl _, fun _ hd _ => hd, fun _ => .inl rfl⟩

/-- Naming a parser that keeps only what was kept before. -/
theorem follows_name {x : String} {b : Built} (hb : ∀ d ∈ b.keeps, d ∈ w.roots) :
    w.Follows (w.name x b) where
  length_le := Nat.le_refl _
  roots := by
    intro d hd _
    rw [mem_roots] at hd
    rcases hd with hd | ⟨b', hb', hd⟩
    · exact mem_roots.2 (.inl hd)
    · rcases Table.mem_values_insert hb' with rfl | hb'
      · exact hb d hd
      · exact mem_roots.2 (.inr ⟨b', hb', hd⟩)
  body _ := .inl rfl

theorem Valid.name (hw : w.Valid) {x : String} {b : Built} (hb : Knows w.bodies.length b) :
    (w.name x b).Valid where
  definers_lt := hw.definers_lt
  definers_body := hw.definers_body
  definers_nodup := hw.definers_nodup
  parsers := by
    intro b' hb'
    rcases Table.mem_values_insert hb' with rfl | hb'
    · exact hb
    · exact hw.parsers b' hb'
  bodies := hw.bodies

theorem follows_dropDefiner (x : String) :
    w.Follows { w with definers := w.definers.erase x } where
  length_le := Nat.le_refl _
  roots := by
    intro d hd _
    exact mem_roots.2 ((mem_roots.1 hd).imp_left Table.mem_of_mem_values_erase)
  body _ := .inl rfl

theorem Valid.dropDefiner (hw : w.Valid) (x : String) :
    Valid { w with definers := w.definers.erase x } where
  definers_lt d hd := hw.definers_lt d (Table.mem_of_mem_values_erase hd)
  definers_body d hd := hw.definers_body d (Table.mem_of_mem_values_erase hd)
  definers_nodup := hw.definers_nodup.sublist (Table.sublist_values_erase _ _)
  parsers := hw.parsers
  bodies := hw.bodies

theorem follows_drop (x : String) : w.Follows { w with parsers := w.parsers.erase x } where
  length_le := Nat.le_refl _
  roots := by
    intro d hd _
    refine mem_roots.2 ((mem_roots.1 hd).imp_right ?_)
    rintro ⟨b, hb, hd⟩
    exact ⟨b, Table.mem_of_mem_values_erase hb, hd⟩
  body _ := .inl rfl

theorem Valid.drop (hw : w.Valid) (x : String) :
    Valid { w with parsers := w.parsers.erase x } where
  definers_lt := hw.definers_lt
  definers_body := hw.definers_body
  definers_nodup := hw.definers_nodup
  parsers b hb := hw.parsers b (Table.mem_of_mem_values_erase hb)
  bodies := hw.bodies

/-! ### Making a definition -/

/-- A definition is made, with a definer. -/
def withDefinition (w : Workspace) (definer : String) : Workspace :=
  { w with
    bodies := w.bodies ++ [none]
    definers := w.definers.insert definer w.bodies.length }

theorem body_withDefinition (definer : String) (d : Nat) :
    (w.withDefinition definer).body d = w.body d := by
  simp only [body, withDefinition, List.getElem?_append]
  split
  · rfl
  · rename_i hge
    rw [List.getElem?_eq_none (Nat.le_of_not_lt hge)]
    cases d - w.bodies.length with
    | zero => rfl
    | succ n => rfl

theorem follows_withDefinition (definer : String) : w.Follows (w.withDefinition definer) where
  length_le := by simp [withDefinition]
  roots := by
    intro d hd hlt
    rw [mem_roots] at hd ⊢
    refine hd.imp_left fun hd => (Table.mem_values_insert hd).resolve_left ?_
    exact Nat.ne_of_lt hlt
  body d := .inl (body_withDefinition definer d)

theorem Valid.withDefinition (hw : w.Valid) (definer : String) :
    (w.withDefinition definer).Valid where
  definers_lt := by
    intro d hd
    simp only [Workspace.withDefinition, List.length_append, List.length_singleton]
    rcases Table.mem_values_insert hd with rfl | hd
    · exact Nat.lt_succ_self _
    · exact Nat.lt_succ_of_lt (hw.definers_lt d hd)
  definers_body := by
    intro d hd
    rw [body_withDefinition]
    rcases Table.mem_values_insert hd with rfl | hd
    · simp [body]
    · exact hw.definers_body d hd
  definers_nodup := by
    refine List.nodup_cons.2 ⟨fun hmem => ?_, ?_⟩
    · exact Nat.lt_irrefl _ (hw.definers_lt _ (Table.mem_of_mem_values_erase hmem))
    · exact hw.definers_nodup.sublist (Table.sublist_values_erase _ _)
  parsers b hb := (hw.parsers b hb).mono (by simp [Workspace.withDefinition])
  bodies := by
    intro d b hb
    rw [body_withDefinition] at hb
    exact (hw.bodies d b hb).mono (by simp [Workspace.withDefinition])

/-! ### Supplying a body -/

/-- The definition `d` of the definer gets its body. -/
def withBody (w : Workspace) (definer : String) (d : Nat) (t : Term) : Workspace :=
  { w with
    bodies := w.bodies.set d (some (w.build t))
    definers := w.definers.erase definer }

theorem body_withBody (definer : String) {d : Nat} (t : Term) (hd : d < w.bodies.length)
    (e : Nat) :
    (w.withBody definer d t).body e = if e = d then some (w.build t) else w.body e := by
  by_cases he : e = d
  · simp [body, withBody, he, hd]
  · rw [if_neg he]
    simp [body, withBody, List.getElem?_set_ne (Ne.symm he)]

theorem follows_define (hw : w.Valid) {definer : String} {d : Nat}
    (hd : w.definers.get? definer = some d) (t : Term) (owner : String) :
    w.Follows ((w.withBody definer d t).name owner ⟨.ref (.owner d), [d]⟩) where
  length_le := by simp [withBody, name]
  roots := by
    intro e he _
    have hmem : d ∈ w.definers.values := Table.mem_values_of_get? hd
    rw [mem_roots] at he
    rcases he with he | ⟨b, hb, he⟩
    · exact mem_roots.2 (.inl (Table.mem_of_mem_values_erase he))
    · rcases Table.mem_values_insert hb with rfl | hb
      · rw [List.mem_singleton.1 he]
        exact mem_roots.2 (.inl hmem)
      · exact mem_roots.2 (.inr ⟨b, hb, he⟩)
  body := by
    intro e
    have hmem : d ∈ w.definers.values := Table.mem_values_of_get? hd
    have hbody := body_withBody definer t (hw.definers_lt d hmem) e
    by_cases he : e = d
    · rw [if_pos he] at hbody
      exact .inr ⟨he ▸ hw.definers_body d hmem, t, hbody⟩
    · rw [if_neg he] at hbody
      exact .inl hbody

theorem Valid.withBody (hw : w.Valid) {definer : String} {d : Nat}
    (hd : w.definers.get? definer = some d) (t : Term) : (w.withBody definer d t).Valid := by
  have hmem : d ∈ w.definers.values := Table.mem_values_of_get? hd
  have hlength : w.bodies.length ≤ (w.withBody definer d t).bodies.length := by
    simp [Workspace.withBody]
  have hbody := body_withBody definer t (hw.definers_lt d hmem)
  exact {
    definers_lt := fun e he =>
      Nat.lt_of_lt_of_le (hw.definers_lt e (Table.mem_of_mem_values_erase he)) hlength
    definers_body := by
      intro e he
      have hne : e ≠ d := by
        rintro rfl
        exact Table.not_mem_values_erase hw.definers_nodup hd he
      rw [hbody e, if_neg hne]
      exact hw.definers_body e (Table.mem_of_mem_values_erase he)
    definers_nodup := hw.definers_nodup.sublist (Table.sublist_values_erase _ _)
    parsers := fun b hb => (hw.parsers b hb).mono hlength
    bodies := by
      intro e b hb
      rw [hbody e] at hb
      split at hb
      · cases hb
        exact (knows_build hw t).mono hlength
      · exact (hw.bodies e b hb).mono hlength }

end Changes

/-! ## Steps -/

/-- The parser of a handle. -/
theorem knows_handle {n d : Nat} (hd : d < n) : Knows n ⟨.ref (.handle d), []⟩ :=
  ⟨hd, fun _ he => absurd he List.not_mem_nil⟩

theorem follows_step {w : Workspace} (hw : w.Valid) (s : Step) : w.Follows (w.step s).1 := by
  cases s with
  | defer definer handle =>
      have hfollows := follows_withDefinition (w := w) definer
      exact {
        length_le := hfollows.length_le
        roots := fun d hd hlt => by
          refine hfollows.roots d ((follows_name ?_).roots d hd ?_) hlt
          · exact fun e he => absurd he List.not_mem_nil
          · exact Nat.lt_of_lt_of_le hlt hfollows.length_le
        body := hfollows.body }
  | handle definer target =>
      simp only [step]
      cases w.definers.get? definer with
      | none => exact follows_refl w
      | some d => exact follows_name fun e he => absurd he List.not_mem_nil
  | define definer body owner =>
      simp only [step]
      cases hd : w.definers.get? definer with
      | none => exact follows_refl w
      | some d => exact follows_define hw hd body owner
  | bind name body => exact follows_name keeps_build_subset
  | dropDefiner name => exact follows_dropDefiner name
  | drop name => exact follows_drop name
  | apply name text =>
      simp only [step]
      cases w.parsers.get? name with
      | none => exact follows_refl w
      | some b => exact follows_refl w

theorem valid_step {w : Workspace} (hw : w.Valid) (s : Step) : (w.step s).1.Valid := by
  cases s with
  | defer definer handle =>
      refine (hw.withDefinition definer).name (knows_handle ?_)
      simp [withDefinition]
  | handle definer target =>
      simp only [step]
      cases hd : w.definers.get? definer with
      | none => exact hw
      | some d => exact hw.name (knows_handle (hw.definers_lt d (Table.mem_values_of_get? hd)))
  | define definer body owner =>
      simp only [step]
      cases hd : w.definers.get? definer with
      | none => exact hw
      | some d =>
          have hlt : d < (w.withBody definer d body).bodies.length := by
            simpa [withBody] using hw.definers_lt d (Table.mem_values_of_get? hd)
          refine (hw.withBody hd body).name ⟨hlt, fun e he => ?_⟩
          rwa [List.mem_singleton.1 he]
  | bind name body => exact hw.name (knows_build hw body)
  | dropDefiner name => exact hw.dropDefiner name
  | drop name => exact hw.drop name
  | apply name text =>
      simp only [step]
      cases w.parsers.get? name with
      | none => exact hw
      | some b => exact hw

theorem body_step_define {w : Workspace} (hw : w.Valid) {definer : String} {d : Nat}
    (hd : w.definers.get? definer = some d) (body : Term) (owner : String) (e : Nat) :
    (w.step (.define definer body owner)).1.body e
      = if e = d then some (w.build body) else w.body e := by
  simp only [step, hd]
  exact body_withBody definer body (hw.definers_lt d (Table.mem_values_of_get? hd)) e

/-! ## Runs of steps -/

theorem valid_steps {w : Workspace} (hw : w.Valid) (ss : List Step) : (w.steps ss).1.Valid := by
  induction ss generalizing w with
  | nil => exact hw
  | cons s ss ih => exact ih (valid_step hw s)

/-- The workspaces that steps lead to from the empty one are valid. -/
theorem valid_reached (ss : List Step) : (empty.steps ss).1.Valid := valid_steps valid_empty ss

/-- **No run of steps goes back.** -/
theorem leads_steps {w : Workspace} (hw : w.Valid) (ss : List Step) {d : Nat}
    (hd : d < w.bodies.length) : (w.status d).Leads ((w.steps ss).1.status d) := by
  induction ss generalizing w with
  | nil => exact .stay _
  | cons s ss ih =>
      have hfollows := follows_step hw s
      have hfirst := hfollows.leads hw.keepsMade (valid_step hw s).keepsMade hd
      exact hfirst.trans (ih (valid_step hw s) (Nat.lt_of_lt_of_le hd hfollows.length_le))

theorem body_steps {w : Workspace} (hw : w.Valid) (ss : List Step) {d : Nat} {b : Built}
    (hb : w.body d = some b) : (w.steps ss).1.body d = some b := by
  induction ss generalizing w with
  | nil => exact hb
  | cons s ss ih => exact ih (valid_step hw s) ((follows_step hw s).body_eq hb)

/-- A definition that has just been made is undefined. -/
theorem status_step_defer {w : Workspace} (hw : w.Valid) (definer handle : String) :
    (w.step (.defer definer handle)).1.status w.bodies.length = .undefined := by
  have hvalid := valid_step hw (.defer definer handle)
  rw [status_eq_undefined_iff, mem_alive_iff hvalid.keepsMade]
  constructor
  · exact .root (mem_roots.2 (.inl List.mem_cons_self))
  · have hbody := body_withDefinition (w := w) definer w.bodies.length
    rw [show (w.step (.defer definer handle)).1.body w.bodies.length
      = (w.withDefinition definer).body w.bodies.length from rfl, hbody]
    simp [body]

end Workspace

end Script

end Parsing
