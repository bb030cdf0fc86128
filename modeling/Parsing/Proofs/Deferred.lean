import Mathlib.Data.List.Basic
import Parsing.Deferred
import Parsing.Proofs.References
import Parsing.Script.Workspace

set_option autoImplicit false

/-! # Rules built one by one

What a `letrec` builds keeps the owners of all its rules, so their handles never fail: by itself it
runs as the rules do that lead to each other directly (`Making.alone_letrec`). The definitions are
numbered in the order of the names, and tying them by number is the same as tying them by name.
What `recursive` builds is the owner of its own definition (`Making.alone_recursive`).

The definitions of a workspace are alive and lead to each other in the same way
(`Workspace.parser_eq_linksFrom`). -/

namespace Parsing

variable {ρ α β : Type}

/-! ## What is alive -/

namespace Slots

variable {s : Slots ρ} {roots alive : List Nat} {d e : Nat}

theorem mem_reached_succ {n : Nat} :
    d ∈ s.reached roots (n + 1) ↔
      d < s.bodies.length ∧
        (d ∈ s.reached roots n ∨ ∃ e ∈ s.reached roots n, d ∈ s.keptBy e) := by
  simp [reached]

theorem mem_reached_of_root (hd : d < s.bodies.length) (h : d ∈ roots) (n : Nat) :
    d ∈ s.reached roots n := by
  induction n with
  | zero => exact h
  | succ n ih => exact mem_reached_succ.2 ⟨hd, .inl ih⟩

theorem mem_alive_of_root (hd : d < s.bodies.length) (h : d ∈ roots) : d ∈ s.alive roots :=
  mem_reached_of_root hd h s.bodies.length

/-- What the body of a root keeps is alive. -/
theorem mem_alive_of_keptBy (he : e < s.bodies.length) (h : e ∈ roots) (hd : d < s.bodies.length)
    (hkept : d ∈ s.keptBy e) : d ∈ s.alive roots := by
  obtain ⟨n, hn⟩ : ∃ n, s.bodies.length = n + 1 :=
    Nat.exists_eq_succ_of_ne_zero (Nat.ne_of_gt (Nat.zero_lt_of_lt hd))
  rw [alive, hn, mem_reached_succ]
  exact ⟨hd, .inr ⟨e, mem_reached_of_root he h n, hkept⟩⟩

/-- The handle of a definition that is alive and supplied leads to its body. -/
theorem links_handle {part : Part ρ ρ} (halive : d ∈ alive) (hbody : s.body d = some part)
    (self : Nat → Parser ρ) : s.links alive self (.handle d) = self d := by
  funext c
  simp only [links, if_pos halive, hbody]

theorem bodyParser_of_body {part : Part ρ ρ} (hbody : s.body d = some part)
    (self : Nat → Parser ρ) :
    s.bodyParser alive self d = part.code (s.links alive self) := by
  rw [bodyParser, hbody]

end Slots

/-! ## Rules built one by one -/

namespace Making

/-- The definers made for `names` when `first` definitions have been made before. -/
def definersFrom : (first : Nat) → (names : List String) → List (String × Definer)
  | _, [] => []
  | first, x :: names => (x, ⟨first⟩) :: definersFrom (first + 1) names

theorem value_pure (a : α) (s : Slots ρ) : ((pure a : Making ρ α) s).value = (a, s) := rfl

theorem value_bind (step : Making ρ α) (next : α → Making ρ β) (s : Slots ρ) :
    ((step >>= next) s).value = (next (step s).value.1 (step s).value.2).value := rfl

theorem alone_of_value {making : Making ρ (Part ρ α)} {part : Part ρ α} {slots : Slots ρ}
    (h : (making .empty).value = (part, slots)) :
    making.alone = part.code (slots.linksFrom part.keeps) := by
  rw [alone, h]

theorem value_deferAll (names : List String) (bodies : List (Option (Part ρ ρ))) :
    (deferAll names ⟨bodies⟩).value
      = (definersFrom bodies.length names, ⟨bodies ++ .replicate names.length none⟩) := by
  induction names generalizing bodies with
  | nil => simp [deferAll, definersFrom, value_pure]
  | cons x names ih =>
      have hrest := ih (bodies ++ [none])
      rw [List.length_append, List.length_singleton, List.append_assoc] at hrest
      simp only [deferAll, value_bind, deferred, Logged.silent, hrest, value_pure]
      rfl

theorem value_defineAll (body : String → Part ρ ρ) (names : List String)
    (bodies : List (Option (Part ρ ρ))) :
    (defineAll body (definersFrom bodies.length names)
        ⟨bodies ++ .replicate names.length none⟩).value
      = ((definersFrom bodies.length names).map fun made => .owner made.2.number,
        ⟨bodies ++ names.map fun x => some (body x)⟩) := by
  induction names generalizing bodies with
  | nil => simp [defineAll, definersFrom, value_pure]
  | cons x names ih =>
      have hset : (bodies ++ .replicate (names.length + 1) none).set bodies.length (some (body x))
          = bodies ++ [some (body x)] ++ .replicate names.length none := by
        simp [List.replicate_succ]
      have hrest := ih (bodies ++ [some (body x)])
      rw [List.length_append, List.length_singleton] at hrest
      simp only [defineAll, definersFrom, value_bind, define, List.length_cons, hset, hrest,
        value_pure]
      simp

/-! ### Their handles -/

/-- The handles of definitions that were made for `names` before anything else. -/
def handlesOf (names : List String) : List (String × Part ρ ρ) :=
  (definersFrom 0 names).map fun made => (made.1, made.2.handle)

theorem map_fst_definersFrom (first : Nat) (names : List String) :
    (definersFrom first names).map Prod.fst = names := by
  induction names generalizing first with
  | nil => rfl
  | cons x names ih => rw [definersFrom, List.map_cons, ih]

theorem lookup_definersFrom {names : List String} {x : String} (hx : x ∈ names) (first : Nat) :
    (definersFrom first names).lookup x = some ⟨first + names.idxOf x⟩ := by
  induction names generalizing first with
  | nil => exact absurd hx List.not_mem_nil
  | cons y names ih =>
      by_cases heq : x = y
      · simp [definersFrom, heq]
      · have hrest := ih (List.mem_of_ne_of_mem heq hx) (first + 1)
        have hindex : (y :: names).idxOf x = names.idxOf x + 1 := List.idxOf_cons_ne _ (Ne.symm heq)
        rw [definersFrom, List.lookup_cons, beq_false_of_ne heq, hrest, hindex, Nat.add_right_comm,
          Nat.add_assoc]

theorem among_handlesOf {names : List String} {x : String} (hx : x ∈ names) :
    Part.among (handlesOf names) x = (.handle (names.idxOf x) : Part ρ ρ) := by
  rw [Part.among, handlesOf, Script.lookup_map_snd, lookup_definersFrom hx, Nat.zero_add]
  rfl

/-- What captures the handles reads each name as the handle of its definition. -/
theorem code_closure_handlesOf (names : List String) (env : Grammar.Env ρ)
    (code : Grammar.Env ρ → Parser α) (links : Grammar.Env ρ) :
    (Part.closure (handlesOf names) env code).code links
      = code (env.extend names fun x => links (.handle (names.idxOf x))) := by
  have hnames : (handlesOf names : List (String × Part ρ ρ)).map Prod.fst = names := by
    rw [handlesOf, List.map_map]
    exact map_fst_definersFrom 0 names
  rw [Part.closure, hnames]
  refine congrArg code (env.extend_congr fun x hx => ?_)
  rw [among_handlesOf hx]
  rfl

theorem keeps_closure_handlesOf (names : List String) (env : Grammar.Env ρ)
    (code : Grammar.Env ρ → Parser α) :
    (Part.closure (handlesOf names) env code).keeps = [] := by
  simp only [Part.closure, handlesOf, List.flatMap_map]
  exact List.flatMap_eq_nil_iff.2 fun _ _ => rfl

/-! ### What is built -/

theorem foldl_ownedBy (owners : List (Part ρ ρ)) (part : Part ρ α) :
    owners.foldl .ownedBy part = ⟨part.code, part.keeps ++ owners.flatMap (·.keeps)⟩ := by
  induction owners generalizing part with
  | nil => simp
  | cons owner owners ih => simp [ih, Part.ownedBy]

/-- The definitions made for the rules `names`. -/
def slotsOf (names : List String) (env : Grammar.Env ρ)
    (rule : String → Grammar.Env ρ → Parser ρ) : Slots ρ :=
  ⟨names.map fun x => some (.closure (handlesOf names) env (rule x))⟩

theorem value_letrec (names : List String) (env : Grammar.Env ρ)
    (rule : String → Grammar.Env ρ → Parser ρ) (main : Grammar.Env ρ → Parser α) :
    (letrec names env rule main .empty).value
      = (⟨(Part.closure (handlesOf names) env main).code,
          (definersFrom 0 names).map fun made => made.2.number⟩, slotsOf names env rule) := by
  have hdefer := value_deferAll names ([] : List (Option (Part ρ ρ)))
  have hdefine := value_defineAll (fun x => .closure (handlesOf names) env (rule x)) names
    ([] : List (Option (Part ρ ρ)))
  simp only [List.nil_append, List.length_nil] at hdefer hdefine
  rw [handlesOf] at hdefine
  simp only [letrec, value_bind, Slots.empty, hdefer, hdefine, value_pure, foldl_ownedBy]
  have hkeeps : (definersFrom 0 names).map (fun made => made.2.number)
      = (definersFrom 0 names).flatMap fun made => (Part.owner made.2.number : Part ρ ρ).keeps :=
    List.map_eq_flatMap
  rw [← handlesOf, keeps_closure_handlesOf, List.nil_append, List.flatMap_map, hkeeps, slotsOf]

section Letrec

variable {names : List String} {env : Grammar.Env ρ} {rule : String → Grammar.Env ρ → Parser ρ}
  {x : String}

theorem length_slotsOf : (slotsOf names env rule).bodies.length = names.length :=
  List.length_map _

theorem body_slotsOf (hx : x ∈ names) :
    (slotsOf names env rule).body (names.idxOf x)
      = some (.closure (handlesOf names) env (rule x)) := by
  simp [Slots.body, slotsOf, List.getElem?_idxOf hx]

/-- Each of the definitions is kept by what a `letrec` builds. -/
theorem idxOf_mem_alive (hx : x ∈ names) :
    names.idxOf x ∈ (slotsOf names env rule).alive
      ((definersFrom 0 names).map fun made => made.2.number) := by
  refine Slots.mem_alive_of_root ?_ (List.mem_map.2 ⟨(x, ⟨names.idxOf x⟩), ?_, rfl⟩)
  · rw [length_slotsOf]
    exact List.idxOf_lt_length_of_mem hx
  · have hlookup := lookup_definersFrom hx 0
    rw [Nat.zero_add] at hlookup
    obtain ⟨l, r, heq, -⟩ := List.lookup_eq_some_iff.1 hlookup
    simp [heq]

/-- **What a `letrec` builds runs by itself as the rules do that lead to each other.** -/
theorem alone_letrec (main : Grammar.Env ρ → Parser α) :
    (letrec names env rule main).alone
      = main (env.extend names (.knot names fun self x => rule x (env.extend names self))) := by
  rw [alone_of_value (value_letrec names env rule main), code_closure_handlesOf]
  refine congrArg main (env.extend_congr fun x hx => ?_)
  rw [Slots.linksFrom, Slots.links_handle (idxOf_mem_alive hx) (body_slotsOf hx),
    length_slotsOf]
  -- The definitions are tied by their numbers, the rules by their names.
  refine Parser.knot_rename names.idxOf (fun k hk => ?_)
    (fun k hk l _ => (List.idxOf_inj hk).1) (fun self self' hself k hk => ?_) x hx
  · exact List.mem_range.2 (List.idxOf_lt_length_of_mem hk)
  · rw [Slots.bodyParser_of_body (body_slotsOf hk), code_closure_handlesOf]
    refine congrArg (rule k) (env.extend_congr fun y hy => ?_)
    rw [Slots.links_handle (idxOf_mem_alive hy) (body_slotsOf hy), hself y hy]

end Letrec

/-- **What refers to itself runs by itself as a rule that leads to itself.** It is its own owner. -/
theorem alone_recursive (x : String) (env : Grammar.Env ρ) (body : Grammar.Env ρ → Parser ρ) :
    (recursive x env body).alone = .knot [x] (fun self _ => body (env.extend [x] self)) x := by
  let part : Part ρ ρ := .closure [(x, .handle 0)] env body
  have hbody : (⟨[some part]⟩ : Slots ρ).body 0 = some part := rfl
  have hvalue : (recursive x env body .empty).value = (.owner 0, ⟨[some part]⟩) := rfl
  rw [alone_of_value hvalue]
  show Parser.knot (List.range 1) _ 0 = _
  refine Parser.knot_rename (fun _ => 0) (fun _ _ => List.mem_range.2 Nat.zero_lt_one)
    (fun k hk l hl _ => ?_) (fun self self' hself k hk => ?_) x List.mem_cons_self
  · rw [List.mem_singleton.1 hk, List.mem_singleton.1 hl]
  · have halive : 0 ∈ (⟨[some part]⟩ : Slots ρ).alive [0] :=
      Slots.mem_alive_of_root Nat.zero_lt_one List.mem_cons_self
    show Slots.bodyParser _ _ self' 0 = _
    rw [Slots.bodyParser_of_body hbody]
    refine congrArg body (env.extend_congr fun y hy => ?_)
    rw [List.mem_singleton.1 hy, ← hself x List.mem_cons_self,
      ← Slots.links_handle halive hbody self']
    simp only [Part.among, List.lookup_cons_self, Option.getD_some]
    rfl

end Making

/-! ## Workspaces -/

namespace Script.Workspace

/-- The definitions of a workspace. -/
def slots (w : Workspace) : Slots Value :=
  ⟨w.bodies.map (Option.map fun b => ⟨b.rules.parserIn, b.keeps⟩)⟩

theorem body_slots (w : Workspace) (d : Nat) :
    w.slots.body d = (w.body d).map fun b => ⟨b.rules.parserIn, b.keeps⟩ := by
  rw [Slots.body, body, slots, List.getElem?_map]
  rcases w.bodies[d]? with _ | _ | b <;> rfl

theorem alive_slots (w : Workspace) : w.slots.alive w.roots = w.alive := by
  have hlength : w.slots.bodies.length = w.bodies.length := List.length_map _
  have hkept : ∀ d, w.slots.keptBy d = w.keptBy d := by
    intro d
    rw [Slots.keptBy, keptBy, body_slots]
    cases w.body d <;> rfl
  have hreached : ∀ n, w.slots.reached w.roots n = w.reached n := by
    intro n
    induction n with
    | zero => rfl
    | succ n ih => simp only [Slots.reached, reached, ih, hlength, hkept]
  rw [Slots.alive, alive, hreached, hlength]

/-- A parser built in a workspace works with its definitions as a part does, when what the tables
    keep is kept. -/
theorem parser_eq_linksFrom (w : Workspace) (b : Built) :
    w.parser b = b.rules.parserIn (w.slots.linksFrom w.roots) := by
  have hlinks : ∀ self, w.slots.links w.alive self = w.meaning w.alive self := by
    intro self
    funext r
    cases r with
    | name x => rfl
    | owner d => rfl
    | handle d =>
        funext c
        simp only [Slots.links, meaning, body_slots]
        cases w.body d <;> rfl
  have hbody : w.slots.bodyParser w.alive = w.bodyParser w.alive := by
    funext self d
    rw [Slots.bodyParser, bodyParser, body_slots, hlinks]
    cases w.body d <;> rfl
  have hlength : w.slots.bodies.length = w.bodies.length := List.length_map _
  rw [parser, Slots.linksFrom, alive_slots, hlinks, hbody, hlength]

end Script.Workspace

end Parsing
