import Parsing.Arithmetic.Build
import Parsing.Proofs.Arithmetic.Unfolding
import Parsing.Proofs.Deferred
import Parsing.Proofs.TermReferences

set_option autoImplicit false

/-! # The arithmetic rules by themselves

A rule taken from a copy of the grammar keeps the definition of `expr`, whose body keeps that of
`term`. So both are alive while the rule is in use, and it runs as the grammar says though the other
rules have been dropped (`alone_build`). At each level of a nesting limit the rules are built anew,
and only `expr` is used. -/

namespace Parsing.Arithmetic

open Grammar

/-- The number of the definition of a name when a copy of the rules has been built. -/
def numberOf (x : String) : Nat := if x = "expr" then 0 else 1

section Copies

variable {between : Part Int Int → Part Int Int} {inner : Grammar Int Int}

/-- The definitions made for a copy of the rules. -/
def copySlots (between : Part Int Int → Part Int Int) : Slots Int :=
  ⟨[some (capturing [("term", .owner 1), ("expr", .handle 0)] expr),
    some (capturing [("inner", between (.handle 0)), ("term", .handle 1)]
      (term (ref (.name "inner"))))]⟩

/-- The rules of a copy. -/
def copyOf (between : Part Int Int → Part Int Int) : Copy where
  expr := .owner 0
  term := (Part.owner 1).ownedBy (Part.owner 0 : Part Int Int)
  factor := (capturing [("inner", between (.handle 0))] (factor (ref (.name "inner")))).ownedBy
    (Part.owner 0 : Part Int Int)

theorem copyWith_empty :
    copyWith between .empty = ⟨rulesRecords, copyOf between, copySlots between⟩ := rfl

theorem alone_map_copyWith (choose : Copy → Part Int Int) :
    (choose <$> copyWith between).alone
      = (choose (copyOf between)).code
        ((copySlots between).linksFrom (choose (copyOf between)).keeps) :=
  Making.alone_of_value (congrArg (fun made => (choose made.value.1, made.value.2)) copyWith_empty)

/-- Each of the rules keeps the definition of `expr`. -/
theorem expr_mem_keeps (between : Part Int Int → Part Int Int) (r : Rule) :
    0 ∈ ((copyOf between).rule r).keeps := by
  cases r with
  | expr => exact List.mem_cons_self
  | term => exact List.mem_append_right _ List.mem_cons_self
  | factor => exact List.mem_append_right _ List.mem_cons_self

/-- While it is kept, both definitions are alive. -/
theorem mem_alive_copySlots (between : Part Int Int → Part Int Int) {roots : List Nat}
    (hroot : 0 ∈ roots) :
    0 ∈ (copySlots between).alive roots ∧ 1 ∈ (copySlots between).alive roots :=
  ⟨Slots.mem_alive_of_root Nat.zero_lt_two hroot,
    Slots.mem_alive_of_keptBy Nat.zero_lt_two hroot Nat.one_lt_two List.mem_cons_self⟩

section Tied

variable (hbetween : ∀ (links : Env Int) (self : String → Parser Int),
    links (.handle 0) = self "expr" →
      (between (.handle 0)).code links = inner.parserIn (Env.empty.extend names self))
  {roots : List Nat} (hroot : 0 ∈ roots)

include hbetween hroot

/-- The definitions of a copy are the rules that are tied by names. -/
theorem knot_copySlots {x : String} (hx : x ∈ names) :
    Parser.knot (List.range 2)
        ((copySlots between).bodyParser ((copySlots between).alive roots)) (numberOf x)
      = tied inner x := by
  obtain ⟨halive₀, halive₁⟩ := mem_alive_copySlots between hroot
  have hbody₀ : (copySlots between).body 0 = some _ := rfl
  have hbody₁ : (copySlots between).body 1 = some _ := rfl
  refine Parser.knot_rename numberOf (fun k _ => ?_) (fun k hk l hl heq => ?_)
    (fun self self' hself k hk => ?_) x hx
  · unfold numberOf
    split <;> decide
  · revert heq
    revert k l
    decide
  · have hexpr : self' 0 = self "expr" := hself "expr" (by decide)
    have hterm : self' 1 = self "term" := hself "term" (by decide)
    have hhandle₀ := Slots.links_handle halive₀ hbody₀ self'
    have hhandle₁ := Slots.links_handle halive₁ hbody₁ self'
    rcases List.mem_pair.1 hk with rfl | rfl
    · show Slots.bodyParser _ _ self' 0 = bodies inner self "expr"
      rw [Slots.bodyParser_of_body hbody₀, bodies_expr, ← hexpr, ← hterm, ← hhandle₀]
      exact parserIn_expr _
    · show Slots.bodyParser _ _ self' 1 = bodies inner self "term"
      rw [Slots.bodyParser_of_body hbody₁, bodies_term, ← hbetween _ self (hhandle₀.trans hexpr),
        ← hterm, ← hhandle₁]
      exact parserIn_term _ _

theorem linksFrom_owner {x : String} (hx : x ∈ names) :
    (copySlots between).linksFrom roots (.owner (numberOf x)) = tied inner x :=
  knot_copySlots hbetween hroot hx

theorem linksFrom_expr :
    (copySlots between).linksFrom roots (.handle 0) = tied inner "expr" := by
  rw [Slots.linksFrom, Slots.links_handle (mem_alive_copySlots between hroot).1 rfl]
  exact knot_copySlots hbetween hroot List.mem_cons_self

variable (between inner) in
omit hroot in
/-- **A rule taken from the others runs as it does among them.** -/
theorem alone_rule (r : Rule) :
    ((·.rule r) <$> copyWith between).alone = (rulesOver inner r).parser := by
  have hroot := expr_mem_keeps between r
  rw [alone_map_copyWith]
  cases r with
  | expr => exact linksFrom_owner hbetween hroot (x := "expr") (by decide)
  | term => exact linksFrom_owner hbetween hroot (x := "term") (by decide)
  | factor =>
      exact congrArg factorParser (hbetween _ (tied inner) (linksFrom_expr hbetween hroot))

end Tied

end Copies

/-- What stands between parentheses where levels are limited. -/
theorem code_between (depth : Nat) (links env : Env Int) :
    (between depth).code links = (nested depth).parserIn env := by
  induction depth generalizing links env with
  | zero => rfl
  | succ depth ih =>
      have hrule : (Copy.expr <$> copyWith fun _ => between depth).alone
          = (rulesOver (nested depth) .expr).parser :=
        alone_rule (fun _ => between depth) (nested depth) (fun links _ _ => ih links _) .expr
      show Parser.bind _ (fun _ => _) = Parser.bind _ fun _ => _
      rw [hrule]
      rfl

/-- **Each rule runs by itself as the grammar says.** -/
theorem alone_build (limit : Option Nat) (r : Rule) :
    ((·.rule r) <$> build limit).alone = (grammar limit r).parser := by
  cases limit with
  | none => exact alone_rule id (ref (.name "expr")) (fun _ _ h => h) r
  | some depth =>
      exact alone_rule (fun _ => between depth) (nested depth)
        (fun links _ _ => code_between depth links _) r

/-! ### What is captured -/

/-- `p` refers to `names`, to each of them, and to nothing else. -/
def Mentions (p : Grammar Int Int) (names : List String) : Prop :=
  p.RefersTo id (fun r => ∃ x ∈ names, r = .name x) ∧ ∀ x ∈ names, ¬p.RefersTo id (· ≠ .name x)

/-- A copy of the rules captures nothing that is not referred to, so only `ownedBy` keeps more than
    the code needs. -/
theorem mentions_captured :
    Mentions (factor (ref (.name "inner"))) ["inner"] ∧
      Mentions (term (ref (.name "inner"))) ["inner", "term"] ∧
      Mentions expr ["term", "expr"] := by
  refine ⟨⟨refersTo_factor ⟨_, by simp, rfl⟩, ?_⟩,
    ⟨refersTo_term ⟨_, by simp, rfl⟩ ⟨_, by simp, rfl⟩, ?_⟩,
    ⟨refersTo_expr ⟨_, by simp, rfl⟩ ⟨_, by simp, rfl⟩, ?_⟩⟩
  · simp only [List.forall_mem_singleton]
    exact fun h => h.2.1.2 rfl
  · simp only [List.forall_mem_cons, List.not_mem_nil, false_implies, implies_true, and_true]
    exact ⟨fun h => h.1.2.1.2 rfl, fun h => (h.2 0).1.1.2 rfl⟩
  · simp only [List.forall_mem_cons, List.not_mem_nil, false_implies, implies_true, and_true]
    exact ⟨fun h => h.1 rfl, fun h => (h.2 0).1.1.2 rfl⟩

end Parsing.Arithmetic
