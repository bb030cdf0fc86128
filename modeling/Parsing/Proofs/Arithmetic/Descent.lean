import Parsing.Proofs.Arithmetic.Nesting

set_option autoImplicit false

/-! # The descent comes to an end

An application of a rule applies other rules, and these apply rules again. Here they are applied as
the rules say and no matter where (`body`), but no more than a given number of them one inside the
other, and none inside itself unless it starts further on (`descend`). Anything else is a fault.

No fault is met (`descend_eq`). A rule applies rules of lower rank where it starts itself: a sum its
first term, a term its first factor. All others start behind a character that has been read, be it
an operator or a parenthesis. So at each place at most three rules are under way, whatever the text
and the limit of nesting, and the depth that a text needs is linear in what is unread. -/

namespace Parsing.Arithmetic

/-! ## One application of a rule -/

section Body

/-- What stands between parentheses: a sum with one level less to go. -/
def inside (apply : Option Nat → Rule → Parser Int) : Option Nat → Parser Int
  | none => apply none .expr
  | some 0 => .fail "expression within nesting limit"
  | some (depth + 1) => .bind (.record rulesRecords) fun _ => apply (some depth) .expr

/-- The rule `r`, where `apply` is told the limit and gives the rules that `r` applies in turn. -/
def body (apply : Option Nat → Rule → Parser Int) (limit : Option Nat) : (r : Rule) → Parser Int
  | .expr => exprParser (apply limit .term) (apply limit .expr)
  | .term => chain '*' (· * ·) 1 "product within i64 range" (apply limit .factor) (apply limit .term)
  | .factor => factorParser (inside apply limit)

/-- The rules of the grammar apply each other. -/
theorem parser_eq_body (limit : Option Nat) (r : Rule) :
    (grammar limit r).parser = body (fun l q => (grammar l q).parser) limit r := by
  cases limit with
  | none =>
      cases r with
      | expr => exact parser_expr local_expr
      | term => exact parser_term local_expr
      | factor => rfl
  | some depth =>
      cases r with
      | expr => exact parser_expr (local_nested depth)
      | term => exact parser_term (local_nested depth)
      | factor => cases depth <;> rfl

/-- The number of rules that can be under way at one place, the first of which is `r`. -/
def Rule.rank : Rule → Nat
  | .factor => 1
  | .term => 2
  | .expr => 3

variable {apply apply' : Option Nat → Rule → Parser Int} {c : Cursor}

theorem inside_congr (h : ∀ l, apply l .expr c = apply' l .expr c) (limit : Option Nat) :
    inside apply limit c = inside apply' limit c := by
  match limit with
  | none => exact h none
  | some 0 => rfl
  | some (depth + 1) =>
      have hrecord : (Parser.record rulesRecords c).outcome.successes = [⟨(), c⟩] := rfl
      simp only [inside]
      refine Parser.bind_congr rfl fun x hx => ?_
      rw [hrecord, List.mem_singleton] at hx
      rw [hx]
      exact h (some depth)

/-- An application at `c` applies rules of lower rank at `c`, and any rules further on. -/
theorem body_congr {r : Rule} (hadvances : ∀ l q, (apply' l q).Advances)
    (hlower : ∀ l q, q.rank < r.rank → apply l q c = apply' l q c)
    (hfurther : ∀ l q d, c.Reaches d → d.length < c.length → apply l q d = apply' l q d)
    (limit : Option Nat) : body apply limit r c = body apply' limit r c := by
  cases r with
  | expr =>
      exact chain_congr (hlower limit .term (by decide)) (hadvances limit .term)
        (hfurther limit .expr)
  | term =>
      exact chain_congr (hlower limit .factor (by decide)) (hadvances limit .factor)
        (hfurther limit .term)
  | factor =>
      exact factorParser_congr fun d hd hlt =>
        inside_congr (fun l => hfurther l .expr d hd hlt) limit

end Body

/-! ## Bounded descent -/

/-- The rule `r`, applied inside the applications `under`, each a rule and the offset where it was
    applied. At most `depth` applications may be under way one inside the other from here on, and
    `r` has to start further on than each application of `r` that it is inside of. -/
def descend : (depth : Nat) → (under : List (Rule × Nat)) → Option Nat → Rule → Parser Int
  | 0, _, _, _ => fun _ => .faulty .leftRecursion
  | depth + 1, under, limit, r => fun c =>
    if ∀ q ∈ under, q.1 = r → q.2 < c.offset then
      body (descend depth ((r, c.offset) :: under)) limit r c
    else .faulty .leftRecursion

theorem descend_succ {depth : Nat} {under : List (Rule × Nat)} {r : Rule} {c : Cursor}
    (h : ∀ q ∈ under, q.1 = r → q.2 < c.offset) (limit : Option Nat) :
    descend (depth + 1) under limit r c
      = body (descend depth ((r, c.offset) :: under)) limit r c :=
  if_pos h

theorem advances_grammar (limit : Option Nat) (r : Rule) : (grammar limit r).parser.Advances :=
  (grammar limit r).advances_parserIn Grammar.advances_empty

/-- **The descent comes to an end.** Three applications for each unread character are enough, and
    the rank of the rule for the place where it starts. -/
theorem descend_eq (limit : Option Nat) (r : Rule) (c : Cursor) (depth : Nat)
    (under : List (Rule × Nat)) (hdepth : 3 * c.length + r.rank ≤ depth)
    (hunder : ∀ q ∈ under, q.2 < c.offset ∨ q.2 = c.offset ∧ r.rank < q.1.rank) :
    descend depth under limit r c = (grammar limit r).parser c := by
  induction depth generalizing limit r c under with
  | zero => cases r <;> simp [Rule.rank] at hdepth
  | succ depth ih =>
      have hcheck : ∀ q ∈ under, q.1 = r → q.2 < c.offset := by
        rintro q hq rfl
        exact (hunder q hq).resolve_right fun h => Nat.lt_irrefl _ h.2
      rw [descend_succ hcheck, parser_eq_body]
      refine body_congr advances_grammar (fun l q hq => ?_) (fun l q d hd hlt => ?_) limit
      · refine ih l q c _ (by omega) fun q' hq' => ?_
        rcases List.mem_cons.1 hq' with rfl | hq'
        · exact .inr ⟨rfl, hq⟩
        · exact (hunder q' hq').imp_right fun h => ⟨h.1, Nat.lt_trans hq h.2⟩
      · have hoffset : c.offset < d.offset := hd.offset_lt_iff.2 hlt
        have hrank : q.rank ≤ 3 := by cases q <;> decide
        have hpositive : 1 ≤ r.rank := by cases r <;> decide
        refine ih l q d _ (by omega) fun q' hq' => .inl ?_
        rcases List.mem_cons.1 hq' with rfl | hq'
        · exact hoffset
        · rcases hunder q' hq' with h | h
          · exact Nat.lt_trans h hoffset
          · exact h.1 ▸ hoffset

/-- **Every application of a rule comes to an end.** With any limit of nesting or none, and at any
    place of any text, three applications one inside the other for each unread character, and three
    more, are enough for the rule's run. All of them that apply one rule start further and further
    on, and no fault is met. -/
theorem rules_terminate (limit : Option Nat) (r : Rule) (c : Cursor) (depth : Nat)
    (h : 3 * (c.length + 1) ≤ depth) :
    descend depth [] limit r c = (grammar limit r).parser c ∧
      (∀ f, .fault f ∉ (descend depth [] limit r c).events) ∧
      (descend depth [] limit r c).settle.2 = .ok ((grammar limit r).parser c).outcome := by
  have hrank : r.rank ≤ 3 := by cases r <;> decide
  have heq : descend depth [] limit r c = (grammar limit r).parser c :=
    descend_eq limit r c depth [] (by omega) fun q hq => absurd hq List.not_mem_nil
  refine ⟨heq, fun f hf => ?_, ?_⟩
  · rw [heq] at hf
    obtain ⟨x, hx⟩ := emits_grammar limit r c _ hf
    cases hx
  · rw [heq]
    exact settle_grammar limit r c

/-- A sum whose parenthesis is not closed. Nothing can be read, and it takes two characters to see
    that: nine applications are enough, of which three start at the end. -/
theorem rules_terminate_unclosed :
    descend 9 [] (some 1) .expr (.ofString "(1") = (grammar (some 1) .expr).parser (.ofString "(1") ∧
      (descend 9 [] (some 1) .expr (.ofString "(1")).outcome.successes = [] ∧
      (descend 9 [] (some 1) .expr (.ofString "(1")).settle.2
        = .ok ((grammar (some 1) .expr).parser (.ofString "(1")).outcome := by
  obtain ⟨hparser, -, hsettle⟩ := rules_terminate (some 1) .expr (.ofString "(1") 9 (by decide)
  exact ⟨hparser, by decide, hsettle⟩

/-- With fewer the descent stops: behind `(` the sum, its term and its factor are under way twice.
    It stops, too, where a sum is under way already at the place where it starts. -/
example :
    (descend 6 [] none .expr (.ofString "(")).events = [] ∧
      (descend 5 [] none .expr (.ofString "(")).events = [.fault .leftRecursion] ∧
      (descend 6 [(.expr, 0)] none .expr (.ofString "(")).events = [.fault .leftRecursion] := by
  decide

end Parsing.Arithmetic
