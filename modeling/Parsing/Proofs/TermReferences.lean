import Parsing.Script.Term
import Parsing.Proofs.References

set_option autoImplicit false

/-! # What terms refer to

The arithmetic grammar is closed: its rules refer to each other only, at each level of a nesting
limit. The grammar of a term refers to what the free names of the term stand for, and to nothing
else (`Term.refersTo_grammarIn`), so a term without free names describes a closed grammar. -/

namespace Parsing

open Grammar

/-! ## The arithmetic rules -/

namespace Arithmetic

variable {ready : List String → List String} {S : Ref → Prop}

theorem refersTo_checked (v : Int) (expected : String) : (checked v expected).RefersTo ready S := by
  unfold checked
  split
  · exact trivial
  · exact trivial

theorem refersTo_factor {inner : Grammar Int Int} (h : inner.RefersTo ready S) :
    (factor inner).RefersTo ready S :=
  ⟨trivial, ⟨trivial, h⟩, trivial⟩

theorem refersTo_term {inner : Grammar Int Int} (h : inner.RefersTo ready S)
    (hterm : S (.name "term")) : (term inner).RefersTo ready S :=
  ⟨refersTo_factor h, fun _ => ⟨⟨⟨trivial, hterm⟩, trivial⟩, fun _ => refersTo_checked _ _⟩⟩

theorem refersTo_expr (hexpr : S (.name "expr")) (hterm : S (.name "term")) :
    expr.RefersTo ready S :=
  ⟨hterm, fun _ => ⟨⟨⟨trivial, hexpr⟩, trivial⟩, fun _ => refersTo_checked _ _⟩⟩

/-- Where both rules are ready, nothing else is referred to but by what stands in parentheses. -/
theorem refersTo_rulesOver {inner : Grammar Int Int}
    (hexpr : "expr" ∈ ready ["expr", "term"]) (hterm : "term" ∈ ready ["expr", "term"])
    (h : inner.RefersTo ready (Ref.inside S ["expr", "term"] (ready ["expr", "term"])))
    (r : Rule) : (rulesOver inner r).RefersTo ready S := by
  have hexpr' : Ref.inside S ["expr", "term"] (ready ["expr", "term"]) (.name "expr") := by
    simpa [Ref.inside] using hexpr
  have hterm' : Ref.inside S ["expr", "term"] (ready ["expr", "term"]) (.name "term") := by
    simpa [Ref.inside] using hterm
  refine ⟨fun x => ?_, ?_⟩
  · by_cases hx : x = "expr"
    · simp only [if_pos hx]
      exact refersTo_expr hexpr' hterm'
    · simp only [if_neg hx]
      exact refersTo_term h hterm'
  · cases r with
    | expr => exact hexpr'
    | term => exact hterm'
    | factor => exact refersTo_factor h

theorem refersTo_nested (hexpr : "expr" ∈ ready ["expr", "term"])
    (hterm : "term" ∈ ready ["expr", "term"]) (depth : Nat) : (nested depth).RefersTo ready S := by
  induction depth generalizing S with
  | zero => exact trivial
  | succ depth ih => exact ⟨trivial, fun _ => refersTo_rulesOver hexpr hterm ih .expr⟩

/-- The grammar is closed. -/
theorem refersTo_grammar (hexpr : "expr" ∈ ready ["expr", "term"])
    (hterm : "term" ∈ ready ["expr", "term"]) (limit : Option Nat) (r : Rule) :
    (grammar limit r).RefersTo ready S := by
  cases limit with
  | none =>
      refine refersTo_rulesOver hexpr hterm ?_ r
      show Ref.inside S _ _ (.name "expr")
      simpa [Ref.inside] using hexpr
  | some depth => exact refersTo_rulesOver hexpr hterm (refersTo_nested hexpr hterm depth) r

theorem refersTo_config (hexpr : "expr" ∈ ready ["expr", "term"])
    (hterm : "term" ∈ ready ["expr", "term"]) (config : Config) :
    config.grammar.RefersTo ready S := by
  unfold Config.grammar
  dsimp only
  split
  · exact refersTo_grammar hexpr hterm _ .expr
  · exact ⟨refersTo_grammar hexpr hterm _ .expr, trivial⟩

end Arithmetic

/-! ## Terms -/

namespace Script

section Choices

variable {ready : List String → List String} {S : Ref → Prop}

theorem refersTo_times {p : Rules} (h : p.RefersTo ready S) (n : Nat) :
    (times p n).RefersTo ready S := by
  induction n with
  | zero => exact trivial
  | succ n ih => exact ⟨ih, h⟩

theorem refersTo_unionAll {ps : List Rules} (h : ∀ p ∈ ps, p.RefersTo ready S) :
    (unionAll ps).RefersTo ready S := by
  induction ps with
  | nil => exact trivial
  | cons p ps ih =>
      exact ⟨h p List.mem_cons_self, ih fun q hq => h q (List.mem_cons_of_mem p hq)⟩

/-- What is chosen is nothing or a member of the list. -/
theorem chosen_mem (ps : List Rules) (x : Value) : chosen ps x = .never ∨ chosen ps x ∈ ps := by
  unfold chosen
  cases hp : ps[(x.toNumber % (ps.length : Int)).toNat]? with
  | none => exact .inl rfl
  | some p => exact .inr (List.mem_of_getElem? hp)

theorem refersTo_chosen {ps : List Rules} (h : ∀ p ∈ ps, p.RefersTo ready S) (x : Value) :
    (chosen ps x).RefersTo ready S := by
  rcases chosen_mem ps x with hx | hx
  · rw [hx]
    exact trivial
  · exact h _ hx

/-- What a name is bound to is nothing or one of the rules. -/
theorem lookupLast_mem (rules : List (String × Rules)) (x : String) :
    lookupLast rules x = .never ∨ (x, lookupLast rules x) ∈ rules := by
  unfold lookupLast
  cases hp : rules.reverse.lookup x with
  | none => exact .inl rfl
  | some p =>
      obtain ⟨l, r, heq, _⟩ := List.lookup_eq_some_iff.1 hp
      have hmem : (x, p) ∈ rules.reverse := by simp [heq]
      exact .inr (List.mem_reverse.1 hmem)

theorem refersTo_lookupLast {rules : List (String × Rules)}
    (h : ∀ e ∈ rules, e.2.RefersTo ready S) (x : String) :
    (lookupLast rules x).RefersTo ready S := by
  rcases lookupLast_mem rules x with hx | hx
  · rw [hx]
    exact trivial
  · exact h _ hx

end Choices

section Terms

variable {ready : List String → List String} {free : String → Rules}

mutual

/-- The grammar of a term refers to what its free names stand for. -/
theorem Term.refersTo_grammarIn {S : Ref → Prop} {bound : List String}
    (hready : ∀ names x, x ∈ names → x ∈ ready names)
    (hbound : ∀ x ∈ bound, S (.name x)) :
    (t : Term) → (∀ x ∈ t.freeNames bound, (free x).RefersTo ready S) →
      (t.grammarIn free bound).RefersTo ready S
  | .succeed _, _ => trivial
  | .fail _, _ => trivial
  | .satisfy _, _ => trivial
  | .character _, _ => trivial
  | .digit, _ => trivial
  | .decimalDigit, _ => trivial
  | .anyChar, _ => trivial
  | .endOfInput, _ => trivial
  | .oneOf _, _ => trivial
  | .literal _, _ => trivial
  | .never, _ => trivial
  | .bind p next, h => by
      simp only [Term.freeNames, List.forall_mem_append] at h
      exact ⟨p.refersTo_grammarIn hready hbound h.1, next.refersTo_grammarIn hready hbound h.2⟩
  | .map _ p, h => p.refersTo_grammarIn hready hbound h
  | .orElse p q, h => by
      simp only [Term.freeNames, List.forall_mem_append] at h
      exact ⟨p.refersTo_grammarIn hready hbound h.1, q.refersTo_grammarIn hready hbound h.2⟩
  | .many p, h => p.refersTo_grammarIn hready hbound h
  | .many1 p, h => p.refersTo_grammarIn hready hbound h
  | .pair p q, h => by
      simp only [Term.freeNames, List.forall_mem_append] at h
      exact ⟨p.refersTo_grammarIn hready hbound h.1, q.refersTo_grammarIn hready hbound h.2⟩
  | .thenIgnore p q, h => by
      simp only [Term.freeNames, List.forall_mem_append] at h
      exact ⟨p.refersTo_grammarIn hready hbound h.1, q.refersTo_grammarIn hready hbound h.2⟩
  | .ignoreThen p q, h => by
      simp only [Term.freeNames, List.forall_mem_append] at h
      exact ⟨p.refersTo_grammarIn hready hbound h.1, q.refersTo_grammarIn hready hbound h.2⟩
  | .optional p, h => ⟨p.refersTo_grammarIn hready hbound h, trivial⟩
  | .sepBy p separator, h => by
      simp only [Term.freeNames, List.forall_mem_append] at h
      have hp := p.refersTo_grammarIn hready hbound h.1
      exact ⟨⟨hp, separator.refersTo_grammarIn hready hbound h.2, hp⟩, trivial⟩
  | .chainl1 item op _, h => by
      simp only [Term.freeNames, List.forall_mem_append] at h
      have hitem := item.refersTo_grammarIn hready hbound h.1
      exact ⟨hitem, op.refersTo_grammarIn hready hbound h.2, hitem⟩
  | .label _ p, h => p.refersTo_grammarIn hready hbound h
  | .note _ p, h => p.refersTo_grammarIn hready hbound h
  | .look p, h => p.refersTo_grammarIn hready hbound h
  | .ref x, h => by
      by_cases hx : x ∈ bound
      · simp only [Term.grammarIn, if_pos hx]
        exact hbound x hx
      · simp only [Term.freeNames, if_neg hx, List.mem_singleton, forall_eq] at h
        simp only [Term.grammarIn, if_neg hx]
        exact h
  | .recursive x body, h => by
      have hinside := Ref.inside_of_mem_append hready [x] hbound
      refine ⟨fun _ => body.refersTo_grammarIn hready hinside fun y hy => ?_, hinside x (by simp)⟩
      exact (h y hy).mono (Ref.inside_of_ready hready)
  | .letrec definitions main, h => by
      simp only [Term.freeNames, List.forall_mem_append] at h
      have hinside := Ref.inside_of_mem_append hready (definitions.map Prod.fst) hbound
      constructor
      · refine refersTo_lookupLast (refersTo_definitionGrammars hready hinside _ fun y hy => ?_)
        exact (h.1 y hy).mono (Ref.inside_of_ready hready)
      · refine main.refersTo_grammarIn hready hinside fun y hy => ?_
        exact (h.2 y hy).mono (Ref.inside_of_ready hready)
  | .unionAll ps, h => refersTo_unionAll (refersTo_termGrammars hready hbound ps h)
  | .arithmetic rule limit, _ =>
      Arithmetic.refersTo_grammar (hready _ _ (by simp)) (hready _ _ (by simp)) limit rule
  | .evaluator settings, _ =>
      Arithmetic.refersTo_config (hready _ _ (by simp)) (hready _ _ (by simp)) _

theorem Continuation.refersTo_grammarIn {S : Ref → Prop} {bound : List String}
    (hready : ∀ names x, x ∈ names → x ∈ ready names)
    (hbound : ∀ x ∈ bound, S (.name x)) :
    (next : Continuation) → (∀ x ∈ next.freeNames bound, (free x).RefersTo ready S) →
      ∀ v, (next.grammarIn free bound v).RefersTo ready S
  | .succeed, _, _ => trivial
  | .fail, _, _ => trivial
  | .same, _, _ => trivial
  | .const p, h, _ => p.refersTo_grammarIn hready hbound h
  | .count p, h, v => refersTo_times (p.refersTo_grammarIn hready hbound h) (repetitions v)
  | .select ps, h, v => refersTo_chosen (refersTo_termGrammars hready hbound ps h) v
  | .when eq p q, h, v => by
      simp only [Continuation.freeNames, List.forall_mem_append] at h
      simp only [Continuation.grammarIn]
      split
      · exact p.refersTo_grammarIn hready hbound h.1
      · exact q.refersTo_grammarIn hready hbound h.2
  | .fold _ p, h, _ => p.refersTo_grammarIn hready hbound h

theorem refersTo_termGrammars {S : Ref → Prop} {bound : List String}
    (hready : ∀ names x, x ∈ names → x ∈ ready names)
    (hbound : ∀ x ∈ bound, S (.name x)) :
    (ps : List Term) → (∀ x ∈ termFreeNames bound ps, (free x).RefersTo ready S) →
      ∀ p ∈ termGrammars free bound ps, p.RefersTo ready S
  | [], _ => by simp [termGrammars]
  | p :: ps, h => by
      simp only [termFreeNames, List.forall_mem_append] at h
      simp only [termGrammars, List.forall_mem_cons]
      exact ⟨p.refersTo_grammarIn hready hbound h.1, refersTo_termGrammars hready hbound ps h.2⟩

theorem refersTo_definitionGrammars {S : Ref → Prop} {bound : List String}
    (hready : ∀ names x, x ∈ names → x ∈ ready names)
    (hbound : ∀ x ∈ bound, S (.name x)) :
    (ds : List (String × Term)) → (∀ x ∈ definitionFreeNames bound ds, (free x).RefersTo ready S) →
      ∀ e ∈ definitionGrammars free bound ds, e.2.RefersTo ready S
  | [], _ => by simp [definitionGrammars]
  | (x, p) :: ds, h => by
      simp only [definitionFreeNames, List.forall_mem_append] at h
      simp only [definitionGrammars, List.forall_mem_cons]
      have hrest := refersTo_definitionGrammars hready hbound ds h.2
      exact ⟨p.refersTo_grammarIn hready hbound h.1, hrest⟩

end

end Terms

/-- A term without free names describes a closed grammar. -/
theorem Term.refersTo_of_freeNames {ready : List String → List String}
    (hready : ∀ names x, x ∈ names → x ∈ ready names) {t : Term} (ht : t.freeNames [] = []) :
    t.grammar.RefersTo ready fun _ => False := by
  refine t.refersTo_grammarIn hready (fun x hx => absurd hx List.not_mem_nil) fun x hx => ?_
  rw [ht] at hx
  exact absurd hx List.not_mem_nil

end Script

end Parsing
