import Parsing.Arithmetic.Rules
import Parsing.Proofs.Knot
import Parsing.Proofs.Suffix

set_option autoImplicit false

/-! # The arithmetic rules unfolded

The grammar ties `expr` and `term` by names. As parsers they satisfy the equations that the names
suggest: a sum is a chain of terms, a product a chain of factors (`parser_expr`, `parser_term`,
`parser_factor`). The equations are between parsers, so they hold of whole runs: successes,
failures and events.

They hold whatever stands between parentheses, as long as it looks up no rule but `expr`, and that
one where it starts itself (`Local`). So they cover the grammar without a nesting limit and each
level of the grammar with one. -/

namespace Parsing.Arithmetic

open Grammar

/-! ## Chains -/

/-- Gives `v` if it is in range; otherwise `expected` is reported. -/
def checkedParser (v : Int) (expected : String) : Parser Int :=
  if InRange v then .succeed v else .fail expected

/-- An operand and, behind `op`, the rest of the chain. Where no rest can be read, `unit` stands
    for it and nothing is read. -/
def chain (op : Char) (join : Int → Int → Int) (unit : Int) (expected : String)
    (operand rest : Parser Int) : Parser Int :=
  .bind operand fun left =>
    .bind (.orElse (.ignoreThen (.character op) rest) (.succeed unit)) fun right =>
      checkedParser (join left right) expected

/-- A digit, or `inner` between parentheses. -/
def factorParser (inner : Parser Int) : Parser Int :=
  .orElse (.map Int.ofNat .decimalDigit)
    (.thenIgnore (.ignoreThen (.character '(') inner) (.character ')'))

/-- A chain of factors, multiplied. -/
def termParser (inner rest : Parser Int) : Parser Int :=
  chain '*' (· * ·) 1 "product within i64 range" (factorParser inner) rest

/-- A chain of terms, added. -/
def exprParser (operand rest : Parser Int) : Parser Int :=
  chain '+' (· + ·) 0 "sum within i64 range" operand rest

theorem parserIn_checked (v : Int) (expected : String) (env : Env Int) :
    (checked v expected).parserIn env = checkedParser v expected := by
  unfold checked checkedParser
  split <;> rfl

theorem parserIn_term (inner : Grammar Int Int) (env : Env Int) :
    (term inner).parserIn env = termParser (inner.parserIn env) (env (.name "term")) := by
  simp only [term, parserIn, parserIn_checked]
  rfl

theorem parserIn_expr (env : Env Int) :
    expr.parserIn env = exprParser (env (.name "term")) (env (.name "expr")) := by
  simp only [expr, parserIn, parserIn_checked]
  rfl

/-! ## What decides a run -/

theorem length_lt_of_mem_charWhere {test : Char → Bool} {label : String} {c : Cursor}
    {x : Success Char} (hx : x ∈ (Parser.charWhere test label c).outcome.successes) :
    x.rest.length < c.length := by
  cases h : c.unread with
  | nil =>
      rw [Parser.charWhere_of_nil test label h] at hx
      exact absurd hx List.not_mem_nil
  | cons y ys =>
      rw [Parser.charWhere_of_cons test label h] at hx
      split at hx
      · rw [Parser.successes_succeed, List.mem_singleton] at hx
        rw [hx]
        exact Cursor.length_next_lt h
      · exact absurd hx List.not_mem_nil

/-- A factor looks further only behind a parenthesis. -/
theorem factorParser_congr {inner inner' : Parser Int} {c : Cursor}
    (h : ∀ d : Cursor, c.Reaches d → d.length < c.length → inner d = inner' d) :
    factorParser inner c = factorParser inner' c := by
  refine Parser.orElse_congr rfl (Parser.sequence_congr (Parser.sequence_congr rfl ?_) ?_)
  · intro x hx
    exact h x.rest (Parser.advances_charWhere _ _ c x hx) (length_lt_of_mem_charWhere hx)
  · intro x _
    rfl

/-- A chain goes on only behind its operator. -/
theorem chain_congr {op : Char} {join : Int → Int → Int} {unit : Int} {expected : String}
    {operand operand' rest rest' : Parser Int} {c : Cursor} (hoperand : operand c = operand' c)
    (hadvances : operand'.Advances)
    (h : ∀ d : Cursor, c.Reaches d → d.length < c.length → rest d = rest' d) :
    chain op join unit expected operand rest c = chain op join unit expected operand' rest' c := by
  refine Parser.bind_congr hoperand fun x hx => Parser.bind_congr ?_ fun _ _ => rfl
  refine Parser.orElse_congr (Parser.sequence_congr rfl fun y hy => ?_) rfl
  have hreaches : c.Reaches x.rest := hadvances c x hx
  have hlt : y.rest.length < x.rest.length := length_lt_of_mem_charWhere hy
  exact h y.rest (hreaches.trans (Parser.advances_charWhere _ _ x.rest y hy))
    (Nat.lt_of_lt_of_le hlt hreaches.length_le)

/-! ## Tied rules -/

/-- The names that the rules go by. -/
def names : List String := ["expr", "term"]

/-- The bodies of the rules, as parsers over what the names stand for. -/
def bodies (inner : Grammar Int Int) (self : String → Parser Int) (x : String) : Parser Int :=
  (if x = "expr" then expr else term inner).parserIn (Env.empty.extend names self)

/-- What the names stand for. -/
def tied (inner : Grammar Int Int) : String → Parser Int := .knot names (bodies inner)

/-- What stands between parentheses, as a parser. -/
def innerParser (inner : Grammar Int Int) : Parser Int :=
  inner.parserIn (Env.empty.extend names (tied inner))

/-- `inner` looks up no rule but `expr`, and that one only where it starts itself. -/
def Local (inner : Grammar Int Int) : Prop :=
  ∀ (self self' : String → Parser Int) (c : Cursor), self "expr" c = self' "expr" c →
    inner.parserIn (Env.empty.extend names self) c
      = inner.parserIn (Env.empty.extend names self') c

theorem bodies_expr (inner : Grammar Int Int) (self : String → Parser Int) :
    bodies inner self "expr" = exprParser (self "term") (self "expr") := by
  rw [bodies, if_pos rfl, parserIn_expr]
  rfl

theorem bodies_term (inner : Grammar Int Int) (self : String → Parser Int) :
    bodies inner self "term"
      = termParser (inner.parserIn (Env.empty.extend names self)) (self "term") := by
  rw [bodies, if_neg (by decide), parserIn_term]
  rfl

theorem advances_tied (inner : Grammar Int Int) (x : String) : (tied inner x).Advances :=
  Parser.advances_knot (fun _ hself _ =>
    advances_parserIn _ (advances_extend advances_empty hself)) x

theorem advances_innerParser (inner : Grammar Int Int) : (innerParser inner).Advances :=
  advances_parserIn inner (advances_extend advances_empty (advances_tied inner))

theorem advances_factorParser {inner : Parser Int} (h : inner.Advances) :
    (factorParser inner).Advances := by
  have hdigit : (Parser.map Int.ofNat Parser.decimalDigit).Advances :=
    Parser.advances_map _ (Parser.advances_map _ (Parser.advances_charWhere _ _))
  have hopen : (Parser.ignoreThen (Parser.character '(') inner).Advances :=
    Parser.advances_sequence _ (Parser.advances_charWhere _ _) h
  exact Parser.advances_orElse hdigit
    (Parser.advances_sequence _ hopen (Parser.advances_charWhere _ _))

/-- Entering `term` is reading a product, whichever rules have been entered at its place: a
    product refers to rules only behind its first character. -/
theorem enter_term {inner : Grammar Int Int} (hinner : Local inner) (entered : List String)
    (c : Cursor) :
    Parser.enter names (bodies inner) c.length entered "term" c
      = termParser (innerParser inner) (tied inner "term") c := by
  rw [Parser.enter_eq, bodies_term]
  refine chain_congr (factorParser_congr fun d _ hd => hinner _ _ d ?_)
    (advances_factorParser (advances_innerParser inner)) fun d _ hd => ?_
  · exact Parser.reference_of_lt entered "expr" hd
  · exact Parser.reference_of_lt entered "term" hd

theorem tied_term {inner : Grammar Int Int} (hinner : Local inner) :
    tied inner "term" = termParser (innerParser inner) (tied inner "term") := by
  funext c
  exact enter_term hinner ["term"] c

theorem tied_expr {inner : Grammar Int Int} (hinner : Local inner) :
    tied inner "expr" = exprParser (tied inner "term") (tied inner "expr") := by
  funext c
  rw [tied, Parser.knot_eq, bodies_expr]
  refine chain_congr ?_ (advances_tied inner "term") fun d _ hd => ?_
  -- The first term is entered at the same place, further terms behind a `+`.
  · rw [Parser.reference_of_fresh (by decide) (by decide), enter_term hinner, ← tied_term hinner]
    rfl
  · exact Parser.reference_of_lt ["expr"] "expr" hd

/-! ## The rules as parsers -/

/-- A sum is a chain of terms. -/
theorem parser_expr {inner : Grammar Int Int} (hinner : Local inner) :
    (rulesOver inner .expr).parser
      = exprParser (rulesOver inner .term).parser (rulesOver inner .expr).parser :=
  tied_expr hinner

/-- A product is a chain of factors. -/
theorem parser_term {inner : Grammar Int Int} (hinner : Local inner) :
    (rulesOver inner .term).parser
      = termParser (innerParser inner) (rulesOver inner .term).parser :=
  tied_term hinner

/-- A factor is a digit or stands between parentheses. -/
theorem parser_factor (inner : Grammar Int Int) :
    (rulesOver inner .factor).parser = factorParser (innerParser inner) := rfl

theorem local_expr : Local (ref (.name "expr")) := by
  intro self self' c h
  exact h

/-- To show something of all runs of the rules, it is enough to carry it from the parts of a run
    to the run: to a factor from the sums where less is unread, to a chain from its operand and
    from the chains where less is unread. -/
theorem rule_induction {inner : Grammar Int Int} (hinner : Local inner)
    {P : Rule → Cursor → Run Int → Prop}
    (factor : ∀ c : Cursor,
      (∀ d : Cursor, d.length < c.length → P .expr d ((rulesOver inner .expr).parser d)) →
        P .factor c (factorParser (innerParser inner) c))
    (term : ∀ c : Cursor, P .factor c (factorParser (innerParser inner) c) →
      (∀ d : Cursor, d.length < c.length → P .term d ((rulesOver inner .term).parser d)) →
        P .term c (termParser (innerParser inner) (rulesOver inner .term).parser c))
    (expr : ∀ c : Cursor, P .term c ((rulesOver inner .term).parser c) →
      (∀ d : Cursor, d.length < c.length → P .expr d ((rulesOver inner .expr).parser d)) →
        P .expr c (exprParser (rulesOver inner .term).parser (rulesOver inner .expr).parser c))
    (r : Rule) (c : Cursor) : P r c ((rulesOver inner r).parser c) := by
  induction hn : c.length using Nat.strongRecOn generalizing r c with
  | ind n ih =>
      subst hn
      have hrest : ∀ (r : Rule) (d : Cursor), d.length < c.length →
          P r d ((rulesOver inner r).parser d) := fun r d hd => ih d.length hd r d rfl
      have hfactor : P .factor c (factorParser (innerParser inner) c) := factor c (hrest .expr)
      -- At one place a sum reads a product first, and a product a factor: in this order the rules
      -- that start at `c` are shown.
      have hterm : P .term c ((rulesOver inner .term).parser c) := by
        rw [parser_term hinner]
        exact term c hfactor (hrest .term)
      cases r with
      | factor =>
          rw [parser_factor]
          exact hfactor
      | term => exact hterm
      | expr =>
          rw [parser_expr hinner]
          exact expr c hterm (hrest .expr)

end Parsing.Arithmetic
