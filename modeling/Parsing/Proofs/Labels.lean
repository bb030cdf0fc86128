import Parsing.Proofs.Simulation

set_option autoImplicit false

/-! # Labels are for diagnostics only

`unlabelled` takes all labels off a grammar: what is labelled stays as it is without the label, and
failures and notes expect the empty label. Two grammars differ in their labels only if they are the
same without them. Such grammars read alike: they have the same successes, they fail at the same
places, and they meet the same events (`sameButLabels_of_unlabelled_eq`); what was expected there
may differ. Scripted terms and workspaces lose their labels in the same way.

Each parser is related to the one without labels by the simulation `exceptLabels`, for which all
labels are equal. -/

namespace Parsing

variable {ρ α β γ : Type}

/-! ## Grammars without labels -/

namespace Grammar

/-- The grammar without the labels that name its parts, and with empty ones for its failures. -/
def unlabelled : {ρ α : Type} → Grammar ρ α → Grammar ρ α
  | _, _, .succeed v => .succeed v
  | _, _, .fail _ => .fail ""
  | _, _, .never => .never
  | _, _, .charWhere test _ => .charWhere test ""
  | _, _, .literal text => .literal text
  | _, _, .endOfInput => .endOfInput
  | _, _, .record records => .record records
  | _, _, .bind p f => .bind p.unlabelled fun a => (f a).unlabelled
  | _, _, .map f p => .map f p.unlabelled
  | _, _, .orElse p q => .orElse p.unlabelled q.unlabelled
  | _, _, .sequence join p q => .sequence join p.unlabelled q.unlabelled
  | _, _, .union p q => .union p.unlabelled q.unlabelled
  | _, _, .many p => .many p.unlabelled
  | _, _, .many1 p => .many1 p.unlabelled
  | _, _, .label _ p => p.unlabelled
  | _, _, .note _ p => .note "" p.unlabelled
  | _, _, .look p => .look p.unlabelled
  | _, _, .ref r => .ref r
  | _, _, .letrec names rule main => .letrec names (fun x => (rule x).unlabelled) main.unlabelled
  | _, _, .closed p => .closed p.unlabelled

end Grammar

/-! ## Runs that differ in labels only -/

/-- What a failure tells apart from labels. -/
def Failure.place (f : Failure) : Position × Option Char := (f.position, f.found)

@[simp] theorem Failure.place_relabel (c : Cursor) (name : String) (f : Failure) :
    (f.relabel c name).place = f.place := by
  rw [place, place, position_relabel, found_relabel]

/-- The same successes, events, and place of the furthest failure if there is one. -/
structure Run.SameButLabels (r q : Run α) : Prop where
  successes : r.outcome.successes = q.outcome.successes
  furthest : r.outcome.furthest.map Failure.place = q.outcome.furthest.map Failure.place
  events : r.events = q.events

theorem Run.SameButLabels.trans_symm {r r' q : Run α} (h : r.SameButLabels q)
    (h' : r'.SameButLabels q) : r.SameButLabels r' where
  successes := h.successes.trans h'.successes.symm
  furthest := h.furthest.trans h'.furthest.symm
  events := h.events.trans h'.events.symm

namespace Simulation

/-- Cursors are related to themselves, and failures that tell the same apart from labels to each
    other. -/
def exceptLabels : Simulation where
  cursors c d := c = d
  failures f g := f.place = g.place
  unread_eq := by
    rintro c d rfl
    rfl
  next := by
    rintro c d rfl
    rfl
  missing := by
    rintro c d label rfl
    rfl
  merge := by
    rintro f g f' g' h h'
    -- The labels play no part in which of two failures is kept.
    obtain ⟨hposition, hfound⟩ := Prod.mk.inj h
    obtain ⟨hposition', hfound'⟩ := Prod.mk.inj h'
    simp only [Failure.merge, hposition, hposition']
    split
    · exact h
    · split
      · exact h'
      · exact congrArg₂ Prod.mk rfl hfound
  relabel := by
    rintro c d f g name rfl h
    rw [Failure.place_relabel, Failure.place_relabel]
    exact h

theorem failures_exceptLabels (label label' : String) (c d : Cursor)
    (h : exceptLabels.cursors c d) :
    exceptLabels.failures (.missing c label) (.missing d label') := by
  subst h
  rfl

theorem Runs.sameButLabels {r q : Run α} (h : exceptLabels.Runs r q) : r.SameButLabels q where
  successes := by
    have hmap : r.outcome.successes = q.outcome.successes.map fun y => ⟨y.value, id y.rest⟩ :=
      successes_eq_map (fun _ _ hcd => hcd) h.successes
    exact hmap.trans (List.map_id _)
  furthest := furthest_map_eq (fun _ _ hf => hf) h.furthest
  events := h.events

theorem Related.sameButLabels {p q : Parser α} (h : exceptLabels.Related p q) (c : Cursor) :
    (p c).SameButLabels (q c) :=
  (h c c rfl).sameButLabels

/-- A name may be taken off. -/
theorem related_label_left (name : String) {p q : Parser α} (h : exceptLabels.Related p q) :
    exceptLabels.Related (.label name p) q := by
  intro c d hcd
  have hrun : exceptLabels.Runs (p c) (q d) := h c d hcd
  refine ⟨hrun.successes, ?_, hrun.events⟩
  have hnamed : Option.Rel exceptLabels.failures
      ((p c).outcome.furthest.map (·.relabel c name)) ((q d).outcome.furthest.map id) :=
    rel_map (fun f _ hf => (Failure.place_relabel c name f).trans hf) hrun.furthest
  rwa [Option.map_id] at hnamed

/-- Every grammar is related to the one without labels. -/
theorem grammars_unlabelled (p : Grammar ρ α) : exceptLabels.Grammars p p.unlabelled := by
  induction p with
  | succeed v => exact grammars_self (.succeed v)
  | fail expected => exact fun _ _ _ => related_fail (failures_exceptLabels expected "")
  | never => exact grammars_self .never
  | charWhere test expected =>
      exact fun _ _ _ => related_charWhere test (failures_exceptLabels expected "")
  | literal text => exact grammars_self (.literal text)
  | endOfInput => exact grammars_self .endOfInput
  | record records => exact grammars_self (.record records)
  | bind p f ihp ihf => exact fun _ _ h => related_bind (ihp _ _ h) fun a => ihf a _ _ h
  | map f p ih => exact fun _ _ h => related_map f (ih _ _ h)
  | orElse p q ihp ihq => exact fun _ _ h => related_orElse (ihp _ _ h) (ihq _ _ h)
  | sequence join p q ihp ihq =>
      exact fun _ _ h => related_sequence join (ihp _ _ h) (ihq _ _ h)
  | union p q ihp ihq => exact fun _ _ h => related_union (ihp _ _ h) (ihq _ _ h)
  | many p ih => exact fun _ _ h => related_repeatFrom (ih _ _ h) []
  | many1 p ih => exact fun _ _ h => related_many1 (ih _ _ h)
  | label name p ih => exact fun _ _ h => related_label_left name (ih _ _ h)
  | note expected p ih =>
      exact fun _ _ h => related_note (failures_exceptLabels expected "") (ih _ _ h)
  | look p ih => exact fun _ _ h => related_look (ih _ _ h)
  | ref r => exact grammars_self (.ref r)
  | letrec names rule main ihrule ihmain => exact related_letrec ihrule ihmain
  | closed p ih => exact fun _ _ _ => ih _ _ related_empty

end Simulation

/-! ## Terms without labels -/

namespace Script

mutual

/-- The term without the labels that name its parts, and with empty ones for its failures. -/
def Term.unlabelled : Term → Term
  | .fail _ => .fail ""
  | .bind p next => .bind p.unlabelled next.unlabelled
  | .map change p => .map change p.unlabelled
  | .orElse p q => .orElse p.unlabelled q.unlabelled
  | .many p => .many p.unlabelled
  | .many1 p => .many1 p.unlabelled
  | .pair p q => .pair p.unlabelled q.unlabelled
  | .thenIgnore p q => .thenIgnore p.unlabelled q.unlabelled
  | .ignoreThen p q => .ignoreThen p.unlabelled q.unlabelled
  | .optional p => .optional p.unlabelled
  | .sepBy p separator => .sepBy p.unlabelled separator.unlabelled
  | .chainl1 item op fold => .chainl1 item.unlabelled op.unlabelled fold
  | .label _ p => p.unlabelled
  | .recursive x body => .recursive x body.unlabelled
  | .letrec definitions main => .letrec (unlabelledDefinitions definitions) main.unlabelled
  | .unionAll ps => .unionAll (unlabelledTerms ps)
  | .note _ p => .note "" p.unlabelled
  | .look p => .look p.unlabelled
  | t => t

/-- The continuation with the labels taken off its parsers. -/
def Continuation.unlabelled : Continuation → Continuation
  | .const p => .const p.unlabelled
  | .count p => .count p.unlabelled
  | .select ps => .select (unlabelledTerms ps)
  | .when eq p q => .when eq p.unlabelled q.unlabelled
  | .fold f p => .fold f p.unlabelled
  | k => k

/-- Every term of a list without labels. -/
def unlabelledTerms : List Term → List Term
  | [] => []
  | p :: ps => p.unlabelled :: unlabelledTerms ps

/-- Every definition of a list without labels. -/
def unlabelledDefinitions : List (String × Term) → List (String × Term)
  | [] => []
  | (x, p) :: ds => (x, p.unlabelled) :: unlabelledDefinitions ds

end

theorem fst_unlabelledDefinitions (ds : List (String × Term)) :
    (unlabelledDefinitions ds).map Prod.fst = ds.map Prod.fst := by
  induction ds with
  | nil => rfl
  | cons d ds ih =>
      obtain ⟨x, p⟩ := d
      rw [unlabelledDefinitions, List.map_cons, List.map_cons, ih]

/-! ### The grammar of a term loses its labels with the term -/

theorem unlabelled_times (p : Rules) (n : Nat) :
    Grammar.unlabelled (times p n) = times p.unlabelled n := by
  induction n with
  | zero => rfl
  | succ n ih =>
      show Grammar.map _ (Grammar.pair (times p n).unlabelled p.unlabelled) = _
      rw [ih]
      rfl

theorem unlabelled_chosen (ps : List Rules) (x : Value) :
    Grammar.unlabelled (chosen ps x) = chosen (ps.map Grammar.unlabelled) x := by
  rw [chosen, chosen, List.length_map, List.getElem?_map]
  cases ps[(x.toNumber % (ps.length : Int)).toNat]? <;> rfl

theorem unlabelled_unionAll (ps : List Rules) :
    (Grammar.unionAll ps).unlabelled = Grammar.unionAll (ps.map Grammar.unlabelled) := by
  induction ps with
  | nil => rfl
  | cons p ps ih =>
      show Grammar.union p.unlabelled (Grammar.unionAll ps).unlabelled = _
      rw [ih]
      rfl

theorem unlabelled_lookupLast (rules : List (String × Rules)) (x : String) :
    (lookupLast rules x).unlabelled = lookupLast (rules.map fun r => (r.1, r.2.unlabelled)) x := by
  rw [lookupLast, lookupLast, ← List.map_reverse, lookup_map_snd]
  cases rules.reverse.lookup x <;> rfl

section

variable (free : String → Rules)

mutual

theorem Term.unlabelled_grammarIn (bound : List String) (t : Term) :
    (t.unlabelled.grammarIn free bound).unlabelled = (t.grammarIn free bound).unlabelled := by
  cases t with
  | bind p next =>
      have hp := p.unlabelled_grammarIn bound
      have hnext := fun x => next.unlabelled_grammarIn bound x
      simp only [Term.unlabelled, Term.grammarIn, Grammar.unlabelled, hp, hnext]
  | map _ p | many p | many1 p | optional p | label _ p | note _ p | look p =>
      have hp := p.unlabelled_grammarIn bound
      simp only [Term.unlabelled, Term.grammarIn, Grammar.optional, Grammar.unlabelled, hp]
  | orElse p q | pair p q | thenIgnore p q | ignoreThen p q | sepBy p q | chainl1 p q _ =>
      have hp := p.unlabelled_grammarIn bound
      have hq := q.unlabelled_grammarIn bound
      simp only [Term.unlabelled, Term.grammarIn, Grammar.pair, Grammar.thenIgnore,
        Grammar.ignoreThen, Grammar.sepBy, Grammar.chainl1, Grammar.unlabelled, hp, hq]
  | recursive x body =>
      have hbody := body.unlabelled_grammarIn (x :: bound)
      simp only [Term.unlabelled, Term.grammarIn, Grammar.recursive, Grammar.unlabelled, hbody]
  | letrec definitions main =>
      have hmain := main.unlabelled_grammarIn (definitions.map Prod.fst ++ bound)
      have hdefinitions :=
        unlabelled_definitionGrammars (definitions.map Prod.fst ++ bound) definitions
      simp only [Term.unlabelled, Term.grammarIn, Grammar.unlabelled, fst_unlabelledDefinitions,
        unlabelled_lookupLast, hmain, hdefinitions]
  | unionAll ps =>
      have hps := unlabelled_termGrammars bound ps
      simp only [Term.unlabelled, Term.grammarIn, unlabelled_unionAll, hps]
  | _ => rfl

theorem Continuation.unlabelled_grammarIn (bound : List String) (k : Continuation) (x : Value) :
    (k.unlabelled.grammarIn free bound x).unlabelled = (k.grammarIn free bound x).unlabelled := by
  cases k with
  | const p => exact p.unlabelled_grammarIn bound
  | count p =>
      have hp := p.unlabelled_grammarIn bound
      simp only [Continuation.unlabelled, Continuation.grammarIn, unlabelled_times, hp]
  | select ps =>
      have hps := unlabelled_termGrammars bound ps
      simp only [Continuation.unlabelled, Continuation.grammarIn, unlabelled_chosen, hps]
  | when eq p q =>
      have hp := p.unlabelled_grammarIn bound
      have hq := q.unlabelled_grammarIn bound
      simp only [Continuation.unlabelled, Continuation.grammarIn, apply_ite Grammar.unlabelled, hp,
        hq]
  | fold f p =>
      have hp := p.unlabelled_grammarIn bound
      simp only [Continuation.unlabelled, Continuation.grammarIn, Grammar.unlabelled, hp]
  | _ => rfl

theorem unlabelled_termGrammars (bound : List String) (ps : List Term) :
    (termGrammars free bound (unlabelledTerms ps)).map Grammar.unlabelled
      = (termGrammars free bound ps).map Grammar.unlabelled := by
  cases ps with
  | nil => rfl
  | cons p ps =>
      have hp := p.unlabelled_grammarIn bound
      have hps := unlabelled_termGrammars bound ps
      simp only [unlabelledTerms, termGrammars, List.map_cons, hp, hps]

theorem unlabelled_definitionGrammars (bound : List String) (ds : List (String × Term)) :
    (definitionGrammars free bound (unlabelledDefinitions ds)).map (fun d => (d.1, d.2.unlabelled))
      = (definitionGrammars free bound ds).map fun d => (d.1, d.2.unlabelled) := by
  cases ds with
  | nil => rfl
  | cons d ds =>
      obtain ⟨x, p⟩ := d
      have hp := p.unlabelled_grammarIn bound
      have hds := unlabelled_definitionGrammars bound ds
      simp only [unlabelledDefinitions, definitionGrammars, List.map_cons, hp, hds]

end

end

/-- Terms that differ in labels only describe grammars that do. -/
theorem Term.unlabelled_grammar_congr {t t' : Term} (h : t.unlabelled = t'.unlabelled) :
    t.grammar.unlabelled = t'.grammar.unlabelled := by
  calc t.grammar.unlabelled
      = t.unlabelled.grammar.unlabelled := (t.unlabelled_grammarIn _ []).symm
    _ = t'.unlabelled.grammar.unlabelled := by rw [h]
    _ = t'.grammar.unlabelled := t'.unlabelled_grammarIn _ []

/-! ## Workspaces without labels -/

/-- The parser built from rules without labels. -/
def Built.unlabelled (b : Built) : Built := ⟨b.rules.unlabelled, b.keeps⟩

namespace Workspace

/-- The workspace with the labels taken off all bodies and parsers. -/
def unlabelled (w : Workspace) : Workspace :=
  ⟨w.bodies.map (Option.map Built.unlabelled), w.definers,
    ⟨w.parsers.entries.map fun e => (e.1, e.2.unlabelled)⟩⟩

theorem body_unlabelled (w : Workspace) (d : Nat) :
    w.unlabelled.body d = (w.body d).map Built.unlabelled := by
  rw [body, body, unlabelled, List.getElem?_map]
  cases w.bodies[d]? with
  | none => rfl
  | some o => cases o <;> rfl

theorem roots_unlabelled (w : Workspace) : w.unlabelled.roots = w.roots := by
  rw [roots, roots]
  simp only [unlabelled, Table.values, List.map_map, List.flatMap_map]
  rfl

theorem keptBy_unlabelled (w : Workspace) (d : Nat) : w.unlabelled.keptBy d = w.keptBy d := by
  rw [keptBy, keptBy, body_unlabelled]
  cases w.body d <;> rfl

/-- Labels keep nothing alive. -/
theorem alive_unlabelled (w : Workspace) : w.unlabelled.alive = w.alive := by
  have hlength : w.unlabelled.bodies.length = w.bodies.length := List.length_map _
  have hreached : ∀ n, w.unlabelled.reached n = w.reached n := by
    intro n
    induction n with
    | zero => exact w.roots_unlabelled
    | succ n ih => simp only [reached, ih, hlength, keptBy_unlabelled]
  rw [alive, alive, hlength, hreached]

theorem related_unlabelled (w : Workspace) (b : Built) :
    Simulation.exceptLabels.Related (w.parser b) (w.unlabelled.parser b.unlabelled) := by
  refine Simulation.related_built (List.length_map _).symm w.alive_unlabelled.symm (fun d => ?_)
    (Simulation.grammars_unlabelled b.rules)
  rw [body_unlabelled]
  cases w.body d with
  | none => exact .none
  | some b => exact .some (Simulation.grammars_unlabelled b.rules)

end Workspace

end Script

/-! ## All parsers -/

theorem Grammar.sameButLabels_unlabelled (p : Grammar ρ α) (c : Cursor) :
    (p.parser c).SameButLabels (p.unlabelled.parser c) :=
  (Simulation.grammars_unlabelled p).related.sameButLabels c

theorem Grammar.sameButLabels {p p' : Grammar ρ α} (h : p.unlabelled = p'.unlabelled)
    (c : Cursor) : (p.parser c).SameButLabels (p'.parser c) := by
  refine (p.sameButLabels_unlabelled c).trans_symm ?_
  rw [h]
  exact p'.sameButLabels_unlabelled c

/-- **Labels are for diagnostics only.** Grammars, terms and workspaces that are the same without
    labels have parsers that read alike and fail at the same places. -/
theorem sameButLabels_of_unlabelled_eq :
    (∀ {ρ α : Type} (p p' : Grammar ρ α), p.unlabelled = p'.unlabelled →
      ∀ c, (p.parser c).SameButLabels (p'.parser c)) ∧
    (∀ t t' : Script.Term, t.unlabelled = t'.unlabelled →
      ∀ c, (t.grammar.parser c).SameButLabels (t'.grammar.parser c)) ∧
    (∀ (w w' : Script.Workspace) (b b' : Script.Built), w.unlabelled = w'.unlabelled →
      b.unlabelled = b'.unlabelled → ∀ c, (w.parser b c).SameButLabels (w'.parser b' c)) := by
  refine ⟨fun p p' h c => Grammar.sameButLabels h c, fun t t' h c => ?_,
    fun w w' b b' hw hb c => ?_⟩
  · exact Grammar.sameButLabels (Script.Term.unlabelled_grammar_congr h) c
  · refine ((w.related_unlabelled b).sameButLabels c).trans_symm ?_
    rw [hw, hb]
    exact (w'.related_unlabelled b').sameButLabels c

/-- A word, or any character and then a failure that `told` may name. -/
def wordOr (told : Grammar Unit String → Grammar Unit String) (expected : String) :
    Grammar Unit String :=
  .orElse (told (.literal "ab")) (.bind .anyChar fun _ => told (.fail expected))

/-- Words, told as such or not. -/
def wordsTerm (told : Script.Term → Script.Term) : Script.Term := .many (told (.literal "ab"))

/-- A workspace with one definition, which reads a word. -/
def wordWorkspace (told : Script.Rules → Script.Rules) : Script.Workspace :=
  ⟨[some ⟨told (.map .text (.literal "ab")), []⟩], .empty, .empty⟩

/-- The owner of that definition. -/
def wordOwner : Script.Built := ⟨.ref (.owner 0), [0]⟩

/-- With names or without, the failure behind the character is the one reported. Words read by a
    term or by the owner of a definition are the same, too. -/
theorem sameButLabels_wordOr :
    ((wordOr (.label "word") "more").unlabelled = (wordOr id "else").unlabelled ∧
      ((wordOr (.label "word") "more").parser (.ofString "x")).SameButLabels
        ((wordOr id "else").parser (.ofString "x")) ∧
      ((wordOr (.label "word") "more").parser (.ofString "x")).outcome.furthest
        = some ⟨⟨1, 2, 1⟩, none, .singleton "word"⟩ ∧
      ((wordOr id "else").parser (.ofString "x")).outcome.furthest
        = some ⟨⟨1, 2, 1⟩, none, .singleton "else"⟩) ∧
    ((wordsTerm (.label "word")).unlabelled = (wordsTerm id).unlabelled ∧
      ((wordsTerm (.label "word")).grammar.parser (.ofString "abx")).SameButLabels
        ((wordsTerm id).grammar.parser (.ofString "abx"))) ∧
    ((wordWorkspace (.label "word")).unlabelled = (wordWorkspace id).unlabelled ∧
      ((wordWorkspace (.label "word")).parser wordOwner (.ofString "x")).SameButLabels
        ((wordWorkspace id).parser wordOwner (.ofString "x"))) := by
  have hgrammars : (wordOr (.label "word") "more").unlabelled = (wordOr id "else").unlabelled :=
    rfl
  have hterms : (wordsTerm (.label "word")).unlabelled = (wordsTerm id).unlabelled := rfl
  have hworkspaces : (wordWorkspace (.label "word")).unlabelled = (wordWorkspace id).unlabelled :=
    rfl
  refine ⟨⟨hgrammars, ?_, by decide, by decide⟩, ⟨hterms, ?_⟩, hworkspaces, ?_⟩
  · exact sameButLabels_of_unlabelled_eq.1 _ _ hgrammars (.ofString "x")
  · exact sameButLabels_of_unlabelled_eq.2.1 _ _ hterms (.ofString "abx")
  · exact sameButLabels_of_unlabelled_eq.2.2 _ _ wordOwner wordOwner hworkspaces rfl (.ofString "x")

end Parsing
