import Parsing.Proofs.FailurePlace
import Parsing.Report.Box

set_option autoImplicit false

/-! # The place that a report shows

An error has a line and a column that were counted while the text was read, where only a line feed
begins a line. A renderer counts again, on the text with a space behind it, and cuts lines at more
characters. What it does is not defined here, only relied on (`Renderer.Documented`): where it cuts
a source into lines, and that it names the line and column of the character marked.

On texts whose lines all end with a line feed, or with a carriage return and a line feed, both
counts agree at every offset (`locateFrom_linesOf`): in front of a line feed, behind the last one,
and at the end of the text. So a report shows the place that the error tells
(`report_shows_position`), be it written by the renderer or, where that cannot write, the message
itself. -/

namespace Parsing

namespace Report

/-! ## Places in lines -/

theorem linesOf_ne_nil {s : List Char} (h : s ≠ []) : linesOf s ≠ [] := by
  intro hnil
  have hflatten := flatten_linesOf s
  rw [hnil] at hflatten
  exact h hflatten.symm

theorem locateFrom_of_lt {number offset : Nat} {line : List Char} (h : offset < line.length)
    (lines : List (List Char)) :
    locateFrom number offset (line :: lines) = ⟨number, offset, line⟩ := by
  cases lines with
  | nil => rfl
  | cons next lines =>
      rw [locateFrom, if_neg (Nat.not_le.2 h)]
      exact List.cons_ne_nil _ _

theorem locateFrom_of_le {number offset : Nat} {line : List Char} {lines : List (List Char)}
    (h : line.length ≤ offset) (hlines : lines ≠ []) :
    locateFrom number offset (line :: lines)
      = locateFrom (number + 1) (offset - line.length) lines := by
  rw [locateFrom, if_pos h]
  exact hlines

theorem le_line_locateFrom (number offset : Nat) (lines : List (List Char)) :
    number ≤ (locateFrom number offset lines).line := by
  fun_induction locateFrom number offset lines with
  | case1 => exact Nat.le_refl _
  | case2 => exact Nat.le_refl _
  | case3 number offset line lines _ _ ih => exact Nat.le_of_succ_le ih
  | case4 => exact Nat.le_refl _

/-- A character more in the first line moves the places in that line, and no others. -/
theorem locateFrom_consLine (number offset : Nat) (c : Char) (lines : List (List Char)) :
    (locateFrom number (offset + 1) (consLine c lines)).line
        = (locateFrom number offset lines).line ∧
      (locateFrom number (offset + 1) (consLine c lines)).column
        = (locateFrom number offset lines).column
          + if (locateFrom number offset lines).line = number then 1 else 0 := by
  match lines with
  | [] => simp [consLine, locateFrom]
  | [line] => simp [consLine, locateFrom]
  | line :: next :: rest =>
      rw [consLine]
      by_cases hle : line.length ≤ offset
      · have hle' : (c :: line).length ≤ offset + 1 := Nat.succ_le_succ hle
        have hline := le_line_locateFrom (number + 1) (offset - line.length) (next :: rest)
        have hoffset : offset + 1 - (c :: line).length = offset - line.length := by
          rw [List.length_cons]
          omega
        rw [locateFrom_of_le hle (List.cons_ne_nil _ _),
          locateFrom_of_le hle' (List.cons_ne_nil _ _), hoffset, if_neg (by omega)]
        exact ⟨rfl, rfl⟩
      · have hlt : offset < line.length := Nat.lt_of_not_le hle
        have hlt' : offset + 1 < (c :: line).length := Nat.succ_lt_succ hlt
        rw [locateFrom_of_lt hlt, locateFrom_of_lt hlt', if_pos rfl]
        exact ⟨rfl, rfl⟩

/-! ## Texts whose lines end with line feeds -/

/-- The terminators apart from line feed and carriage return. -/
def rareTerminators : List Char := ['\x0b', '\x0c', '\u0085', '\u2028', '\u2029']

/-- Each carriage return stands in front of a line feed, and no other character than these two ends
    a line. -/
structure Plain (s : List Char) : Prop where
  feeds : ∀ i : Nat, s[i]? = some '\r' → s[i + 1]? = some '\n'
  ordinary : ∀ c ∈ s, c ∉ rareTerminators

namespace Plain

/-- Whether a text is plain, by looking at each of its characters. -/
def test (s : List Char) : Bool :=
  (List.range s.length).all (fun i => s[i]? != some '\r' || s[i + 1]? == some '\n')
    && s.all fun c => !rareTerminators.contains c

theorem test_iff {s : List Char} : test s = true ↔ Plain s := by
  simp only [test, Bool.and_eq_true, List.all_eq_true, List.mem_range, Bool.or_eq_true,
    bne_iff_ne, beq_iff_eq, Bool.not_eq_true', List.contains_eq_mem, decide_eq_false_iff_not]
  constructor
  · rintro ⟨hfeeds, hordinary⟩
    refine ⟨fun i hi => ?_, hordinary⟩
    exact (hfeeds i (List.getElem?_eq_some_iff.1 hi).1).resolve_left fun hne => hne hi
  · intro h
    refine ⟨fun i _ => ?_, h.ordinary⟩
    exact Decidable.or_iff_not_imp_left.2 fun hi => h.feeds i (not_not.1 hi)

instance decidable (s : List Char) : Decidable (Plain s) := decidable_of_iff _ test_iff

variable {s : List Char} {c : Char}

theorem tail (h : Plain (c :: s)) : Plain s where
  feeds i hi := h.feeds (i + 1) hi
  ordinary d hd := h.ordinary d (List.mem_cons_of_mem c hd)

theorem eq_of_isTerminator (h : Plain (c :: s)) (hc : isTerminator c = true) :
    c = '\n' ∨ ∃ rest, c = '\r' ∧ s = '\n' :: rest := by
  have hordinary := h.ordinary c List.mem_cons_self
  simp only [rareTerminators, List.mem_cons, List.not_mem_nil, or_false, not_or] at hordinary
  have hcases : c = '\n' ∨ c = '\r' := by
    simp only [isTerminator, Bool.or_eq_true, beq_iff_eq] at hc
    tauto
  rcases hcases with rfl | rfl
  · exact .inl rfl
  · have hfeed : s[0]? = some '\n' := h.feeds 0 rfl
    cases s with
    | nil => cases hfeed
    | cons d rest =>
        rw [List.getElem?_cons_zero, Option.some.injEq] at hfeed
        exact .inr ⟨rest, rfl, by rw [hfeed]⟩

/-- A space at the end changes nothing. -/
theorem padded (h : Plain s) : Plain (s ++ [' ']) where
  feeds := by
    intro i hi
    rcases Nat.lt_or_ge i s.length with hlt | hge
    · rw [List.getElem?_append_left hlt] at hi
      have hfeed := h.feeds i hi
      rw [List.getElem?_append_left (List.getElem?_eq_some_iff.1 hfeed).1, hfeed]
    · rw [List.getElem?_append_right hge] at hi
      exact absurd (List.mem_singleton.1 (List.mem_of_getElem? hi)) (by decide)
  ordinary := by
    intro c hc
    rcases List.mem_append.1 hc with hc | hc
    · exact h.ordinary c hc
    · rw [List.mem_singleton.1 hc]
      decide

end Plain

/-! ## Counting twice -/

/-- Counting from `p` leads to `q`, and the report finds `spot`: the same place, if `p` stands in
    the line of that number, whose first characters may have been read. -/
structure Agrees (p q : Position) (number : Nat) (spot : Spot) : Prop where
  line_eq : q.line + number = p.line + spot.line
  column_eq : q.column = (if spot.line = number then p.column else 1) + spot.column

namespace Agrees

variable {p p' q : Position} {number offset : Nat} {lines : List (List Char)}

theorem inLine {line : List Char} (hoffset : offset < line.length) (lines : List (List Char))
    (hline : q.line = p.line) (hcolumn : q.column = p.column + offset) :
    Agrees p q number (locateFrom number offset (line :: lines)) := by
  rw [locateFrom_of_lt hoffset]
  exact ⟨by rw [hline], by rw [if_pos rfl, hcolumn]⟩

/-- Behind a line the columns begin anew. -/
theorem behindLine (line : List Char) (hlines : lines ≠ []) (hline : p'.line = p.line + 1)
    (hcolumn : p'.column = 1)
    (h : Agrees p' q (number + 1) (locateFrom (number + 1) offset lines)) :
    Agrees p q number (locateFrom number (offset + line.length) (line :: lines)) := by
  have hle := le_line_locateFrom (number + 1) offset lines
  rw [locateFrom_of_le (Nat.le_add_left _ _) hlines, Nat.add_sub_cancel]
  refine ⟨?_, ?_⟩
  · have hcount := h.line_eq
    omega
  · have hne : (locateFrom (number + 1) offset lines).line ≠ number := by omega
    rw [h.column_eq, hcolumn, ite_self, if_neg hne]

/-- One character more in front of the place makes one column more, if it is in the same line. -/
theorem consLine {c : Char} (hc : c ≠ '\n')
    (h : Agrees (p.advance c) q number (locateFrom number offset lines)) :
    Agrees p q number (locateFrom number (offset + 1) (Report.consLine c lines)) := by
  obtain ⟨hline, hcolumn⟩ := locateFrom_consLine number offset c lines
  have hadvance : p.advance c = ⟨p.line, p.column + 1, p.offset + 1⟩ := if_neg hc
  rw [hadvance] at h
  refine ⟨?_, ?_⟩
  · rw [hline, h.line_eq]
  · rw [hline, hcolumn, h.column_eq]
    split
    · exact Nat.add_right_comm _ _ _
    · rfl

end Agrees

/-- **Both counts agree**, wherever they begin. -/
theorem locateFrom_linesOf {s : List Char} (h : Plain s) {offset : Nat}
    (hoffset : offset < s.length) (number : Nat) (p : Position) :
    Agrees p (p.advanceAll (s.take offset)) number (locateFrom number offset (linesOf s)) := by
  have hmore : ∀ {rest : List Char} {n : Nat}, n < rest.length → linesOf rest ≠ [] :=
    fun hn => linesOf_ne_nil (List.ne_nil_of_length_pos (Nat.zero_lt_of_lt hn))
  -- Lines are cut off in front: the cases are those of `linesOf`.
  fun_induction linesOf s generalizing offset number p with
  | case1 => cases hoffset
  | case2 rest ih =>
      rcases offset with _ | _ | offset
      · exact .inLine (Nat.zero_lt_succ 1) _ rfl rfl
      · exact .inLine (Nat.lt_succ_self 1) _ rfl rfl
      · have hlt : offset < rest.length := Nat.lt_of_add_lt_add_right hoffset
        exact .behindLine ['\r', '\n'] (hmore hlt) rfl rfl (ih h.tail.tail hlt _ _)
  | case3 c rest hcrlf hterm ih =>
      obtain rfl : c = '\n' := by
        rcases h.eq_of_isTerminator hterm with rfl | ⟨rest', rfl, rfl⟩
        · rfl
        · exact absurd rfl (hcrlf rest' rfl)
      cases offset with
      | zero => exact .inLine (Nat.zero_lt_succ 0) _ rfl rfl
      | succ offset =>
          have hlt : offset < rest.length := Nat.lt_of_add_lt_add_right hoffset
          exact .behindLine ['\n'] (hmore hlt) rfl rfl (ih h.tail hlt _ _)
  | case4 c rest hcrlf hterm ih =>
      have hc : c ≠ '\n' := by
        rintro rfl
        exact hterm rfl
      cases offset with
      | zero =>
          cases linesOf rest with
          | nil => exact .inLine (Nat.zero_lt_succ 0) _ rfl rfl
          | cons line lines => exact .inLine (Nat.zero_lt_succ line.length) lines rfl rfl
      | succ offset => exact (ih h.tail (Nat.lt_of_add_lt_add_right hoffset) _ _).consLine hc

/-- The place shown for an offset, the end included, is the one counted while reading. -/
theorem location_locate {s : List Char} (h : Plain s) {offset : Nat} (hoffset : offset ≤ s.length) :
    location (locate (s ++ [' ']) offset) = (Position.start.advanceAll (s.take offset)).toText := by
  have hlt : offset < (s ++ [' ']).length := by
    rw [List.length_append]
    exact Nat.lt_succ_of_le hoffset
  have hagrees := locateFrom_linesOf h.padded hlt 0 .start
  rw [List.take_append_of_le_length hoffset] at hagrees
  have hline := hagrees.line_eq
  have hcolumn := hagrees.column_eq
  have hstart : Position.start.line = 1 ∧ Position.start.column = 1 := ⟨rfl, rfl⟩
  rw [Nat.add_zero, hstart.1, Nat.add_comm] at hline
  rw [hstart.2, ite_self, Nat.add_comm] at hcolumn
  rw [Position.toText, hline, hcolumn]
  rfl

/-! ## Renderers -/

/-- The character at `offset` stands in the line with this number, behind `column` others. Lines and
    columns are counted from zero. -/
def StandsIn (lines : List (List Char)) (offset line column : Nat) : Prop :=
  ∃ before text after, lines = before ++ text :: after ∧ before.length = line ∧
    before.flatten.length + column = offset ∧ column < text.length

/-- Every character stands in some line. -/
theorem exists_standsIn {lines : List (List Char)} {offset : Nat}
    (h : offset < lines.flatten.length) : ∃ line column, StandsIn lines offset line column := by
  induction lines generalizing offset with
  | nil => cases h
  | cons text lines ih =>
      rcases Nat.lt_or_ge offset text.length with hlt | hge
      · exact ⟨0, offset, [], text, lines, rfl, rfl, Nat.zero_add offset, hlt⟩
      · have hbehind : offset - text.length < lines.flatten.length := by
          rw [List.flatten_cons, List.length_append] at h
          omega
        obtain ⟨line, column, before, text', after, rfl, rfl, hoffset, hcolumn⟩ := ih hbehind
        refine ⟨_, column, text :: before, text', after, rfl, rfl, ?_, hcolumn⟩
        rw [List.flatten_cons, List.length_append]
        omega

/-- There it is found. -/
theorem StandsIn.locateFrom_eq {lines : List (List Char)} {offset line column : Nat}
    (h : StandsIn lines offset line column) (number : Nat) :
    (locateFrom number offset lines).line = number + line ∧
      (locateFrom number offset lines).column = column := by
  obtain ⟨before, text, after, rfl, rfl, rfl, hcolumn⟩ := h
  induction before generalizing number with
  | nil =>
      have hlt : ([] : List (List Char)).flatten.length + column < text.length := by
        simpa using hcolumn
      rw [List.nil_append, locateFrom_of_lt hlt]
      exact ⟨rfl, Nat.zero_add column⟩
  | cons first before ih =>
      have hlength : (first :: before).flatten.length + column
          = first.length + (before.flatten.length + column) := by
        rw [List.flatten_cons, List.length_append, Nat.add_assoc]
      rw [hlength, List.cons_append, locateFrom_of_le (Nat.le_add_right _ _) (by simp),
        Nat.add_sub_cancel_left, List.length_cons, Nat.add_comm before.length, ← Nat.add_assoc]
      exact ih (number + 1)

/-- The report begins with the message. The next line names the place. -/
def Heads (report message place : String) : Prop :=
  ∃ (n : Nat) (rest : String), report
    = "Error: " ++ message ++ "\n" ++ String.ofList (List.replicate n ' ')
      ++ "╭─[ <unknown>:" ++ place ++ " ]\n" ++ rest

theorem heads_box (message : String) (spot : Spot) (atEnd : Bool) (label : String) :
    Heads ("Error: " ++ message ++ "\n" ++ box spot atEnd label) message (location spot) := by
  simp only [Heads, box, String.append_assoc]
  exact ⟨_, _, rfl⟩

end Report

open Report

/-- What is relied on of a renderer, whatever else it does.
    * It cuts a source into lines behind each line feed, carriage return and both together, which
      are one terminator, and behind the rare terminators.
    * If it writes a report, and the span asked for starts with a character of the source, then the
      report names the line and the column of that character, both counted from one. -/
structure Renderer.Documented (renderer : Renderer) : Prop where
  lines_eq : ∀ source, renderer.lines source = linesOf source
  heads : ∀ (request : Request) (source report : String) (line column : Nat),
    renderer.write request source = some report →
    StandsIn (renderer.lines source.toList) request.start line column →
      Heads report request.message (ordinal line ++ ":" ++ ordinal column)

/-- The renderer that draws boxes is one of these. -/
theorem Report.documented_boxed : boxed.Documented where
  lines_eq _ := rfl
  heads := by
    intro request source report line column hwrite hstands
    have hlt : request.start < source.toList.length := by
      obtain ⟨before, text, after, hlines, rfl, hoffset, hcolumn⟩ := hstands
      have hlength := congrArg (List.length ∘ List.flatten) hlines
      simp only [Function.comp, boxed, flatten_linesOf, List.flatten_append, List.flatten_cons,
        List.length_append] at hlength
      omega
    obtain ⟨hline, hcolumn⟩ := hstands.locateFrom_eq 0
    rw [Nat.zero_add] at hline
    rw [← Option.some.inj hwrite, write, if_neg (Nat.not_lt.2 (Nat.le_of_lt hlt)), ← hline,
      ← hcolumn]
    exact heads_box _ _ _ _

/-! ## Errors -/

namespace ParseError

variable {renderer : Renderer} {e : ParseError} {text : String}

/-- The report of `e` over `text` shows the place that `e` tells in its message. The character
    marked is in the text or right behind it. If the renderer cannot write, the message is all
    there is. -/
def ShownIn (renderer : Renderer) (e : ParseError) (text : String) : Prop :=
  e.position.offset ≤ text.length ∧
    (∃ told, e.message = e.position.toText ++ ": expected " ++ told) ∧
    (Heads (e.reportBy renderer text) e.message e.position.toText ∨
      renderer.write e.request (text ++ " ") = none ∧ e.reportBy renderer text = e.message)

/-- The message begins with the place. -/
theorem exists_message_eq (e : ParseError) :
    ∃ told, e.message = e.position.toText ++ ": expected " ++ told := by
  refine ⟨describeExpected e.expected ++ ", found " ++ describeFound e.found, ?_⟩
  simp only [message, String.append_assoc]

theorem shownIn_of_place (hrenderer : renderer.Documented) (htext : Plain text.toList) {n : Nat}
    (hn : n ≤ text.length) (he : e.position = Position.start.advanceAll (text.toList.take n)) :
    e.ShownIn renderer text := by
  have hlength : n ≤ text.toList.length := by rwa [String.length_toList]
  have hoffset : e.position.offset = n := by
    rw [he, Position.offset_advanceAll, List.length_take, Nat.min_eq_left hlength]
    exact Nat.zero_add n
  refine ⟨by rwa [hoffset], e.exists_message_eq, ?_⟩
  cases hwrite : renderer.write e.request (text ++ " ") with
  | none =>
      refine .inr ⟨rfl, ?_⟩
      rw [reportBy, hwrite]
  | some report =>
      have hpadded : (text ++ " ").toList = text.toList ++ [' '] := String.toList_append
      have hlt : n < (linesOf (text.toList ++ [' '])).flatten.length := by
        rw [flatten_linesOf, List.length_append]
        exact Nat.lt_succ_of_le hlength
      obtain ⟨line, column, hstands⟩ := exists_standsIn hlt
      have hplace : ordinal line ++ ":" ++ ordinal column = e.position.toText := by
        obtain ⟨hline, hcolumn⟩ := hstands.locateFrom_eq 0
        rw [Nat.zero_add] at hline
        rw [he, ← location_locate htext hlength, location, locate, hline, hcolumn]
      have hstands' :
          StandsIn (renderer.lines (text ++ " ").toList) e.request.start line column := by
        rw [hrenderer.lines_eq, hpadded, request, hoffset]
        exact hstands
      have hheads := hrenderer.heads e.request _ report line column hwrite hstands'
      rw [hplace] at hheads
      rw [reportBy, hwrite]
      exact .inl hheads

end ParseError

namespace Outcome

/-- The error of an outcome stands somewhere in the text or at its end. -/
theorem exists_place_of_result_eq_error {α : Type} {o : Outcome α} {text : String} {e : ParseError}
    (ho : ∀ f, o.furthest = some f → f.Describes (.ofString text)) (he : o.result = .error e) :
    ∃ n ≤ text.length, e.position = Position.start.advanceAll (text.toList.take n) := by
  rcases describes_of_result_eq_error ho he with ⟨-, rfl⟩ | ⟨n, hn, hposition, -⟩
  · exact ⟨0, Nat.zero_le _, rfl⟩
  · exact ⟨n, hn, hposition⟩

end Outcome

/-- **Reports show where errors are.** Let each carriage return in a text stand in front of a line
    feed, and let no other character than these two end a line. Whatever parser, described by a
    grammar or built in a workspace, has an error on the text: the line and column shown in the
    error's report over the text are those that the error tells. The report may be written by any
    renderer that does what is relied on. -/
theorem report_shows_position (renderer : Renderer) (hrenderer : renderer.Documented)
    (text : String) (htext : Plain text.toList) :
    (∀ {ρ α : Type} (p : Grammar ρ α) (e : ParseError),
      (p.parser.applyText text).outcome.result = .error e → e.ShownIn renderer text) ∧
    (∀ (w : Script.Workspace) (b : Script.Built) (e : ParseError),
      ((w.parser b).applyText text).outcome.result = .error e → e.ShownIn renderer text) := by
  refine ⟨fun p e he => ?_, fun w b e he => ?_⟩
  · obtain ⟨n, hn, hposition⟩ := Outcome.exists_place_of_result_eq_error
      (fun f hf => Simulation.describes_of_related (Simulation.grammars_self p).related hf) he
    exact ParseError.shownIn_of_place hrenderer htext hn hposition
  · obtain ⟨n, hn, hposition⟩ := Outcome.exists_place_of_result_eq_error
      (fun f hf => Simulation.describes_of_related (Simulation.related_built_self w b) hf) he
    exact ParseError.shownIn_of_place hrenderer htext hn hposition

/-- Behind two lines, one of them with a carriage return, the text ends in its third, and that is
    where the box is drawn. -/
theorem report_shows_position_at_end :
    boxed.Documented ∧ Plain "a\r\nb\n".toList ∧
      ((Grammar.literal "a\r\nb\nc" : Grammar Unit String).parser.applyText
          "a\r\nb\n").outcome.result = .error ⟨⟨3, 1, 5⟩, none, ["'c'"]⟩ ∧
      ParseError.ShownIn boxed ⟨⟨3, 1, 5⟩, none, ["'c'"]⟩ "a\r\nb\n" ∧
      Heads (ParseError.report ⟨⟨3, 1, 5⟩, none, ["'c'"]⟩ "a\r\nb\n")
        "3:1: expected 'c', found end of input" "3:1" := by
  have htext : Plain "a\r\nb\n".toList := by decide
  have herror : ((Grammar.literal "a\r\nb\nc" : Grammar Unit String).parser.applyText
      "a\r\nb\n").outcome.result = .error ⟨⟨3, 1, 5⟩, none, ["'c'"]⟩ := by decide
  have hshown := (report_shows_position boxed documented_boxed _ htext).1 _ _ herror
  refine ⟨documented_boxed, htext, herror, hshown, ?_⟩
  rcases hshown.2.2 with hheads | ⟨hnone, -⟩
  · exact hheads
  · cases hnone

end Parsing
