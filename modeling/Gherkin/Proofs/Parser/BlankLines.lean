import Gherkin.Proofs.Parser.Dialects
import Gherkin.Proofs.Retelling.Sources

/-!
# Blank lines between the other lines

A further blank line outside descriptions and doc strings changes nothing in a
document but the numbers of the lines behind it.  Every state stays as it is over
a blank line, and what the builder keeps of it is a filler.
-/

namespace Gherkin

/-- The number of a line when there is another line behind the first `n` lines. -/
def shiftBehind (n line : Nat) : Nat :=
  if line ≤ n then line else line + 1

/-- The lines of a source when there is another line behind the first `n` of them. -/
def Relocation.shifting (n : Nat) : Relocation :=
  .renumbering (shiftBehind n) rfl

/-- A blank line belongs to a text only in the states inside a doc string and in those behind a
line of a description. -/
theorem State.outside_of_number {s : State} (h : s.number ∉ [28, 30, 32, 4, 7, 13, 18, 24]) :
    s.inDocString = false ∧ s.blankKind = .empty := by
  revert s
  decide

/-- A blank line has no room for a colon. -/
theorem Line.title?_of_isEmpty {l : Line} (h : l.isEmpty = true) (keyword : String) :
    l.title? keyword = none := by
  rw [title?, after?, List.isEmpty_iff.mp h]
  cases keyword.toList <;> rfl

namespace Matcher

variable {m : Matcher} {l : Line}

/-- Looking ahead for examples skips a blank line, whatever the dialect is. -/
theorem examplesAhead_of_isEmpty (h : l.isEmpty = true) (number : Nat) (ts : List Token) :
    m.examplesAhead (.ofLine l number :: ts) = m.examplesAhead ts := by
  have htitle : m.isOf .examplesLine (.ofLine l number) = false := by
    simp [isOf, content?, lineContent?, title?, Token.ofLine, Line.title?_of_isEmpty h]
  have hempty : m.isOf .empty (.ofLine l number) = true := by
    simp [isOf, content?, lineContent?, Token.ofLine, h]
  have hbetween : m.isBetweenTags (.ofLine l number) = true :=
    List.any_eq_true.mpr ⟨.empty, by decide, hempty⟩
  rw [examplesAhead, htitle, hbetween]
  rfl

/-- Between the other lines a blank line is accepted as such, and leaves the state as it is. -/
theorem IsBuiltin.exists_choose_blank (hm : m.IsBuiltin) (hdoc : m.docString = none)
    (h : l.isEmpty = true) {s : State} (hinside : s.inDocString = false)
    (hfinished : s ≠ .finished) (hblank : s.blankKind = .empty) (number : Nat)
    (ts : List Token) :
    ∃ read reading, m.choose (.ofLine l number) ts s.transitions =
        .ok (some ⟨s.stay .empty, m, read⟩) ∧
      read.reading = some reading ∧ reading.kind = .empty := by
  have hof (kind : TokenKind) : m.isOf kind (.ofLine l number) = State.mayBe .empty kind :=
    lineContent?_of_isEmpty hm.dialect hdoc h kind
  have hfind : (s.transitions.find? fun u => m.isOf u.kind (.ofLine l number) &&
      (!u.lookahead || m.examplesAhead ts)) = some (s.stay .empty) := by
    rw [← hblank, ← State.find?_blank hinside hfinished (m.examplesAhead ts)]
    exact State.find?_congr fun u _ => by rw [hof]
  obtain ⟨next, read, hmatch⟩ := exists_matchAs_of_isOf (hof .empty) (by decide)
  obtain rfl := eq_of_matchAs (by decide) (by decide) hmatch
  obtain ⟨reading, hreading, hkind⟩ := exists_reading_of_matchAs hmatch
  refine ⟨read, reading, choose_of_find? ?_ hfind hmatch, hreading, hkind⟩
  exact fun u hu hlook => Run.kind_eq_tagLine_of_lookahead hu hlook

end Matcher

namespace Reader

variable {R : Relocation} {r r' : Reader} {l : Line}

/-- Only the end of the source ends a document. -/
theorem readFront_ne_finished (h : r.state ≠ .finished) {front : List Token}
    (hlines : ∀ t ∈ front, t.isEof = false) (rest : List Token) :
    (r.readFront front rest).state ≠ .finished := by
  induction front generalizing r with
  | nil => exact h
  | cons t front ih =>
      obtain ⟨ht, hlines⟩ := List.forall_mem_cons.mp hlines
      rw [readFront]
      split
      · exact h
      · exact ih (state_take_ne_finished h ht) hlines

/-- A transition that leaves everything as it is takes the token in and closes nothing. -/
theorem accept_stay (h : r.failure = none) (kind : TokenKind) (t : Token) :
    r.accept (r.state.stay kind) t = { r with builder := r.builder.build t } := by
  have hcloses : (r.state.stay kind).closes = 0 := Nat.sub_self _
  rw [accept, hcloses]
  exact if_neg (by simp [closeRules, h])

/-- A reader that has taken a blank line between the other lines is where it was. -/
theorem Retold.take_blank (h : Retold R r r') (hfailure : r.failure = none)
    (hm : r.matcher.IsBuiltin) (hagrees : r.Agrees) (hfinished : r.state ≠ .finished)
    (hinside : r.state.inDocString = false) (hblank : r.state.blankKind = .empty)
    (hl : l.isEmpty = true) (number : Nat) (ts : List Token) :
    Retold R r (r'.take (.ofLine l number) ts) := by
  have hm' : r'.matcher.IsBuiltin := by
    rw [h.matcher]
    exact ⟨hm.resolver, hm.dialect⟩
  have hdoc : r'.matcher.docString = none := by
    rw [h.matcher, Matcher.relocate, hagrees.docString_eq_none hinside]
    rfl
  have hfailure' : r'.failure = none := by
    rw [h.failure, hfailure]
    rfl
  obtain ⟨read, reading, hchoice, hreading, hkind⟩ := hm'.exists_choose_blank hdoc hl
    (h.state ▸ hinside) (h.state ▸ hfinished) (h.state ▸ hblank) number ts
  have hbuilt : (r'.builder.build read).clean = r'.builder.clean := by
    rw [Builder.clean_build _ hreading, pendingAfter, hkind]
    rfl
  have htake : r'.take (.ofLine l number) ts = { r' with builder := r'.builder.build read } := by
    rw [Reader.take, choice, hchoice]
    exact accept_stay hfailure' .empty read
  rw [htake]
  exact ⟨h.limit, h.state, h.matcher, hbuilt.trans h.builder, h.errors, h.failure⟩

end Reader

namespace Source

variable {front back : List (List Char)} {blank : List Char}

/-- The tokens of a source in which a blank line stands between the other lines. -/
theorem tokens_insert_blank (hmark : ∀ line ∈ front ++ back, line.head? ≠ some '\uFEFF')
    (hblank : Text.AllBlank blank) :
    tokens 0 (.ofLines (front ++ blank :: back)) =
      (lineTokens 0 front).map (Token.relocate (.shifting front.length)) ++
        .ofLine ⟨blank⟩ (front.length + 1) ::
          (tokens front.length (.ofLines back)).map (Token.relocate (.shifting front.length)) := by
  let R := Relocation.shifting front.length
  obtain ⟨hfront, hback⟩ := List.forall_mem_append.mp hmark
  have hline : blank.head? ≠ some '\uFEFF' := by
    rw [← List.append_nil blank]
    exact head?_append_of_allBlank hblank nofun
  have hkeeps : lineTokens 0 front = (lineTokens 0 front).map (Token.relocate R) := by
    have hnumber (i : Nat) (hi : i < front.length) : R.number (0 + i + 1) = 0 + i + 1 :=
      if_pos (by omega)
    rw [← lineTokens_relocate hnumber]
    exact (congrArg _ (List.map_id front)).symm
  have hshifts : tokens (front.length + 1) (.ofLines back) =
      (tokens front.length (.ofLines back)).map (Token.relocate R) := by
    have hnumber (i : Nat) (_ : i ≤ back.length) :
        R.number (front.length + i + 1) = front.length + 1 + i + 1 :=
      (if_neg (by omega)).trans (by omega)
    rw [← tokens_relocate hnumber hback]
    exact (congrArg (fun lines => tokens _ (.ofLines lines)) (List.map_id back)).symm
  rw [tokens_append hfront, Nat.zero_add, tokens_cons hline, ← hkeeps, ← hshifts]

end Source

namespace Parser

variable {p : Parser} {front back : List (List Char)} {blank : List Char} {start : Run}

/-- Lines are read alike when they make room for a blank line between the other lines. -/
theorem readTokens_insert_blank {r : Reader} (hp : p.resolver.IsBuiltin) (hr : p.reader = .ok r)
    {R : Relocation} {front rest : List Token} (hsuits : ∀ t ∈ front ++ rest, t.Suits R)
    (hlines : ∀ t ∈ front, t.isEof = false) {l : Line} (hl : l.isEmpty = true) (number : Nat)
    (hinside : (r.readFront front rest).state.inDocString = false)
    (hblank : (r.readFront front rest).state.blankKind = .empty) :
    p.readTokens (front.map (Token.relocate R) ++
        .ofLine l number :: rest.map (Token.relocate R)) =
      R.retelling.outcome (p.readTokens (front ++ rest)) := by
  obtain ⟨m, hstart, hm⟩ := tellsTitles_of_reader hp hr
  obtain ⟨m, rfl, hdoc⟩ := exists_start_outside hr
  obtain rfl := congrArg Reader.matcher hstart
  obtain ⟨hfront, hrest⟩ := List.forall_mem_append.mp hsuits
  have hahead (m : Matcher) : (m.relocate R).examplesAhead
      (.ofLine l number :: rest.map (Token.relocate R)) = m.examplesAhead rest := by
    rw [Matcher.examplesAhead_of_isEmpty hl, Matcher.examplesAhead_map_relocate]
  have hend (m : Matcher) : (m.relocate R).examplesAhead [] = m.examplesAhead [] := rfl
  have hbuiltin := (Reader.readFront_tellsTitles hm front rest).builtin
  have hfinished : ((Reader.start p.limit m).readFront front rest).state ≠ .finished :=
    Reader.readFront_ne_finished (by simp [Reader.start]) hlines rest
  obtain ⟨hretold, hsound⟩ := (Reader.start_retold R p.limit hdoc).readFront
    (fun _ => Reader.start_sound R p.limit hdoc) hfront hahead
  simp only [readTokens, hr, Reader.complete, Reader.read_append]
  generalize (Reader.start p.limit m).readFront front rest = r at *
  generalize (Reader.start p.limit m).readFront _ _ = r' at *
  cases hfailure : r.failure with
  | some failure =>
      -- neither reader takes another line
      have hfailed : r.failure.isSome := by rw [hfailure]; rfl
      have hfailed' : r'.failure.isSome := by rw [hretold.failure, hfailure]; rfl
      rw [Reader.read_of_failure hfailed, Reader.read_of_failure hfailed']
      exact hretold.outcome_closeRule hsound
  | none =>
      have hfailure' : r'.failure = none := by rw [hretold.failure, hfailure]; rfl
      have hskipped := hretold.take_blank hfailure hbuiltin (hsound hfailure).agrees hfinished
        hinside hblank hl number (rest.map (Token.relocate R))
      obtain ⟨hread, hsound'⟩ := hskipped.readFront hsound hrest hend
      rw [Reader.read_cons_of_failure hfailure', Reader.read_eq_readFront,
        Reader.read_eq_readFront]
      exact hread.outcome_closeRule hsound'

/-- A blank line between the lines of a document, outside descriptions and doc strings, adds one to
the numbers of the lines behind it, and changes nothing else in what parsing comes to. -/
theorem parse_insert_blank (hp : p.resolver.IsBuiltin)
    (hmark : ∀ line ∈ front ++ back, line.head? ≠ some '\uFEFF') (hblank : Text.AllBlank blank)
    (hstart : p.run (.ofLines (front ++ back)) = .ok start)
    (hstate : (Run.steps front.length start).state.number ∉ [28, 30, 32, 4, 7, 13, 18, 24]) :
    p.parse (.ofLines (front ++ blank :: back)) =
      (Retelling.renumbering (shiftBehind front.length)).outcome
        (p.parse (.ofLines (front ++ back))) := by
  obtain ⟨hfront, hback⟩ := List.forall_mem_append.mp hmark
  have htokens : Source.tokens 0 (.ofLines (front ++ back)) =
      Source.lineTokens 0 front ++ Source.tokens front.length (.ofLines back) := by
    rw [Source.tokens_append hfront, Nat.zero_add]
  have hreached := steps_reader hstart front.length
  rw [htokens, List.take_left' (Source.length_lineTokens 0 front),
    List.drop_left' (Source.length_lineTokens 0 front)] at hreached
  have hstate' : (Run.steps front.length start).state = _ := congrArg Reader.state hreached
  obtain ⟨hinside, hkind⟩ := State.outside_of_number hstate
  rw [hstate'] at hinside hkind
  have hempty : Line.isEmpty ⟨blank⟩ = true :=
    List.isEmpty_iff.mpr (Text.trimStart_of_allBlank hblank)
  have hsuits : ∀ t ∈ Source.tokens 0 (.ofLines (front ++ back)),
      t.Suits (.shifting front.length) :=
    Source.suits_tokens (fun _ _ _ => rfl) hmark 0
  rw [parse_ofLines, parse_ofLines, Source.tokens_insert_blank hmark hblank,
    ← Relocation.retelling_renumbering _ rfl]
  rw [htokens] at hsuits ⊢
  exact readTokens_insert_blank hp (run_starts hstart).1 hsuits
    (fun t ht => Source.isEof_of_mem_lineTokens ht) hempty _ hinside hkind

/-- A blank line between the tags of examples and their title line. -/
theorem parse_insert_blank_tags :
    let front := ["Feature: f", "Scenario Outline: o", "Given g", "@t"].map String.toList
    let back := ["Examples:", "|x|"].map String.toList
    ∃ document, parse {} (.ofLines (front ++ back)) = .ok document ∧
      parse {} (.ofLines (front ++ [' ', '\t'] :: back)) =
        .ok (document.retell (.renumbering (shiftBehind 4))) := by
  intro front back
  have hmark : ∀ line ∈ front ++ back, line.head? ≠ some '\uFEFF' := by decide
  have hblank : Text.AllBlank [' ', '\t'] := by
    intro c hc
    simp only [List.mem_cons, List.not_mem_nil, or_false] at hc
    rcases hc with rfl | rfl <;> rfl
  have hparsed : (parse {} (.ofLines (front ++ back))).toOption.isSome = true := by
    decide +kernel
  have hreached : (run {} (.ofLines (front ++ back))).toOption.any (fun start =>
      (Run.steps 4 start).state.number = 22) = true := by
    decide +kernel
  obtain ⟨start, hrun, hreached⟩ := exists_ok_of_any hreached
  have hstate : (Run.steps front.length start).state.number = 22 := of_decide_eq_true hreached
  have hinserted := parse_insert_blank Resolver.isBuiltin_builtin hmark hblank hrun
    (by rw [hstate]; decide)
  obtain ⟨document, hdocument⟩ := exists_ok_of_isSome hparsed
  rw [hdocument] at hinserted
  exact ⟨document, hdocument, hinserted⟩

end Parser
end Gherkin
