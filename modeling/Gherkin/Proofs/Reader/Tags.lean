import Gherkin.Proofs.Dialect.Titles

/-!
# Tags in front of examples and scenarios

Inside an outline a tag line belongs to examples or to the next scenario,
whichever the lines behind it say.  Once that is decided, further tags, blank
lines and comments are taken as they come, up to the title line.
-/

namespace Gherkin

namespace Matcher

variable {m : Matcher} {kind : TokenKind} {t : Token}

/-- A tag line is of no other kind, apart from free text. -/
theorem lineContent?_of_tag (hproper : m.dialect.Proper) {l : Line}
    (h : l.startsWith "@" = true) (kind : TokenKind) :
    (m.lineContent? kind l).isSome = State.mayBe .tagLine kind := by
  have hsign : l.trimmed.head? = some '@' := Line.head?_of_startsWith rfl h
  have hhead (c : Char) (hc : c ≠ '@') : l.trimmed.head? ≠ some c := by
    simpa [hsign] using Ne.symm hc
  have hmark : ∀ c ∉ markChars, l.trimmed.head? ≠ some c := by
    intro c hc
    refine hhead c ?_
    rintro rfl
    exact hc (by decide)
  have hseparator : m.separator? l = none := by
    cases hdoc : m.docString with
    | none => exact separator?_eq_none hdoc (hhead _ (by decide)) (hhead _ (by decide))
    | some opened =>
        have hstarts : l.startsWith opened.separator.text = false := by
          cases opened.separator with
          | quotes => exact Line.startsWith_eq_false _ rfl (hhead '"' (by decide))
          | backticks => exact Line.startsWith_eq_false _ rfl (hhead '\x60' (by decide))
        simp [separator?, hdoc, hstarts]
  cases kind with
  | eof | other => rfl
  | empty =>
      obtain ⟨cs, hcs⟩ := List.head?_eq_some_iff.mp hsign
      simp [lineContent?, Line.isEmpty, hcs, State.mayBe]
  | comment =>
      simp [lineContent?, State.mayBe, Line.startsWith_eq_false "#" rfl (hhead _ (by decide))]
  | tagLine => simp [lineContent?, h, State.mayBe]
  | docStringSeparator => simp [lineContent?, hseparator, State.mayBe]
  | tableRow =>
      simp [lineContent?, State.mayBe, Line.startsWith_eq_false "|" rfl (hhead _ (by decide))]
  | language =>
      simp [lineContent?, State.mayBe,
        Line.languageTag?_eq_none (Line.startsWith_eq_false "#" rfl (hhead _ (by decide)))]
  | stepLine => simp [lineContent?, step?_eq_none hproper hmark, State.mayBe]
  | featureLine | backgroundLine | scenarioLine | scenarioOutlineLine | examplesLine =>
      simp [lineContent?, title?_eq_none hproper hmark, State.mayBe]

theorem isOf_of_tagLine (hm : m.IsBuiltin) (h : m.isOf .tagLine t = true) (kind : TokenKind) :
    m.isOf kind t = State.mayBe .tagLine kind := by
  obtain ⟨l, hline, hsome⟩ := exists_line_of_isOf (by decide) h
  rw [isOf, hline]
  refine lineContent?_of_tag hm.dialect ?_ kind
  simpa [lineContent?] using hsome

/-- What may stand between tags and a title line is no title line. -/
theorem isOf_of_isBetweenTags (hm : m.IsBuiltin) (h : m.isBetweenTags t = true) {k : KeywordKind}
    (hkind : kind.keywordKind? = some k) : m.isOf kind t = false := by
  obtain ⟨between, hmem, hbetween⟩ := List.any_eq_true.mp h
  have heof : between ≠ .eof := by
    rintro rfl
    revert hmem
    decide
  obtain ⟨l, hline, hsome⟩ := exists_line_of_isOf heof hbetween
  have hhead : ∀ c ∉ markChars, l.trimmed.head? ≠ some c := by
    intro c hc hfirst
    simp only [betweenTags, List.mem_cons, List.not_mem_nil, or_false] at hmem
    rcases hmem with rfl | rfl | rfl
    · have hempty : l.isEmpty = true := by simpa [lineContent?] using hsome
      rw [Line.head?_of_isEmpty hempty] at hfirst
      cases hfirst
    · have hsharp : l.startsWith "#" = true := by simpa [lineContent?] using hsome
      rw [Line.head?_of_startsWith rfl hsharp, Option.some.injEq] at hfirst
      exact hc (by rw [← hfirst]; decide)
    · have hsign : l.startsWith "@" = true := by simpa [lineContent?] using hsome
      rw [Line.head?_of_startsWith rfl hsign, Option.some.injEq] at hfirst
      exact hc (by rw [← hfirst]; decide)
  rw [isOf, hline, content?, lineContent?_of_keywordKind? hkind, title?_eq_none hm.dialect hhead]
  rfl

end Matcher

namespace State

/-- Tags in this state may belong to examples: an outline is open, and no doc
string. -/
def looksAhead (s : State) : Bool :=
  s.transitions.any Transition.lookahead

theorem select_tagLine {s : State} (h : s.looksAhead = true) (ahead : Bool) :
    s.select .tagLine ahead = some (if ahead then s.tagsOfExamples else s.tagsOfScenario) := by
  revert s ahead
  decide

/-- The state is behind tags, so that a title line has to follow. -/
def behindTags (s : State) : Bool :=
  s = definitionTags || s = examplesTags

/-- Behind tags the lines between tags change nothing, and what else is accepted is
a title line. -/
theorem transitions_behindTags {s : State} (h : s.behindTags = true) :
    ∀ u ∈ s.transitions, u.lookahead = false ∧
      (u.kind ∈ Matcher.betweenTags ∧ u = s.stay u.kind ∨ u.kind.keywordKind?.isSome = true) := by
  revert s
  decide

theorem stay_mem_behindTags {s : State} (h : s.behindTags = true) :
    ∀ kind ∈ Matcher.betweenTags, s.stay kind ∈ s.transitions := by
  revert s
  decide

theorem eq_of_kind_behindTags {s : State} (h : s.behindTags = true) :
    ∀ u ∈ s.transitions, ∀ v ∈ s.transitions, u.kind = v.kind → u = v := by
  revert s
  decide

end State

namespace Reader

variable {r : Reader} {t : Token}

/-- Inside an outline a tag line belongs to examples when these come first, and to a
scenario otherwise. -/
theorem choice_tagLine (hm : r.matcher.IsBuiltin) (hlook : r.state.looksAhead = true)
    (h : r.matcher.isOf .tagLine t = true) (ts : List Token) :
    ∃ read, r.matcher.matchAs .tagLine t = .ok (some (r.matcher, read)) ∧
      r.choice t ts = .ok (some ⟨if r.matcher.examplesAhead ts then r.state.tagsOfExamples
        else r.state.tagsOfScenario, r.matcher, read⟩) := by
  obtain ⟨next, read, hmatch⟩ := Matcher.exists_matchAs_of_isOf h (by decide)
  obtain rfl := Matcher.eq_of_matchAs (by decide) (by decide) hmatch
  refine ⟨read, hmatch, Matcher.choose_of_find? ?_ ?_ ?_⟩
  · exact fun u hu => Run.kind_eq_tagLine_of_lookahead hu
  · rw [← State.find?_mayBe (State.select_tagLine hlook _)]
    exact State.find?_congr fun u _ => by rw [Matcher.isOf_of_tagLine hm h]
  · split <;> exact hmatch

/-- Behind tags the lines between tags are taken and change nothing but the open
tags. -/
theorem choice_between (hm : r.matcher.IsBuiltin) (hstate : r.state.behindTags = true)
    (h : r.matcher.isBetweenTags t = true) (ts : List Token) :
    ∃ kind ∈ Matcher.betweenTags, ∃ read,
      r.matcher.matchAs kind t = .ok (some (r.matcher, read)) ∧
        r.choice t ts = .ok (some ⟨r.state.stay kind, r.matcher, read⟩) := by
  have hall := State.transitions_behindTags hstate
  obtain ⟨between, hmem, hbetween⟩ := List.any_eq_true.mp h
  let applies := fun u : Transition =>
    r.matcher.isOf u.kind t && (!u.lookahead || r.matcher.examplesAhead ts)
  have hsome : (r.state.transitions.find? applies).isSome = true := by
    have hstay := State.stay_mem_behindTags hstate between hmem
    refine List.find?_isSome.mpr ⟨_, hstay, ?_⟩
    rw [Bool.and_eq_true, (hall _ hstay).1]
    exact ⟨hbetween, rfl⟩
  obtain ⟨u, hfind⟩ := Option.isSome_iff_exists.mp hsome
  have hu := List.mem_of_find?_eq_some hfind
  have happlies : applies u = true := List.find?_some hfind
  have hof : r.matcher.isOf u.kind t = true := (Bool.and_eq_true_iff.mp happlies).1
  rcases (hall u hu).2 with ⟨hkind, hstay⟩ | htitle
  · have hplain : u.kind ≠ .language ∧ u.kind ≠ .docStringSeparator := by
      constructor <;> intro heq <;> rw [heq] at hkind <;> revert hkind <;> decide
    obtain ⟨next, read, hmatch⟩ := Matcher.exists_matchAs_of_isOf hof hplain.1
    obtain rfl := Matcher.eq_of_matchAs hplain.1 hplain.2 hmatch
    refine ⟨u.kind, hkind, read, hmatch, ?_⟩
    rw [← hstay]
    exact Matcher.choose_of_find? (fun u hu => Run.kind_eq_tagLine_of_lookahead hu) hfind hmatch
  · obtain ⟨k, hk⟩ := Option.isSome_iff_exists.mp htitle
    rw [Matcher.isOf_of_isBetweenTags hm h hk] at hof
    cases hof

/-- Behind tags a title line that the state accepts is taken as what it is. -/
theorem choice_title (hm : r.matcher.TellsTitles) (hstate : r.state.behindTags = true)
    {u : Transition} (hu : u ∈ r.state.transitions) {k : KeywordKind}
    (hkind : u.kind.keywordKind? = some k) (h : r.matcher.isOf u.kind t = true) (ts : List Token) :
    ∃ read, r.matcher.matchAs u.kind t = .ok (some (r.matcher, read)) ∧
      r.choice t ts = .ok (some ⟨u, r.matcher, read⟩) := by
  have hall := State.transitions_behindTags hstate
  have hplain : u.kind ≠ .language ∧ u.kind ≠ .docStringSeparator := by
    constructor <;> intro heq <;> rw [heq] at hkind <;> cases hkind
  obtain ⟨next, read, hmatch⟩ := Matcher.exists_matchAs_of_isOf h hplain.1
  obtain rfl := Matcher.eq_of_matchAs hplain.1 hplain.2 hmatch
  refine ⟨read, hmatch, Matcher.choose_of_find?
    (fun u hu => Run.kind_eq_tagLine_of_lookahead hu) ?_ hmatch⟩
  have honly : ∀ v ∈ r.state.transitions,
      (r.matcher.isOf v.kind t && (!v.lookahead || r.matcher.examplesAhead ts)) =
        decide (v = u) := by
    intro v hv
    rw [(hall v hv).1, Bool.not_false, Bool.true_or, Bool.and_true, Bool.eq_iff_iff,
      decide_eq_true_iff]
    refine ⟨fun hof => ?_, fun heq => heq ▸ h⟩
    rcases (hall v hv).2 with ⟨hbetween, -⟩ | htitle
    · have hbetween : r.matcher.isBetweenTags t = true :=
        List.any_eq_true.mpr ⟨_, hbetween, hof⟩
      rw [Matcher.isOf_of_isBetweenTags hm.builtin hbetween hkind] at h
      cases h
    · obtain ⟨k', hk'⟩ := Option.isSome_iff_exists.mp htitle
      exact State.eq_of_kind_behindTags hstate v hv u hu (hm.eq_of_isOf hk' hkind hof h)
  let isIt := fun v : Transition => decide (v = u)
  have hsome : (r.state.transitions.find? isIt).isSome = true :=
    List.find?_isSome.mpr ⟨u, hu, decide_eq_true rfl⟩
  obtain ⟨v, hfind⟩ := Option.isSome_iff_exists.mp hsome
  have heq : isIt v = true := List.find?_some hfind
  rw [of_decide_eq_true heq] at hfind
  rw [State.find?_congr honly]
  exact hfind

end Reader
end Gherkin
