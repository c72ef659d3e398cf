import Gherkin.Proofs.Parser.Recovery
import Gherkin.Proofs.Reader.TagRuns
import Gherkin.Proofs.Run.DocStrings
import Gherkin.Proofs.Run.OpenRules

/-!
# The owners of tags

A run of tags in an outline belongs to what comes behind it: to further examples
of that outline, or to the next scenario or outline, in front of which the
outline ends.  In front of anything else it makes parsing fail.
-/

namespace Gherkin

/-- In an outline, outside of a doc string, where no tags are open, tags may belong to
examples.  Behind a doc string its rule is still open, but the state is no longer inside. -/
theorem State.looksAhead_of_stack {s : State} (houtline : .scenarioOutline ∈ s.stack)
    (hdocString : s.inDocString = false) (htags : .tags ∉ s.stack) : s.looksAhead = true := by
  revert s
  decide

namespace Builder

/-- The title line of the outline that is open. -/
def outline? (b : Builder) : Option Leaf :=
  (b.scopes.find? fun scope => scope.rule = .scenarioOutline).bind fun scope =>
    Fold.leaf? .scenarioOutlineLine scope.children

theorem outline?_clean (b : Builder) : b.clean.outline? = b.outline? := by
  rw [outline?, outline?, clean, List.find?_map]
  change ((b.scopes.find? fun scope => scope.rule = .scenarioOutline).map Scope.clean).bind _ = _
  cases b.scopes.find? fun scope => scope.rule = .scenarioOutline with
  | none => rfl
  | some scope => exact Fold.leaf?_cleanAll .scenarioOutlineLine rfl scope.children

end Builder

namespace Draft

/-- The outline that is being read is the one that is open. -/
theorem outline?_builder {d : Draft Leaf} {f : Tree.Feature Leaf} {o : Tree.Outline Leaf}
    (h : d.outline? = some (f, o)) (hread : WellRead d.lines) (pending : List Comment) :
    (d.builder pending).outline? = some o.body.heading.line := by
  have hline : o.body.heading.line.reading.kind = .scenarioOutlineLine := by
    rw [← lines_of_outline? h] at hread
    simp only [Tree.Outline.lines, Tree.Body.lines, Tree.Heading.lines, WellRead.append_iff,
      WellRead.cons_iff] at hread
    exact hread.2.1.2.1.1
  have hleaf (rest : List Node) :
      Fold.leaf? .scenarioOutlineLine (.token o.body.heading.line :: rest) =
        some o.body.heading.line := by
    rw [Fold.leaf?, List.findSome?_cons, Node.leaf?, if_pos hline]
  cases d with
  | outline f tags b =>
      obtain ⟨t, ht, hfo⟩ := Option.map_eq_some_iff.mp h
      cases hfo
      rcases b with (_ | _ | _) | ⟨heading, steps, _ | _ | _ | _⟩ <;> cases ht <;> exact hleaf _
  | examples f o tags heading =>
      cases Option.some.inj h
      rcases heading with _ | _ | _ <;> exact hleaf _
  | examplesTable f o tags heading first rest =>
      cases Option.some.inj h
      exact hleaf _
  | _ => cases h

end Draft

namespace Tree

theorem line_mem_of_mem_document_visits {d : Definition Leaf} {v : Visit}
    (h : v ∈ d.document.visits) : v.line ∈ d.lines.map fun x => x.2.line := by
  have hends : EndsText [] := fun x hx => nomatch hx
  have hvisits := visits_definition d hends
  rw [List.append_nil] at hvisits
  apply line_mem_of_mem_visits
  rw [hvisits]
  exact List.mem_append_left _ h

theorem Feature.definitions_document_addAll (f : Feature Leaf) (d : Definition Leaf)
    (definitions : List (Definition Leaf)) :
    (f.addAll (d :: definitions)).document.definitions =
      f.document.definitions ++ d.document :: definitions.map Definition.document := by
  simp [Feature.document, addAll]

end Tree

/-- Where the tags of a run in an outline are found in a document: the draft behind the title line
of their owner, which has these tags, has grown into it. -/
structure FindsOwner (m : Matcher) (b : Builder) (first : Token) (run : List Token)
    (behind : Token) (document : Document) (kind : TokenKind) (f : Tree.Feature Leaf)
    (o : Tree.Outline Leaf) (tags : List Leaf) (title : Leaf) (t : Option (Tree.Feature Leaf)) :
    Prop where
  owner : kind ∈ State.ownersOfTags (m.isOf .examplesLine behind)
  isOf : m.isOf kind behind = true
  document : document = Tree.document t
  grows : (Draft.titled f o tags title kind).GrowsInto t
  tags : tags.flatMap Leaf.tags = (first :: run).flatMap Token.tags
  title : title.line = behind.number
  outline : b.outline? = some o.body.heading.line
  above : ∀ x ∈ o.lines, x.2.line < first.number

namespace Reader

theorem exists_owner {limit : Option Nat} {m : Matcher} (hm : m.TellsTitles)
    {front run back : List Token} {first behind : Token} {document : Document}
    (hlast : ∃ ts n, front ++ (first :: run ++ behind :: back) = ts ++ [.eof n])
    (hnumbers : (front ++ (first :: run ++ behind :: back)).Pairwise
      fun t u => t.number < u.number)
    {r : Reader} (hr : r = (start limit m).readFront front (first :: run ++ behind :: back))
    (hlook : r.state.looksAhead = true) (hfirst : r.matcher.isOf .tagLine first = true)
    (hrun : ∀ t ∈ run, r.matcher.isBetweenTags t = true)
    (hbehind : r.matcher.isBetweenTags behind = false)
    (hdocument : ((start limit m).complete (front ++ (first :: run ++ behind :: back))).outcome =
      .ok document) :
    ∃ kind f o tags title t,
      FindsOwner r.matcher r.builder first run behind document kind f o tags title t := by
  obtain ⟨herrors, hfine, hresult⟩ := of_complete_eq_ok hdocument
  have hfinished : ((start limit m).read
      (front ++ (first :: run ++ behind :: back))).state = .finished := by
    obtain ⟨ts, n, hts⟩ := hlast
    rw [hts] at herrors hfine ⊢
    exact (start_drafts limit m).state_finished WellRead.nil herrors hfine
  have hsplit : (start limit m).read (front ++ (first :: run ++ behind :: back)) =
      (r.readFront (first :: run ++ [behind]) back).readFront back [] := by
    have hrest : first :: run ++ behind :: back = (first :: run ++ [behind]) ++ back := by simp
    rw [read_append, ← hr, hrest, read_append, read_eq_readFront]
  rw [hsplit] at herrors hfine hresult hfinished
  have hrunErrors := errors_readFront herrors
  have hrunFine := failure_readFront hfine
  have hfrontErrors := errors_readFront hrunErrors
  have hfrontFine := failure_readFront hrunFine
  obtain ⟨d, hfront⟩ := (start_drafts limit m).frontTo WellRead.nil (hr ▸ hfrontErrors)
    (hr ▸ hfrontFine)
  have hdrafts := hfront.drafts
  rw [← hr] at hdrafts
  obtain ⟨f, o, houtline⟩ := Draft.exists_outline?_of_looksAhead (hdrafts.state ▸ hlook)
  have htells : r.matcher.TellsTitles := by
    rw [hr]
    exact readFront_tellsTitles hm _ _
  obtain ⟨kind, howner, tags, title, htags, htitle, hof, htitled, htitledRead⟩ :=
    hdrafts.tagRun htells.builtin hfront.wellRead houtline hlook hfirst hrun hbehind hrunErrors
      hrunFine
  obtain ⟨d', hback⟩ := htitled.frontTo htitledRead herrors hfine
  obtain ⟨t, rfl⟩ := exists_finished_of_state (hback.drafts.state.symm.trans hfinished)
  refine ⟨kind, f, o, tags, title, t, howner, hof, hresult t hback.drafts, hback.grows t rfl,
    htags, htitle, ?_, fun x hx => ?_⟩
  · rw [← Builder.outline?_clean, hdrafts.builder]
    exact Draft.outline?_builder houtline hfront.wellRead _
  · have hmem : x ∈ d.lines := by
      rw [← Draft.lines_of_outline? houtline]
      exact List.mem_append_right _ hx
    rcases hfront.lines x hmem with hnil | hline
    · cases hnil
    · obtain ⟨u, hu, hnumber⟩ := List.mem_map.mp hline
      rw [← hnumber]
      exact (List.pairwise_append.mp hnumbers).2.2 u hu first List.mem_cons_self

end Reader

/-- The kind of the title line of a definition. -/
def Definition.kind : Definition → TokenKind
  | background _ => .backgroundLine
  | scenario _ => .scenarioLine
  | outline _ => .scenarioOutlineLine

/-- In the document of a tree that a draft behind a title line has grown into, the tags in
front of that line are those of the examples, or those of the definition behind an
outline that has stayed as it was. -/
theorem Draft.owner_of_growsInto {f : Tree.Feature Leaf} {o : Tree.Outline Leaf}
    {tags : List Leaf} {title : Leaf} {kind : TokenKind} {t : Option (Tree.Feature Leaf)}
    (hkind : kind ∈ TokenKind.tagOwners) (h : (titled f o tags title kind).GrowsInto t) :
    ∃ feature before o' after,
      (Tree.document t).feature = some feature ∧
      feature.definitions = before ++ .outline o' :: after ∧
      o'.location = o.body.heading.line.location ∧
      (kind = .examplesLine →
        ∃ e ∈ o'.examples, e.location.line = title.line ∧ e.tags = tags.flatMap Leaf.tags) ∧
      (kind ≠ .examplesLine →
        (Tree.Definition.outline o).document = .outline o' ∧
        ∃ next others, after = next :: others ∧ next.kind = kind ∧
          next.title.location.line = title.line ∧ next.tags = tags.flatMap Leaf.tags) := by
  simp only [TokenKind.tagOwners, List.mem_cons, List.not_mem_nil, or_false] at hkind
  rcases hkind with rfl | rfl | rfl
  · obtain ⟨e, examples, definitions, rfl, htags, hline⟩ := h
    refine ⟨_, _, _, _, rfl, f.definitions_document_addAll _ definitions, rfl, fun _ => ?_,
      fun hne => absurd rfl hne⟩
    refine ⟨e.document, ?_, congrArg Leaf.line hline, congrArg (List.flatMap Leaf.tags) htags⟩
    apply List.mem_map_of_mem
    exact List.mem_append_right _ List.mem_cons_self
  · obtain ⟨body, definitions, rfl, hline⟩ := h
    rw [Tree.Feature.addAll_add]
    refine ⟨_, _, _, _, rfl, f.definitions_document_addAll _ _, rfl, nofun, fun _ => ?_⟩
    exact ⟨rfl, _, _, rfl, rfl, congrArg Leaf.line hline, rfl⟩
  · obtain ⟨body, examples, definitions, rfl, hline⟩ := h
    rw [Tree.Feature.addAll_add]
    refine ⟨_, _, _, _, rfl, f.definitions_document_addAll _ _, rfl, nofun, fun _ => ?_⟩
    exact ⟨rfl, _, _, rfl, rfl, congrArg Leaf.line hline, rfl⟩

/-- A run comes to a run of tags in an outline, outside of a doc string: to a tag line in
front of which no tags are open, and lines that may stand between tags, up to one that
may not. -/
structure Run.MeetsTags (r : Run) (first : Token) (run : List Token) (behind : Token) : Prop where
  outline : .scenarioOutline ∈ r.openRules
  docString : r.matcher.docString = none
  tags : .tags ∉ r.openRules
  first : r.matcher.isOf .tagLine first = true
  run : ∀ t ∈ run, r.matcher.isBetweenTags t = true
  behind : r.matcher.isBetweenTags behind = false

theorem Run.meetsTags_iff {r : Run} {first behind : Token} {run : List Token} :
    r.MeetsTags first run behind ↔
      (.scenarioOutline ∈ r.openRules ∧ r.matcher.docString = none ∧ .tags ∉ r.openRules) ∧
        r.matcher.isOf .tagLine first = true ∧
        (∀ t ∈ run, r.matcher.isBetweenTags t = true) ∧
        r.matcher.isBetweenTags behind = false := by
  constructor
  · exact fun ⟨houtline, hdocString, htags, hfirst, hrun, hbehind⟩ =>
      ⟨⟨houtline, hdocString, htags⟩, hfirst, hrun, hbehind⟩
  · exact fun ⟨⟨houtline, hdocString, htags⟩, hfirst, hrun, hbehind⟩ =>
      ⟨houtline, hdocString, htags, hfirst, hrun, hbehind⟩

instance (r : Run) (first behind : Token) (run : List Token) :
    Decidable (r.MeetsTags first run behind) :=
  decidable_of_iff' _ Run.meetsTags_iff

namespace Parser

/-- A run behind the first tokens of a source is where the reader is, and comes to what
parsing comes to. -/
theorem run_front {p : Parser} {lines : List (List Char)} {start : Run}
    (hstart : p.run (.ofLines lines) = .ok start) {front rest : List Token} (hrest : rest ≠ [])
    (htokens : Source.tokens 0 (.ofLines lines) = front ++ rest) :
    let r := Run.steps front.length start
    ∃ reader, p.reader = .ok reader ∧ r.reader = reader.readFront front rest ∧
      r.ended = false ∧ (r.failure = none → r.Awaits rest) ∧
      p.parse (.ofLines lines) = (reader.complete (front ++ rest)).outcome := by
  intro r
  have hparse := p.parse_ofLines lines
  obtain ⟨hreader, hended, -, -⟩ := run_starts hstart
  have hawaits := run_awaits hstart
  rw [htokens] at hawaits
  rw [readTokens, htokens, hreader] at hparse
  obtain ⟨hfront, hended', hwaits⟩ := Run.steps_front hended hawaits
    (Source.isEof_of_tokens_eq hrest htokens)
  exact ⟨start.reader, hreader, hfront, hended', hwaits, hparse⟩

section

variable {p : Parser} {lines : List (List Char)} {start : Run} {front run back : List Token}
  {first behind : Token}

theorem looksAhead_of_meetsTags (hstart : p.run (.ofLines lines) = .ok start) {n : Nat}
    (h : (Run.steps n start).MeetsTags first run behind)
    (hfailure : (Run.steps n start).failure = none) :
    (Run.steps n start).state.looksAhead = true := by
  have hopen := ((stacked_run hstart).1.steps n).openRules hfailure
  apply State.looksAhead_of_stack
  · rw [← hopen]
    exact h.outline
  · have hagrees : (Run.steps n start).Agrees := (outside_run hstart).2.steps n
    rw [← hagrees, h.docString]
    rfl
  · rw [← hopen]
    exact h.tags

/-- The lines of a run of tags and the title line behind it are lines. -/
theorem isEof_of_meetsTags {m : Matcher}
    (htokens : Source.tokens 0 (.ofLines lines) = front ++ (first :: run ++ behind :: back))
    {kind : TokenKind} (hkind : kind.keywordKind?.isSome = true)
    (hof : m.isOf kind behind = true) : ∀ t ∈ first :: run ++ [behind], t.isEof = false := by
  intro t ht
  rcases List.mem_append.mp ht with ht | ht
  · rw [← List.append_assoc] at htokens
    apply Source.isEof_of_tokens_eq (List.cons_ne_nil behind back) htokens
    exact List.mem_append_right _ ht
  · have heof : kind ≠ .eof := by
      rintro rfl
      cases hkind
    obtain rfl := List.mem_singleton.mp ht
    obtain ⟨l, hline, -⟩ := Matcher.exists_line_of_isOf heof hof
    rw [Token.isEof, hline]
    rfl

/-- The tags of a run of tags are found in the document, if there is one. -/
theorem exists_owner (hp : p.resolver.IsBuiltin) (hstart : p.run (.ofLines lines) = .ok start)
    (htokens : Source.tokens 0 (.ofLines lines) = front ++ (first :: run ++ behind :: back))
    (h : (Run.steps front.length start).MeetsTags first run behind) {document : Document}
    (hdocument : p.parse (.ofLines lines) = .ok document) :
    let r := Run.steps front.length start
    ∃ kind f o tags title t,
      FindsOwner r.matcher r.builder first run behind document kind f o tags title t := by
  intro r
  obtain ⟨reader, hreader, hr, -, -, hparse⟩ := run_front hstart (by simp) htokens
  obtain ⟨m, rfl, hm⟩ := tellsTitles_of_reader hp hreader
  rw [hdocument] at hparse
  have hfailure : r.failure = none := by
    obtain ⟨-, hfine, -⟩ := Reader.of_complete_eq_ok hparse.symm
    rw [Reader.read_append, ← hr] at hfine
    exact Reader.failure_read hfine
  have hlook := looksAhead_of_meetsTags hstart h hfailure
  refine Reader.exists_owner hm ?_ ?_ hr hlook h.first h.run h.behind hparse.symm
  · rw [← htokens]
    exact Source.exists_tokens_eq 0 lines
  · rw [← htokens]
    exact Source.pairwise_tokens 0 lines

theorem tellsTitles_of_front (hp : p.resolver.IsBuiltin)
    (hstart : p.run (.ofLines lines) = .ok start) {rest : List Token} (hrest : rest ≠ [])
    (htokens : Source.tokens 0 (.ofLines lines) = front ++ rest) :
    (Run.steps front.length start).matcher.TellsTitles := by
  obtain ⟨reader, hreader, hr, -, -, -⟩ := run_front hstart hrest htokens
  obtain ⟨m, rfl, hm⟩ := tellsTitles_of_reader hp hreader
  have htells : ((Reader.start p.limit m).readFront front rest).matcher.TellsTitles :=
    Reader.readFront_tellsTitles hm front rest
  rw [← hr] at htells
  exact htells

/-- No line of a run of tags is unexpected in front of the title line of an owner. -/
theorem unexpectedLines_of_meetsTags (hp : p.resolver.IsBuiltin)
    (hstart : p.run (.ofLines lines) = .ok start)
    (htokens : Source.tokens 0 (.ofLines lines) = front ++ (first :: run ++ behind :: back))
    (h : (Run.steps front.length start).MeetsTags first run behind) {kind : TokenKind}
    (hkind : kind ∈ TokenKind.tagOwners)
    (hof : (Run.steps front.length start).matcher.isOf kind behind = true) :
    Reader.unexpectedLines (Run.steps (run.length + 2) (Run.steps front.length start)).errors =
      Reader.unexpectedLines (Run.steps front.length start).errors := by
  obtain ⟨-, -, -, hended, hwaits, -⟩ := run_front hstart (by simp) htokens
  have htells := tellsTitles_of_front hp hstart (by simp) htokens
  let r := Run.steps front.length start
  cases hfailure : r.failure with
  | some failure =>
      have hover : r.isOver = true := by
        rw [Run.isOver, hfailure]
        rfl
      rw [Run.steps_of_isOver hover]
  | none =>
      have hlook := looksAhead_of_meetsTags hstart h hfailure
      have hlines := isEof_of_meetsTags htokens (TokenKind.keywordKind?_of_mem_tagOwners hkind) hof
      have hawaits : r.Awaits (first :: run ++ [behind] ++ back) := by
        rw [List.append_assoc]
        exact hwaits hfailure
      obtain ⟨hread, -, -⟩ := Run.steps_front hended hawaits hlines
      have hlength : (first :: run ++ [behind]).length = run.length + 2 := by simp
      have herrors : (Run.steps (run.length + 2) r).errors =
          (r.reader.readFront (first :: run ++ [behind]) back).errors := by
        rw [← hread, hlength]
        rfl
      have htagRun : Reader.unexpectedLines
          (r.reader.readFront (first :: run ++ [behind]) back).errors =
            Reader.unexpectedLines r.errors :=
        Reader.unexpectedLines_tagRun htells hlook h.first h.run h.behind hkind hof back
      rw [herrors, htagRun]

/-- A run of tags in an outline finds its owner.  In front of a line that is no title line
of examples, a scenario or an outline it makes parsing fail.  In front of such a title
line no line of the run is unexpected, and a document that is read has all tags of the
run, in order, where they belong: they are the tags of the examples, which belong to the
outline that was open, or the tags of the next definition, and then everything in the
outline stands in front of the run. -/
theorem parse_tagRun (hp : p.resolver.IsBuiltin) (hstart : p.run (.ofLines lines) = .ok start)
    (htokens : Source.tokens 0 (.ofLines lines) = front ++ (first :: run ++ behind :: back))
    (h : (Run.steps front.length start).MeetsTags first run behind) :
    let r := Run.steps front.length start
    let tags := (first :: run).flatMap Token.tags
    ((∀ kind ∈ TokenKind.tagOwners, r.matcher.isOf kind behind = false) →
        ∃ failure, p.parse (.ofLines lines) = .error failure) ∧
      (∀ kind ∈ TokenKind.tagOwners, r.matcher.isOf kind behind = true →
        Reader.unexpectedLines (Run.steps (run.length + 2) r).errors =
          Reader.unexpectedLines r.errors) ∧
      ∀ document, p.parse (.ofLines lines) = .ok document →
        ∃ feature before o after,
          document.feature = some feature ∧
          feature.definitions = before ++ .outline o :: after ∧
          r.builder.outline?.map Leaf.location = some o.location ∧
          (r.matcher.isOf .examplesLine behind = true →
            ∃ e ∈ o.examples, e.location.line = behind.number ∧ e.tags = tags) ∧
          ∀ kind ∈ [TokenKind.scenarioLine, .scenarioOutlineLine],
            r.matcher.isOf kind behind = true →
              (∀ v ∈ (Definition.outline o).visits, v.line < first.number) ∧
              ∃ next others, after = next :: others ∧ next.kind = kind ∧
                next.title.location.line = behind.number ∧ next.tags = tags := by
  intro r tags
  have hany : ∀ ahead, ∀ kind ∈ State.ownersOfTags ahead, kind ∈ TokenKind.tagOwners := by decide
  refine ⟨fun hnone => ?_,
    fun kind hkind hof => unexpectedLines_of_meetsTags hp hstart htokens h hkind hof,
    fun document hdocument => ?_⟩
  · cases hparse : p.parse (.ofLines lines) with
    | error failure => exact ⟨failure, rfl⟩
    | ok document =>
        obtain ⟨kind, f, o, leaves, title, t, howner⟩ := exists_owner hp hstart htokens h hparse
        have hnot := hnone kind (hany _ kind howner.owner)
        rw [howner.isOf] at hnot
        cases hnot
  · obtain ⟨kind, f, o, leaves, title, t, howner, hof, rfl, hgrows, htags, htitle, houtline,
      hlines⟩ := exists_owner hp hstart htokens h hdocument
    have hkind := hany _ kind howner
    obtain ⟨feature, before, o', after, hfeature, hdefinitions, hlocation, hexamples, hothers⟩ :=
      Draft.owner_of_growsInto hkind hgrows
    rw [htags, htitle] at hexamples hothers
    refine ⟨feature, before, o', after, hfeature, hdefinitions, ?_, fun hahead => ?_,
      fun kind' hkind' hof' => ?_⟩
    · rw [houtline, hlocation]
      rfl
    · rw [hahead] at howner
      exact hexamples (List.mem_singleton.mp howner)
    · have htells := tellsTitles_of_front hp hstart (by simp) htokens
      obtain rfl :=
        htells.eq_of_mem_tagOwners hkind (List.mem_cons_of_mem _ hkind') hof hof'
      have hne : kind ≠ .examplesLine := by
        rintro rfl
        revert hkind'
        decide
      obtain ⟨ho, hnext⟩ := hothers hne
      refine ⟨fun v hv => ?_, hnext⟩
      rw [← ho] at hv
      obtain ⟨x, hx, hline⟩ := List.mem_map.mp (Tree.line_mem_of_mem_document_visits hv)
      rw [← hline]
      exact hlines x hx

end

/-- Tags, a comment and a blank line between the doc string at the end of an outline and a
scenario. -/
theorem parse_tagRun_scenario :
    let texts := ["Feature: f", "Scenario Outline: o", "Given <a>", "\"\"\"", "@t", "\"\"\"",
      "@x @y", "# c", "", "@z", "Scenario: s", "Given b"]
    ∃ document feature before o next others,
      parse {} (.ofLines (texts.map String.toList)) = .ok document ∧
      document.feature = some feature ∧
      feature.definitions = before ++ .outline o :: next :: others ∧
      (∀ v ∈ (Definition.outline o).visits, v.line < 7) ∧
      next.title.location.line = 11 ∧
      next.tags = [⟨⟨7, 1⟩, "@x"⟩, ⟨⟨7, 4⟩, "@y"⟩, ⟨⟨10, 1⟩, "@z"⟩] := by
  intro texts
  let lines := texts.map String.toList
  let token (text : String) (number : Nat) := Token.ofLine (.ofString text) number
  let front := [token "Feature: f" 1, token "Scenario Outline: o" 2, token "Given <a>" 3,
    token "\"\"\"" 4, token "@t" 5, token "\"\"\"" 6]
  let first := token "@x @y" 7
  let run := [token "# c" 8, token "" 9, token "@z" 10]
  let behind := token "Scenario: s" 11
  have htokens : Source.tokens 0 (.ofLines lines) =
      front ++ (first :: run ++ behind :: [token "Given b" 12, .eof 13]) := rfl
  have hok : (parse {} (.ofLines lines)).toOption.isSome = true := by decide +kernel
  obtain ⟨document, hdocument⟩ := exists_ok_of_isSome hok
  have hmeets : (Parser.run {} (.ofLines lines)).toOption.any (fun start =>
      let r := Run.steps 6 start
      decide (r.MeetsTags first run behind) && r.matcher.isOf .scenarioLine behind) = true := by
    decide +kernel
  obtain ⟨start, hrun, hmeets⟩ := exists_ok_of_any hmeets
  simp only [Bool.and_eq_true, decide_eq_true_eq] at hmeets
  obtain ⟨-, -, howner⟩ := parse_tagRun Resolver.isBuiltin_builtin hrun htokens hmeets.1
  obtain ⟨feature, before, o, after, hfeature, hdefinitions, -, -, hnext⟩ :=
    howner document hdocument
  obtain ⟨hvisits, next, others, rfl, -, hline, htags⟩ :=
    hnext .scenarioLine (by decide) hmeets.2
  have hwritten : (first :: run).flatMap Token.tags =
      [⟨⟨7, 1⟩, "@x"⟩, ⟨⟨7, 4⟩, "@y"⟩, ⟨⟨10, 1⟩, "@z"⟩] := by
    decide +kernel
  exact ⟨document, feature, before, o, next, others, hdocument, hfeature, hdefinitions, hvisits,
    hline, htags.trans hwritten⟩

end Parser
end Gherkin
