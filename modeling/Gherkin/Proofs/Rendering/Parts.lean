import Gherkin.Proofs.Rendering.Leaves
import Gherkin.Proofs.Rendering.Lines
import Gherkin.Proofs.Rendering.Sentences

/-!
# Reading rendered parts

The lines of each part of a rendered feature are read as a part of a tree that
holds what has been written.  What stands behind the part enters only through
the lines that it is read as.
-/

namespace Gherkin

open Gherkin.Tree (linesOf)

/-- Lines of a part of a tree with a property, in front of lines with another
property. -/
def Leading {β : Type} (partLines : β → List (TokenKind × Leaf)) (holds : β → Prop)
    (P : List (TokenKind × Leaf) → Prop) (lines : List (TokenKind × Leaf)) : Prop :=
  ∃ x rest, holds x ∧ P rest ∧ lines = partLines x ++ rest

/-- Blank lines behind a description do not show in it. -/
theorem describe_append_of_blank {texts blanks : List String} (h : ∀ text ∈ blanks, text = "") :
    describe (texts ++ blanks) = describe texts := by
  have hblank : ∀ text ∈ blanks, Text.AllBlank text.toList := by
    intro text htext
    rw [h text htext]
    exact fun c hc => absurd hc List.not_mem_nil
  rw [describe, describe, Text.trimString_intercalate_append texts hblank]

namespace Matcher

variable {m : Matcher} {es : List Entry} {P : List (TokenKind × Leaf) → Prop}

/-- Lines that are read in the same way wherever they stand. -/
def Begins (m : Matcher) (es : List Entry) (P : List (TokenKind × Leaf) → Prop) : Prop :=
  ∀ columns previous number, ∃ lines, P lines ∧ m.Follows columns [] previous number es lines

/-- Lines that may add blank lines to a description in front of them, where
`columns` is the number of cells in a row of a table there. -/
def ContinuesAt (m : Matcher) (columns : Option Nat) (es : List Entry)
    (P : List (TokenKind × Leaf) → Prop) : Prop :=
  ∀ previous number, ∃ (trail : List Leaf) (lines : List (TokenKind × Leaf)),
    (∀ leaf ∈ trail, leaf.text = "") ∧ (previous ≠ .other → trail = []) ∧ P lines ∧
      m.Follows columns [] previous number es (linesOf .other trail ++ lines)

@[inherit_doc ContinuesAt]
def Continues (m : Matcher) (es : List Entry) (P : List (TokenKind × Leaf) → Prop) : Prop :=
  ∀ columns, m.ContinuesAt columns es P

theorem Begins.continues (h : m.Begins es P) : m.Continues es P := by
  intro columns previous number
  obtain ⟨lines, hlines, hfollows⟩ := h columns previous number
  exact ⟨[], lines, nofun, fun _ => rfl, hlines, hfollows⟩

theorem Begins.imp {Q : List (TokenKind × Leaf) → Prop} (h : m.Begins es P)
    (hPQ : ∀ lines, P lines → Q lines) : m.Begins es Q := by
  intro columns previous number
  obtain ⟨lines, hlines, hfollows⟩ := h columns previous number
  exact ⟨lines, hPQ lines hlines, hfollows⟩

theorem Continues.imp {Q : List (TokenKind × Leaf) → Prop} (h : m.Continues es P)
    (hPQ : ∀ lines, P lines → Q lines) : m.Continues es Q := by
  intro columns previous number
  obtain ⟨trail, lines, htexts, htrail, hlines, hfollows⟩ := h columns previous number
  exact ⟨trail, lines, htexts, htrail, hPQ lines hlines, hfollows⟩

theorem Continues.nil : m.Continues [] (· = []) := by
  intro columns previous number
  exact ⟨[], [], nofun, fun _ => rfl, rfl, Follows.nil⟩

/-- Only a description takes blank lines in. -/
theorem Continues.exists_follows (h : m.Continues es P) {previous : TokenKind}
    (hprevious : previous ≠ .other) (columns : Option Nat) (number : Nat) :
    ∃ lines, P lines ∧ m.Follows columns [] previous number es lines := by
  obtain ⟨trail, lines, -, htrail, hlines, hfollows⟩ := h columns previous number
  rw [htrail hprevious] at hfollows
  exact ⟨lines, hlines, hfollows⟩

/-- Parts of one kind, one behind the other. -/
theorem Continues.flatMap {β γ δ : Type} {entries : β → List Entry}
    {partLines : γ → List (TokenKind × Leaf)} {content : γ → δ} {written : β → δ}
    (hone : ∀ x {es P}, m.Continues es P →
      m.Continues (entries x ++ es) (Leading partLines (fun t => content t = written x) P))
    (h : m.Continues es P) (xs : List β) :
    m.Continues (xs.flatMap entries ++ es)
      (Leading (List.flatMap partLines) (fun ts => ts.map content = xs.map written) P) := by
  induction xs with
  | nil =>
      intro columns previous number
      obtain ⟨trail, lines, htexts, htrail, hlines, hfollows⟩ := h columns previous number
      exact ⟨trail, lines, htexts, htrail, ⟨[], lines, rfl, hlines, rfl⟩, hfollows⟩
  | cons x xs ih =>
      intro columns previous number
      obtain ⟨trail, lines, htexts, htrail, ⟨t, rest, ht, ⟨ts, rest', hts, hrest', rfl⟩, rfl⟩,
        hfollows⟩ := hone x ih columns previous number
      refine ⟨trail, (t :: ts).flatMap partLines ++ rest', htexts, htrail,
        ⟨t :: ts, rest', ?_, hrest', rfl⟩, ?_⟩
      · simp only [List.map_cons, ht, hts]
      · rw [List.flatMap_cons, List.flatMap_cons, List.append_assoc, List.append_assoc]
        exact hfollows

end Matcher

namespace Written

open Matcher (Follows)

variable {m : Matcher} {es : List Entry} {P : List (TokenKind × Leaf) → Prop}

theorem continues_gap (hm : m.IsEnglish) (h : m.Begins es P) : m.Continues (gap :: es) P := by
  intro columns previous number
  obtain ⟨lines, hlines, hfollows⟩ := h columns _ _
  obtain ⟨trail, htexts, htrail, hall⟩ :=
    Follows.blank hm.docString (show (Line.mk []).isEmpty = true from rfl) hfollows
  exact ⟨trail, lines, htexts, htrail, hlines, hall⟩

/-- Tags in front of lines. -/
theorem begins_tags (hm : m.IsEnglish) (h : m.Begins es P) (n : Nat) (tags : List Tag) :
    m.Begins (tagEntries n tags ++ es)
      (Leading (linesOf .tagLine)
        (fun run => (run.flatMap Leaf.tags).map Gherkin.Tag.unplaced = tags.map Tag.content)
        P) := by
  intro columns previous number
  cases tags with
  | nil =>
      obtain ⟨lines, hlines, hfollows⟩ := h columns previous number
      exact ⟨lines, ⟨[], lines, rfl, hlines, rfl⟩, hfollows⟩
  | cons tag tags =>
      obtain ⟨lines, hlines, hfollows⟩ := h none .tagLine (number + 1)
      obtain ⟨hreads, htexts⟩ := reads_tags hm n tag tags rfl
      refine ⟨_, ⟨[_], lines, ?_, hlines, rfl⟩, Follows.plain hm.docString rfl (by decide)
        (by decide) hreads rfl hfollows⟩
      have hcontents := congrArg (List.map fun text => (⟨nowhere, text⟩ : Gherkin.Tag)) htexts
      rw [List.map_map, List.map_map] at hcontents
      simp only [List.flatMap_cons, List.flatMap_nil, List.append_nil, Leaf.tags, List.map_map]
      exact hcontents

/-- Lines of a description, and the blank lines that it takes in. -/
theorem follows_description (hm : m.IsEnglish) (h : m.ContinuesAt none es P) (n : Nat)
    (description : List FreeLine) (previous : TokenKind) (number : Nat) :
    ∃ run blanks lines, (∀ text ∈ blanks, text = "") ∧
      run.map Leaf.text = description.map (fun l => (indented n l.chars).raw) ++ blanks ∧
      P lines ∧
      m.Follows none [] previous number
        (description.map (fun l => Entry.line .other (indented n l.chars)) ++ es)
        (linesOf .other run ++ lines) := by
  induction description generalizing previous number with
  | nil =>
      obtain ⟨trail, lines, htexts, -, hlines, hfollows⟩ := h previous number
      refine ⟨trail, trail.map Leaf.text, lines, ?_, rfl, hlines, hfollows⟩
      simpa using htexts
  | cons l ls ih =>
      obtain ⟨run, blanks, lines, hblanks, hrun, hlines, hfollows⟩ := ih .other (number + 1)
      refine ⟨_ :: run, blanks, lines, hblanks, ?_, hlines, Follows.plain hm.docString rfl
        (by decide) (by decide) (reads_freeLine hm n l) rfl hfollows⟩
      rw [List.map_cons, hrun]
      rfl

/-- A title line with its description. -/
theorem begins_heading (hm : m.IsEnglish) (h : m.ContinuesAt none es P) {kind : TokenKind}
    {k : KeywordKind} {keyword : String} (hkind : kind.keywordKind? = some k)
    (hkeyword : keyword ∈ Dialect.english.keywords k) (n : Nat) (heading : Heading) :
    m.Begins (heading.entries kind n keyword ++ es)
      (Leading (Tree.Heading.lines kind)
        (fun t => t.title.unplaced = heading.content n keyword ∧
          t.line.reading.dialect = .english) P) := by
  intro columns previous number
  obtain ⟨run, blanks, lines, hblanks, hrun, hlines, hfollows⟩ :=
    follows_description hm h (n + 2) heading.description kind (number + 1)
  obtain ⟨indent, hreads⟩ := reads_title hm hkind hkeyword n heading.name
  have hterminal : kind.isTerminal = true ∧ kind ≠ .language ∧ kind ≠ .docStringSeparator ∧
      kind ≠ .tableRow := by
    revert hkind
    cases kind <;> simp [TokenKind.keywordKind?, TokenKind.isTerminal]
  have hentry : ∀ l, (Entry.line kind l).fits columns = true ∧
      (Entry.line kind l).columns columns = none := by
    intro l
    have hrow := hterminal.2.2.2
    cases kind <;> first | exact ⟨rfl, rfl⟩ | exact absurd rfl hrow
  rw [← (hentry _).2] at hfollows
  refine ⟨_, ⟨⟨_, run⟩, lines, ⟨?_, ?_⟩, hlines, rfl⟩, Follows.plain hm.docString hterminal.1
    hterminal.2.1 hterminal.2.2.1 hreads (hentry _).1 hfollows⟩
  · simp only [Tree.Heading.title, Title.unplaced, Heading.content, hrun,
      describe_append_of_blank hblanks, ite_self]
    rfl
  · exact hm.dialect

/-- The rows of a table, behind a row of the same length if there is one. -/
theorem follows_rows (hm : m.IsEnglish) (h : m.Continues es P) {width : Nat}
    {rows : List (List Cell)} (heven : ∀ row ∈ rows, row.length = width) {columns : Option Nat}
    (hcolumns : columns.all (· == width) = true) {previous : TokenKind}
    (hprevious : rows = [] → previous ≠ .other) (number : Nat) :
    ∃ run lines, (run.map fun leaf => (Leaf.row leaf).unplaced) = rows.map rowContent ∧
      P lines ∧
      m.Follows columns [] previous number (rows.map rowEntry ++ es)
        (linesOf .tableRow run ++ lines) := by
  induction rows generalizing columns previous number with
  | nil =>
      obtain ⟨lines, hlines, hfollows⟩ := h.exists_follows (hprevious rfl) columns number
      exact ⟨[], lines, rfl, hlines, hfollows⟩
  | cons row rows ih =>
      obtain ⟨hrow, hrows⟩ := List.forall_mem_cons.mp heven
      obtain ⟨hreads, htexts⟩ := reads_row hm row rfl
      have hlength := congrArg List.length htexts
      rw [List.length_map, List.length_map, hrow] at hlength
      have hwidth : (some width).all (· == width) = true := by simp
      have htable : rows = [] → TokenKind.tableRow ≠ .other := fun _ => by decide
      obtain ⟨run, lines, hrun, hlines, hfollows⟩ := ih hrows hwidth htable (number + 1)
      rw [← hlength] at hfollows hcolumns
      refine ⟨_ :: run, lines, ?_, hlines, Follows.plain hm.docString rfl (by decide)
        (by decide) hreads hcolumns hfollows⟩
      have hcells := congrArg (List.map fun text => (⟨nowhere, text⟩ : TableCell)) htexts
      rw [List.map_map, List.map_map] at hcells
      rw [List.map_cons, List.map_cons, hrun, rowContent, Leaf.row, TableRow.unplaced,
        List.map_map]
      exact congrArg (fun cells => (⟨nowhere, cells⟩ : TableRow) :: rows.map rowContent) hcells

/-- A table, which no row comes in front of. -/
theorem continues_table (hm : m.IsEnglish) (h : m.Continues es P) (t : Table) :
    m.ContinuesAt none (t.entries ++ es)
      (Leading (linesOf .tableRow)
        (fun run => (run.map fun leaf => (Leaf.row leaf).unplaced) =
          (t.first :: t.rest).map rowContent) P) := by
  intro previous number
  have heven : ∀ row ∈ t.first :: t.rest, row.length = t.first.length :=
    List.forall_mem_cons.mpr ⟨rfl, t.even⟩
  have hwidth : (none : Option Nat).all (· == t.first.length) = true := rfl
  have hrows : t.first :: t.rest = [] → previous ≠ .other := nofun
  obtain ⟨run, lines, hrun, hlines, hfollows⟩ := follows_rows hm h heven hwidth hrows number
  exact ⟨[], _, nofun, fun _ => rfl, ⟨run, lines, hrun, hlines, rfl⟩, hfollows⟩

/-- The lines of a doc string that has been opened, and the line that closes it. -/
theorem follows_content (hm : m.IsEnglish) (h : m.Continues es P) {s : Separator}
    (content : List (ContentLine s)) (previous : TokenKind) (number : Nat) :
    ∃ run closing lines, run.map Leaf.text = content.map (fun l => String.ofList l.chars) ∧
      P lines ∧
      ({ m with docString := some ⟨s, 6⟩ } : Matcher).Follows none [] previous number
        ((content.map fun l => Entry.line .other (indented 6 (s.escape l.chars))) ++
          .line .docStringSeparator (indented 6 s.text.toList) :: es)
        (linesOf .other run ++ (.docStringSeparator, closing) :: lines) := by
  induction content generalizing previous number with
  | nil =>
      have hcloses : ({ m with docString := none } : Matcher) = m := by
        rw [← hm.docString]
      have hseparator : TokenKind.docStringSeparator ≠ .other := by decide
      obtain ⟨lines, hlines, hfollows⟩ := h.exists_follows hseparator none (number + 1)
      rw [← hcloses] at hfollows
      obtain ⟨hstarts, hcontent⟩ := content_of_closing
        (m := { m with docString := some ⟨s, 6⟩ }) (s := s) rfl
      exact ⟨[], _, lines, rfl, hlines, Follows.closing rfl hstarts hcontent hfollows⟩
  | cons l ls ih =>
      obtain ⟨run, closing, lines, hrun, hlines, hfollows⟩ := ih .other (number + 1)
      obtain ⟨hstarts, hcontent⟩ := content_of_contentLine
        (m := { m with docString := some ⟨s, 6⟩ }) rfl l
      refine ⟨_ :: run, closing, lines, ?_, hlines, Follows.inside rfl hstarts hcontent hfollows⟩
      rw [List.map_cons, List.map_cons, hrun]
      rfl

/-- A doc string, from the line that opens it to the line that closes it. -/
theorem follows_docString (hm : m.IsEnglish) (h : m.Continues es P) (d : DocString)
    (previous : TokenKind) (number : Nat) :
    ∃ (t : Tree.Argument Leaf) (lines : List (TokenKind × Leaf)),
      t.document.unplaced = (Argument.docString d).content ∧ P lines ∧
        m.Follows none [] previous number (d.entries ++ es) (t.lines ++ lines) := by
  obtain ⟨run, closing, lines, hrun, hlines, hfollows⟩ :=
    follows_content hm h d.content .docStringSeparator (number + 1)
  obtain ⟨hreads, hopened⟩ := reads_opening hm d rfl
  let opening : Leaf := .ofContent (number + 1) .docStringSeparator
    { keyword := some d.separator.text, text := some (String.ofList d.typeChars), indent := 6 }
    m.dialect []
  have hall : m.Follows none [] previous number (d.entries ++ es)
      ((Tree.Argument.docString opening run closing).lines ++ lines) := by
    simp only [DocString.entries, Tree.Argument.lines, List.cons_append, List.append_assoc,
      List.nil_append]
    refine Follows.line hm.docString rfl (by decide) hreads rfl ?_
    rw [Matcher.past, if_pos rfl, hopened, pendingPast_nil (by decide)]
    exact hfollows
  have htype : (if opening.text.isEmpty then none else some opening.text) =
      d.contentType.map fun type => String.ofList type.val.chars := by
    change (if (String.ofList d.typeChars).isEmpty then none
      else some (String.ofList d.typeChars)) = _
    rw [DocString.typeChars]
    cases d.contentType with
    | none => rfl
    | some type => simp [type.property]
  refine ⟨.docString opening run closing, lines, ?_, hlines, hall⟩
  simp only [Tree.Argument.document, StepArgument.unplaced, Argument.content, htype, joinLines,
    hrun]

/-- What stands below a step line. -/
theorem follows_argument (hm : m.IsEnglish) (h : m.Continues es P) (a : Option Argument)
    (number : Nat) :
    ∃ (t : Option (Tree.Argument Leaf)) (lines : List (TokenKind × Leaf)),
      (t.map fun t => t.document.unplaced) = a.map Argument.content ∧ P lines ∧
        m.Follows none [] .stepLine number (a.elim [] Argument.entries ++ es)
          (t.elim [] Tree.Argument.lines ++ lines) := by
  match a with
  | none =>
      have hstep : TokenKind.stepLine ≠ .other := by decide
      obtain ⟨lines, hlines, hfollows⟩ := h.exists_follows hstep none number
      exact ⟨none, lines, rfl, hlines, hfollows⟩
  | some (.docString d) =>
      obtain ⟨t, lines, ht, hlines, hfollows⟩ := follows_docString hm h d .stepLine number
      exact ⟨some t, lines, congrArg some ht, hlines, hfollows⟩
  | some (.table t) =>
      obtain ⟨trail, _, -, htrail, ⟨run, lines, hrun, hlines, rfl⟩, hfollows⟩ :=
        continues_table hm h t .stepLine number
      rw [htrail (by decide)] at hfollows
      match run, hrun with
      | first :: rest, hrun =>
          refine ⟨some (.table first rest), lines, ?_, hlines, hfollows⟩
          have hrows : ((first :: rest).map Leaf.row).map TableRow.unplaced =
              (t.first :: t.rest).map rowContent := by
            rw [List.map_map]
            exact hrun
          simp only [Option.map_some, Tree.Argument.document, StepArgument.unplaced, hrows,
            Argument.content]

/-- Comments in front of a line that is not part of a description. -/
theorem follows_comments (hm : m.IsEnglish) {Q : List Comment → List (TokenKind × Leaf) → Prop}
    (hhead : (Entry.sentence es).head? ≠ some .other)
    (h : ∀ comments columns previous number, ∃ lines, Q comments lines ∧
      m.Follows columns comments previous number es lines)
    (remarks : List Remark) (pending : List Comment) (columns : Option Nat)
    (previous : TokenKind) (number : Nat) :
    ∃ comments lines, comments.map Comment.unplaced =
        pending.map Comment.unplaced ++ remarks.map Remark.content ∧
      Q comments lines ∧
      m.Follows columns pending previous number
        ((remarks.map fun r => Entry.comment ⟨r.text⟩) ++ es) lines := by
  induction remarks generalizing pending previous number with
  | nil =>
      obtain ⟨lines, hlines, hfollows⟩ := h pending columns previous number
      exact ⟨pending, lines, (List.append_nil _).symm, hlines, hfollows⟩
  | cons r remarks ih =>
      obtain ⟨comments, lines, hcomments, hlines, hfollows⟩ :=
        ih (pending ++ [⟨⟨number + 1, 1⟩, (Line.mk r.text).raw⟩]) .comment (number + 1)
      have hbehind : (Entry.sentence ((remarks.map fun r => Entry.comment ⟨r.text⟩) ++ es)).head? ≠
          some .other := by
        rw [sentence_append, sentence_comments]
        exact hhead
      have hline : (Line.mk r.text).trimmed = '#' :: r.chars := trimmed_indented_cons 4 rfl r.chars
      have hsharp : (Line.mk r.text).startsWith "#" = true :=
        Line.startsWith_iff.mpr ⟨r.chars, hline.symm⟩
      refine ⟨comments, lines, ?_, hlines, Follows.comment hm.docString hsharp hbehind hfollows⟩
      rw [hcomments, List.map_append, List.append_assoc]
      rfl

/-- A step, with the comments in front of it and what stands below it. -/
theorem begins_step (hm : m.IsEnglish) (h : m.Continues es P) (s : Step) :
    m.Begins (s.entries ++ es)
      (Leading Tree.Step.lines (fun t => t.document.unplaced = s.content) P) := by
  have hstep : ∀ comments columns previous number, ∃ lines,
      Leading Tree.Step.lines
        (fun t => t.document.unplaced =
          { s.content with comments := comments.map Comment.unplaced }) P lines ∧
      m.Follows columns comments previous number
        (.line .stepLine (indented 4 (s.keyword.toList ++ s.text.chars)) ::
          (s.argument.elim [] Argument.entries ++ es)) lines := by
    intro comments columns previous number
    obtain ⟨a, lines, ha, hlines, hfollows⟩ := follows_argument hm h s.argument (number + 1)
    obtain ⟨indent, hreads⟩ := reads_step hm s
    refine ⟨_, ⟨⟨_, a⟩, lines, ?_, hlines, rfl⟩, Follows.line hm.docString rfl (by decide) hreads
      rfl hfollows⟩
    have harguments : (a.map Tree.Argument.document).map StepArgument.unplaced =
        s.argument.map Argument.content := by
      rw [Option.map_map]
      exact ha
    simp only [Tree.Step.document, Gherkin.Step.unplaced, harguments]
    rfl
  have hhead : (Entry.sentence (.line .stepLine (indented 4 (s.keyword.toList ++ s.text.chars)) ::
      (s.argument.elim [] Argument.entries ++ es))).head? ≠ some .other := by
    rw [Entry.sentence, List.filterMap_cons, Entry.kind?]
    simp
  intro columns previous number
  obtain ⟨comments, lines, hcomments, ⟨t, rest, ht, hrest, rfl⟩, hfollows⟩ :=
    follows_comments hm hhead hstep s.comments [] columns previous number
  refine ⟨_, ⟨t, rest, ht.trans ?_, hrest, rfl⟩, ?_⟩
  · rw [hcomments]
    rfl
  · rw [Step.entries, List.append_assoc]
    exact hfollows

/-- A title line with a description and steps. -/
theorem begins_block (hm : m.IsEnglish) (h : m.Continues es P) {kind : TokenKind}
    {k : KeywordKind} {keyword : String} (hkind : kind.keywordKind? = some k)
    (hkeyword : keyword ∈ Dialect.english.keywords k) (b : Block) :
    m.Begins (b.entries kind keyword ++ es)
      (Leading (Tree.Body.lines kind)
        (fun t => t.heading.title.unplaced = b.heading.content 2 keyword ∧
          (t.steps.map fun s => s.document.unplaced) = b.steps.map Step.content) P) := by
  have hsteps := Matcher.Continues.flatMap (fun s {_ _} h => (begins_step hm h s).continues) h
    b.steps
  have hblock := begins_heading hm (hsteps none) hkind hkeyword 2 b.heading
  rw [Block.entries, List.append_assoc]
  refine hblock.imp ?_
  rintro _ ⟨heading, _, ⟨htitle, -⟩, ⟨steps, rest, hsteps, hrest, rfl⟩, rfl⟩
  exact ⟨⟨heading, steps⟩, rest, ⟨htitle, hsteps⟩, hrest, (List.append_assoc _ _ _).symm⟩

/-- Examples behind a gap. -/
theorem continues_examples (hm : m.IsEnglish) (h : m.Continues es P) (e : Examples) :
    m.Continues (e.entries ++ es)
      (Leading Tree.Examples.lines (fun t => t.document.unplaced = e.content) P) := by
  have htable := continues_table hm h e.table
  have hheading := begins_heading hm htable
    (show TokenKind.examplesLine.keywordKind? = some .examples from rfl)
    (show "Examples" ∈ Dialect.english.keywords .examples by decide) 4 e.heading
  have hall := continues_gap hm (begins_tags hm hheading 4 e.tags)
  have hentries : e.entries ++ es = gap :: (tagEntries 4 e.tags ++
      (e.heading.entries .examplesLine 4 "Examples" ++ (e.table.entries ++ es))) := by
    simp [Examples.entries]
  rw [hentries]
  refine hall.imp ?_
  rintro _ ⟨tags, _, htags, ⟨heading, _, ⟨htitle, -⟩, ⟨rows, rest, hrows, hrest, rfl⟩, rfl⟩, rfl⟩
  refine ⟨⟨tags, heading, rows⟩, rest, ?_, hrest, ?_⟩
  · match rows, hrows with
    | row :: rows, hrows =>
        rw [List.map_cons, List.map_cons] at hrows
        obtain ⟨hheader, hbody⟩ := List.cons.inj hrows
        have hrest : (rows.map Leaf.row).map TableRow.unplaced =
            e.table.rest.map rowContent := by
          rw [List.map_map]
          exact hbody
        simp only [Tree.Examples.document, Gherkin.Examples.unplaced, htitle, htags,
          Examples.content, List.map_cons, List.head?_cons, List.tail_cons, Option.map_some,
          hheader, hrest]
  · simp [Tree.Examples.lines]

/-- A scenario or an outline behind a gap. -/
theorem continues_scenario (hm : m.IsEnglish) (h : m.Continues es P) (s : Scenario) :
    m.Continues (s.entries ++ es)
      (Leading Tree.Definition.lines (fun t => t.document.unplaced = s.content) P) := by
  cases hexamples : s.examples with
  | none =>
      have hblock := begins_block hm h
        (show TokenKind.scenarioLine.keywordKind? = some .scenario from rfl)
        (show "Scenario" ∈ Dialect.english.keywords .scenario by decide) s.block
      have hall := continues_gap hm (begins_tags hm hblock 2 s.tags)
      have hentries : s.entries ++ es = gap :: (tagEntries 2 s.tags ++
          (s.block.entries .scenarioLine "Scenario" ++ es)) := by
        simp [Scenario.entries, hexamples]
      rw [hentries]
      refine hall.imp ?_
      rintro _ ⟨tags, _, htags, ⟨body, rest, ⟨htitle, hsteps⟩, hrest, rfl⟩, rfl⟩
      refine ⟨.scenario tags body, rest, ?_, hrest, (List.append_assoc _ _ _).symm⟩
      simp only [Tree.Definition.document, Gherkin.Definition.unplaced, htitle, htags,
        Scenario.content, hexamples, List.map_map, Function.comp_def, hsteps]
  | some examples =>
      have hexamplesRead := Matcher.Continues.flatMap
        (fun e {_ _} h => continues_examples hm h e) h examples
      have hblock := begins_block hm hexamplesRead
        (show TokenKind.scenarioOutlineLine.keywordKind? = some .scenarioOutline from rfl)
        (show "Scenario Outline" ∈ Dialect.english.keywords .scenarioOutline by decide) s.block
      have hall := continues_gap hm (begins_tags hm hblock 2 s.tags)
      have hentries : s.entries ++ es = gap :: (tagEntries 2 s.tags ++
          (s.block.entries .scenarioOutlineLine "Scenario Outline" ++
            (examples.flatMap Examples.entries ++ es))) := by
        simp [Scenario.entries, hexamples]
      rw [hentries]
      refine hall.imp ?_
      rintro _ ⟨tags, _, htags,
        ⟨body, _, ⟨htitle, hsteps⟩, ⟨parts, rest, hparts, hrest, rfl⟩, rfl⟩, rfl⟩
      refine ⟨.outline ⟨tags, body, parts⟩, rest, ?_, hrest, ?_⟩
      · simp only [Tree.Definition.document, Gherkin.Definition.unplaced, htitle, htags,
          Scenario.content, hexamples, List.map_map, Function.comp_def, hsteps, hparts]
      · simp [Tree.Definition.lines, Tree.Outline.lines]

/-- A background behind a gap, if there is one. -/
theorem continues_background (hm : m.IsEnglish) (h : m.Continues es P) (b : Option Block) :
    m.Continues (b.elim [] backgroundEntries ++ es)
      (Leading (fun t : Option (Tree.Body Leaf) => t.elim [] (Tree.Body.lines .backgroundLine))
        (fun t => (t.map fun t => (Definition.background t.background).unplaced) =
          b.map Block.background) P) := by
  cases b with
  | none =>
      refine h.imp ?_
      intro lines hlines
      exact ⟨none, lines, rfl, hlines, rfl⟩
  | some b =>
      have hblock := begins_block hm h
        (show TokenKind.backgroundLine.keywordKind? = some .background from rfl)
        (show "Background" ∈ Dialect.english.keywords .background by decide) b
      refine (continues_gap hm hblock).imp ?_
      rintro _ ⟨body, rest, ⟨htitle, hsteps⟩, hrest, rfl⟩
      refine ⟨some body, rest, ?_, hrest, rfl⟩
      simp only [Option.map_some, Tree.Body.background, Gherkin.Definition.unplaced, htitle,
        List.map_map, Function.comp_def, hsteps, Block.background]

/-- A rendered feature is read as a tree that holds its content. -/
theorem begins_feature (hm : m.IsEnglish) (f : Feature) :
    m.Begins f.entries fun lines =>
      ∃ t : Tree.Feature Leaf, t.document.unplaced = f.content ∧ lines = t.lines := by
  have hscenarios := Matcher.Continues.flatMap (fun s {_ _} h => continues_scenario hm h s)
    Matcher.Continues.nil f.scenarios
  have hbackground := continues_background hm hscenarios f.background
  have hheading := begins_heading hm (hbackground none)
    (show TokenKind.featureLine.keywordKind? = some .feature from rfl)
    (show "Feature" ∈ Dialect.english.keywords .feature by decide) 0 f.heading
  have hall := begins_tags hm hheading 0 f.tags
  have hentries : f.entries = tagEntries 0 f.tags ++
      (f.heading.entries .featureLine 0 "Feature" ++ (f.background.elim [] backgroundEntries ++
        (f.scenarios.flatMap Scenario.entries ++ []))) := by
    simp [Feature.entries]
  rw [hentries]
  refine hall.imp ?_
  rintro _ ⟨tags, _, htags, ⟨heading, _, ⟨htitle, hdialect⟩,
    ⟨background, _, hbackground, ⟨definitions, _, hdefinitions, rfl, rfl⟩, rfl⟩, rfl⟩, rfl⟩
  refine ⟨⟨⟨none, tags, heading⟩, background, definitions⟩, ?_, ?_⟩
  · have hparts : (((background.map fun b => Definition.background b.background).toList ++
        definitions.map Tree.Definition.document).map Gherkin.Definition.unplaced) =
          (f.background.map Block.background).toList ++ f.scenarios.map Scenario.content := by
      rw [← hbackground, ← hdefinitions, List.map_append, List.map_map]
      cases background <;> rfl
    simp only [Tree.Feature.document, Gherkin.Feature.unplaced, htitle, htags, hdialect, hparts,
      Feature.content]
    rfl
  · simp [Tree.Feature.lines, Tree.Header.lines]

end Written
end Gherkin
