import Gherkin.Proofs.Dialect.Keywords
import Gherkin.Proofs.Parser.TagRuns
import Gherkin.Proofs.Reader.Visits
import Gherkin.Proofs.Run.DocStrings
import Gherkin.Proofs.Text.Words

/-!
# Places of nodes

The nodes of a document stand where they are written.  A line is taken as it is
scanned, without its terminator and without a byte order mark, and columns count
characters.
-/

namespace Gherkin

/-! ### Lines and what stands on them -/

/-- The line with a number, as it is scanned. -/
def scannedLine? (lines : List (List Char)) : Nat → Option Line
  | 0 => none
  | n + 1 => lines[n]?.map fun chars => ⟨Scanner.dropMark (n + 1) chars⟩

/-- Behind its leading blanks a line starts in the given column with an opening, and the rest of
it is the given text, trimmed. -/
structure Line.OpensWith (l : Line) (column : Nat) (opening : List Char) (text : String) :
    Prop where
  place : column = l.indent + 1
  split : ∃ rest, l.chars.drop (column - 1) = opening ++ rest ∧
    text = String.ofList (Text.trim rest)

/-- A place comes before another one. -/
def Location.Before (a b : Location) : Prop :=
  a.line < b.line ∨ a.line = b.line ∧ a.column < b.column

/-- A doc string is opened by a separator on a line, with the type of its content behind it. -/
def DocString.OpensOn (d : DocString) (separator : Separator) (l : Line) : Prop :=
  ∃ text, l.OpensWith d.location.column separator.text.toList text ∧
    d.contentType = if text = "" then none else some text

/-- A node points to what it has been read from on its line: a title to its keyword and a colon,
a step to its keyword, a tag to a maximal run of characters that are not blank, a row to its
first bar and a doc string to its separator. -/
def Visit.PointsInto (l : Line) : Visit → Prop
  | title _ t => l.OpensWith t.location.column (t.keyword.toList ++ [':']) t.name
  | step location _ keyword text => l.OpensWith location.column keyword.toList text
  | tag t => 0 < t.location.column ∧ Text.RunAt l.chars (t.location.column - 1) t.name.toList
  | row r => 0 < r.location.column ∧ l.chars[r.location.column - 1]? = some '|' ∧
      '|' ∉ l.chars.take (r.location.column - 1)
  | docString d => ∃ separator, d.OpensOn separator l

namespace Line

variable {l : Line}

theorem drop_indent (l : Line) : l.chars.drop l.indent = l.trimmed := by
  have hsplit := List.takeWhile_append_dropWhile (p := Text.isBlank) (l := l.chars)
  rw [indent, trimmed, Text.trimStart]
  nth_rewrite 2 [← hsplit]
  exact List.drop_left

theorem opensWith_of_after? {opening : String} (mark : List Char) {rest : List Char}
    (h : l.after? opening = some (mark ++ rest)) :
    l.OpensWith (l.indent + 1) (opening.toList ++ mark) (String.ofList (Text.trim rest)) := by
  refine ⟨rfl, rest, ?_, rfl⟩
  rw [Nat.add_sub_cancel, drop_indent, after?_eq_some_iff.mp h, List.append_assoc]

/-- A line that starts with a bar has its first bar there. -/
theorem first_bar (h : l.startsWith "|" = true) :
    l.chars[l.indent]? = some '|' ∧ '|' ∉ l.chars.take l.indent := by
  constructor
  · rw [← List.head?_drop, drop_indent]
    exact head?_of_startsWith rfl h
  · intro hmem
    rw [indent, ← List.prefix_iff_eq_take.mp (List.takeWhile_prefix Text.isBlank)] at hmem
    cases List.mem_takeWhile_imp hmem

end Line

namespace Matcher

variable {m : Matcher} {l : Line} {content : Content} {kind : TokenKind} {leaf : Leaf}
  {rest : List (TokenKind × Leaf)} {v : Visit}

/-- A doc string that is opened, and what the matcher keeps of its separator. -/
theorem exists_opensOn (hdoc : m.docString = none)
    (h : m.separator? l = some leaf.reading.toContent) (rest : List (TokenKind × Leaf)) :
    ∃ separator : Separator,
      m.docStringAfter l = some ⟨separator, (Tree.docStringOf leaf rest).location.column - 1⟩ ∧
        (Tree.docStringOf leaf rest).OpensOn separator l := by
  rw [separator?, hdoc] at h
  obtain ⟨separator, hseparator, hcontent⟩ := Option.bind_eq_some_iff.mp h
  obtain ⟨text, htext, hcontent⟩ := Option.map_eq_some_iff.mp hcontent
  obtain ⟨after, hafter, rfl⟩ := Option.map_eq_some_iff.mp htext
  have hcolumn : leaf.location.column = l.indent + 1 := by
    rw [Leaf.location, ← hcontent]
  have htext : leaf.text = String.ofList (Text.trim after) := by
    rw [Leaf.text, ← hcontent]
    rfl
  have hopens := Line.opensWith_of_after? [] hafter
  rw [List.append_nil, ← hcolumn, ← htext] at hopens
  refine ⟨separator, ?_, leaf.text, hopens, ?_⟩
  · rw [docStringAfter, hdoc, hseparator, Tree.docStringOf, hcolumn]
    rfl
  · rw [Tree.docStringOf]
    simp only [String.isEmpty_iff]

/-- What is read of a line with a keyword opens it. -/
theorem opensWith_of_category? {category : KeywordKind} (hkind : kind.category? = some category)
    (h : m.lineContent? kind l = some leaf.reading.toContent) :
    l.OpensWith leaf.location.column (leaf.keyword.toList ++ kind.mark) leaf.text := by
  obtain ⟨keyword, -, hopening, hindent, rest, hrest, htext⟩ :=
    exists_keyword_of_lineContent? hkind h
  have hopens := Line.opensWith_of_after? kind.mark hrest
  rw [Leaf.location, Leaf.keyword, Leaf.text, hopening, hindent, htext]
  exact hopens

/-- The nodes that a line stands for point into it. -/
theorem pointsInto_of_mem_visitsAt (h : m.lineContent? kind l = some leaf.reading.toContent)
    (hv : v ∈ Tree.visitsAt m.docString.isSome kind leaf rest) : v.PointsInto l := by
  cases kind with
  | featureLine | backgroundLine | scenarioLine | scenarioOutlineLine | examplesLine =>
      obtain rfl := List.mem_singleton.mp hv
      exact opensWith_of_category? rfl h
  | stepLine =>
      obtain rfl := List.mem_singleton.mp hv
      have hopens := opensWith_of_category? rfl h
      rw [TokenKind.mark, List.append_nil] at hopens
      exact hopens
  | tagLine =>
      obtain ⟨tag, htag, rfl⟩ := List.mem_map.mp hv
      obtain ⟨word, hword, rfl⟩ := List.mem_map.mp htag
      rw [items_of_tagLine h] at hword
      obtain ⟨n, hcolumn, hrun⟩ := Line.mem_words_iff.mp hword
      simp only [Visit.PointsInto, hcolumn, Nat.add_sub_cancel]
      exact ⟨Nat.succ_pos n, hrun⟩
  | tableRow =>
      obtain rfl := List.mem_singleton.mp hv
      rw [lineContent?] at h
      split at h
      · next hbar =>
          have hindent : leaf.reading.indent = l.indent := by
            rw [← Option.some.inj h]
          simp only [Visit.PointsInto, Leaf.row, Leaf.location, hindent, Nat.add_sub_cancel]
          exact ⟨Nat.succ_pos _, Line.first_bar hbar⟩
      · cases h
  | docStringSeparator =>
      cases hdoc : m.docString with
      | some opened =>
          rw [hdoc] at hv
          cases hv
      | none =>
          rw [hdoc] at hv
          obtain rfl := List.mem_singleton.mp hv
          obtain ⟨separator, -, hopens⟩ := exists_opensOn hdoc h rest
          exact ⟨separator, hopens⟩
  | eof | empty | comment | language | other => cases hv

end Matcher

/-! ### Lines and the nodes they stand for -/

variable {inside : Bool} {kind : TokenKind} {leaf : Leaf} {rest : List (TokenKind × Leaf)}

/-- Tags are read from tag lines. -/
theorem Tree.kind_of_tag_mem_visitsAt {tag : Tag}
    (h : .tag tag ∈ visitsAt inside kind leaf rest) : kind = .tagLine := by
  cases kind with
  | tagLine => rfl
  | docStringSeparator =>
      cases inside with
      | true => cases h
      | false => cases List.mem_singleton.mp h
  | eof | empty | comment | language | other => cases h
  | _ => cases List.mem_singleton.mp h

/-- A doc string is read from a separator where none is open. -/
theorem Tree.eq_of_docString_mem_visitsAt {d : DocString}
    (h : .docString d ∈ visitsAt inside kind leaf rest) :
    kind = .docStringSeparator ∧ inside = false ∧ d = docStringOf leaf rest := by
  cases kind with
  | docStringSeparator =>
      cases inside with
      | true => cases h
      | false =>
          obtain ⟨rfl⟩ := List.mem_singleton.mp h
          exact ⟨rfl, rfl, rfl⟩
  | tagLine =>
      obtain ⟨tag, -, htag⟩ := List.mem_map.mp h
      cases htag
  | eof | empty | comment | language | other => cases h
  | _ => cases List.mem_singleton.mp h

/-! ### The order of places -/

/-- The nodes of a line stand from the left to the right. -/
theorem Tree.visitsAt_before
    (h : kind = .tagLine → leaf.reading.items.Pairwise fun x y => x.column < y.column)
    (rest : List (TokenKind × Leaf)) :
    (visitsAt inside kind leaf rest).Pairwise fun v w => v.location.Before w.location := by
  cases kind with
  | tagLine =>
      refine List.pairwise_map.mpr (List.pairwise_map.mpr ((h rfl).imp fun hless => ?_))
      exact .inr ⟨rfl, hless⟩
  | docStringSeparator =>
      cases inside with
      | true => exact List.Pairwise.nil
      | false => exact List.pairwise_singleton _ _
  | eof | empty | comment | language | other => exact List.Pairwise.nil
  | _ => exact List.pairwise_singleton _ _

/-- The token with a number is the scanned line with that number. -/
theorem Source.scannedLine?_of_tokens_eq {lines : List (List Char)} {front rest : List Token}
    {t : Token} (h : tokens 0 (ofLines lines) = front ++ t :: rest) :
    scannedLine? lines t.number = t.line := by
  obtain ⟨hnumber, hline⟩ := eq_of_tokens_eq h
  rw [hline, hnumber, Nat.zero_add]
  rfl

namespace Reader

variable {r : Reader} {ts front back : List Token} {t : Token} {a : Acceptance}
  {reading : Reading} {block : List Visit} {v : Visit}

/-- The line that nodes stand for, and how it has been read. -/
theorem Visits.exists_line (h : r.Visits ts front t back a reading block) (hv : v ∈ block) :
    let m := (r.readFront front (t :: back)).matcher
    ∃ l leaf rest, t.line = some l ∧ leaf.line = t.number ∧
      m.lineContent? reading.kind l = some leaf.reading.toContent ∧
      block = Tree.visitsAt m.docString.isSome reading.kind leaf rest ∧
      m.after reading.kind t leaf.reading.toContent = .ok a.matcher := by
  intro m
  obtain ⟨comments, rest, hblock⟩ := h.nodes
  have heof : reading.kind ≠ .eof := by
    intro heof
    rw [hblock, heof] at hv
    cases hv
  obtain ⟨l, content, hline, hcontent, hafter, hread⟩ :=
    Matcher.exists_line_of_matchAs h.matchAs heof
  have hcontent' : reading.toContent = content := by
    have hreading := h.read
    rw [hread] at hreading
    rw [← Option.some.inj hreading]
  refine ⟨l, Leaf.ofToken comments a.token reading, rest, hline, number_of_choice h.choice, ?_,
    hblock, ?_⟩
  · rw [Leaf.ofToken, hcontent']
    exact hcontent
  · rw [Leaf.ofToken, hcontent']
    exact hafter

end Reader

namespace Parser

variable {p : Parser} {lines : List (List Char)} {document : Document}

/-- Every node of a document has been read from a line, on which the other nodes of that line
stand as well. -/
theorem exists_visits_of_mem_walk (h : p.parse (.ofLines lines) = .ok document) {v : Visit}
    (hv : v ∈ document.walk) :
    ∃ start front t back a reading block, p.run (.ofLines lines) = .ok start ∧
      start.reader.Visits (Source.tokens 0 (.ofLines lines)) front t back a reading block ∧
      v ∈ block ∧ ∀ w ∈ block, w ∈ document.walk := by
  obtain ⟨start, hstart, -⟩ := exists_run_of_parse h
  obtain ⟨tree, rfl, hlines, -⟩ := exists_tree h
  have hinside : start.reader.matcher.docString.isSome = false :=
    congrArg Option.isSome (outside_run hstart).1
  rw [Tree.walk_document, hlines, accepted, acceptances_of_run hstart, ← hinside] at hv ⊢
  obtain ⟨front, t, back, a, reading, block, hvisits, hmem, hblock⟩ := Reader.exists_visits hv
  exact ⟨start, front, t, back, a, reading, block, hstart, hvisits, hmem, hblock⟩

/-- The nodes of a document stand in the order of their places. -/
theorem walk_before (h : p.parse (.ofLines lines) = .ok document) :
    document.walk.Pairwise fun v w => v.location.Before w.location := by
  obtain ⟨tree, rfl, hlines, htokens⟩ := exists_tree h
  rw [Tree.walk_document, hlines]
  have hwords : ∀ x ∈ leavesOf [] (p.accepted (.ofLines lines)), x.1 = .tagLine →
      x.2.reading.items.Pairwise fun x y => x.column < y.column := by
    intro x hx hkind
    obtain ⟨m, l, hcontent⟩ := exists_content_of_mem_leavesOf hx (by simp [hkind])
    rw [hkind] at hcontent
    rw [Matcher.items_of_tagLine hcontent]
    exact l.pairwise_words
  refine Tree.pairwise_visits (fun _ _ => .inl) (fun x hx inside rest => ?_) ?_
  · exact Tree.visitsAt_before (hwords x hx) rest
  · exact (numbers_accepted htokens).sublist (line_sublist_leavesOf [] _)

/-- The run in front of a line that has been accepted, and behind it. -/
theorem matcher_steps {start : Run} (hstart : p.run (.ofLines lines) = .ok start)
    {front back : List Token} {t : Token} {a : Acceptance} {reading : Reading}
    {block : List Visit}
    (h : start.reader.Visits (Source.tokens 0 (.ofLines lines)) front t back a reading block)
    (ht : t.isEof = false) :
    (Run.steps (t.number - 1) start).matcher =
        (start.reader.readFront front (t :: back)).matcher ∧
      (Run.steps t.number start).matcher = a.matcher := by
  obtain ⟨-, hended, -, -⟩ := run_starts hstart
  have hawaits := run_awaits hstart
  rw [h.split] at hawaits
  have hlines := Source.isEof_of_tokens_eq (List.cons_ne_nil t back) h.split
  have hnumber : t.number = front.length + 1 := by
    rw [Source.number_of_tokens_eq h.split, Nat.zero_add]
  constructor
  · rw [hnumber, Nat.add_sub_cancel]
    exact congrArg Reader.matcher (Run.steps_front hended hawaits hlines).1
  · rw [List.append_cons] at hawaits
    have hbehind := (Run.steps_front hended hawaits fun u hu => by
      rcases List.mem_append.mp hu with hu | hu
      · exact hlines u hu
      · rw [List.mem_singleton.mp hu]
        exact ht).1
    rw [List.length_append, List.length_singleton, ← hnumber] at hbehind
    exact (congrArg Reader.matcher hbehind).trans h.matcher

/-- A node points into the line that it has been read from. -/
theorem exists_pointsInto (h : p.parse (.ofLines lines) = .ok document) {v : Visit}
    (hv : v ∈ document.walk) : ∃ l, scannedLine? lines v.line = some l ∧ v.PointsInto l := by
  obtain ⟨start, front, t, back, a, reading, block, -, hvisits, hmem, -⟩ :=
    exists_visits_of_mem_walk h hv
  obtain ⟨l, leaf, rest, hline, hnumber, hcontent, rfl, -⟩ := hvisits.exists_line hmem
  refine ⟨l, ?_, Matcher.pointsInto_of_mem_visitsAt hcontent hmem⟩
  rw [Tree.line_of_mem_visitsAt hmem, hnumber, Source.scannedLine?_of_tokens_eq hvisits.split]
  exact hline

/-- On a line with a tag every run is a tag. -/
theorem tag_mem_walk (h : p.parse (.ofLines lines) = .ok document) {tag : Tag}
    (htag : .tag tag ∈ document.walk) {l : Line}
    (hl : scannedLine? lines tag.location.line = some l) {n : Nat} {run : List Char}
    (hrun : Text.RunAt l.chars n run) :
    .tag ⟨⟨tag.location.line, n + 1⟩, String.ofList run⟩ ∈ document.walk := by
  obtain ⟨start, front, t, back, a, reading, block, -, hvisits, hmem, hwalk⟩ :=
    exists_visits_of_mem_walk h htag
  obtain ⟨l', leaf, rest, hline, hnumber, hcontent, rfl, -⟩ := hvisits.exists_line hmem
  have hkind := Tree.kind_of_tag_mem_visitsAt hmem
  have hsame : tag.location.line = leaf.line := Tree.line_of_mem_visitsAt hmem
  rw [hsame, hnumber, Source.scannedLine?_of_tokens_eq hvisits.split, hline] at hl
  obtain rfl := Option.some.inj hl
  rw [hkind] at hcontent hwalk
  have hword : (⟨n + 1, String.ofList run⟩ : Span) ∈ leaf.reading.items := by
    rw [Matcher.items_of_tagLine hcontent, Line.mem_words_iff]
    exact ⟨n, rfl, by rwa [String.toList_ofList]⟩
  rw [hsame]
  exact hwalk _ (List.mem_map_of_mem (List.mem_map_of_mem hword))

/-- The run opens a doc string with the line where the doc string stands. -/
theorem exists_opening (h : p.parse (.ofLines lines) = .ok document) {d : DocString}
    (hd : .docString d ∈ document.walk) : ∃ start l separator,
      p.run (.ofLines lines) = .ok start ∧ scannedLine? lines d.location.line = some l ∧
        d.OpensOn separator l ∧
        (Run.steps (d.location.line - 1) start).matcher.docString = none ∧
        (Run.steps d.location.line start).matcher.docString =
          some ⟨separator, d.location.column - 1⟩ := by
  obtain ⟨start, front, t, back, a, reading, block, hstart, hvisits, hmem, -⟩ :=
    exists_visits_of_mem_walk h hd
  obtain ⟨l, leaf, rest, hline, hnumber, hcontent, rfl, hafter⟩ := hvisits.exists_line hmem
  obtain ⟨hkind, hdoc, rfl⟩ := Tree.eq_of_docString_mem_visitsAt hmem
  obtain ⟨hfront, hbehind⟩ := matcher_steps hstart hvisits (by rw [Token.isEof, hline]; rfl)
  rw [Option.isSome_eq_false_iff, Option.isNone_iff_eq_none] at hdoc
  rw [hkind] at hcontent hafter
  obtain ⟨separator, hopening, hopens⟩ := Matcher.exists_opensOn hdoc hcontent rest
  have hplace : (Tree.docStringOf leaf rest).location.line = t.number := hnumber
  refine ⟨start, l, separator, hstart, ?_, hopens, ?_, ?_⟩
  · rw [hplace, Source.scannedLine?_of_tokens_eq hvisits.split]
    exact hline
  · rw [hplace, hfront]
    exact hdoc
  · rw [hplace, hbehind, ← Except.ok.inj hafter, hline]
    exact hopening

/-- The nodes of a document point to where they are written, on the lines as they are scanned.
They stand in the order of their places, and the tags on one line are all the runs of that line.
A doc string stands where its separator opens it. -/
theorem nodes_point_to_source (h : p.parse (.ofLines lines) = .ok document) :
    (∀ v ∈ document.walk, ∃ l, scannedLine? lines v.line = some l ∧ v.PointsInto l) ∧
      (document.walk.Pairwise fun v w => v.location.Before w.location) ∧
      (∀ t, .tag t ∈ document.walk → ∀ l, scannedLine? lines t.location.line = some l →
        ∀ n run, Text.RunAt l.chars n run →
          .tag ⟨⟨t.location.line, n + 1⟩, String.ofList run⟩ ∈ document.walk) ∧
      ∀ d, .docString d ∈ document.walk → ∃ start l separator,
        p.run (.ofLines lines) = .ok start ∧
          scannedLine? lines d.location.line = some l ∧ d.OpensOn separator l ∧
          (Run.steps (d.location.line - 1) start).matcher.docString = none ∧
          (Run.steps d.location.line start).matcher.docString =
            some ⟨separator, d.location.column - 1⟩ :=
  ⟨fun _ hv => exists_pointsInto h hv, walk_before h,
    fun _ htag _ hl _ _ hrun => tag_mem_walk h htag hl hrun, fun _ hd => exists_opening h hd⟩

/-- Tags behind a byte order mark and between blanks of two kinds, and a doc string with a type. -/
theorem nodes_point_to_source_blanks :
    let lines := ["\uFEFF @a\u00A0@b", "\u3000Feature: f", "Scenario: s", "Given g", "\t```json",
      "é", "```"].map String.toList
    ∃ document, parse {} (.ofLines lines) = .ok document ∧
      document.walk.map Visit.location = [⟨1, 2⟩, ⟨1, 5⟩, ⟨2, 2⟩, ⟨3, 1⟩, ⟨4, 1⟩, ⟨5, 2⟩] ∧
      .tag ⟨⟨1, 5⟩, "@b"⟩ ∈ document.walk ∧
      ∃ start separator, run {} (.ofLines lines) = .ok start ∧
        (Run.steps 5 start).matcher.docString = some ⟨separator, 1⟩ := by
  intro lines
  have hplaces : (parse {} (.ofLines lines)).toOption.any (fun document =>
      decide (document.walk.map Visit.location =
          [⟨1, 2⟩, ⟨1, 5⟩, ⟨2, 2⟩, ⟨3, 1⟩, ⟨4, 1⟩, ⟨5, 2⟩]) &&
        document.walk.any (fun v => v.isTag && decide (v.location = ⟨1, 2⟩)) &&
        document.walk.any (fun v => match v with
          | .docString d => d.location = ⟨5, 2⟩
          | _ => false)) = true := by
    decide +kernel
  obtain ⟨document, hparse, hplaces⟩ := exists_ok_of_any hplaces
  rw [Bool.and_eq_true, Bool.and_eq_true, decide_eq_true_eq, List.any_eq_true,
    List.any_eq_true] at hplaces
  obtain ⟨⟨hwalk, v, hv, htag⟩, w, hw, hdocString⟩ := hplaces
  obtain ⟨-, -, htags, hdocStrings⟩ := nodes_point_to_source hparse
  refine ⟨document, hparse, hwalk, ?_, ?_⟩
  · cases v with
    | tag t =>
        obtain ⟨location, text⟩ := t
        obtain rfl : location = ⟨1, 2⟩ := of_decide_eq_true htag
        have hrun : Text.RunAt [' ', '@', 'a', '\u00A0', '@', 'b'] 4 ['@', 'b'] :=
          ⟨[' ', '@', 'a', '\u00A0'], [], rfl, rfl, List.cons_ne_nil _ _,
            List.forall_mem_cons.mpr ⟨rfl, List.forall_mem_singleton.mpr rfl⟩,
            by rintro _ ⟨⟩; rfl, fun _ h => absurd h (Option.not_mem_none _)⟩
        exact htags _ hv _ rfl 4 ['@', 'b'] hrun
    | _ => cases htag
  · cases w with
    | docString d =>
        obtain ⟨start, l, separator, hstart, -, -, -, hopened⟩ := hdocStrings d hw
        rw [of_decide_eq_true hdocString] at hopened
        exact ⟨start, separator, hstart, hopened⟩
    | _ => cases hdocString

end Parser
end Gherkin
