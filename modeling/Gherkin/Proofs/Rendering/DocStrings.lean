import Gherkin.Proofs.Rendering.Lines
import Gherkin.Proofs.Run.DocStrings

/-!
# Doc strings read back

A doc string is written with its separator in front of the type of its content,
its lines with the separator escaped, and the separator once more, all of them
behind the same blanks.  What is read back are the type and the lines.
-/

namespace Gherkin

/-- A line that has been escaped has its own text in the doc string. -/
theorem Separator.content_escape (s : Separator) {blanks : List Char}
    (hblanks : Text.AllBlank blanks) {cs : List Char} (h : ¬s.escaped.toList <:+: cs) :
    (OpenDocString.mk s blanks.length).content ⟨blanks ++ s.escape cs⟩ = String.ofList cs := by
  rw [OpenDocString.content, Line.dropIndent_indented hblanks, unescape_escape h]

namespace Matcher

variable {m : Matcher} {s : Separator} {blanks : List Char} {t : Token}

/-- A separator behind blanks opens a doc string and names its type. -/
theorem exists_opening (hblanks : Text.AllBlank blanks) (hdoc : m.docString = none)
    {type : List Char} (hline : t.line = some ⟨blanks ++ (s.text.toList ++ type)⟩) :
    ∃ reading, m.matchAs .docStringSeparator t =
        .ok (some ({ m with docString := some ⟨s, blanks.length⟩ }, t.readAs reading)) ∧
      reading.kind = .docStringSeparator ∧
      reading.text = some (String.ofList (Text.trim type)) := by
  have htrimmed := s.trimmed_indented hblanks type
  have hseparator := Separator.ofLine?_eq_some htrimmed
  have hcontent : m.content? .docStringSeparator t.line =
      some { keyword := some s.text, text := some (String.ofList (Text.trim type)),
             indent := (⟨blanks ++ (s.text.toList ++ type)⟩ : Line).indent } := by
    rw [hline, content?, lineContent?, separator?, hdoc]
    simp only [hseparator, Line.rest?_eq_some htrimmed, Option.bind_some, Option.map_some]
  have hafter : t.line.bind m.docStringAfter = some ⟨s, blanks.length⟩ := by
    rw [hline, Option.bind_some, docStringAfter, hdoc]
    simp only [hseparator, s.indent_indented hblanks, Option.map_some]
  rw [matchAs, hcontent]
  simp only [after, hafter]
  exact ⟨_, rfl, rfl, rfl⟩

end Matcher

/-! ### Building a doc string -/

namespace Token

/-- A token that has been read as a child of a rule, without comments in front of it. -/
def leaf? (t : Token) : Option Leaf :=
  t.reading.map (Leaf.ofToken [] t)

theorem exists_leaf? {t : Token} {kind : TokenKind} (h : t.kind? = some kind) :
    ∃ leaf, t.leaf? = some leaf ∧ leaf.reading.kind = kind := by
  obtain ⟨reading, hreading, rfl⟩ := Option.map_eq_some_iff.mp h
  exact ⟨Leaf.ofToken [] t reading, by rw [leaf?, hreading, Option.map_some], rfl⟩

theorem text_of_leaf? {t : Token} {leaf : Leaf} (h : t.leaf? = some leaf) :
    leaf.text = t.text?.getD "" ∧ leaf.location = t.location := by
  obtain ⟨reading, hreading, rfl⟩ := Option.map_eq_some_iff.mp h
  rw [text?, location, hreading]
  exact ⟨rfl, rfl⟩

end Token

namespace Builder

/-- The lines of a doc string become children of the innermost rule, one after the other. -/
theorem foldl_build {ts : List Token}
    (h : ∀ t ∈ ts, t.kind? = some .other ∨ t.kind? = some .docStringSeparator)
    (root : List Node) (rule : Rule) (children : List Node) (outer : List Scope)
    (pending : List Comment) :
    ts.foldl build ⟨root, ⟨rule, children⟩ :: outer, pending⟩ =
      ⟨root, ⟨rule, children ++ Tree.nodesOf (ts.filterMap Token.leaf?)⟩ :: outer, pending⟩ := by
  induction ts generalizing children with
  | nil => rw [List.foldl_nil, List.filterMap_nil, Tree.nodesOf, List.map_nil, List.append_nil]
  | cons t ts ih =>
      obtain ⟨ht, hts⟩ := List.forall_mem_cons.mp h
      obtain ⟨reading, hreading, hkind⟩ : ∃ reading, t.reading = some reading ∧
          (reading.kind = .other ∨ reading.kind = .docStringSeparator) := by
        cases hreading : t.reading with
        | none =>
            rw [Token.kind?, hreading] at ht
            simp at ht
        | some reading =>
            rw [Token.kind?, hreading] at ht
            exact ⟨reading, rfl, by simpa using ht⟩
      have hcomment : reading.kind ≠ .comment := by
        rcases hkind with hkind | hkind <;> rw [hkind] <;> decide
      have hcarries : ¬carriesComments reading.kind = true := by
        rcases hkind with hkind | hkind <;> rw [hkind] <;> decide
      have hbuild : build ⟨root, ⟨rule, children⟩ :: outer, pending⟩ t =
          ⟨root, ⟨rule, children ++ [.token (Leaf.ofToken [] t reading)]⟩ :: outer, pending⟩ := by
        rw [build, hreading]
        simp only
        rw [if_neg hcomment, if_neg hcarries, Leaf.ofToken, if_neg hcarries]
        rfl
      have hleaf : t.leaf? = some (Leaf.ofToken [] t reading) := by
        rw [Token.leaf?, hreading, Option.map_some]
      rw [List.foldl_cons, hbuild, ih hts, List.filterMap_cons, hleaf, List.append_assoc]
      rfl

/-- What a builder that has opened a doc string makes of the lines of one. -/
theorem close_docString (b : Builder) {opening closing : Token} {content : List Token}
    (hopening : opening.kind? = some .docStringSeparator)
    (hcontent : ∀ t ∈ content, t.kind? = some .other)
    (hclosing : closing.kind? = some .docStringSeparator) :
    ((opening :: content ++ [closing]).foldl build (b.start .docString)).close =
      (b.add (.docString
        { location := opening.location
          contentType :=
            if (opening.text?.getD "").isEmpty then none else some (opening.text?.getD "")
          content := "\n".intercalate (content.map fun t => t.text?.getD "") }), none) := by
  obtain ⟨first, hfirst, hfirstKind⟩ := Token.exists_leaf? hopening
  obtain ⟨last, hlast, hlastKind⟩ := Token.exists_leaf? hclosing
  have hkinds : ∀ t ∈ opening :: content ++ [closing],
      t.kind? = some .other ∨ t.kind? = some .docStringSeparator := by
    intro t ht
    rw [List.mem_append, List.mem_cons, List.mem_singleton] at ht
    rcases ht with (rfl | ht) | rfl
    · exact .inr hopening
    · exact .inl (hcontent t ht)
    · exact .inr hclosing
  have hleaves : (opening :: content ++ [closing]).filterMap Token.leaf? =
      first :: content.filterMap Token.leaf? ++ [last] := by
    simp [hfirst, hlast]
  have hlines : ∀ leaf ∈ content.filterMap Token.leaf?, leaf.reading.kind = .other := by
    intro leaf hleaf
    obtain ⟨t, ht, hleaf⟩ := List.mem_filterMap.mp hleaf
    obtain ⟨leaf', hleaf', hkind⟩ := Token.exists_leaf? (hcontent t ht)
    obtain rfl := Option.some.inj (hleaf.symm.trans hleaf')
    exact hkind
  have htexts : (content.filterMap Token.leaf?).map Leaf.text =
      content.map fun t => t.text?.getD "" := by
    clear hkinds hleaves hlines
    induction content with
    | nil => rfl
    | cons t ts ih =>
        obtain ⟨ht, hts⟩ := List.forall_mem_cons.mp hcontent
        obtain ⟨leaf, hleaf, -⟩ := Token.exists_leaf? ht
        rw [List.filterMap_cons, hleaf, List.map_cons, List.map_cons, ih hts,
          (Token.text_of_leaf? hleaf).1]
  obtain ⟨htext, hlocation⟩ := Token.text_of_leaf? hfirst
  have hnode := Fold.node?_docString hfirstKind hlines hlastKind
  obtain ⟨root, scopes, pending⟩ := b
  rw [start, foldl_build hkinds, hleaves, List.nil_append, close]
  simp only [hnode, Tree.Argument.node, Tree.Argument.document, joinLines, htexts, htext,
    hlocation]

end Builder

/-! ### Reading a doc string -/

/-- Tokens hold the lines of a doc string as it is written: the separator with the type of the
content, the lines with the separator escaped, and the separator again. -/
structure Separator.Writes (s : Separator) (blanks type : List Char)
    (contents : List (List Char)) (opening : Token) (ts : List Token) (closing : Token) :
    Prop where
  opening : opening.line = some ⟨blanks ++ (s.text.toList ++ type)⟩
  content : List.Forall₂ (fun t cs => t.line = some ⟨blanks ++ s.escape cs⟩) ts contents
  closing : closing.line = some ⟨blanks ++ s.text.toList⟩

namespace Matcher

variable {m : Matcher} {s : Separator} {blanks : List Char} {t : Token}

/-- A line of a doc string does not close it and is read as what has been written. -/
theorem reads_escape (hblanks : Text.AllBlank blanks)
    (hdoc : m.docString = some ⟨s, blanks.length⟩) {cs : List Char}
    (hline : t.line = some ⟨blanks ++ s.escape cs⟩) (h : ¬s.escaped.toList <:+: cs) :
    m.matchAs .docStringSeparator t = .ok none ∧
      ∃ read, m.matchAs .other t = .ok (some (m, read)) ∧
        read.text? = some (String.ofList cs) := by
  constructor
  · have hnot := matchAs_separator hdoc hline
    rw [s.startsWith_escape hblanks] at hnot
    exact hnot
  · refine ⟨_, m.matchAs_other hline, ?_⟩
    rw [freeText_of_docString_eq_some hdoc, s.content_escape hblanks h]
    rfl

theorem exists_reads_escape (hblanks : Text.AllBlank blanks)
    (hdoc : m.docString = some ⟨s, blanks.length⟩) {ts : List Token}
    {contents : List (List Char)}
    (hlines : List.Forall₂ (fun t cs => t.line = some ⟨blanks ++ s.escape cs⟩) ts contents)
    (h : ∀ cs ∈ contents, ¬s.escaped.toList <:+: cs) :
    ∃ reads, List.Forall₂ (fun t read => m.matchAs .docStringSeparator t = .ok none ∧
        m.matchAs .other t = .ok (some (m, read))) ts reads ∧
      reads.map Token.text? = contents.map fun cs => some (String.ofList cs) := by
  induction hlines with
  | nil => exact ⟨[], .nil, rfl⟩
  | cons hline hlines ih =>
      obtain ⟨hcs, hcontents⟩ := List.forall_mem_cons.mp h
      obtain ⟨hnot, read, hread, htext⟩ := reads_escape hblanks hdoc hline hcs
      obtain ⟨reads, hreads, htexts⟩ := ih hcontents
      exact ⟨read :: reads, .cons ⟨hnot, hread⟩ hreads, by rw [List.map_cons, htext, htexts]; rfl⟩

/-- Reading a doc string undoes writing it.  The opening line opens it, no line of its content
closes it, and each is read as what has been written, whatever it starts with; the closing line
closes it, and what is built has the content and the type that have been written. -/
theorem reads_docString (hdoc : m.docString = none) (hblanks : Text.AllBlank blanks)
    {type : List Char} {contents : List (List Char)}
    (hcontents : ∀ cs ∈ contents, ¬s.escaped.toList <:+: cs) {opening closing : Token}
    {ts : List Token} (h : s.Writes blanks type contents opening ts closing) :
    ∃ inside opened reads closed,
      m.matchAs .docStringSeparator opening = .ok (some (inside, opened)) ∧
      List.Forall₂ (fun t read => inside.matchAs .docStringSeparator t = .ok none ∧
        inside.matchAs .other t = .ok (some (inside, read))) ts reads ∧
      reads.map Token.text? = contents.map (fun cs => some (String.ofList cs)) ∧
      inside.matchAs .docStringSeparator closing = .ok (some (m, closed)) ∧
      ∀ b : Builder,
        ((opened :: reads ++ [closed]).foldl Builder.build (b.start .docString)).close =
          (b.add (.docString
            { location := opened.location
              contentType :=
                if Text.trim type = [] then none else some (String.ofList (Text.trim type))
              content := "\n".intercalate (contents.map String.ofList) }), none) := by
  obtain ⟨reading, hopening, hkind, htype⟩ := exists_opening hblanks hdoc h.opening
  obtain ⟨reads, hreads, htexts⟩ :=
    exists_reads_escape (m := { m with docString := some ⟨s, blanks.length⟩ }) hblanks rfl
      h.content hcontents
  have hclosing := matchAs_separator (m := { m with docString := some ⟨s, blanks.length⟩ }) rfl
    h.closing
  rw [s.startsWith_indented hblanks] at hclosing
  obtain ⟨closed, hclosed⟩ := hclosing
  have hsame : { m with docString := none } = m := by
    rw [← hdoc]
  refine ⟨_, _, reads, closed, hopening, hreads, htexts, hclosed.trans (by rw [← hsame]), ?_⟩
  intro b
  have hkinds : ∀ read ∈ reads, read.kind? = some .other := by
    clear h htexts
    induction hreads with
    | nil => exact fun _ hmem => absurd hmem List.not_mem_nil
    | cons hread _ ih => exact List.forall_mem_cons.mpr ⟨kind?_of_matchAs hread.2, ih⟩
  have hlines : reads.map (fun t => t.text?.getD "") = contents.map String.ofList := by
    have hgot := congrArg (List.map fun text => text.getD "") htexts
    rwa [List.map_map, List.map_map] at hgot
  have hopened : (opening.readAs reading).text? = some (String.ofList (Text.trim type)) := htype
  have hempty : (String.ofList (Text.trim type)).isEmpty = true ↔ Text.trim type = [] := by
    rw [String.isEmpty_iff, ← String.toList_inj, String.toList_ofList]
    rfl
  have hbuilt := b.close_docString (kind?_of_matchAs hopening) hkinds (kind?_of_matchAs hclosed)
  rw [hbuilt]
  simp only [hlines, hopened, Option.getD_some, hempty]

/-- Content with an empty line, with more than one separator, and with a part of an escaped one. -/
theorem reads_docString_quotes :
    let contents := [[], " \"\"\"\"\" a".toList, "\\\"```".toList]
    let m : Matcher := ⟨.builtin, .english, none⟩
    let opening := Token.ofLine (.ofString "\t\"\"\" json ") 3
    let closing := Token.ofLine (.ofString "\t\"\"\"") 7
    let ts := contents.map fun cs => Token.ofLine ⟨['\t'] ++ Separator.quotes.escape cs⟩ 4
    ∃ inside opened reads closed,
      m.matchAs .docStringSeparator opening = .ok (some (inside, opened)) ∧
      List.Forall₂ (fun t read => inside.matchAs .docStringSeparator t = .ok none ∧
        inside.matchAs .other t = .ok (some (inside, read))) ts reads ∧
      inside.matchAs .docStringSeparator closing = .ok (some (m, closed)) ∧
      ((opened :: reads ++ [closed]).foldl Builder.build (Builder.start {} .docString)).close =
        (Builder.add {} (.docString
          ⟨opened.location, some "json", "\n \"\"\"\"\" a\n\\\"```"⟩), none) := by
  intro contents m opening closing ts
  have hcontents : ∀ cs ∈ contents, ¬Separator.quotes.escaped.toList <:+: cs := by
    decide +kernel
  have hwrites : Separator.quotes.Writes ['\t'] " json ".toList contents opening ts closing :=
    ⟨rfl, .cons rfl (.cons rfl (.cons rfl .nil)), rfl⟩
  obtain ⟨inside, opened, reads, closed, hopening, hreads, -, hclosing, hbuilt⟩ :=
    reads_docString (m := m) rfl (List.forall_mem_singleton.mpr rfl) hcontents hwrites
  have htype : Text.trim " json ".toList = "json".toList := by
    decide +kernel
  have hcontent : "\n".intercalate (contents.map String.ofList) =
      "\n \"\"\"\"\" a\n\\\"```" := by
    decide +kernel
  have hbuilt := hbuilt {}
  rw [hcontent, htype] at hbuilt
  exact ⟨inside, opened, reads, closed, hopening, hreads, hclosing, hbuilt⟩

end Matcher
end Gherkin
