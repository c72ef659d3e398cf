import Gherkin.Proofs.Realisation.Reading
import Gherkin.Proofs.Realisation.Starts

/-!
# Lines and what they are read as

Lines from any place in a document that can be told apart, with the lines of a
tree that they are read as.  Each kind of line is put in front of such lines in
its own way.
-/

namespace Gherkin

open Gherkin.Tree (lineOf)

/-- The comments that wait behind a line with the given content. -/
def pendingPast (number : Nat) (kind : TokenKind) (content : Content)
    (pending : List Comment) : List Comment :=
  if kind = .comment then pending ++ [⟨⟨number, content.indent + 1⟩, content.text.getD ""⟩]
  else if Builder.carriesComments kind then []
  else pending

theorem pendingPast_nil {kind : TokenKind} (hkind : kind ≠ .comment) (number : Nat)
    (content : Content) : pendingPast number kind content [] = [] := by
  rw [pendingPast, if_neg hkind, ite_self]

/-- A line as it stands in a tree. -/
def Leaf.ofContent (number : Nat) (kind : TokenKind) (content : Content) (dialect : Dialect)
    (pending : List Comment) : Leaf :=
  ⟨number, { content with kind := kind, dialect := dialect },
    if Builder.carriesComments kind then pending else []⟩

namespace Matcher

variable {m : Matcher} {columns : Option Nat} {pending : List Comment} {previous : TokenKind}
  {number : Nat} {es : List Entry} {lines : List (TokenKind × Leaf)} {kind : TokenKind} {l : Line}
  {content : Content}

/-- The lines of a tree that lines behind the first `number` lines are read as. -/
def leaves (m : Matcher) (pending : List Comment) (previous : TokenKind) (number : Nat)
    (es : List Entry) : List (TokenKind × Leaf) :=
  leavesOf pending
    (m.readAll (Entry.acceptedKinds previous es ++ [.eof]) (Entry.tokens number es))

/-- The matcher behind a line that is no pragma. -/
def past (m : Matcher) (kind : TokenKind) (l : Line) : Matcher :=
  { m with docString := if kind = .docStringSeparator then m.docStringAfter l else m.docString }

theorem past_of_ne (hkind : kind ≠ .docStringSeparator) (l : Line) : m.past kind l = m := by
  rw [past, if_neg hkind]

theorem matchAs_of_content (hkind : kind ≠ .language) (h : m.lineContent? kind l = some content)
    (number : Nat) :
    m.matchAs kind (.ofLine l number) =
      .ok (some (m.past kind l,
        (Token.ofLine l number).readAs { content with kind := kind, dialect := m.dialect })) := by
  have hcontent : m.content? kind (Token.ofLine l number).line = some content := h
  rw [matchAs, hcontent]
  cases kind with
  | language => exact absurd rfl hkind
  | _ => rfl

theorem behind?_of_content (hkind : kind ≠ .language)
    (h : m.lineContent? kind l = some content) : m.behind? kind l = some (m.past kind l) := by
  rw [behind?, matchAs_of_content hkind h]

theorem leaves_nil : m.leaves pending previous number [] = [] := by
  rfl

/-- What a line adds to a tree. -/
theorem leaves_cons {e : Entry} (haccepted : e.acceptedKind previous = kind)
    (hkind : kind ≠ .language) (hcontent : m.lineContent? kind e.text = some content) :
    m.leaves pending previous number (e :: es) =
      lineOf kind (.ofContent (number + 1) kind content m.dialect pending) ++
        (m.past kind e.text).leaves (pendingPast (number + 1) kind content pending) kind
          (number + 1) es := by
  rw [leaves, Entry.acceptedKinds, Entry.tokens, List.cons_append, readAll, haccepted,
    matchAs_of_content hkind hcontent]
  rfl

theorem evenRows_cons {e : Entry} (hfits : e.fits columns = true)
    (heven : Entry.evenRows (e.columns columns) es = true) :
    Entry.evenRows columns (e :: es) = true := by
  rw [Entry.evenRows, hfits, heven, Bool.and_self]

/-- The lines behind the first `number` lines of a document can be told apart,
and they are read as the given lines of a tree. -/
structure Follows (m : Matcher) (columns : Option Nat) (pending : List Comment)
    (previous : TokenKind) (number : Nat) (es : List Entry)
    (lines : List (TokenKind × Leaf)) : Prop where
  realises : m.realises true es = true
  even : Entry.evenRows columns es = true
  leaves : m.leaves pending previous number es = lines

namespace Follows

theorem nil : m.Follows columns pending previous number [] [] where
  realises := by rw [Matcher.realises]
  even := by rw [Entry.evenRows]
  leaves := leaves_nil

/-- A line outside doc strings, in front of others. -/
theorem line (hdoc : m.docString = none) (hterminal : kind.isTerminal = true)
    (hkind : kind ≠ .language) (hreads : m.Reads kind l content)
    (hfits : (Entry.line kind l).fits columns = true)
    (hrest : (m.past kind l).Follows ((Entry.line kind l).columns columns)
      (pendingPast (number + 1) kind content pending) kind (number + 1) es lines) :
    m.Follows columns pending previous number (.line kind l :: es)
      ((kind, .ofContent (number + 1) kind content m.dialect pending) :: lines) where
  realises := by
    simp only [Matcher.realises, hdoc, hreads.isOnly, behind?_of_content hkind hreads.content,
      Option.any_some, hrest.realises, Bool.and_self]
  even := evenRows_cons hfits hrest.even
  leaves := by
    have haccepted : (Entry.line kind l).acceptedKind previous = kind := rfl
    rw [leaves_cons haccepted hkind hreads.content, Entry.text, hrest.leaves, lineOf,
      if_pos hterminal, List.singleton_append]

theorem plain (hdoc : m.docString = none) (hterminal : kind.isTerminal = true)
    (hlanguage : kind ≠ .language) (hseparator : kind ≠ .docStringSeparator)
    (hreads : m.Reads kind l content) (hfits : (Entry.line kind l).fits columns = true)
    (hrest : m.Follows ((Entry.line kind l).columns columns) [] kind (number + 1) es lines) :
    m.Follows columns [] previous number (.line kind l :: es)
      ((kind, .ofContent (number + 1) kind content m.dialect []) :: lines) := by
  have hcomment : kind ≠ .comment := by
    rintro rfl
    cases hterminal
  refine line hdoc hterminal hlanguage hreads hfits ?_
  rw [past_of_ne hseparator, pendingPast_nil hcomment]
  exact hrest

/-- A comment in front of a line that is not part of a description. -/
theorem comment (hdoc : m.docString = none) (hsharp : l.startsWith "#" = true)
    (hhead : (Entry.sentence es).head? ≠ some .other)
    (hrest : m.Follows columns (pending ++ [⟨⟨number + 1, 1⟩, l.raw⟩]) .comment (number + 1)
      es lines) :
    m.Follows columns pending previous number (.comment l :: es) lines where
  realises := by
    simp only [Matcher.realises, hdoc, hsharp, hrest.realises, Bool.true_or, Bool.and_true,
      Bool.true_and, bne_iff_ne]
    exact hhead
  even := evenRows_cons rfl hrest.even
  leaves := by
    have haccepted : (Entry.comment l).acceptedKind previous = .comment := rfl
    have hcontent : m.lineContent? .comment l = some { text := some l.raw, indent := 0 } :=
      if_pos hsharp
    rw [leaves_cons haccepted (by decide) hcontent, past_of_ne (by decide)]
    exact hrest.leaves

/-- A line within a doc string. -/
theorem inside {opened : OpenDocString} (hdoc : m.docString = some opened)
    (hopen : l.startsWith opened.separator.text = false)
    (hcontent : m.lineContent? .other l = some content)
    (hrest : m.Follows none [] .other (number + 1) es lines) :
    m.Follows columns [] previous number (.line .other l :: es)
      ((.other, .ofContent (number + 1) .other content m.dialect []) :: lines) where
  realises := by
    simp only [Matcher.realises, hdoc, hopen, hrest.realises, Bool.not_false, Bool.and_self]
  even := evenRows_cons rfl hrest.even
  leaves := by
    have haccepted : (Entry.line .other l).acceptedKind previous = .other := rfl
    rw [leaves_cons haccepted (by decide) hcontent, past_of_ne (by decide),
      pendingPast_nil (by decide), hrest.leaves]
    rfl

/-- The line that closes a doc string. -/
theorem closing {opened : OpenDocString} (hdoc : m.docString = some opened)
    (hopen : l.startsWith opened.separator.text = true)
    (hcontent : m.lineContent? .docStringSeparator l = some content)
    (hrest : ({ m with docString := none } : Matcher).Follows none [] .docStringSeparator
      (number + 1) es lines) :
    m.Follows columns [] previous number (.line .docStringSeparator l :: es)
      ((.docStringSeparator, .ofContent (number + 1) .docStringSeparator content m.dialect []) ::
        lines) := by
  have hpast : m.past .docStringSeparator l = { m with docString := none } := by
    rw [past, if_pos rfl, docStringAfter, hdoc]
  rw [← hpast] at hrest
  refine ⟨?_, ?_, ?_⟩
  · simp only [Matcher.realises, hdoc, hopen, behind?_of_content (by decide) hcontent,
      Option.any_some, hrest.realises, Bool.and_self]
  · exact evenRows_cons rfl hrest.even
  · have haccepted : (Entry.line .docStringSeparator l).acceptedKind previous =
        .docStringSeparator := rfl
    rw [leaves_cons haccepted (by decide) hcontent, pendingPast_nil (by decide), Entry.text,
      hrest.leaves]
    rfl

/-- A blank line; behind a description it is read as a line of it. -/
theorem blank (hdoc : m.docString = none) (hempty : l.isEmpty = true)
    (hrest : m.Follows columns [] ((Entry.blank l).acceptedKind previous) (number + 1) es lines) :
    ∃ trail : List Leaf, (∀ leaf ∈ trail, leaf.text = l.raw) ∧
      (previous ≠ .other → trail = []) ∧
      m.Follows columns [] previous number (.blank l :: es)
        (Tree.linesOf .other trail ++ lines) := by
  have hrealises : m.realises true (.blank l :: es) = true := by
    simp only [Matcher.realises, hdoc, hempty, hrest.realises, Bool.and_self]
  have heven : Entry.evenRows columns (.blank l :: es) = true := evenRows_cons rfl hrest.even
  have hleaves := hrest.leaves
  by_cases hprevious : previous = .other
  · have haccepted : (Entry.blank l).acceptedKind previous = .other := if_pos hprevious
    have hcontent : m.lineContent? .other l = some { text := some l.raw, indent := 0 } := by
      rw [lineContent?, freeText, hdoc]
      rfl
    refine ⟨[.ofContent (number + 1) .other { text := some l.raw, indent := 0 } m.dialect []],
      List.forall_mem_singleton.mpr rfl, fun h => absurd hprevious h, hrealises, heven, ?_⟩
    rw [haccepted] at hleaves
    rw [leaves_cons haccepted (by decide) hcontent, past_of_ne (by decide),
      pendingPast_nil (by decide), hleaves]
    rfl
  · have haccepted : (Entry.blank l).acceptedKind previous = .empty := if_neg hprevious
    have hcontent : m.lineContent? .empty l = some { indent := l.indent } := if_pos hempty
    refine ⟨[], List.forall_mem_nil _, fun _ => rfl, hrealises, heven, ?_⟩
    rw [haccepted] at hleaves
    rw [leaves_cons haccepted (by decide) hcontent, past_of_ne (by decide),
      pendingPast_nil (by decide), hleaves]
    rfl

end Follows

end Matcher
end Gherkin
