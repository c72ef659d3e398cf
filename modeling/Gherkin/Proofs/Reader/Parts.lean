import Gherkin.Proofs.Dialect.Keywords
import Gherkin.Proofs.Text.Escapes
import Gherkin.Proofs.Text.Rows
import Gherkin.Proofs.Text.Words

/-!
# What is read of a line stands on it

The keyword, the text and the items of a token hold no character that its line does not hold.  The
one exception is a cell that holds a line break, which its line has as an escape.
-/

namespace Gherkin

namespace Text

variable {pattern value cs : List Char} {c : Char}

/-- A value that is made of characters of the pattern brings no others into a text. -/
theorem mem_of_mem_replaceFrom (hvalue : value ⊆ pattern) {skip : Nat}
    (h : c ∈ replaceFrom pattern value skip cs) : c ∈ cs := by
  fun_induction replaceFrom pattern value skip cs with
  | case1 => exact h
  | case2 skip d cs ih => exact List.mem_cons_of_mem d (ih h)
  | case3 d cs hstarts ih =>
      have hoccurs : pattern <+: d :: cs := List.isPrefixOf_iff_prefix.mp hstarts
      rcases List.mem_append.mp h with h | h
      · exact hoccurs.subset (hvalue h)
      · exact List.mem_cons_of_mem d (ih h)
  | case4 d cs hstarts ih =>
      rcases List.mem_cons.mp h with rfl | h
      · exact List.mem_cons_self
      · exact List.mem_cons_of_mem d (ih h)

theorem trimEnd_subset (cs : List Char) : trimEnd cs ⊆ cs := by
  intro c hc
  have hdropped := (List.dropWhile_sublist isBlank).subset (List.mem_reverse.mp hc)
  exact List.mem_reverse.mp hdropped

/-- What is meant is written, but for line breaks that are meant by an escape. -/
theorem mem_of_mem_decode (h : c ∈ decode cs) :
    c ∈ cs ∨ c = '\n' ∧ ['\\', 'n'] <:+: cs := by
  have behind {cs' : List Char} (front : List Char)
      (h : c ∈ cs' ∨ c = '\n' ∧ ['\\', 'n'] <:+: cs') :
      c ∈ front ++ cs' ∨ c = '\n' ∧ ['\\', 'n'] <:+: front ++ cs' :=
    h.imp (List.mem_append_right front)
      (And.imp_right fun hescape => hescape.trans (List.suffix_append front cs').isInfix)
  induction cs using pairInduction with
  | nil => exact .inl h
  | lone => exact .inl h
  | single d cs hd ih =>
      rw [decode_single hd] at h
      rcases List.mem_cons.mp h with rfl | h
      · exact .inl List.mem_cons_self
      · exact behind [d] (ih h)
  | pair d cs ih =>
      rw [decode_pair] at h
      rcases List.mem_append.mp h with h | h
      · by_cases hn : d = 'n'
        · subst hn
          exact .inr ⟨List.mem_singleton.mp h, (List.prefix_append ['\\', 'n'] cs).isInfix⟩
        · have hvalue : (CellUnit.escaped d).value ⊆ ['\\', d] := by
            unfold CellUnit.value
            split <;> simp_all
          exact .inl (List.mem_append_left cs (hvalue h))
      · exact behind ['\\', d] (ih h)

theorem CutAtBars.isInfix {cs last : List Char} {pieces : List (List Char)}
    (h : CutAtBars cs pieces last) : ∀ piece ∈ pieces, piece <:+: cs := by
  induction h with
  | last => exact fun piece hpiece => absurd hpiece List.not_mem_nil
  | @closed piece cs last pieces hpiece rest ih =>
      refine List.forall_mem_cons.mpr ⟨(List.prefix_append piece _).isInfix, fun other hother => ?_⟩
      refine (ih other hother).trans ⟨piece ++ ['|'], [], ?_⟩
      simp

end Text

namespace Line

variable {l : Line} {c : Char}

theorem trimmed_subset (l : Line) : l.trimmed ⊆ l.chars :=
  (List.dropWhile_sublist _).subset

theorem mem_of_mem_cells {cell : Span} (hcell : cell ∈ l.cells) (hc : c ∈ cell.text.toList) :
    c ∈ l.chars ∨ c = '\n' ∧ ['\\', 'n'] <:+: l.chars := by
  obtain ⟨pieces, last, hcut⟩ := Text.exists_cutAtBars l.chars
  have htext := List.mem_map_of_mem (f := Span.text) hcell
  rw [map_text_cells_of_cut hcut] at htext
  obtain ⟨piece, hpiece, htext⟩ := List.mem_map.mp htext
  rw [← htext, String.toList_ofList] at hc
  have hwithin := hcut.isInfix piece (List.mem_of_mem_tail hpiece)
  rcases Text.mem_of_mem_decode ((Text.trim_sublist _).subset hc) with hc | ⟨hbreak, hescape⟩
  · exact .inl (hwithin.subset hc)
  · exact .inr ⟨hbreak, hescape.trans hwithin⟩

theorem subset_of_mem_words {word : Span} (hword : word ∈ l.words) :
    word.text.toList ⊆ l.chars := by
  obtain ⟨n, -, front, back, hchars, -⟩ := mem_words_iff.mp hword
  rw [hchars]
  exact List.subset_append_of_subset_right _ (List.subset_append_left _ _)

theorem subset_of_after? {opening : String} {rest : List Char}
    (h : l.after? opening = some rest) : opening.toList ⊆ l.chars ∧ rest ⊆ l.chars := by
  have htrimmed := l.trimmed_subset
  rw [after?_eq_some_iff.mp h] at htrimmed
  exact List.append_subset.mp htrimmed

theorem dropIndent_subset (l : Line) (n : Nat) : l.dropIndent n ⊆ l.chars := by
  rw [dropIndent]
  split
  · exact l.trimmed_subset
  · exact List.drop_subset n l.chars

theorem subset_of_languageTag? {tag : String} (h : l.languageTag? = some tag) :
    tag.toList ⊆ l.chars := by
  have behind {opening cs rest : List Char} (h : opening.isPrefixOf? cs = some rest) :
      rest ⊆ cs :=
    List.isPrefixOf?_eq_some_iff_append_eq.mp h ▸ List.subset_append_right opening rest
  have trimmed (cs : List Char) : Text.trimStart cs ⊆ cs := (List.dropWhile_sublist _).subset
  rw [languageTag?] at h
  obtain ⟨cs₁, h₁, h⟩ := Option.bind_eq_some_iff.mp h
  obtain ⟨cs₂, h₂, h⟩ := Option.bind_eq_some_iff.mp h
  obtain ⟨cs₃, h₃, h⟩ := Option.bind_eq_some_iff.mp h
  obtain ⟨-, -, htag⟩ := Option.bind_eq_some_iff.mp h
  obtain rfl := Option.some.inj htag
  rw [String.toList_ofList]
  calc
    Text.trim cs₃ ⊆ cs₃ := (Text.trim_sublist cs₃).subset
    _ ⊆ Text.trimStart cs₂ := behind h₃
    _ ⊆ cs₂ := trimmed cs₂
    _ ⊆ Text.trimStart cs₁ := behind h₂
    _ ⊆ cs₁ := trimmed cs₁
    _ ⊆ l.trimmed := behind h₁
    _ ⊆ l.chars := l.trimmed_subset

end Line

namespace Content

/-- The keyword, the text and the items of a token. -/
def texts (content : Content) : List String :=
  content.keyword.toList ++ content.text.toList ++ content.items.map Span.text

/-- What is read of a line has been written on it. -/
def StandsOn (content : Content) (l : Line) : Prop :=
  ∀ text ∈ content.texts, text.toList ⊆ l.chars

variable {l : Line}

/-- A line that starts with a keyword or a separator, and what follows it. -/
theorem standsOn_opened {opening : String} {rest cs : List Char}
    (h : l.after? opening = some rest) (hcs : cs ⊆ rest) (indent : Nat) :
    StandsOn { keyword := some opening, text := some (String.ofList cs), indent := indent } l := by
  obtain ⟨hopening, hrest⟩ := Line.subset_of_after? h
  refine List.forall_mem_cons.mpr ⟨hopening, List.forall_mem_singleton.mpr ?_⟩
  rw [String.toList_ofList]
  exact List.Subset.trans hcs hrest

end Content

namespace Matcher

variable {m : Matcher} {kind : TokenKind} {l : Line} {content : Content}

theorem standsOn_of_title? {k : KeywordKind} (h : m.title? k l = some content) :
    content.StandsOn l := by
  obtain ⟨keyword, -, hcontent⟩ := List.exists_of_findSome?_eq_some h
  obtain ⟨title, htitle, rfl⟩ := Option.map_eq_some_iff.mp hcontent
  rw [Line.title?] at htitle
  split at htitle
  · next cs hafter =>
      obtain rfl := Option.some.inj htitle
      exact Content.standsOn_opened hafter
        (List.subset_cons_of_subset _ (Text.trim_sublist cs).subset) _
  · cases htitle

theorem standsOn_of_step? (h : m.step? l = some content) : content.StandsOn l := by
  obtain ⟨keyword, -, hcontent⟩ := List.exists_of_findSome?_eq_some h
  obtain ⟨text, htext, rfl⟩ := Option.map_eq_some_iff.mp hcontent
  obtain ⟨rest, hafter, rfl⟩ := Option.map_eq_some_iff.mp htext
  exact Content.standsOn_opened hafter (Text.trim_sublist rest).subset _

theorem standsOn_of_separator? (h : m.separator? l = some content) : content.StandsOn l := by
  rw [separator?] at h
  split at h
  · next opened hopened =>
      split at h
      · next hstarts =>
          obtain rfl := Option.some.inj h
          obtain ⟨rest, hafter⟩ := Option.isSome_iff_exists.mp hstarts
          exact Content.standsOn_opened hafter (List.nil_subset rest) _
      · cases h
  · obtain ⟨separator, -, hcontent⟩ := Option.bind_eq_some_iff.mp h
    obtain ⟨contentType, htype, rfl⟩ := Option.map_eq_some_iff.mp hcontent
    obtain ⟨rest, hafter, rfl⟩ := Option.map_eq_some_iff.mp htype
    exact Content.standsOn_opened hafter (Text.trim_sublist rest).subset _

theorem freeText_subset (m : Matcher) (l : Line) : (m.freeText l).toList ⊆ l.chars := by
  rw [freeText]
  split
  · next opened hopened =>
      have hvalue : opened.separator.text.toList ⊆ opened.separator.escaped.toList := by
        cases opened.separator <;> decide
      rw [String.toList_ofList]
      exact fun c hc => l.dropIndent_subset _ (Text.mem_of_mem_replaceFrom hvalue hc)
  · rw [String.toList_ofList]
    exact l.dropIndent_subset 0

/-- What a line is read as has been written on it, unless it is a row. -/
theorem standsOn_of_lineContent? (hrow : kind ≠ .tableRow)
    (h : m.lineContent? kind l = some content) : content.StandsOn l := by
  cases kind with
  | eof => cases h
  | tableRow => exact absurd rfl hrow
  | featureLine | backgroundLine | scenarioLine | scenarioOutlineLine | examplesLine =>
      exact standsOn_of_title? h
  | stepLine => exact standsOn_of_step? h
  | docStringSeparator => exact standsOn_of_separator? h
  | language =>
      obtain ⟨tag, htag, rfl⟩ := Option.map_eq_some_iff.mp h
      exact List.forall_mem_singleton.mpr (Line.subset_of_languageTag? htag)
  | other =>
      obtain rfl := Option.some.inj h
      exact List.forall_mem_singleton.mpr (m.freeText_subset l)
  | empty =>
      obtain ⟨-, hcontent⟩ := Option.ite_none_right_eq_some.mp h
      obtain rfl := Option.some.inj hcontent
      exact fun text htext => absurd htext List.not_mem_nil
  | comment =>
      obtain ⟨-, hcontent⟩ := Option.ite_none_right_eq_some.mp h
      obtain rfl := Option.some.inj hcontent
      refine List.forall_mem_singleton.mpr ?_
      rw [Line.raw, String.toList_ofList]
      exact List.Subset.refl l.chars
  | tagLine =>
      obtain ⟨-, hcontent⟩ := Option.ite_none_right_eq_some.mp h
      obtain rfl := Option.some.inj hcontent
      intro text htext
      obtain ⟨word, hword, rfl⟩ := List.mem_map.mp htext
      exact Line.subset_of_mem_words hword

end Matcher
end Gherkin
