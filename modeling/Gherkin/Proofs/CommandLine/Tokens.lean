import Gherkin.CommandLine.Output
import Gherkin.Proofs.Reader.Parts
import Gherkin.Proofs.Reader.Waiting
import Gherkin.Proofs.Text.Encoding

/-!
# Listing the tokens of a file

There is a token for each line of a file and one for its end, and each of them is shown on a line of
its own, unless it is a row with a cell that holds a line break.
-/

namespace Gherkin

/-! ### Reading without a grammar -/

namespace Matcher

variable {m next : Matcher} {kind : TokenKind} {t read : Token}

/-- A token that is of one of the kinds is not left as it is. -/
theorem matchAs_of_classifyAmong {kinds : List TokenKind}
    (hsome : ∃ kind ∈ kinds, m.isOf kind t = true)
    (h : m.classifyAmong t kinds = .ok (kind, next, read)) :
    m.matchAs kind t = .ok (some (next, read)) := by
  fun_induction classifyAmong m t kinds with
  | case1 =>
      obtain ⟨kind, hkind, -⟩ := hsome
      cases hkind
  | case2 k kinds next' read' hmatch =>
      cases h
      exact hmatch
  | case3 k kinds hmatch ih =>
      refine ih ?_ h
      obtain ⟨kind, hkind, hof⟩ := hsome
      rcases List.mem_cons.mp hkind with rfl | hkind
      · exact absurd hmatch (matchAs_ne_none_of_isOf hof)
      · exact ⟨kind, hkind, hof⟩
  | case4 => cases h

theorem exists_isOf_classifyOrder (m : Matcher) (t : Token) :
    ∃ kind ∈ classifyOrder, m.isOf kind t = true := by
  cases hline : t.line with
  | none => exact ⟨.eof, mem_classifyOrder .eof, by rw [isOf, hline]; rfl⟩
  | some l => exact ⟨.other, mem_classifyOrder .other, by rw [isOf, hline]; rfl⟩

theorem isRead_of_classify (h : m.classify t = .ok (kind, next, read)) :
    read.IsRead ∧ read.fresh = t.fresh := by
  have hmatch := matchAs_of_classifyAmong (m.exists_isOf_classifyOrder t) h
  exact ⟨⟨m, kind, t, next, hmatch⟩, fresh_of_matchAs hmatch⟩

/-- Lines that can all be read are all read, up to a pragma for a language that cannot be used. -/
theorem classifyAll_lines {line : Nat} {lines : List (List Char)}
    (h : ∀ e, (m.classifyAll line (.ofLines lines)).failure ≠ some (.dialect e)) :
    (m.classifyAll line (.ofLines lines)).failure = none ∧
      (m.classifyAll line (.ofLines lines)).tokens.map Token.fresh =
        Source.tokens line (.ofLines lines) ∧
      ∀ t ∈ (m.classifyAll line (.ofLines lines)).tokens, t.IsRead := by
  induction lines generalizing m line with
  | nil =>
      rw [Source.ofLines, List.map_nil] at h ⊢
      rw [classifyAll] at h ⊢
      split at h
      · next e hclassify => exact absurd rfl (h e)
      · next kind next read hclassify =>
          obtain ⟨hread, hfresh⟩ := isRead_of_classify hclassify
          exact ⟨rfl, congrArg (fun t => [t]) hfresh, List.forall_mem_singleton.mpr hread⟩
  | cons chars lines ih =>
      rw [Source.ofLines, List.map_cons] at h ⊢
      rw [classifyAll] at h ⊢
      split at h
      · next hscanned => cases hscanned
      · next t scanner hscanned =>
          cases hscanned
          split at h
          · next e hclassify => exact absurd rfl (h e)
          · next kind next read hclassify =>
              obtain ⟨hread, hfresh⟩ := isRead_of_classify hclassify
              obtain ⟨hfailure, htokens, hreads⟩ := ih h
              refine ⟨hfailure, ?_, List.forall_mem_cons.mpr ⟨hread, hreads⟩⟩
              exact congrArg₂ List.cons hfresh htokens

end Matcher

/-! ### The parts of a token -/

theorem Text.break_not_mem_toDigits (n : Nat) : '\n' ∉ Nat.toDigits 10 n := fun h =>
  absurd (Nat.isDigit_of_mem_toDigits (by decide) (by decide) h) (by decide)

theorem Location.break_not_mem_toString (l : Location) : '\n' ∉ l.toString.toList := by
  have hcolon : '\n' ∉ (ToString.toString ":").toList := by decide
  simp [Location.toString, Text.break_not_mem_toDigits, hcolon]

theorem TokenKind.break_not_mem_name (kind : TokenKind) : '\n' ∉ kind.name.toList := by
  cases kind <;> decide

namespace Token

/-- What is shown of a token behind its place and its kind. -/
def parts (t : Token) : List String :=
  String.ofList (Text.trimEnd (t.keyword?.getD "").toList) :: t.text?.getD "" ::
    t.items.map Span.text

/-- The line breaks in what is shown of a token. -/
def breaks (t : Token) : Nat :=
  (t.parts.flatMap String.toList).count '\n'

variable {t : Token}

theorem tokenLine_eq {kind : TokenKind} (h : t.kind? = some kind) :
    CommandLine.tokenLine t = " ".intercalate
      (t.location.toString :: kind.name :: t.parts.filter fun part => !part.isEmpty) := by
  have hlocation : t.location.toString.isEmpty = false := by
    simp [Location.toString]
  have hname : kind.name.isEmpty = false := by
    cases kind <;> decide
  rw [CommandLine.tokenLine, h]
  simp only [Option.map_some, Option.getD_some, List.cons_append, List.nil_append,
    List.filter_cons, hlocation, hname, Bool.not_false, if_true, parts]

theorem count_tokenLine {kind : TokenKind} (h : t.kind? = some kind) :
    (CommandLine.tokenLine t).toList.count '\n' = t.breaks := by
  have hfilter (parts : List String) :
      ((parts.filter fun part => !part.isEmpty).map String.toList).flatten =
        parts.flatMap String.toList := by
    induction parts with
    | nil => rfl
    | cons part parts ih =>
        by_cases hempty : part = ""
        · subst hempty
          exact ih
        · simpa [List.filter_cons, hempty] using ih
  rw [tokenLine_eq h, String.toList_intercalate, Text.count_intercalate (by decide), List.map_cons,
    List.map_cons, List.flatten_cons, List.flatten_cons, List.count_append, List.count_append,
    List.count_eq_zero_of_not_mem t.location.break_not_mem_toString,
    List.count_eq_zero_of_not_mem kind.break_not_mem_name, Nat.zero_add, Nat.zero_add, breaks,
    hfilter]

/-- What is shown of a token has been read of its line. -/
theorem exists_text_of_mem_parts {content : Content} {kind : TokenKind} {dialect : Dialect}
    {part : String} {c : Char}
    (hpart : part ∈ (t.readAs { content with kind := kind, dialect := dialect }).parts)
    (hc : c ∈ part.toList) : ∃ text ∈ content.texts, c ∈ text.toList := by
  have hgetD {text? : Option String} (h : c ∈ (text?.getD "").toList) :
      ∃ text ∈ text?, c ∈ text.toList := by
    cases text? with
    | none => cases h
    | some text => exact ⟨text, rfl, h⟩
  simp only [Content.texts, List.mem_append, Option.mem_toList]
  rcases List.mem_cons.mp hpart with rfl | hpart
  · rw [String.toList_ofList] at hc
    obtain ⟨keyword, hkeyword, hc⟩ := hgetD (Text.trimEnd_subset _ hc)
    exact ⟨keyword, .inl (.inl hkeyword), hc⟩
  · rcases List.mem_cons.mp hpart with rfl | hpart
    · obtain ⟨text, htext, hc⟩ := hgetD hc
      exact ⟨text, .inl (.inr htext), hc⟩
    · exact ⟨part, .inr hpart, hc⟩

/-- Only cells hold line breaks, and these have been written as escapes. -/
theorem of_breaks (h : t.IsRead) (hline : ∀ l ∈ t.line, '\n' ∉ l.chars) (hbreaks : t.breaks ≠ 0) :
    t.kind? = some .tableRow ∧ ∃ l ∈ t.line, ['\\', 'n'] <:+: l.chars := by
  obtain ⟨m, kind, t', next, hmatch⟩ := h
  have hkind := Matcher.kind?_of_matchAs hmatch
  obtain ⟨content, hcontent, -, rfl⟩ := Matcher.exists_content_of_matchAs hmatch
  obtain ⟨part, hpart, hbreak⟩ :=
    List.mem_flatMap.mp (List.count_pos_iff.mp (Nat.pos_of_ne_zero hbreaks))
  obtain ⟨text, htext, hbreak⟩ := exists_text_of_mem_parts hpart hbreak
  cases hl : t'.line with
  | none =>
      rw [hl] at hcontent
      obtain ⟨-, hcontent⟩ := Option.ite_none_right_eq_some.mp hcontent
      obtain rfl := Option.some.inj hcontent
      cases htext
  | some l =>
      rw [hl] at hcontent
      have hnone : '\n' ∉ l.chars := hline l hl
      -- A line that is no row is shown with its own characters, and these are no line breaks.
      have hrow : kind = .tableRow := by
        by_contra hrow
        exact hnone (Matcher.standsOn_of_lineContent? hrow hcontent text htext hbreak)
      subst hrow
      refine ⟨hkind, l, hl, ?_⟩
      obtain ⟨-, hcontent⟩ := Option.ite_none_right_eq_some.mp hcontent
      obtain rfl := Option.some.inj hcontent
      obtain ⟨cell, hcell, rfl⟩ := List.mem_map.mp htext
      rcases Line.mem_of_mem_cells hcell hbreak with hbreak | ⟨-, hescape⟩
      · exact absurd hbreak hnone
      · exact hescape

end Token

namespace CommandLine

/-- The tokens that are listed for a text: one for each of its lines and one for its end. -/
structure TokenListing (cs : List Char) (ts : List Token) (output : Output) : Prop where
  exitCode : output.exitCode = 0
  stderr : output.stderr = ""
  length : ts.length = (textLines cs).length + 1
  /-- A token holds the line that it stands for, and none at the end. -/
  line : ∀ (k : Nat) (t : Token), ts[k]? = some t →
    t.line = (textLines cs)[k]?.map fun chars => ⟨Scanner.dropMark (k + 1) chars⟩
  /-- A token is shown with its place, its kind and those of its parts that are not empty. -/
  shown : ∀ (k : Nat) (t : Token), ts[k]? = some t →
    ∃ column kind, 0 < column ∧ t.location = ⟨k + 1, column⟩ ∧ t.kind? = some kind ∧
      tokenLine t = " ".intercalate
        (s!"{k + 1}:{column}" :: kind.name :: t.parts.filter fun part => !part.isEmpty)
  stdout : output.stdout = String.join (ts.map fun t => tokenLine t ++ "\n")
  /-- Only cells hold line breaks, and these have been written as escapes. -/
  breaks : ∀ t ∈ ts, t.breaks ≠ 0 →
    t.kind? = some .tableRow ∧ ∃ l ∈ t.line, ['\\', 'n'] <:+: l.chars
  /-- Every token ends a line, and so does every line break that a cell holds. -/
  count : output.stdout.toList.count '\n' = (textLines cs).length + 1 + (ts.map Token.breaks).sum
  /-- What is shown of the tokens are the lines that are listed, unless a cell holds a line
  break. -/
  lines : CutInto output.stdout.toList (ts.map fun t => (tokenLine t).toList) [] ↔
    ∀ t ∈ ts, t.breaks = 0

theorem toList_join_lines (shown : List String) :
    (String.join (shown.map (· ++ "\n"))).toList =
      (shown.map String.toList).flatMap fun line => line ++ ['\n'] := by
  rw [String.toList_join, List.flatMap_map, List.flatMap_map]
  simp

section

variable {cs : List Char} {ts : List Token}

/-- The token in a place among those of a text. -/
theorem place_of_tokens (h : ts.map Token.fresh = Source.tokens 0 (.ofLines (textLines cs)))
    {k : Nat} {t : Token} (ht : ts[k]? = some t) :
    t.number = k + 1 ∧
      t.line = (textLines cs)[k]?.map fun chars => ⟨Scanner.dropMark (k + 1) chars⟩ := by
  obtain ⟨hk, rfl⟩ := List.getElem?_eq_some_iff.mp ht
  have hsplit : Source.tokens 0 (.ofLines (textLines cs)) =
      (ts.take k).map Token.fresh ++ ts[k].fresh :: (ts.drop (k + 1)).map Token.fresh := by
    rw [← h, ← List.map_cons, ← List.map_append, ← List.drop_eq_getElem_cons hk,
      List.take_append_drop]
  obtain ⟨hnumber, hline⟩ := Source.eq_of_tokens_eq hsplit
  rw [List.length_map, List.length_take, Nat.min_eq_left hk.le] at hnumber hline
  rw [Nat.zero_add] at hnumber
  rw [hnumber] at hline
  exact ⟨hnumber, hline⟩

theorem dropMark_subset (number : Nat) (chars : List Char) :
    Scanner.dropMark number chars ⊆ chars := by
  cases chars with
  | nil => exact List.Subset.refl []
  | cons c cs =>
      rw [Scanner.dropMark]
      split
      · exact List.subset_cons_self c cs
      · exact List.Subset.refl (c :: cs)

theorem break_not_mem_of_place {k : Nat} {l : Line}
    (h : (textLines cs)[k]?.map (fun chars => ⟨Scanner.dropMark (k + 1) chars⟩) = some l) :
    '\n' ∉ l.chars := by
  obtain ⟨chars, hchars, rfl⟩ := Option.map_eq_some_iff.mp h
  exact fun hbreak => break_not_mem_textLines (List.mem_of_getElem? hchars)
    (dropMark_subset _ _ hbreak)

theorem tokenListing_of_isRead
    (htokens : ts.map Token.fresh = Source.tokens 0 (.ofLines (textLines cs)))
    (hread : ∀ t ∈ ts, t.IsRead) :
    TokenListing cs ts { stdout := String.join (ts.map fun t => tokenLine t ++ "\n") } := by
  have hlength : ts.length = (textLines cs).length + 1 := by
    rw [← List.length_map Token.fresh, htokens,
      Source.length_tokens (Source.readable_ofLines _), Source.ofLines, List.length_map]
  have hshown : (String.join (ts.map fun t => tokenLine t ++ "\n")).toList =
      (ts.map fun t => (tokenLine t).toList).flatMap fun line => line ++ ['\n'] := by
    have hjoin := toList_join_lines (ts.map tokenLine)
    rwa [List.map_map, List.map_map] at hjoin
  have hbreaks : ∀ t ∈ ts, (tokenLine t).toList.count '\n' = t.breaks := by
    intro t ht
    obtain ⟨m, kind, t', next, hmatch⟩ := hread t ht
    exact Token.count_tokenLine (Matcher.kind?_of_matchAs hmatch)
  constructor
  case exitCode => rfl
  case stderr => rfl
  case stdout => rfl
  case length => exact hlength
  case line => exact fun k t ht => (place_of_tokens htokens ht).2
  case shown =>
    intro k t ht
    obtain ⟨hnumber, -⟩ := place_of_tokens htokens ht
    obtain ⟨m, kind, t', next, hmatch⟩ := hread t (List.mem_of_getElem? ht)
    obtain ⟨content, -, -, rfl⟩ := Matcher.exists_content_of_matchAs hmatch
    have hlocation : (t'.readAs { content with kind := kind, dialect := next.dialect }).location =
        ⟨k + 1, content.indent + 1⟩ := by
      rw [← hnumber]
      rfl
    refine ⟨content.indent + 1, kind, Nat.succ_pos _, hlocation, rfl, ?_⟩
    rw [Token.tokenLine_eq rfl, hlocation]
    rfl
  case breaks =>
    intro t ht hsome
    obtain ⟨k, hk⟩ := List.mem_iff_getElem?.mp ht
    refine Token.of_breaks (hread t ht) (fun l hl => ?_) hsome
    rw [(place_of_tokens htokens hk).2] at hl
    exact break_not_mem_of_place hl
  case count =>
    have hcounts : (ts.map fun t => (tokenLine t).toList).map (List.count '\n') =
        ts.map Token.breaks := by
      rw [List.map_map, Function.comp_def]
      exact List.map_congr_left hbreaks
    rw [hshown, count_flatMap_lines, List.length_map, hlength, hcounts]
  case lines =>
    rw [hshown, cutInto_iff, List.forall_mem_map]
    exact forall₂_congr fun t ht => by rw [hbreaks t ht]

end

/-- What the command prints is what is shown of the tokens. -/
theorem run_of_tokens {read : ArgumentReader} {files : Files} {environment : Option String}
    {arguments : List String} {path : String} {o : Options} {cs : List Char} {m : Matcher}
    (harguments : read arguments = .ok (.tokens path, o))
    (hfile : files path = .ok (.ofBytes (utf8 cs)))
    (hstart : Matcher.start (Resolver.builtin.withDefaultLanguage (language o environment)) = .ok m)
    (hfailure : (m.classifyAll 0 (.ofLines (textLines cs))).failure = none) :
    runWith read files environment arguments =
      { stdout := String.join ((m.classifyAll 0 (.ofLines (textLines cs))).tokens.map
          fun t => tokenLine t ++ "\n") } := by
  have hsource : Source.ofBytes (utf8 cs) = .ofLines (textLines cs) := Source.ofBytes_utf8 cs
  rw [runWith, harguments]
  simp only [Command.output, tokens, hfile, hstart, hsource, hfailure]

/-- Of each line of a file, and of its end, it is shown what it has been read as, in order and each
on a line of its own, but for the line breaks that cells hold.  So it is for any reader of command
lines. -/
theorem tokens_listed (read : ArgumentReader) (files : Files) {environment : Option String}
    {arguments : List String} {path : String} {o : Options} {cs : List Char} {m : Matcher}
    (harguments : read arguments = .ok (.tokens path, o))
    (hfile : files path = .ok (.ofBytes (utf8 cs)))
    (hstart : Matcher.start (Resolver.builtin.withDefaultLanguage (language o environment)) = .ok m)
    (hknown : ∀ e, (m.classifyAll 0 (.ofBytes (utf8 cs))).failure ≠ some (.dialect e)) :
    TokenListing cs (m.classifyAll 0 (.ofBytes (utf8 cs))).tokens
      (runWith read files environment arguments) := by
  have hsource : Source.ofBytes (utf8 cs) = .ofLines (textLines cs) := Source.ofBytes_utf8 cs
  rw [hsource] at hknown ⊢
  obtain ⟨hfailure, htokens, hread⟩ := Matcher.classifyAll_lines hknown
  rw [run_of_tokens harguments hfile hstart hfailure]
  exact tokenListing_of_isRead htokens hread

theorem readArguments_tokens {path : String} (hword : Argument.ofString path = .word path)
    (hne : path ≠ "") : readArguments {} ["tokens", path] = .ok (.tokens path, {}) := by
  have hcommand : Argument.ofString "tokens" = .word "tokens" := by decide
  have hadded : CommandName.tokens.addFile [] path = .ok [path] := by
    simp [CommandName.addFile, hne]
  have hfiles : filesAndOptions .tokens [] {} [path] = .ok ([path], {}) := by
    rw [filesAndOptions, hword]
    simp only
    rw [hadded]
    rfl
  rw [readArguments, hcommand]
  change (filesAndOptions .tokens [] {} _ >>= _) = _
  rw [hfiles]
  rfl

/-- A text that can be read in the built-in languages. -/
theorem exists_start_of_reads (lines : List (List Char)) (breaks : List Nat)
    (h : (Matcher.start (Resolver.builtin.withDefaultLanguage "en")).toOption.any (fun m =>
      let classified := m.classifyAll 0 (.ofLines lines)
      classified.failure.isNone && decide (classified.tokens.map Token.breaks = breaks)) = true) :
    ∃ m, Matcher.start (Resolver.builtin.withDefaultLanguage "en") = .ok m ∧
      (m.classifyAll 0 (.ofLines lines)).failure = none ∧
      (m.classifyAll 0 (.ofLines lines)).tokens.map Token.breaks = breaks := by
  obtain ⟨m, hstart, hreads⟩ := exists_ok_of_any h
  rw [Bool.and_eq_true, decide_eq_true_eq, Option.isNone_iff_eq_none] at hreads
  exact ⟨m, hstart, hreads⟩

/-- A row with a line break in a cell, behind a pragma and a title line. -/
theorem tokens_listed_of_row :
    let cs := "# language: fr\nFonctionnalité: f\n| a\\nb | c |".toList
    let files : Files := fun _ => .ok (.ofBytes (utf8 cs))
    ∃ ts : List Token, ts.map Token.breaks = [0, 0, 1, 0] ∧
      TokenListing cs ts (run files none ["tokens", "a"]) := by
  intro cs files
  have hfile : files "a" = .ok (.ofBytes (utf8 cs)) := rfl
  have harguments : readArguments {} ["tokens", "a"] = .ok (.tokens "a", {}) :=
    readArguments_tokens (by decide) (by decide)
  obtain ⟨m, hstart, hfailure, hbreaks⟩ :=
    exists_start_of_reads (textLines cs) [0, 0, 1, 0] (by decide +kernel)
  have hknown : ∀ e, (m.classifyAll 0 (.ofBytes (utf8 cs))).failure ≠ some (.dialect e) := by
    intro e he
    rw [Source.ofBytes_utf8] at he
    cases hfailure.symm.trans he
  have hlanguage : language {} none = "en" := rfl
  rw [← hlanguage] at hstart
  have hlisted := tokens_listed (readArguments {}) files harguments hfile hstart hknown
  rw [Source.ofBytes_utf8] at hlisted
  exact ⟨_, hbreaks, hlisted⟩

/-- Not every token is on one line: there is one line in the file and its end, and three lines are
listed. -/
theorem not_every_token_on_one_line :
    let cs := "| a\\nb |\n".toList
    let files : Files := fun _ => .ok (.ofBytes (utf8 cs))
    (textLines cs).length = 1 ∧
      ∃ m, Matcher.start (Resolver.builtin.withDefaultLanguage "en") = .ok m ∧
        (m.classifyAll 0 (.ofBytes (utf8 cs))).failure = none ∧
        (run files none ["tokens", "a"]).stdout.toList.count '\n' = 3 := by
  intro cs files
  have hlength : (textLines cs).length = 1 := by decide
  have hfile : files "a" = .ok (.ofBytes (utf8 cs)) := rfl
  have harguments : readArguments {} ["tokens", "a"] = .ok (.tokens "a", {}) :=
    readArguments_tokens (by decide) (by decide)
  obtain ⟨m, hstart, hfailure, hbreaks⟩ :=
    exists_start_of_reads (textLines cs) [1, 0] (by decide +kernel)
  have hknown : ∀ e, (m.classifyAll 0 (.ofLines (textLines cs))).failure ≠ some (.dialect e) := by
    intro e he
    cases hfailure.symm.trans he
  obtain ⟨-, htokens, hread⟩ := Matcher.classifyAll_lines hknown
  have hcount := (tokenListing_of_isRead htokens hread).count
  refine ⟨hlength, m, hstart, ?_, ?_⟩
  · rw [Source.ofBytes_utf8]
    exact hfailure
  · have hlanguage : language {} none = "en" := rfl
    rw [← hlanguage] at hstart
    rw [run, run_of_tokens harguments hfile hstart hfailure, hcount, hbreaks, hlength]
    rfl

end CommandLine
end Gherkin
