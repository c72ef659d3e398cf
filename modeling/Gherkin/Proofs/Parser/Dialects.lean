import Gherkin.Proofs.Dialect.Resolving
import Gherkin.Proofs.Parser.Tables
import Gherkin.Proofs.Reader.Pragmas
import Gherkin.Proofs.Run.Resolvers
import Mathlib.Data.List.Nodup

/-!
# The dialect of a document

The first line that is a pragma, a tag line or the title line of a feature
decides the dialect of a document.  In front of it lines are read in the default
dialect; behind it a pragma is a comment or free text, whatever it names.
-/

namespace Gherkin

/-! ### Documents in a dialect -/

/-- The keyword of a node and the kind of keywords that it is one of. -/
def Visit.keyword? : Visit → Option (KeywordKind × String)
  | title kind t => kind.category?.map (·, t.keyword)
  | step _ _ keyword _ => some (.step, keyword)
  | tag _ | row _ | docString _ => none

/-- A document has the language of a dialect, and all its keywords are those of the dialect. -/
structure Document.WrittenIn (document : Document) (d : Dialect) : Prop where
  language : ∀ f ∈ document.feature, f.language = d.language
  keywords : ∀ v ∈ document.walk, ∀ x ∈ v.keyword?, x.2 ∈ d.keywords x.1

/-- A line with a keyword has been read in a dialect. -/
def Reading.WrittenIn (reading : Reading) (d : Dialect) : Prop :=
  ∀ category ∈ reading.kind.category?,
    reading.dialect = d ∧ reading.keyword.getD "" ∈ d.keywords category

/-- Lines with keywords are read in the dialect of the matcher. -/
theorem Matcher.writtenIn_of_matchAs {m next : Matcher} {kind : TokenKind} {t read : Token}
    {reading : Reading} (h : m.matchAs kind t = .ok (some (next, read)))
    (hreading : read.reading = some reading) : reading.WrittenIn m.dialect := by
  intro category hcategory
  obtain ⟨reading', hreading', hkind⟩ := exists_reading_of_matchAs h
  obtain rfl := Option.some.inj (hreading.symm.trans hreading')
  rw [Option.mem_def, hkind] at hcategory
  have hlanguage := TokenKind.ne_language_of_category? hcategory
  obtain ⟨l, content, -, hcontent, -, rfl⟩ := exists_line_of_matchAs h (by
    rintro rfl
    cases hcategory)
  obtain ⟨keyword, hkeyword, hfollows⟩ := exists_keyword_of_lineContent? hcategory hcontent
  obtain rfl := Option.some.inj hreading
  refine ⟨dialect_of_matchAs hlanguage h, ?_⟩
  simp only [hfollows.opening, Option.getD_some]
  exact hkeyword

/-- The document of a tree whose lines have been read in a dialect. -/
theorem Tree.writtenIn_document {tree : Option (Feature Leaf)} {d : Dialect}
    (h : ∀ x ∈ lines tree, x.1 = x.2.reading.kind ∧ x.2.reading.WrittenIn d) :
    (document tree).WrittenIn d := by
  constructor
  · intro f hf
    obtain ⟨f', rfl, rfl⟩ := Option.map_eq_some_iff.mp hf
    have hmem : (.featureLine, f'.header.heading.line) ∈ lines (some f') := by
      simp [lines, Feature.lines, Header.lines, Heading.lines]
    obtain ⟨hkind, hwritten⟩ := h _ hmem
    exact congrArg Dialect.language (hwritten .feature (by rw [← hkind]; rfl)).1
  · rintro v hv ⟨category, keyword⟩ hkeyword
    rw [walk_document] at hv
    obtain ⟨kind, leaf, inside, back, hmem, hv⟩ := exists_line_of_mem_visits hv
    obtain ⟨hkind, hwritten⟩ := h _ hmem
    dsimp only at hkind hwritten
    suffices hsame : kind.category? = some category ∧ keyword = leaf.keyword by
      rw [hkind] at hsame
      rw [hsame.2]
      exact (hwritten category hsame.1).2
    cases kind with
    | tagLine =>
        obtain ⟨tag, -, rfl⟩ := List.mem_map.mp hv
        cases hkeyword
    | docStringSeparator =>
        cases inside with
        | true => cases hv
        | false =>
            obtain rfl := List.mem_singleton.mp hv
            cases hkeyword
    | tableRow =>
        obtain rfl := List.mem_singleton.mp hv
        cases hkeyword
    | eof | empty | comment | language | other => cases hv
    | _ =>
        obtain rfl := List.mem_singleton.mp hv
        cases hkeyword
        exact ⟨rfl, rfl⟩

namespace Parser

/-! ### The pragma of a document -/

/-- The line that selects the dialect of a document and the tag on it, where `d` is the default
dialect: the first line that is a pragma, a tag line or the title line of a feature, if it is a
pragma and not more lines are skipped in front of it than the limit allows. -/
def pragma? (p : Parser) (d : Dialect) (source : Source) : Option (Token × String) :=
  let ts := Source.tokens 0 source
  let stray := (ts.takeWhile fun t => !t.opens d).countP Token.isStray
  if p.limit.all fun limit => stray ≤ limit then
    (ts.find? (Token.opens d)).bind fun t => t.languageTag?.map (t, ·)
  else none

/-- A parser whose run starts at `start` reads the lines of a document in given dialects: `n` lines
have been read when a line is read in the dialect `dialectAt n`.  No language fails, and the
document is written in the dialect `selected`. -/
structure ReadsIn (p : Parser) (lines : List (List Char)) (start : Run)
    (dialectAt : Nat → Dialect) (selected : Dialect) : Prop where
  dialect : ∀ n, (Run.steps n start).matcher.dialect = dialectAt n
  known : ∀ e, p.parse (.ofLines lines) ≠ .error (.dialect e)
  written : ∀ document, p.parse (.ofLines lines) = .ok document → document.WrittenIn selected

variable {p : Parser} {lines : List (List Char)} {start : Run} {d : Dialect}
  {resolver : Resolver}

/-- The reader starts in the default dialect, with the resolver that keeps it. -/
theorem reader_of_resolveDefault (h : p.resolver.resolveDefault = .ok (d, resolver)) :
    p.reader = .ok (.start p.limit ⟨resolver, d, none⟩) := by
  have hagain : resolver.resolveDefault = .ok (d, resolver) := by
    rw [Resolver.resolveDefault, (Resolver.frame_of_resolve h).2]
    exact Resolver.resolve_of_kept h _
  rw [reader, Matcher.start, h]
  simp only [Matcher.reset, Matcher.start, hagain]

theorem reader_of_run {m : Matcher} (hstart : p.run (.ofLines lines) = .ok start)
    (hreader : p.reader = .ok (.start p.limit m)) : start.reader = .start p.limit m :=
  Except.ok.inj ((run_starts hstart).1.symm.trans hreader)

/-- A run is behind any number of lines where the reader is. -/
theorem steps_reader (hstart : p.run (.ofLines lines) = .ok start) (n : Nat) :
    (Run.steps n start).reader =
      start.reader.readFront ((Source.tokens 0 (.ofLines lines)).take n)
        ((Source.tokens 0 (.ofLines lines)).drop n) := by
  obtain ⟨-, hended, -, -⟩ := run_starts hstart
  have hawaits := run_awaits hstart
  generalize hts : Source.tokens 0 (.ofLines lines) = ts at hawaits
  have hsplit := List.take_append_drop n ts
  rcases Nat.lt_or_ge n ts.length with hless | hge
  · have hrest : ts.drop n ≠ [] := by simpa using hless
    rw [← hsplit] at hawaits
    have hfront := (Run.steps_front hended hawaits
      (Source.isEof_of_tokens_eq hrest (hts.trans hsplit.symm))).1
    rwa [List.length_take, Nat.min_eq_left hless.le] at hfront
  · rw [List.take_of_length_le hge, List.drop_of_length_le hge, ← Reader.read_eq_readFront]
    exact (Run.readsAs hge (by rw [hended]; exact hawaits)).reader

/-- What must be shown of the reader. -/
theorem readsIn_of_reader (hstart : p.run (.ofLines lines) = .ok start)
    {dialectAt : Nat → Dialect} {selected : Dialect}
    (hdialect : ∀ n, (start.reader.readFront ((Source.tokens 0 (.ofLines lines)).take n)
      ((Source.tokens 0 (.ofLines lines)).drop n)).matcher.dialect = dialectAt n)
    (hknows : (start.reader.read (Source.tokens 0 (.ofLines lines))).KnowsLanguage)
    (hwritten : ∀ front t back a, Source.tokens 0 (.ofLines lines) = front ++ t :: back →
      (start.reader.readFront front (t :: back)).choice t back = .ok (some a) →
      a.transition.kind.category?.isSome → dialectAt front.length = selected) :
    p.ReadsIn lines start dialectAt selected := by
  have hcomplete := (run_readsAs hstart).2
  refine ⟨fun n => ?_, fun e he => ?_, fun document hdocument => ?_⟩
  · rw [← hdialect, ← steps_reader hstart]
    rfl
  · rw [parse, report_outcome, hstart] at he
    have hfailure := hknows.closeRule e
    rw [← Reader.complete, ← hcomplete] at hfailure
    simp only [Run.outcome] at he
    split at he
    · next failure hsome =>
        rw [Except.error.inj he] at hsome
        exact hfailure hsome
    · split at he <;> cases he
  · obtain ⟨tree, rfl, hlines, -⟩ := exists_tree hdocument
    apply Tree.writtenIn_document
    intro x hx
    rw [hlines] at hx
    obtain ⟨t, ht, reading, comments, hreading, rfl⟩ := exists_mem_of_mem_leavesOf hx
    refine ⟨rfl, fun category (hcategory : reading.kind.category? = some category) => ?_⟩
    obtain ⟨a, ha, rfl⟩ := List.mem_map.mp ht
    rw [acceptances_of_run hstart] at ha
    obtain ⟨front, t, back, htokens, hchoice⟩ := Reader.exists_front_of_mem_acceptances ha
    have hmatch := (Matcher.choose_eq_some hchoice).2
    obtain ⟨reading', hreading', hkind⟩ := Matcher.exists_reading_of_matchAs hmatch
    obtain rfl := Option.some.inj (hreading.symm.trans hreading')
    have hselected := hwritten front t back a htokens hchoice (by
      rw [← hkind, hcategory]
      rfl)
    have hhere := hdialect front.length
    rw [htokens, List.take_left, List.drop_left, hselected] at hhere
    rw [← hhere]
    exact Matcher.writtenIn_of_matchAs hmatch hreading category hcategory

/-! ### The two ways a document can start -/

/-- The search for a pragma ends with none, or with one behind lines that are read at the start
of the document. -/
theorem pragma?_cases (p : Parser) (d : Dialect) (lines : List (List Char)) :
    (p.pragma? d (.ofLines lines) = none ∧
        ∀ t, (Source.tokens 0 (.ofLines lines)).find? (Token.opens d) = some t →
          t.languageTag? = none) ∨
      ∃ front t back tag, Source.tokens 0 (.ofLines lines) = front ++ t :: back ∧
        (∀ u ∈ front, u.isEof = false ∧ u.opens d = false) ∧ t.languageTag? = some tag ∧
        p.pragma? d (.ofLines lines) =
          if p.limit.all fun limit => front.countP Token.isStray ≤ limit then some (t, tag)
          else none := by
  simp only [pragma?]
  cases hfind : (Source.tokens 0 (.ofLines lines)).find? (Token.opens d) with
  | none => simp
  | some t =>
      rw [Option.bind_some]
      cases htag : t.languageTag? with
      | none =>
          left
          refine ⟨by simp, fun u hu => ?_⟩
          rw [← Option.some.inj hu, htag]
      | some tag =>
          right
          obtain ⟨hopens, front, back, htokens, hfront⟩ := List.find?_eq_some_iff_append.mp hfind
          have hlines := Source.isEof_of_tokens_eq (List.cons_ne_nil _ _) htokens
          refine ⟨front, t, back, tag, htokens, fun u hu => ⟨hlines u hu, ?_⟩, htag, ?_⟩
          · simpa using hfront u hu
          · rw [htokens, List.takeWhile_append_of_pos hfront,
              List.takeWhile_cons_of_neg (by simp [hopens]), List.append_nil]
            rfl

/-- A document without a pragma in front of its feature is read in the default dialect. -/
theorem readsIn_default {m : Matcher} (hstart : p.run (.ofLines lines) = .ok start)
    (hreader : p.reader = .ok (.start p.limit m))
    (h : ∀ t, (Source.tokens 0 (.ofLines lines)).find? (Token.opens m.dialect) = some t →
      t.languageTag? = none) :
    p.ReadsIn lines start (fun _ => m.dialect) m.dialect := by
  have hsettled : start.reader.Settled (Source.tokens 0 (.ofLines lines)) := by
    rw [reader_of_run hstart hreader]
    exact fun _ _ => h
  refine readsIn_of_reader hstart (fun n => ?_) ?_ fun _ _ _ _ _ _ _ => rfl
  · rw [← List.take_append_drop n (Source.tokens 0 (.ofLines lines))] at hsettled
    rw [hsettled.of_append.readFront.1, reader_of_run hstart hreader]
    rfl
  · rw [Reader.read_eq_readFront]
    refine hsettled.readFront.2 fun e he => ?_
    rw [reader_of_run hstart hreader] at he
    cases he

section

variable {m : Matcher} {front back : List Token} {t : Token}

/-- In front of a pragma lines are read in the default dialect, at the start of the document. -/
theorem readFront_front (limit : Option Nat)
    (hfront : ∀ u ∈ front, u.isEof = false ∧ u.opens m.dialect = false) (rest : List Token) :
    ((Reader.start limit m).readFront front rest).state = .start ∧
      ((Reader.start limit m).readFront front rest).matcher = m ∧
      ((Reader.start limit m).readFront front rest).failure.isNone =
        limit.all fun limit => front.countP Token.isStray ≤ limit := by
  obtain ⟨hstate, hmatcher, hfailure⟩ :=
    Reader.readFront_of_not_opens rest rfl (Reader.start_fine limit m) hfront
  refine ⟨hstate, hmatcher, hfailure.trans ?_⟩
  simp [Reader.fits, Reader.start]

theorem knowsLanguage_start (limit : Option Nat) (m : Matcher) :
    (Reader.start limit m).KnowsLanguage := by
  intro e he
  cases he

/-- A pragma behind too many lines that are skipped is not reached. -/
theorem readsIn_skipped (hstart : p.run (.ofLines lines) = .ok start)
    (hreader : p.reader = .ok (.start p.limit m))
    (htokens : Source.tokens 0 (.ofLines lines) = front ++ t :: back)
    (hfront : ∀ u ∈ front, u.isEof = false ∧ u.opens m.dialect = false)
    (hlimit : (p.limit.all fun limit => front.countP Token.isStray ≤ limit) = false) :
    p.ReadsIn lines start (fun _ => m.dialect) m.dialect := by
  obtain ⟨-, hmatcher, hfailure⟩ := readFront_front p.limit hfront (t :: back)
  have hfailed : ((Reader.start p.limit m).readFront front (t :: back)).failure.isSome := by
    rw [hlimit] at hfailure
    simpa using hfailure
  have hsame := reader_of_run hstart hreader
  refine readsIn_of_reader hstart (fun n => ?_) ?_ fun _ _ _ _ _ _ _ => rfl
  · rw [hsame, htokens]
    rcases Nat.le_total n front.length with hle | hge
    · rw [Reader.readFront_take_of_le _ _ hle, (readFront_front p.limit
        (fun u hu => hfront u (List.mem_of_mem_take hu)) _).2.1]
    · rw [Reader.readFront_take_of_ge _ _ hge, Reader.readFront_of_failure hfailed, hmatcher]
  · have hsettled : (Reader.start p.limit m).Settled front := by
      intro _ _ u hu
      have hopens := List.find?_some hu
      rw [show (Reader.start p.limit m).matcher = m from rfl,
        (hfront u (List.mem_of_find?_eq_some hu)).2] at hopens
      cases hopens
    rw [hsame, htokens, Reader.read_append, Reader.read_of_failure hfailed]
    exact hsettled.readFront.2 (knowsLanguage_start p.limit m)

/-- Only lines behind a pragma have keywords. -/
theorem no_category_of_le {limit : Option Nat} {front' back' ts : List Token} {t' : Token}
    (htokens : ts = front ++ t :: back)
    (hfront : ∀ u ∈ front, u.isEof = false ∧ u.opens m.dialect = false) {tag : String}
    (htag : t.languageTag? = some tag) (htokens' : ts = front' ++ t' :: back')
    (hle : front'.length ≤ front.length) {a : Acceptance}
    (hchoice : ((Reader.start limit m).readFront front' (t' :: back')).choice t' back' =
      .ok (some a)) : ¬a.transition.kind.category?.isSome := by
  intro hkind
  obtain ⟨more, rfl, hmore⟩ : ∃ more, front = front' ++ more ∧ t' :: back' = more ++ t :: back := by
    rcases List.append_eq_append_iff.mp (htokens'.symm.trans htokens) with
      ⟨more, hfront, hback⟩ | ⟨more, hfront, hback⟩
    · exact ⟨more, hfront, hback⟩
    · have hnil : more = [] := by
        rw [hfront, List.length_append] at hle
        exact List.length_eq_zero_iff.mp (by omega)
      rw [hnil] at hfront hback
      exact ⟨[], by rw [hfront]; simp, by simpa using hback.symm⟩
  obtain ⟨hstate, hmatcher, -⟩ :=
    readFront_front limit (fun u hu => hfront u (List.mem_append_left _ hu)) (t' :: back')
  obtain ⟨hopens, hnone⟩ := Reader.opens_of_category? hstate hchoice hkind
  cases more with
  | nil =>
      obtain ⟨rfl, -⟩ := List.cons.inj hmore
      rw [htag] at hnone
      cases hnone
  | cons u more =>
      obtain ⟨rfl, -⟩ := List.cons.inj hmore
      rw [hmatcher, (hfront t' (by simp)).2] at hopens
      cases hopens

/-- A document behind a pragma is read in the dialect that it names, or not at all. -/
theorem readsIn_pragma (hstart : p.run (.ofLines lines) = .ok start)
    (hreader : p.reader = .ok (.start p.limit m))
    (htokens : Source.tokens 0 (.ofLines lines) = front ++ t :: back)
    (hfront : ∀ u ∈ front, u.isEof = false ∧ u.opens m.dialect = false) {tag : String}
    (htag : t.languageTag? = some tag)
    (hlimit : (p.limit.all fun limit => front.countP Token.isStray ≤ limit) = true) :
    match m.resolver.resolve tag ⟨t.number, t.lineIndent + 1⟩ with
    | .error e => p.parse (.ofLines lines) = .error (.dialect e)
    | .ok (d, _) => p.ReadsIn lines start (fun n => if n < t.number then m.dialect else d) d := by
  have hsame := reader_of_run hstart hreader
  have hnumber : t.number = front.length + 1 := by
    rw [Source.number_of_tokens_eq htokens, Nat.zero_add]
  have hsplit : Source.tokens 0 (.ofLines lines) = (front ++ [t]) ++ back := by
    rw [htokens, List.append_assoc, List.singleton_append]
  have hlength : (front ++ [t]).length = t.number := by
    rw [hnumber, List.length_append, List.length_singleton]
  have hbehind := Reader.readFront_pragma rfl (Reader.start_fine p.limit m) hfront
    (by simpa [Reader.fits, Reader.start] using hlimit) htag back
  simp only [show (Reader.start p.limit m).matcher = m from rfl] at hbehind
  rcases hresolve : m.resolver.resolve tag _ with e | ⟨d, resolver⟩ <;>
    rw [hresolve] at hbehind <;> simp only at hbehind ⊢
  · rw [parse_ofLines, readTokens, hreader]
    apply Reader.complete_outcome_of_failure
    rw [hsplit, Reader.read_append, Reader.read_of_failure (by rw [hbehind]; rfl), hbehind]
  · obtain ⟨hfailure, hstate, hdialect⟩ := hbehind
    have hsettled : ∀ ts, (Reader.readFront (.start p.limit m) (front ++ [t]) back).Settled ts :=
      fun ts _ hbefore => absurd hbefore hstate
    refine readsIn_of_reader hstart (fun n => ?_) ?_
      fun front' t' back' a htokens' hchoice hkind => ?_
    · rw [hsame]
      split
      · next hless =>
          have hle : n ≤ front.length := by omega
          rw [htokens, Reader.readFront_take_of_le _ _ hle, (readFront_front p.limit
            (fun u hu => hfront u (List.mem_of_mem_take hu)) _).2.1]
      · next hge =>
          have hge : (front ++ [t]).length ≤ n := by omega
          rw [hsplit, Reader.readFront_take_of_ge _ _ hge, (hsettled _).readFront.1, hdialect]
    · rw [hsame, hsplit, Reader.read_append, Reader.read_eq_readFront]
      refine (hsettled _).readFront.2 fun e he => ?_
      rw [hfailure] at he
      cases he
    · rw [hsame] at hchoice
      exact if_neg fun hless =>
        no_category_of_le htokens hfront htag htokens' (by omega) hchoice hkind

end

/-- Behind its last line the run of a document still has the dialect that the document is written
in. -/
theorem writtenIn_of_parse (hstart : p.run (.ofLines lines) = .ok start) {document : Document}
    (h : p.parse (.ofLines lines) = .ok document) :
    document.WrittenIn start.complete.matcher.dialect := by
  have hended {dialectAt selected} (hreads : p.ReadsIn lines start dialectAt selected)
      (hlast : dialectAt (start.unread + 1) = selected) :
      document.WrittenIn start.complete.matcher.dialect := by
    rw [Run.matcher_complete, hreads.dialect, hlast]
    exact hreads.written document h
  obtain ⟨m, hreader⟩ : ∃ m, p.reader = .ok (.start p.limit m) := by
    obtain ⟨m, hm⟩ := exists_start_of_reader (run_starts hstart).1
    exact ⟨m, hm ▸ (run_starts hstart).1⟩
  rcases p.pragma?_cases m.dialect lines with ⟨-, hnone⟩ | ⟨front, t, back, tag, htokens, hfront,
    htag, -⟩
  · exact hended (readsIn_default hstart hreader hnone) rfl
  · cases hlimit : p.limit.all fun limit => front.countP Token.isStray ≤ limit with
    | false => exact hended (readsIn_skipped hstart hreader htokens hfront hlimit) rfl
    | true =>
        have hreads := readsIn_pragma hstart hreader htokens hfront htag hlimit
        rcases hresolve : m.resolver.resolve tag _ with e | ⟨d', resolver'⟩ <;>
          rw [hresolve] at hreads
        · rw [hreads] at h
          cases h
        · -- All lines have been taken by then, that of the pragma among them.
          refine hended hreads (if_neg ?_)
          obtain ⟨-, -, hqueue, hscanner⟩ := run_starts hstart
          have hlength := Source.length_tokens (Source.readable_ofLines lines) 0
          rw [htokens, List.length_append, List.length_cons] at hlength
          rw [Source.number_of_tokens_eq htokens, Run.unread, hqueue, hscanner, List.length_nil]
          dsimp only
          omega

/-- No pragma is an unexpected token. -/
theorem languageTag?_of_mem_unexpectedLines (hstart : p.run (.ofLines lines) = .ok start)
    {t : Token} (ht : t ∈ Source.tokens 0 (.ofLines lines))
    (h : t.number ∈ Reader.unexpectedLines start.complete.errors) : t.languageTag? = none := by
  obtain ⟨m, hm⟩ := exists_start_of_reader (run_starts hstart).1
  obtain ⟨front, last, htokens⟩ := Source.exists_tokens_eq 0 lines
  have hfront := Source.isEof_of_tokens_eq (List.cons_ne_nil _ _) htokens
  have hcomplete := congrArg Reader.errors (run_readsAs hstart).2
  rw [hm, htokens] at hcomplete
  change start.complete.errors = _ at hcomplete
  rw [hcomplete] at h
  rcases Reader.mem_unexpectedLines_complete (by simp [Reader.start]) hfront h with h | h
  · cases h
  · obtain ⟨u, hu, hnumber, hnone⟩ := h
    rw [← htokens] at hu
    have hnodup : ((Source.tokens 0 (.ofLines lines)).map Token.number).Nodup :=
      List.pairwise_map.mpr ((Source.pairwise_tokens 0 lines).imp Nat.ne_of_lt)
    rwa [List.inj_on_of_nodup_map hnodup hu ht hnumber] at hnone

/-- The first line that is a pragma, a tag line or the title line of a feature selects the dialect
of a document.  A pragma for a language that cannot be used is the only error of its document;
all other pragmas are accepted and change nothing. -/
theorem reads_in_selected_dialect (hdefault : p.resolver.resolveDefault = .ok (d, resolver))
    (lines : List (List Char)) :
    ∃ start, p.run (.ofLines lines) = .ok start ∧
      (match p.pragma? d (.ofLines lines) with
        | none => p.ReadsIn lines start (fun _ => d) d
        | some (t, tag) =>
          match p.resolver.dialectFor tag ⟨t.number, t.lineIndent + 1⟩ with
          | .error e =>
            p.parse (.ofLines lines) = .error (.dialect e) ∧
              e.language = LanguageTag.normalize tag ∧ e.location = ⟨t.number, t.lineIndent + 1⟩
          | .ok d' => p.ReadsIn lines start (fun n => if n < t.number then d else d') d') ∧
      ∀ t ∈ Source.tokens 0 (.ofLines lines), t.languageTag?.isSome →
        ∀ e ∈ start.complete.errors, e.isUnexpectedToken = true → e.location.line ≠ t.number := by
  have hreader := reader_of_resolveDefault hdefault
  obtain ⟨start, hstart⟩ : ∃ start, p.run (.ofLines lines) = .ok start := by
    have hrun := p.run_eq (.ofLines lines)
    rw [hreader] at hrun
    obtain ⟨start, hstart, -⟩ := hrun
    exact ⟨start, hstart⟩
  refine ⟨start, hstart, ?_, ?_⟩
  · rcases p.pragma?_cases d lines with ⟨hpragma, hnone⟩ | ⟨front, t, back, tag, htokens, hfront,
      htag, hpragma⟩
    · rw [hpragma]
      exact readsIn_default hstart hreader hnone
    · cases hlimit : p.limit.all fun limit => front.countP Token.isStray ≤ limit with
      | false =>
          rw [hpragma, hlimit]
          exact readsIn_skipped hstart hreader htokens hfront hlimit
      | true =>
          have hreads := readsIn_pragma hstart hreader htokens hfront htag hlimit
          rw [hpragma, hlimit]
          simp only [if_true, ← Resolver.dialectFor_of_kept hdefault tag]
          simp only at hreads
          rcases hresolve : resolver.resolve tag _ with e | ⟨d', resolver'⟩ <;>
            rw [hresolve] at hreads
          · have herror : resolver.dialectFor tag ⟨t.number, t.lineIndent + 1⟩ = .error e := by
              rw [Resolver.dialectFor, hresolve]
              rfl
            rw [herror]
            exact ⟨hreads, Resolver.eq_of_dialectFor_eq_error herror⟩
          · rw [Resolver.dialectFor_of_resolve hresolve]
            exact hreads
  · intro t ht htag e he hunexpected hline
    rw [languageTag?_of_mem_unexpectedLines hstart ht] at htag
    · cases htag
    · exact List.mem_map.mpr ⟨e, List.mem_filter.mpr ⟨he, hunexpected⟩, hline⟩

/-- A document with a pragma behind a comment and a blank line, and another one inside the
feature. -/
theorem reads_in_selected_dialect_french :
    let lines := ["# c", "", "  # language: fr", "Fonctionnalité: f", "Scénario: s",
      "# language: xx", "Soit x"].map String.toList
    ∃ start, Parser.run {} (.ofLines lines) = .ok start ∧
      (∀ n, (Run.steps n start).matcher.dialect.language = if n < 3 then "en" else "fr") ∧
      ∃ document french, Parser.parse {} (.ofLines lines) = .ok document ∧
        document.feature.isSome ∧ french.language = "fr" ∧ document.WrittenIn french := by
  intro lines
  have hdefault : Resolver.builtin.resolveDefault.toOption.any (fun x =>
      x.1.language = "en" && (pragma? {} x.1 (.ofLines lines)).any fun y =>
        y.1.number = 3 && y.1.lineIndent = 2 && y.2 = "fr") = true := by
    decide +kernel
  have hfrench : (Resolver.builtin.dialectFor "fr" ⟨3, 3⟩).toOption.any (fun d =>
      d.language = "fr") = true := by
    decide +kernel
  have hparsed : (Parser.parse {} (.ofLines lines)).toOption.any (fun document =>
      document.feature.isSome) = true := by
    decide +kernel
  obtain ⟨⟨d, resolver⟩, hresolve, hdefault⟩ := exists_ok_of_any hdefault
  obtain ⟨d', hdialect, hfrench⟩ := exists_ok_of_any hfrench
  obtain ⟨document, hparse, hfeature⟩ := exists_ok_of_any hparsed
  obtain ⟨start, hstart, hreads, -⟩ := reads_in_selected_dialect (p := {}) hresolve lines
  rw [Bool.and_eq_true, decide_eq_true_eq, Option.any_eq_true] at hdefault
  obtain ⟨henglish, ⟨t, tag⟩, hpragma, hselected⟩ := hdefault
  simp only [Bool.and_eq_true, decide_eq_true_eq] at hselected
  obtain ⟨⟨hnumber, hindent⟩, rfl⟩ := hselected
  rw [hpragma] at hreads
  simp only [hnumber, hindent, hdialect] at hreads
  have hlanguage : d'.language = "fr" := of_decide_eq_true hfrench
  refine ⟨start, hstart, fun n => ?_, document, d', hparse, hfeature, hlanguage,
    hreads.written document hparse⟩
  rw [hreads.dialect n]
  split
  · exact henglish
  · exact hlanguage

end Parser
end Gherkin
