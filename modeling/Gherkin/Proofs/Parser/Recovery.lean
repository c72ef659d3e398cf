import Gherkin.Proofs.Parser.Sentences
import Gherkin.Proofs.Recovery.Deletion

/-!
# Parsing again without the lines that were skipped

When the lines that fit nowhere are deleted, parsing again gives the other
errors of the first parse, at the new numbers of their lines, and a document if
there are none.
-/

namespace Gherkin

/-- The lines whose numbers are not among the given ones, where the lines are
numbered from `first` on. -/
def keepFrom (first : Nat) (deleted : List Nat) (lines : List (List Char)) :
    List (List Char) :=
  ((lines.zipIdx first).filter fun line => line.2 ∉ deleted).map Prod.fst

/-- The lines that are left when the lines with the given numbers are deleted. -/
def deleteLines (deleted : List Nat) (lines : List (List Char)) : List (List Char) :=
  keepFrom 1 deleted lines

/-- A line moves up by the number of deleted lines in front of it. -/
def numberAfter (deleted : List Nat) (n : Nat) : Nat :=
  n - (List.range n).countP (· ∈ deleted)

theorem numberAfter_succ (deleted : List Nat) (n : Nat) :
    numberAfter deleted (n + 1) =
      if n ∈ deleted then numberAfter deleted n else numberAfter deleted n + 1 := by
  have hle : (List.range n).countP (· ∈ deleted) ≤ n := by
    simpa using List.countP_le_length (p := (· ∈ deleted)) (l := List.range n)
  rw [numberAfter, numberAfter, List.range_succ, List.countP_append, List.countP_singleton]
  by_cases hdeleted : n ∈ deleted
  · rw [if_pos (by simpa using hdeleted), if_pos hdeleted]
    omega
  · rw [if_neg (by simpa using hdeleted), if_neg hdeleted]
    omega

theorem numberAfter_one {deleted : List Nat} (h : 0 ∉ deleted) : numberAfter deleted 1 = 1 := by
  rw [numberAfter_succ, if_neg h]
  rfl

theorem dropMark_eq_self {chars : List Char} (h : chars.head? ≠ some '\uFEFF') (number : Nat) :
    Scanner.dropMark number chars = chars := by
  cases chars with
  | nil => rfl
  | cons c cs =>
      have hc : c ≠ '\uFEFF' := fun heq => h (by rw [heq]; rfl)
      rw [Scanner.dropMark, if_neg (by simp [hc])]

theorem keepFrom_cons (first : Nat) (deleted : List Nat) (chars : List Char)
    (lines : List (List Char)) :
    keepFrom first deleted (chars :: lines) =
      if first ∈ deleted then keepFrom (first + 1) deleted lines
      else chars :: keepFrom (first + 1) deleted lines := by
  rw [keepFrom, List.zipIdx_cons]
  split
  · rw [List.filter_cons_of_neg (by simpa), keepFrom]
  · rw [List.filter_cons_of_pos (by simpa), keepFrom, List.map_cons]

/-- Without byte order marks, the tokens of the lines that are left are the tokens of
these lines under their new numbers. -/
theorem tokens_keepFrom {deleted : List Nat} {lines : List (List Char)}
    (hmark : ∀ line ∈ lines, line.head? ≠ some '\uFEFF') {number number' : Nat}
    (hnumber : numberAfter deleted (number + 1) = number' + 1) :
    Source.tokens number' (.ofLines (keepFrom (number + 1) deleted lines)) =
      ((Source.tokens number (.ofLines lines)).filter
        fun t => t.isEof || t.number ∉ deleted).map (Token.renumber (numberAfter deleted)) := by
  induction lines generalizing number number' with
  | nil => simp [keepFrom, Source.ofLines, Token.renumber, Token.eof, hnumber, Token.isEof]
  | cons chars lines ih =>
      let t := Token.ofLine ⟨chars⟩ (number + 1)
      have htokens (n : Nat) (rest : List (List Char)) :
          Source.tokens n (.ofLines (chars :: rest)) =
            .ofLine ⟨chars⟩ (n + 1) :: Source.tokens (n + 1) (.ofLines rest) := by
        have hline := Source.tokens_line n chars (.ofLines rest)
        rwa [dropMark_eq_self (hmark chars List.mem_cons_self)] at hline
      have hothers : ∀ line ∈ lines, line.head? ≠ some '\uFEFF' :=
        fun line hline => hmark line (List.mem_cons_of_mem _ hline)
      have hnext := numberAfter_succ deleted (number + 1)
      rw [keepFrom_cons, htokens number]
      by_cases hdeleted : number + 1 ∈ deleted
      · rw [if_pos hdeleted] at hnext ⊢
        rw [List.filter_cons_of_neg (by simp [hdeleted, Token.ofLine, Token.isEof])]
        exact ih hothers (hnext.trans hnumber)
      · rw [if_neg hdeleted] at hnext ⊢
        rw [List.filter_cons_of_pos (by simp [hdeleted, Token.ofLine]), List.map_cons,
          htokens number', ih hothers (hnext.trans (congrArg (· + 1) hnumber))]
        have hfirst : t.renumber (numberAfter deleted) = .ofLine ⟨chars⟩ (number' + 1) := by
          rw [← hnumber]
          rfl
        rw [← hfirst]

namespace Parser

/-- A parser over the built-in tables starts with a matcher that tells titles. -/
theorem tellsTitles_of_reader {p : Parser} (h : p.resolver.IsBuiltin) {r : Reader}
    (hr : p.reader = .ok r) : ∃ m, r = .start p.limit m ∧ m.TellsTitles := by
  obtain ⟨matcher, reset, hmatcher, hreset, hstart⟩ := exists_reset_of_reader hr
  have hbuiltin := (Matcher.tellsTitles_of_start h hmatcher).builtin.resolver
  exact ⟨reset, hstart, Matcher.tellsTitles_of_start hbuiltin hreset⟩

end Parser

namespace Reader

theorem start_fine (limit : Option Nat) (m : Matcher) : (start limit m).Fine :=
  ⟨rfl, fun _ _ => Nat.zero_le _⟩

/-- Two readers in front of the same document are alike, whatever the numbers of the
lines are. -/
theorem start_alike (f : Nat → Nat) (limit : Option Nat) (m : Matcher) :
    (start limit m).Alike f (start limit m) :=
  ⟨rfl, rfl, rfl, rfl, rfl, start_fine limit m, rfl⟩

/-- Errors that are not more than the limit allows are all errors of a reader that has
not failed. -/
theorem complete_of_outcome {r : Reader} (hearly : r.FailsEarly) {ts : List Token}
    {errors : List SyntaxError} (h : (r.complete ts).outcome = .error (.parse errors))
    (hlimit : ∀ limit ∈ r.limit, errors.length ≤ limit) :
    (r.complete ts).failure = none ∧ (r.complete ts).errors = errors := by
  obtain ⟨hread, hsame⟩ := read_failsEarly hearly ts
  obtain ⟨hclosed, hsame'⟩ := closeRule_failsEarly hread
  rw [outcome] at h
  split at h
  · next failure hfailure =>
      obtain rfl := Except.error.inj h
      obtain ⟨limit, hmem, hless⟩ := (Option.any_eq_true _ _).mp (hclosed _ hfailure)
      rw [hsame', hsame] at hmem
      have hle := hlimit limit hmem
      have hless : limit < errors.length := by simpa using hless
      omega
  · next hfailure =>
      split at h
      · cases h
      · exact ⟨hfailure, Failure.parse.inj (Except.error.inj h)⟩

end Reader

namespace Reader

/-- What a reader finds in the lines that another reader has kept. -/
theorem outcome_of_alike {f : Nat → Nat} {r r' : Reader} (h : r.Alike f r') :
    (remaining f r.errors ≠ [] → r'.outcome = .error (.parse (remaining f r.errors))) ∧
      (remaining f r.errors = [] → ∃ document, r'.outcome = .ok document) := by
  simp only [outcome, h.failure, ← h.errors]
  refine ⟨fun hne => if_neg (by simpa using hne), fun hnil => ⟨_, if_pos (by simp [hnil])⟩⟩

/-- Readers are alike behind a whole document when the second one has seen the lines
that the first one has kept. -/
theorem Alike.complete {f : Nat → Nat} {r r' : Reader} (h : r.Alike f r')
    (hm : r.matcher.TellsTitles) {ts : List Token} (hfine : (r.complete ts).failure = none) :
    (r.complete ts).Alike f (r'.complete ((r.kept ts).map (Token.renumber f))) := by
  have hread := h.read hm (failure_of_closeRule hfine)
  exact hread.closeRules (n := 1) ((closeRule_closes hread.fine).2 hfine)

end Reader

namespace Parser

/-- Recovery from errors is exact.  When parsing fails without giving up, the lines
that are unexpected tokens can be deleted: parsing what is left gives the other
errors, each at the new number of its line, and a document if there are none. -/
theorem parse_deleteLines {p : Parser} (hp : p.resolver.IsBuiltin) {lines : List (List Char)}
    (hmark : ∀ line ∈ lines, line.head? ≠ some '\uFEFF') {errors : List SyntaxError}
    (h : p.parse (.ofLines lines) = .error (.parse errors))
    (hlimit : ∀ limit ∈ p.limit, errors.length ≤ limit) :
    let deleted := Reader.unexpectedLines errors
    let remaining := Reader.remaining (numberAfter deleted) errors
    (remaining ≠ [] →
        p.parse (.ofLines (deleteLines deleted lines)) = .error (.parse remaining)) ∧
      (remaining = [] →
        ∃ document, p.parse (.ofLines (deleteLines deleted lines)) = .ok document) := by
  intro deleted remaining
  let ts := Source.tokens 0 (.ofLines lines)
  rw [parse_ofLines, readTokens] at h ⊢
  cases hreader : p.reader with
  | error e =>
      rw [hreader] at h
      cases h
  | ok r =>
      rw [hreader] at h
      obtain ⟨hearly, hsame⟩ := reader_failsEarly hreader
      obtain ⟨m, rfl, hm⟩ := tellsTitles_of_reader hp hreader
      obtain ⟨hfine, herrors⟩ := Reader.complete_of_outcome hearly h hlimit
      have hdeleted : deleted = ((Reader.start p.limit m).skipped ts).map Token.number := by
        have hskipped := Reader.unexpectedLines_complete (Reader.start_fine p.limit m) hfine
        rw [herrors] at hskipped
        exact hskipped
      have hpositive : 0 ∉ deleted := by
        intro hzero
        rw [hdeleted] at hzero
        obtain ⟨t, ht, hnumber⟩ := List.mem_map.mp hzero
        have hless := Source.lt_number_of_mem_tokens ((Reader.skipped_sublist _ _).subset ht)
        omega
      have htokens := tokens_keepFrom hmark (numberAfter_one hpositive)
      have hkept := Reader.kept_eq_filter (r := .start p.limit m) (Source.pairwise_tokens 0 lines)
      have halike := (Reader.start_alike (numberAfter deleted) p.limit m).complete hm hfine
      rw [← hdeleted] at hkept
      rw [hkept, ← htokens] at halike
      have houtcome := Reader.outcome_of_alike halike
      rw [herrors] at houtcome
      exact houtcome

/-- A stray line between the rows of an uneven table, and tags at the end. -/
theorem parse_deleteLines_table :
    let lines := List.map String.toList
      ["Feature: f", "Scenario: s", "Given a", "|1|2|", "x", "|3|", "@t"]
    let kinds := State.definitionTags.expected
    ∃ errors, parse {} (.ofLines lines) = .error (.parse errors) ∧
      Reader.unexpectedLines errors = [5] ∧
      parse {} (.ofLines (deleteLines [5] lines)) =
        .error (.parse [⟨.unevenTable 2 1, ⟨5, 1⟩⟩, ⟨.unexpectedEof kinds, ⟨7, 0⟩⟩]) := by
  intro lines kinds
  let errors : List SyntaxError :=
    [⟨.unexpectedToken (State.steps .scenario .dataTable).expected "x", ⟨5, 1⟩⟩,
     ⟨.unevenTable 2 1, ⟨6, 1⟩⟩, ⟨.unexpectedEof kinds, ⟨8, 0⟩⟩]
  have hparse : parse {} (.ofLines lines) = .error (.parse errors) := by decide +kernel
  have hrest := (parse_deleteLines Resolver.isBuiltin_builtin (by decide) hparse (by decide)).1
    (by decide)
  exact ⟨errors, hparse, rfl, hrest⟩

end Parser
end Gherkin
