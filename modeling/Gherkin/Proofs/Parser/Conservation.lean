import Gherkin.Proofs.Parser.Trees
import Gherkin.Proofs.Reader.Fronts
import Gherkin.Proofs.Realisation.Choices
import Gherkin.Proofs.Tree.Walk

/-!
# Lines are conserved

Walking through a document that has been read visits the lines that have been
accepted as nodes, each with what has been read on it, in the order of the
source.
-/

namespace Gherkin

namespace TokenKind

/-- Lines of these kinds stand for nodes; so do the separators that open doc
strings. -/
def isNode : TokenKind → Bool
  | tagLine | featureLine | backgroundLine | scenarioLine | scenarioOutlineLine
  | examplesLine | stepLine | tableRow => true
  | _ => false

end TokenKind

/-- The numbers of the lines that stand for nodes, among lines that have been
accepted as the given kinds. -/
def nodeLines (inside : Bool) : List (TokenKind × Nat) → List Nat
  | [] => []
  | (kind, number) :: lines =>
    let behind := nodeLines (Tree.insideBehind inside kind) lines
    if kind.isNode || kind = .docStringSeparator && !inside then number :: behind else behind

/-- A node stands on an earlier line than another one, or both are tags on one
line. -/
def Visit.Precedes (v w : Visit) : Prop :=
  v.line < w.line ∨ v.line = w.line ∧ v.isTag = true ∧ w.isTag = true

namespace Tree

variable {inside : Bool} {kind : TokenKind} {leaf : Leaf} {l : List (TokenKind × Leaf)}

/-! ### The nodes of a line -/

theorem line_of_mem_visitsAt {v : Visit} (h : v ∈ visitsAt inside kind leaf l) :
    v.line = leaf.line := by
  cases kind with
  | tagLine =>
      obtain ⟨tag, htag, rfl⟩ := List.mem_map.mp h
      obtain ⟨item, -, rfl⟩ := List.mem_map.mp htag
      rfl
  | docStringSeparator =>
      cases inside with
      | true => cases h
      | false =>
          obtain rfl := List.mem_singleton.mp h
          rfl
  | eof | empty | comment | language | other => cases h
  | _ =>
      obtain rfl := List.mem_singleton.mp h
      rfl

theorem visitsAt_pairwise : (visitsAt inside kind leaf l).Pairwise Visit.Precedes := by
  cases kind with
  | tagLine =>
      have hsame : ∀ v ∈ visitsAt inside .tagLine leaf l, v.line = leaf.line ∧ v.isTag = true := by
        intro v hv
        refine ⟨line_of_mem_visitsAt hv, ?_⟩
        obtain ⟨tag, -, rfl⟩ := List.mem_map.mp hv
        rfl
      refine List.pairwise_of_forall_mem_list fun v hv w hw => ?_
      exact .inr ⟨(hsame v hv).1.trans (hsame w hw).1.symm, (hsame v hv).2, (hsame w hw).2⟩
  | docStringSeparator =>
      cases inside with
      | true => exact List.Pairwise.nil
      | false => exact List.pairwise_singleton _ _
  | eof | empty | comment | language | other => exact List.Pairwise.nil
  | _ => exact List.pairwise_singleton _ _

theorem visitsAt_eq_nil_iff (htags : kind = .tagLine → leaf.reading.items ≠ []) :
    visitsAt inside kind leaf l = [] ↔
      (kind.isNode || kind = .docStringSeparator && !inside) = false := by
  cases kind with
  | tagLine => simpa [visitsAt, Leaf.tags, TokenKind.isNode] using htags rfl
  | docStringSeparator => cases inside <;> simp [visitsAt, TokenKind.isNode]
  | _ => simp [visitsAt, TokenKind.isNode]

/-! ### The nodes of all lines -/

theorem line_mem_of_mem_visits {v : Visit} (h : v ∈ visits inside l) :
    v.line ∈ l.map fun x => x.2.line := by
  induction l generalizing inside with
  | nil => cases h
  | cons x l ih =>
      rcases List.mem_append.mp h with h | h
      · exact List.mem_cons.mpr (.inl (line_of_mem_visitsAt h))
      · exact List.mem_cons_of_mem _ (ih h)

/-- Nodes follow one another as lines do when those of one line do. -/
theorem pairwise_visits {R : Visit → Visit → Prop} (hline : ∀ v w, v.line < w.line → R v w)
    (hnodes : ∀ x ∈ l, ∀ inside rest, (visitsAt inside x.1 x.2 rest).Pairwise R)
    (h : (l.map fun x => x.2.line).Pairwise (· < ·)) : (visits inside l).Pairwise R := by
  induction l generalizing inside with
  | nil => exact List.Pairwise.nil
  | cons x l ih =>
      rw [List.map_cons, List.pairwise_cons] at h
      have hbehind : (visits (insideBehind inside x.1) l).Pairwise R :=
        ih (fun y hy => hnodes y (List.mem_cons_of_mem _ hy)) h.2
      refine List.pairwise_append.mpr ⟨hnodes x List.mem_cons_self inside l, hbehind, ?_⟩
      intro v hv w hw
      apply hline
      rw [line_of_mem_visitsAt hv]
      exact h.1 _ (line_mem_of_mem_visits hw)

/-- The lines of nodes increase with the lines of the source. -/
theorem visits_pairwise (h : (l.map fun x => x.2.line).Pairwise (· < ·)) :
    (visits inside l).Pairwise Visit.Precedes :=
  pairwise_visits (fun _ _ => .inl) (fun _ _ _ _ => visitsAt_pairwise) h

/-- The lines of nodes are the lines that stand for nodes. -/
theorem mem_map_line_visits (htags : ∀ x ∈ l, x.1 = .tagLine → x.2.reading.items ≠ [])
    (number : Nat) :
    number ∈ (visits inside l).map Visit.line ↔
      number ∈ nodeLines inside (l.map fun x => (x.1, x.2.line)) := by
  induction l generalizing inside with
  | nil => rfl
  | cons x l ih =>
      obtain ⟨kind, leaf⟩ := x
      have hempty : visitsAt inside kind leaf l = [] ↔
          (kind.isNode || kind = .docStringSeparator && !inside) = false :=
        visitsAt_eq_nil_iff (htags (kind, leaf) (by simp))
      rw [visits, List.map_append, List.mem_append, ih fun x hx => htags x (by simp [hx]),
        List.map_cons, nodeLines]
      cases hnode : kind.isNode || kind = .docStringSeparator && !inside with
      | false =>
          rw [hempty.mpr hnode]
          simp
      | true =>
          have hlines : number ∈ (visitsAt inside kind leaf l).map Visit.line ↔
              number = leaf.line := by
            constructor
            · intro h
              obtain ⟨v, hv, rfl⟩ := List.mem_map.mp h
              exact line_of_mem_visitsAt hv
            · rintro rfl
              obtain ⟨v, hv⟩ := List.exists_mem_of_ne_nil _ (mt hempty.mp (by simp [hnode]))
              exact List.mem_map.mpr ⟨v, hv, line_of_mem_visitsAt hv⟩
          simp only [if_true, hlines, List.mem_cons]

end Tree

/-! ### Accepted lines -/

/-- The kinds and the numbers of accepted tokens. -/
def acceptedLines (ts : List Token) : List (TokenKind × Nat) :=
  ts.filterMap fun t => t.kind?.map (·, t.number)

theorem nodeLines_leavesOf (inside : Bool) (pending : List Comment) (ts : List Token) :
    nodeLines inside ((leavesOf pending ts).map fun x => (x.1, x.2.line)) =
      nodeLines inside (acceptedLines ts) := by
  induction ts generalizing inside pending with
  | nil => rfl
  | cons t ts ih =>
      rw [leavesOf, acceptedLines, List.filterMap_cons, Token.kind?]
      cases t.reading with
      | none => exact ih inside pending
      | some reading =>
          have hrest := fun inside => ih inside (pendingAfter pending t reading)
          rw [acceptedLines] at hrest
          rw [List.map_append, Tree.lineOf]
          cases hkind : reading.kind with
          | eof | empty | comment => simp [nodeLines, hrest, TokenKind.isTerminal,
              TokenKind.isNode, Tree.insideBehind, hkind]
          | _ => simp [nodeLines, hrest, TokenKind.isTerminal, Leaf.ofToken, hkind]

/-- Only tokens that are accepted add lines to a tree. -/
theorem line_sublist_leavesOf (pending : List Comment) (ts : List Token) :
    ((leavesOf pending ts).map fun x => x.2.line).Sublist (ts.map Token.number) := by
  induction ts generalizing pending with
  | nil => exact List.Sublist.refl _
  | cons t ts ih =>
      rw [leavesOf]
      cases t.reading with
      | none => exact (ih pending).cons _
      | some reading =>
          rw [List.map_append, Tree.lineOf]
          split
          · exact (ih _).cons_cons _
          · exact (ih _).cons _

/-- A line of a tree is an accepted token. -/
theorem exists_mem_of_mem_leavesOf {ts : List Token} {pending : List Comment}
    {x : TokenKind × Leaf} (h : x ∈ leavesOf pending ts) :
    ∃ t ∈ ts, ∃ reading comments, t.reading = some reading ∧
      x = (reading.kind, Leaf.ofToken comments t reading) := by
  induction ts generalizing pending with
  | nil => exact absurd h List.not_mem_nil
  | cons t ts ih =>
      have hothers {pending : List Comment} (h : x ∈ leavesOf pending ts) :
          ∃ u ∈ t :: ts, ∃ reading comments, u.reading = some reading ∧
            x = (reading.kind, Leaf.ofToken comments u reading) := by
        obtain ⟨u, hu, hread⟩ := ih h
        exact ⟨u, List.mem_cons_of_mem _ hu, hread⟩
      rw [leavesOf] at h
      cases hreading : t.reading with
      | none =>
          rw [hreading] at h
          exact hothers h
      | some reading =>
          rw [hreading] at h
          rcases List.mem_append.mp h with h | h
          · rw [Tree.lineOf] at h
            split at h
            · exact ⟨t, List.mem_cons_self, reading, pending, hreading, List.mem_singleton.mp h⟩
            · cases h
          · exact hothers h

theorem leavesOf_eq_nil_iff {ts : List Token} (h : ∀ t ∈ ts, t.kind?.isSome)
    (pending : List Comment) :
    leavesOf pending ts = [] ↔
      ∀ t ∈ ts, t.kind? = some .eof ∨ t.kind? = some .empty ∨ t.kind? = some .comment := by
  induction ts generalizing pending with
  | nil => simp [leavesOf]
  | cons t ts ih =>
      have hfirst := h t (by simp)
      rw [leavesOf, List.forall_mem_cons, Token.kind?]
      rw [Token.kind?] at hfirst
      cases hreading : t.reading with
      | none =>
          rw [hreading] at hfirst
          cases hfirst
      | some reading =>
          rw [List.append_eq_nil_iff, ih fun t ht => h t (by simp [ht])]
          refine and_congr ?_ Iff.rfl
          cases hkind : reading.kind <;> simp [Tree.lineOf, TokenKind.isTerminal, hkind]

namespace Line

/-- A tag line has tags. -/
theorem words_ne_nil {l : Line} (h : l.startsWith "@" = true) : l.words ≠ [] := by
  have hhead : l.trimmed.head? = some '@' := head?_of_startsWith rfl h
  obtain ⟨cs, hcs⟩ := List.head?_eq_some_iff.mp hhead
  have hsplit := List.splitOnP_cons_eq_if_modifyHead (p := Text.isBlank) '@' cs
  rw [if_neg (by decide)] at hsplit
  obtain ⟨piece, pieces, hpieces⟩ := List.exists_cons_of_ne_nil
    (List.splitOnP_ne_nil Text.isBlank cs)
  rw [hpieces] at hsplit
  rw [words, Text.words, hcs, hsplit]
  simp [Text.place]

end Line

namespace Matcher

variable {m : Matcher} {l : Line} {content : Content}

theorem items_of_tagLine (h : m.lineContent? .tagLine l = some content) :
    content.items = l.words := by
  rw [lineContent?] at h
  split at h
  · obtain rfl := Option.some.inj h
    rfl
  · cases h

/-- On a tag line there are tags. -/
theorem items_ne_nil_of_tagLine (h : m.lineContent? .tagLine l = some content) :
    content.items ≠ [] := by
  have hitems := items_of_tagLine h
  rw [lineContent?] at h
  split at h
  · next htag =>
      rw [hitems]
      exact Line.words_ne_nil htag
  · cases h

end Matcher

namespace Reader

/-- An accepted token has been matched. -/
theorem exists_matchAs_of_mem_acceptances {r : Reader} {ts : List Token} {a : Acceptance}
    (h : a ∈ r.acceptances ts) :
    ∃ m t, Matcher.matchAs m a.transition.kind t = .ok (some (a.matcher, a.token)) := by
  obtain ⟨front, t, back, -, hchoice⟩ := exists_front_of_mem_acceptances h
  exact ⟨_, t, (Matcher.choose_eq_some hchoice).2⟩

end Reader

namespace Parser

theorem exists_matchAs_of_mem_accepted {p : Parser} {lines : List (List Char)} {t : Token}
    (h : t ∈ p.accepted (.ofLines lines)) :
    ∃ m kind t' next, Matcher.matchAs m kind t' = .ok (some (next, t)) := by
  obtain ⟨a, ha, rfl⟩ := List.mem_map.mp h
  have hreads := p.readsAs_ofLines lines
  split at hreads
  · next r _ =>
      rw [hreads.2.2] at ha
      obtain ⟨m, t, hmatch⟩ := Reader.exists_matchAs_of_mem_acceptances ha
      exact ⟨m, _, t, _, hmatch⟩
  · rw [hreads.2.2] at ha
    cases ha

/-- A line of a document holds what a matcher has found on it. -/
theorem exists_content_of_mem_leavesOf {p : Parser} {lines : List (List Char)}
    {x : TokenKind × Leaf} (h : x ∈ leavesOf [] (p.accepted (.ofLines lines)))
    (hkind : x.1 ≠ .eof) :
    ∃ (m : Matcher) (l : Line), m.lineContent? x.1 l = some x.2.reading.toContent := by
  obtain ⟨t, ht, reading, comments, hreading, rfl⟩ := exists_mem_of_mem_leavesOf h
  obtain ⟨m, kind, t', next, hmatch⟩ := exists_matchAs_of_mem_accepted ht
  have hsame := Matcher.kind?_of_matchAs hmatch
  rw [Token.kind?, hreading, Option.map_some, Option.some.injEq] at hsame
  obtain ⟨l, content, -, hcontent, -, rfl⟩ :=
    Matcher.exists_line_of_matchAs hmatch (hsame ▸ hkind)
  obtain rfl := Option.some.inj hreading
  exact ⟨m, l, hcontent⟩

/-- Accepted lines come in the order of the source. -/
theorem numbers_accepted {p : Parser} {lines : List (List Char)}
    (h : (p.accepted (.ofLines lines)).map Token.fresh = Source.tokens 0 (.ofLines lines)) :
    ((p.accepted (.ofLines lines)).map Token.number).Pairwise (· < ·) := by
  have hsame : (p.accepted (.ofLines lines)).map Token.number =
      (Source.tokens 0 (.ofLines lines)).map Token.number := by
    rw [← h, List.map_map]
    rfl
  rw [hsame]
  exact List.pairwise_map.mpr (Source.pairwise_tokens 0 lines)

/-- Every line of a document that has been parsed has been accepted, and its nodes are what the
accepted lines stand for. -/
theorem walk_of_parse {p : Parser} {lines : List (List Char)} {document : Document}
    (h : p.parse (.ofLines lines) = .ok document) :
    (p.accepted (.ofLines lines)).map Token.fresh = Source.tokens 0 (.ofLines lines) ∧
      document.walk = Tree.visits false (leavesOf [] (p.accepted (.ofLines lines))) := by
  obtain ⟨tree, rfl, hlines, htokens⟩ := exists_tree h
  rw [← hlines]
  exact ⟨htokens, Tree.walk_document tree⟩

/-- Reading conserves lines.  Every line has been accepted, each in its place.
The nodes of the document are the lines that stand for nodes, in order, with what
has been read on them, and the free text behind them.  There is a feature unless
all lines are blank lines and comments. -/
theorem conserves_lines {p : Parser} {lines : List (List Char)} {document : Document}
    (h : p.parse (.ofLines lines) = .ok document) :
    (p.accepted (.ofLines lines)).map Token.fresh = Source.tokens 0 (.ofLines lines) ∧
      document.walk = Tree.visits false (leavesOf [] (p.accepted (.ofLines lines))) ∧
      document.walk.Pairwise Visit.Precedes ∧
      (∀ number, number ∈ document.walk.map Visit.line ↔
        number ∈ nodeLines false (acceptedLines (p.accepted (.ofLines lines)))) ∧
      (document.feature = none ↔ ∀ t ∈ p.accepted (.ofLines lines),
        t.isEof = false → t.kind? = some .empty ∨ t.kind? = some .comment) := by
  obtain ⟨tree, rfl, hlines, htokens⟩ := exists_tree h
  have hwalk := Tree.walk_document tree
  rw [hlines] at hwalk
  have hnumbers := numbers_accepted htokens
  have htags : ∀ x ∈ leavesOf [] (p.accepted (.ofLines lines)),
      x.1 = .tagLine → x.2.reading.items ≠ [] := by
    intro x hx hkind
    obtain ⟨m, l, hcontent⟩ := exists_content_of_mem_leavesOf hx (by simp [hkind])
    rw [hkind] at hcontent
    exact Matcher.items_ne_nil_of_tagLine hcontent
  have hkinds : ∀ t ∈ p.accepted (.ofLines lines), t.kind?.isSome := by
    intro t ht
    obtain ⟨m, kind, t', next, hmatch⟩ := exists_matchAs_of_mem_accepted ht
    rw [Matcher.kind?_of_matchAs hmatch]
    rfl
  refine ⟨htokens, hwalk, ?_, ?_, ?_⟩
  · rw [hwalk]
    exact Tree.visits_pairwise (hnumbers.sublist (line_sublist_leavesOf [] _))
  · intro number
    rw [hwalk, Tree.mem_map_line_visits htags, nodeLines_leavesOf]
  · have hempty : (Tree.document tree).feature = none ↔ Tree.lines tree = [] := by
      cases tree with
      | none => simp [Tree.document, Tree.lines]
      | some f =>
          simp [Tree.document, Tree.lines, Tree.Feature.lines, Tree.Header.lines,
            Tree.Heading.lines]
    rw [hempty, hlines, leavesOf_eq_nil_iff hkinds]
    refine forall₂_congr fun t ht => ?_
    obtain ⟨m, kind, t', next, hmatch⟩ := exists_matchAs_of_mem_accepted ht
    have heof := Matcher.isEof_iff_of_matchAs hmatch
    rw [Matcher.kind?_of_matchAs hmatch, ← Bool.not_eq_true, heof, Option.some.injEq]
    tauto

theorem conserves_lines_outline :
    let lines := ["@a", "Feature: f", "Scenario Outline: o", "  d", "Given s", "|x|",
      "When t", "\"\"\"", "v", "\"\"\"", "# c", "@b @c", "Examples: e", "|y|", "|1|"].map
        String.toList
    ∃ document, parse {} (.ofLines lines) = .ok document ∧
      ∀ number, number ∈ document.walk.map Visit.line ↔
        number ∈ [1, 2, 3, 5, 6, 7, 8, 12, 13, 14, 15] := by
  intro lines
  have hok : (parse {} (.ofLines lines)).toOption.isSome = true := by decide +kernel
  have hnodes : nodeLines false (acceptedLines (accepted {} (.ofLines lines))) =
      [1, 2, 3, 5, 6, 7, 8, 12, 13, 14, 15] := by decide +kernel
  obtain ⟨document, hparse⟩ := exists_ok_of_isSome hok
  have hconserves := conserves_lines hparse
  rw [hnodes] at hconserves
  exact ⟨document, hparse, hconserves.2.2.2.1⟩

end Parser
end Gherkin
