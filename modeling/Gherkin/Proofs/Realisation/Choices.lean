import Gherkin.Proofs.Reader.Transparency
import Gherkin.Proofs.Realisation.Lines

/-!
# Choices among transitions

Which transition accepts a line is decided by the kinds of the line alone, as
long as no pragma fails.  When lines can be told apart, the kinds of a line are
the one that it is meant as and those that it may have besides, and looking
ahead sees the sentence.
-/

namespace Gherkin

theorem Resolver.resolve_location {r : Resolver} {language : String} {location : Location}
    {result : Dialect × Resolver} (h : r.resolve language location = .ok result)
    (other : Location) : r.resolve language other = .ok result := by
  rw [resolve] at h ⊢
  split at h
  · exact h
  · exact h
  · cases h
  · cases h

namespace Matcher

variable {m next : Matcher} {kind : TokenKind} {t read : Token}

/-- A line is not accepted by transitions for kinds that it is not of. -/
theorem choose_eq_none {following : List Token} {transitions : List Transition}
    (h : ∀ u ∈ transitions, m.isOf u.kind t = false) :
    m.choose t following transitions = .ok none := by
  induction transitions with
  | nil => rfl
  | cons u us ih =>
      rw [choose, matchAs_of_isOf_eq_false (h u List.mem_cons_self)]
      exact ih fun u hu => h u (List.mem_cons_of_mem _ hu)

/-- The first transition that is for a kind of the token accepts it. -/
theorem choose_of_find? {following : List Token} {transitions : List Transition}
    {transition : Transition}
    (htags : ∀ u ∈ transitions, u.lookahead → u.kind = .tagLine)
    (hfind : (transitions.find? fun u =>
      m.isOf u.kind t && (!u.lookahead || m.examplesAhead following)) = some transition)
    (hmatch : m.matchAs transition.kind t = .ok (some (next, read))) :
    m.choose t following transitions = .ok (some ⟨transition, next, read⟩) := by
  induction transitions with
  | nil => cases hfind
  | cons u us ih =>
      have ih := ih fun u hu => htags u (by simp [hu])
      rw [List.find?_cons] at hfind
      cases hof : m.isOf u.kind t with
      | false =>
          rw [hof] at hfind
          rw [choose, matchAs_of_isOf_eq_false hof]
          exact ih hfind
      | true =>
          rw [hof, Bool.true_and] at hfind
          cases happlies : (!u.lookahead || m.examplesAhead following) with
          | false =>
              rw [happlies] at hfind
              rw [Bool.or_eq_false_iff, Bool.not_eq_false'] at happlies
              have hkind := htags u (by simp) happlies.1
              obtain ⟨behind, read', htag⟩ :=
                exists_matchAs_of_isOf hof (by rw [hkind]; decide)
              rw [choose, htag]
              simp only [happlies, Bool.not_false, Bool.and_self, if_true]
              exact ih hfind
          | true =>
              rw [happlies] at hfind
              obtain rfl := Option.some.inj hfind
              have hgo : (u.lookahead && !m.examplesAhead following) = false := by
                revert happlies
                cases u.lookahead <;> cases m.examplesAhead following <;> simp
              rw [choose, hmatch]
              simp [hgo]

/-! ### The matcher behind a line -/

/-- A line is read in the same way wherever it stands. -/
theorem exists_matchAs_of_behind? {l : Line} (h : m.behind? kind l = some next)
    (number : Nat) : ∃ read, m.matchAs kind (.ofLine l number) = .ok (some (next, read)) := by
  rw [behind?] at h
  split at h
  · next behind read hmatch =>
      obtain rfl := Option.some.inj h
      obtain ⟨content, hcontent, hafter, -⟩ := exists_content_of_matchAs hmatch
      have hafter' : m.after kind (.ofLine l number) content = .ok behind := by
        cases kind with
        | language =>
            rw [after] at hafter ⊢
            split at hafter
            · next dialect resolver hresolve =>
                rw [Resolver.resolve_location hresolve]
                exact hafter
            · cases hafter
        | _ => exact hafter
      have hcontent' : m.content? kind (Token.ofLine l number).line = some content := hcontent
      refine ⟨(Token.ofLine l number).readAs
        { content with kind := kind, dialect := behind.dialect }, ?_⟩
      rw [matchAs, hcontent']
      simp only [hafter']
  · cases h

/-- What a separator opens when no doc string is open. -/
theorem exists_docStringAfter {l : Line} {content : Content} (hdoc : m.docString = none)
    (h : m.separator? l = some content) :
    ∃ separator : Separator, l.startsWith separator.text = true ∧
      m.docStringAfter l = some ⟨separator, l.indent⟩ := by
  rw [separator?, hdoc] at h
  obtain ⟨separator, hseparator, -⟩ := Option.bind_eq_some_iff.mp h
  have hstarts : l.startsWith separator.text = true :=
    List.find?_some (p := fun s : Separator => l.startsWith s.text) hseparator
  refine ⟨separator, hstarts, ?_⟩
  rw [docStringAfter, hdoc, hseparator]
  rfl

/-- A separator opens a doc string or closes the one that is open, and nothing
else does. -/
theorem docString_of_matchAs (h : m.matchAs kind t = .ok (some (next, read))) :
    next.docString.isSome =
      if kind = .docStringSeparator then !m.docString.isSome else m.docString.isSome := by
  by_cases hkind : kind = .docStringSeparator
  · subst hkind
    obtain ⟨l, content, -, hcontent, rfl⟩ := exists_line_of_matchAs_separator h
    rw [if_pos rfl]
    cases hdoc : m.docString with
    | none =>
        obtain ⟨separator, -, hopens⟩ := exists_docStringAfter hdoc hcontent
        simp only [hopens]
        rfl
    | some opened =>
        rw [docStringAfter, hdoc]
        rfl
  · rw [if_neg hkind, docString_eq_of_matchAs hkind h]

/-- The matcher reads in a dialect of the built-in tables. -/
structure IsBuiltin (m : Matcher) : Prop where
  resolver : m.resolver.IsBuiltin
  dialect : m.dialect.Proper

theorem IsBuiltin.of_matchAs (hm : m.IsBuiltin)
    (h : m.matchAs kind t = .ok (some (next, read))) : next.IsBuiltin := by
  obtain ⟨content, -, hafter, -⟩ := exists_content_of_matchAs h
  rcases after_cases hafter with ⟨-, dialect, resolver, hresolve, rfl⟩ | ⟨-, rfl⟩ | ⟨-, -, rfl⟩
  · obtain ⟨hdialect, hresolver⟩ := hm.resolver.resolve hresolve
    exact ⟨hresolver, hdialect⟩
  · exact ⟨hm.resolver, hm.dialect⟩
  · exact hm

/-! ### The kinds of a line -/

theorem mem_classifyOrder (kind : TokenKind) : kind ∈ classifyOrder := by
  cases kind <;> decide

/-- The kinds of a line that can be told apart from others. -/
theorem isOf_of_isOnly {l : Line} (h : m.isOnly kind l = true) (number : Nat) (k : TokenKind) :
    m.isOf k (.ofLine l number) = State.mayBe kind k := by
  rw [isOnly, Bool.and_eq_true, List.all_eq_true] at h
  obtain ⟨hkind, honly⟩ := h
  have honly := honly k (mem_classifyOrder k)
  change (m.lineContent? k l).isSome = State.mayBe kind k
  cases hof : (m.lineContent? k l).isSome with
  | true =>
      rw [hof] at honly
      simpa using honly.symm
  | false =>
      symm
      rw [← Bool.not_eq_true]
      intro hmay
      simp only [State.mayBe, Bool.or_eq_true, Bool.and_eq_true, decide_eq_true_eq] at hmay
      rcases hmay with (rfl | rfl) | ⟨rfl, rfl⟩
      · rw [hof] at hkind
        cases hkind
      · cases hof
      · have hnone : l.startsWith "#" = false := by
          rw [← Bool.not_eq_true]
          intro hsharp
          simp [lineContent?, hsharp] at hof
        simp [lineContent?, Line.languageTag?_eq_none hnone] at hkind

/-- Looking ahead over lines that can be told apart sees the sentence. -/
theorem examplesAhead_of_realises {started : Bool} {entries : List Entry} (hm : m.IsBuiltin)
    (hdoc : m.docString = none) (h : realises started m entries = true)
    (hterminal : ∀ kind ∈ Entry.sentence entries, kind.isTerminal = true)
    (hlanguage : .language ∉ Entry.sentence entries) (number : Nat) :
    m.examplesAhead (Entry.tokens number entries) =
      examplesFirst (Entry.sentence entries ++ [.eof]) := by
  induction entries generalizing started number with
  | nil => rfl
  | cons e es ih =>
      rw [Entry.tokens, examplesAhead]
      cases e with
      | blank l =>
          simp only [realises, hdoc, Bool.and_eq_true] at h
          have hof : ∀ k, m.isOf k (.ofLine l (number + 1)) = State.mayBe .empty k :=
            lineContent?_of_isEmpty hm.dialect hdoc h.1
          simp only [Entry.text, isBetweenTags, betweenTags, hof]
          exact ih h.2 hterminal hlanguage _
      | comment l =>
          simp only [realises, hdoc, Bool.and_eq_true] at h
          have hof : ∀ k ≠ .language, m.isOf k (.ofLine l (number + 1)) =
              State.mayBe .comment k := fun k hk =>
            lineContent?_of_comment hm.dialect hdoc h.1.1.1 fun hlanguage => absurd hlanguage hk
          simp only [Entry.text, isBetweenTags, betweenTags, List.any_cons, List.any_nil,
            hof .examplesLine (by decide), hof .empty (by decide), hof .comment (by decide),
            hof .tagLine (by decide)]
          exact ih h.2 hterminal hlanguage _
      | line kind l =>
          simp only [realises, hdoc, Bool.and_eq_true] at h
          have hsentence : Entry.sentence (.line kind l :: es) = kind :: Entry.sentence es := rfl
          rw [hsentence] at hterminal hlanguage ⊢
          have hkind := hterminal kind (by simp)
          have hothers : ∀ kind ∈ Entry.sentence es, kind.isTerminal = true :=
            fun k hk => hterminal k (by simp [hk])
          have hpragma : kind ≠ .language ∧ .language ∉ Entry.sentence es := by
            simpa [eq_comm] using hlanguage
          simp only [Entry.text, isBetweenTags, betweenTags, isOf_of_isOnly h.1]
          cases kind with
          | eof | empty | comment => cases hkind
          | language => exact absurd rfl hpragma.1
          | tagLine =>
              obtain ⟨behind, hbehind, hrest⟩ := (Option.any_eq_true _ _).mp h.2
              obtain ⟨read, hread⟩ := exists_matchAs_of_behind? hbehind 0
              rw [eq_of_matchAs (by decide) (by decide) hread] at hrest
              exact ih hrest hothers hpragma.2 _
          | _ => rfl

end Matcher
end Gherkin
