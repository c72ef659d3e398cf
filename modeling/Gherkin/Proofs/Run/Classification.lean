import Gherkin.Proofs.Dialect.Classification
import Gherkin.Proofs.Reader.Pragmas
import Gherkin.Proofs.Run.DocStrings

/-!
# Kinds of lines with and without the grammar

A state tries the kinds that it accepts in its own order, which is not the order
in which a line is read without a grammar.  In the built-in dialects that makes
no difference: the state accepts a line as the kind that it has without the
grammar, a pragma also as a comment, and any line as free text if it has a place
for that.
-/

namespace Gherkin

namespace Matcher

variable {m : Matcher} {t : Token} {l : Line} {kind : TokenKind}

/-- The kind of a token without a grammar; only a pragma can fail to be read. -/
def firstKind (m : Matcher) (t : Token) : TokenKind :=
  match m.classify t with
  | .ok (kind, _, _) => kind
  | .error _ => .language

/-- Without a grammar a token is read as the first kind that it is of. -/
theorem classifyAmong_of_find? {kinds : List TokenKind}
    (h : (kinds.find? fun kind => m.isOf kind t) = some kind) :
    m.classifyAmong t kinds = m.classifyAmong t [kind] := by
  induction kinds with
  | nil => cases h
  | cons k kinds ih =>
      rw [List.find?_cons] at h
      rw [classifyAmong]
      cases hof : m.isOf k t with
      | false =>
          rw [hof] at h
          rw [matchAs_of_isOf_eq_false hof]
          exact ih h
      | true =>
          rw [hof] at h
          obtain rfl := Option.some.inj h
          rw [classifyAmong]
          split
          · rfl
          · next hnone => exact absurd hnone (matchAs_ne_none_of_isOf hof)
          · rfl

theorem exists_find?_classifyOrder (m : Matcher) (hline : t.line = some l) :
    ∃ kind, (classifyOrder.find? fun kind => m.isOf kind t) = some kind := by
  rw [← Option.isSome_iff_exists, List.find?_isSome]
  refine ⟨.other, mem_classifyOrder .other, ?_⟩
  rw [isOf_of_line hline]
  rfl

theorem firstKind_of_find? (h : (classifyOrder.find? fun kind => m.isOf kind t) = some kind) :
    m.firstKind t = kind := by
  rw [firstKind, classify, classifyAmong_of_find? h, classifyAmong]
  have hof := List.find?_some h
  rcases hmatch : m.matchAs kind t with e | _ | ⟨next, read⟩
  · exact (kind_eq_language_of_matchAs hmatch).1.symm
  · exact absurd hmatch (matchAs_ne_none_of_isOf hof)
  · rfl

/-- What reading a line without a grammar comes to. -/
theorem classify_eq (m : Matcher) (hline : t.line = some l) :
    m.classify t = m.classifyAmong t [m.firstKind t] := by
  obtain ⟨kind, hfind⟩ := m.exists_find?_classifyOrder hline
  rw [firstKind_of_find? hfind, classify, classifyAmong_of_find? hfind]

/-- A pragma is tried in front of a comment, and free text comes last. -/
theorem pairwise_classifyOrder :
    classifyOrder.Pairwise fun kind later =>
      kind ≠ .other ∧ ¬(kind = .comment ∧ later = .language) := by
  decide

/-- The first kind of a line is one of its kinds, and which of several kinds it is. -/
theorem firstKind_spec (hline : t.line = some l) :
    m.isOf (m.firstKind t) t = true ∧
      ∀ k, m.isOf k t = true → k = m.firstKind t ∨
        m.firstKind t ≠ .other ∧ ¬(m.firstKind t = .comment ∧ k = .language) := by
  obtain ⟨kind, hfind⟩ := m.exists_find?_classifyOrder hline
  rw [firstKind_of_find? hfind]
  obtain ⟨hkind, front, back, hsplit, hfront⟩ := List.find?_eq_some_iff_append.mp hfind
  refine ⟨hkind, fun k hk => ?_⟩
  have hmem := mem_classifyOrder k
  have hpairs := pairwise_classifyOrder
  rw [hsplit, List.pairwise_append, List.pairwise_cons] at hpairs
  rw [hsplit, List.mem_append, List.mem_cons] at hmem
  rcases hmem with hearlier | hsame | hlater
  · exact absurd hk (by simpa using hfront k hearlier)
  · exact .inl hsame
  · exact .inr (hpairs.2.1.1 k hlater)

/-- A line is of no other kinds than its first one, free text, and, if it is a pragma, a
comment. -/
theorem kind_cases (hd : m.dialect.IsBuiltin) (hline : t.line = some l) {k : TokenKind}
    (hk : m.isOf k t = true) :
    k = m.firstKind t ∨ k = .other ∨ m.firstKind t = .language ∧ k = .comment := by
  have hclear := m.unambiguous hd l
  have hsame {k k' : TokenKind} (hk : m.isOf k t = true) (htold : k ∈ TokenKind.told)
      (hk' : m.isOf k' t = true) (htold' : k' ∈ TokenKind.told) : k = k' := by
    rw [isOf_of_line hline] at hk hk'
    exact hclear.kinds k htold k' htold' hk hk'
  have hcomment (hpragma : m.isOf .language t = true) : m.isOf .comment t = true := by
    rw [isOf_of_line hline] at hpragma ⊢
    exact hclear.pragma hpragma
  have htold {k : TokenKind} (hk : m.isOf k t = true) (hlanguage : k ≠ .language)
      (hfree : k ≠ .other) : k ∈ TokenKind.told := by
    refine TokenKind.mem_told ?_ hlanguage hfree
    rintro rfl
    rw [isOf_of_line hline] at hk
    cases hk
  have hcommentTold : TokenKind.comment ∈ TokenKind.told := by decide
  obtain ⟨hfirst, hothers⟩ := m.firstKind_spec hline
  generalize m.firstKind t = kind at hfirst hothers ⊢
  by_cases hfree : k = .other
  · exact .inr (.inl hfree)
  rcases hothers k hk with hsameKind | ⟨hkindFree, hnotPragma⟩
  · exact .inl hsameKind
  by_cases hlanguage : k = .language
  · by_cases hkindLanguage : kind = .language
    · exact .inl (hlanguage.trans hkindLanguage.symm)
    · -- the comment that a pragma is, too, comes behind the pragma
      rw [hlanguage] at hk hnotPragma
      have hkindComment := hsame hfirst (htold hfirst hkindLanguage hkindFree) (hcomment hk)
        hcommentTold
      exact absurd ⟨hkindComment, rfl⟩ hnotPragma
  · by_cases hkindLanguage : kind = .language
    · rw [hkindLanguage] at hfirst
      exact .inr (.inr ⟨hkindLanguage,
        hsame hk (htold hk hlanguage hfree) (hcomment hfirst) hcommentTold⟩)
    · exact .inl (hsame hk (htold hk hlanguage hfree) hfirst
        (htold hfirst hkindLanguage hkindFree))

/-- The kinds of a line in a built-in dialect. -/
theorem isOf_eq_mayBe (hd : m.dialect.IsBuiltin) (hline : t.line = some l) (k : TokenKind) :
    m.isOf k t = State.mayBe (m.firstKind t) k := by
  have hfirst := (m.firstKind_spec hline).1
  rw [Bool.eq_iff_iff]
  simp only [State.mayBe, Bool.or_eq_true, Bool.and_eq_true, decide_eq_true_eq]
  constructor
  · intro hk
    rcases kind_cases hd hline hk with hsame | hfree | hpragma
    · exact .inl (.inl hsame)
    · exact .inl (.inr hfree)
    · exact .inr hpragma
  · rintro ((rfl | rfl) | ⟨hlanguage, rfl⟩)
    · exact hfirst
    · rw [isOf_of_line hline]
      rfl
    · rw [hlanguage] at hfirst
      rw [isOf_of_line hline] at hfirst ⊢
      exact isSome_comment_of_language hfirst

end Matcher

/-! ### The table of the grammar -/

namespace State

/-- As which kind a state accepts a line of the given kind, if it accepts it at all. -/
def kindFor? (s : State) (kind : TokenKind) : Option TokenKind :=
  if kind ∈ s.expected then some kind
  else if kind = .language ∧ .comment ∈ s.expected then some .comment
  else if .other ∈ s.expected then some .other
  else none

end State

/-- The transitions that a token may be accepted by, tried in order, are for one kind.  Behind a
transition that looks ahead another one may be chosen. -/
def Transition.areFor (kind? : Option TokenKind) : List Transition → Bool
  | [] => kind?.isNone
  | u :: us => kind? = some u.kind && (!u.lookahead || areFor kind? us)

theorem State.areFor_mayBe (s : State) (kind : TokenKind) :
    Transition.areFor (s.kindFor? kind)
      (s.transitions.filter fun u => mayBe kind u.kind) = true := by
  have hall : ∀ s : State, ∀ kind ∈ Matcher.classifyOrder,
      Transition.areFor (s.kindFor? kind)
        (s.transitions.filter fun u => mayBe kind u.kind) = true := by
    decide
  exact hall s kind (Matcher.mem_classifyOrder kind)

theorem State.eq_language_of_kindFor? {s : State} {kind : TokenKind}
    (h : s.kindFor? kind = some .language) : kind = .language := by
  revert h
  rw [kindFor?]
  split_ifs <;> simp

/-! ### Lines in a run -/

namespace Run

/-- How trying transitions in order ends, for a token that they accept as the given kind, if they
accept it at all. -/
inductive Settles (m : Matcher) (t : Token) (kind? : Option TokenKind) :
    Run × Option (Transition × Token) → Prop
  /-- The token is accepted as that kind. -/
  | accepts {chosen : Run} {transition : Transition} {read : Token}
      (kind : kind? = some transition.kind)
      (reads : m.matchAs transition.kind t = .ok (some (chosen.matcher, read))) :
      Settles m t kind? (chosen, some (transition, read))
  /-- There is no such kind. -/
  | refuses {chosen : Run} (kind : kind? = none) (failure : chosen.failure = none) :
      Settles m t kind? (chosen, none)
  /-- The token is a pragma for a language that cannot be used. -/
  | unknownLanguage {chosen : Run} {e : DialectError} (kind : kind? = some .language)
      (fails : m.matchAs .language t = .error e) (failure : chosen.failure = some (.dialect e)) :
      Settles m t kind? (chosen, none)
  /-- The token holds tags, and a line behind them cannot be read. -/
  | unreadable {chosen : Run} {e : ScanError} (kind : kind? = some .tagLine)
      (failure : chosen.failure = some (.scan e)) :
      Settles m t kind? (chosen, none)

/-- The first transition for a kind of the token decides which kind that is. -/
theorem kind?_eq_of_areFor {m : Matcher} {t : Token} {kind? : Option TokenKind} {u : Transition}
    {us : List Transition} (hof : m.isOf u.kind t = true)
    (h : Transition.areFor kind? ((u :: us).filter fun u => m.isOf u.kind t) = true) :
    kind? = some u.kind ∧ (u.lookahead = true →
      Transition.areFor kind? (us.filter fun u => m.isOf u.kind t) = true) := by
  rw [List.filter_cons, if_pos hof, Transition.areFor, Bool.and_eq_true, decide_eq_true_eq] at h
  refine ⟨h.1, fun hlook => ?_⟩
  simpa [hlook] using h.2

/-- Trying transitions on a token, or on the same token with another reading, settles as which
kind it is accepted. -/
theorem choose_settles {m : Matcher} {t : Token} {kind? : Option TokenKind}
    {transitions : List Transition}
    (htags : ∀ u ∈ transitions, u.lookahead → u.kind = .tagLine)
    (h : Transition.areFor kind? (transitions.filter fun u => m.isOf u.kind t) = true)
    {r : Run} {t' : Token} (hsame : ∀ kind, r.matcher.matchAs kind t' = m.matchAs kind t)
    (hfine : r.failure = none) : Settles m t kind? (r.choose t' transitions) := by
  fun_induction r.choose t' transitions with
  | case1 r t' => exact .refuses (Option.isNone_iff_eq_none.mp h) hfine
  | case2 r t' u us hmatch ih =>
      rw [hsame] at hmatch
      have hnot : ¬m.isOf u.kind t = true := fun hof =>
        Matcher.matchAs_ne_none_of_isOf hof hmatch
      rw [List.filter_cons, if_neg hnot] at h
      exact ih (fun v hv => htags v (List.mem_cons_of_mem _ hv)) h hsame hfine
  | case3 r t' u us e hmatch =>
      rw [hsame] at hmatch
      obtain ⟨hlanguage, hof⟩ := Matcher.kind_eq_language_of_matchAs hmatch
      obtain ⟨hkind, -⟩ := kind?_eq_of_areFor hof h
      rw [hlanguage] at hkind hmatch
      exact .unknownLanguage hkind hmatch rfl
  | case4 r t' u us next read hmatch matched hlookahead looked hlook =>
      have hlooked := (looksAhead_of_eq hlook).matcher
      rw [hsame] at hmatch
      obtain ⟨hkind, -⟩ := kind?_eq_of_areFor (Matcher.isOf_of_matchAs hmatch) h
      refine .accepts hkind ?_
      rw [hmatch, hlooked]
      rfl
  | case5 r t' u us next read hmatch matched hlookahead looked hlook ih =>
      -- the tags do not belong to examples, and the token is tried again
      have hlooked := lookAhead_of_tags htags hmatch hlookahead hlook
      have hanswered := (looksAhead_of_eq hlook).answered rfl
      have hof := Matcher.isOf_of_matchAs ((hsame u.kind).symm.trans hmatch)
      obtain ⟨-, hothers⟩ := kind?_eq_of_areFor hof h
      refine ih (fun v hv => htags v (List.mem_cons_of_mem _ hv)) (hothers hlookahead) ?_
        (hanswered.trans hfine)
      intro kind
      rw [hlooked, Matcher.matchAs_of_matchAs hmatch, hsame]
  | case6 r t' u us next read hmatch matched hlookahead looked hlook =>
      obtain ⟨e, he⟩ := (looksAhead_of_eq hlook).unanswered rfl
      have hof := Matcher.isOf_of_matchAs ((hsame u.kind).symm.trans hmatch)
      obtain ⟨hkind, -⟩ := kind?_eq_of_areFor hof h
      rw [htags u List.mem_cons_self hlookahead] at hkind
      exact .unreadable hkind he
  | case7 r t' u us next read hmatch matched =>
      rw [hsame] at hmatch
      obtain ⟨hkind, -⟩ := kind?_eq_of_areFor (Matcher.isOf_of_matchAs hmatch) h
      exact .accepts hkind hmatch

/-- A line is taken as what it is without the grammar. -/
inductive TakesAsClassified (r : Run) (t : Token) : Prop
  /-- It is accepted as the kind that the state has for it, and if that is its kind without the
  grammar, it is read in the same way. -/
  | accepts (chosen : Run) (transition : Transition) (read : Token)
      (chooses : r.choose t r.state.transitions = (chosen, some (transition, read)))
      (kind : r.state.kindFor? (r.matcher.firstKind t) = some transition.kind)
      (classifies : r.matcher.firstKind t = transition.kind →
        r.matcher.classify t = .ok (transition.kind, chosen.matcher, read))
      (takes : r.take t = chosen.accept transition read)
  /-- The state has no kind for it, and it is skipped. -/
  | rejects (chosen : Run) (chooses : r.choose t r.state.transitions = (chosen, none))
      (kind : r.state.kindFor? (r.matcher.firstKind t) = none)
      (takes : r.take t = chosen.reject t)
  /-- It names a language that cannot be used. -/
  | unknownLanguage (e : DialectError)
      (kind : r.state.kindFor? (r.matcher.firstKind t) = some .language)
      (classifies : r.matcher.classify t = .error e)
      (takes : (r.take t).failure = some (.dialect e))
  /-- It holds tags, and a line behind them cannot be read. -/
  | unreadable (e : ScanError)
      (kind : r.state.kindFor? (r.matcher.firstKind t) = some .tagLine)
      (takes : (r.take t).failure = some (.scan e))

theorem takesAsClassified {r : Run} {t : Token} {l : Line} (hd : r.matcher.dialect.IsBuiltin)
    (hfine : r.failure = none) (hline : t.line = some l) : r.TakesAsClassified t := by
  have hfor : Transition.areFor (r.state.kindFor? (r.matcher.firstKind t))
      (r.state.transitions.filter fun u => r.matcher.isOf u.kind t) = true := by
    simp only [Matcher.isOf_eq_mayBe hd hline]
    exact r.state.areFor_mayBe (r.matcher.firstKind t)
  have hsettles := choose_settles (lookahead_only_tags r.state) hfor (fun _ => rfl) hfine
  have hclassify := r.matcher.classify_eq hline
  rw [Matcher.classifyAmong] at hclassify
  generalize hchoose : r.choose t r.state.transitions = result at hsettles
  cases hsettles with
  | @accepts chosen transition read kind reads =>
      refine .accepts chosen transition read hchoose kind (fun hfirst => ?_) ?_
      · rw [hfirst, reads] at hclassify
        exact hclassify
      · rw [take, hchoose]
  | @refuses chosen kind failure =>
      refine .rejects chosen hchoose kind ?_
      rw [take, hchoose]
      simp [failure]
  | @unknownLanguage chosen e kind fails failure =>
      refine .unknownLanguage e kind ?_ ?_
      · rw [State.eq_language_of_kindFor? kind, fails] at hclassify
        exact hclassify
      · rw [take, hchoose]
        simp [failure]
  | @unreadable chosen e kind failure =>
      refine .unreadable e kind ?_
      rw [take, hchoose]
      simp [failure]

/-- In the dialects of the built-in tables it is clear what a line is, whether or not a doc string
is open, and every state of the grammar takes the line as that. -/
theorem classifies_builtin {tag : String} {map : KeywordMap}
    (hmap : Builtin.keywords tag = some map) :
    (∀ (m : Matcher) (l : Line), m.dialect = .ofMap tag map → m.Unambiguous l) ∧
      ∀ (r : Run) (t : Token) (l : Line), r.matcher.dialect = .ofMap tag map →
        r.failure = none → t.line = some l → r.TakesAsClassified t := by
  have hbuiltin : (Dialect.ofMap tag map).IsBuiltin := ⟨tag, map, hmap, rfl⟩
  constructor
  · intro m l hdialect
    exact m.unambiguous (hdialect ▸ hbuiltin) l
  · intro r t l hdialect hfine hline
    exact takesAsClassified (hdialect ▸ hbuiltin) hfine hline

/-- A run behind the title line of a scenario in Canadian French. -/
def canadian : Run where
  limit := none
  state := .header .scenario .title
  matcher := ⟨.builtin, .ofMap "fr-CA" (.ofEntries Builtin.french), none⟩
  scanner := ⟨[], 2⟩

/-- The title line of an outline, and a step that starts with two keywords, of which the longer one
counts. -/
theorem classifies_builtin_canadian :
    let m := canadian.matcher
    let outline := Line.ofString "Plan du scénario: s"
    let step := Line.ofString "Étant donné que x"
    (∀ l ∈ [outline, step], m.Unambiguous l ∧ canadian.TakesAsClassified (.ofLine l 3)) ∧
      canadian.state.kindFor? (m.firstKind (.ofLine outline 3)) = some .scenarioOutlineLine ∧
      canadian.state.kindFor? (m.firstKind (.ofLine step 3)) = some .stepLine ∧
      "Étant donné " ∈ m.dialect.keywords .step ∧ "Étant donné ".toList <+: step.trimmed ∧
      ∃ content, m.lineContent? .stepLine step = some content ∧
        content.keyword = some "Étant donné que " ∧
        ∀ keyword ∈ m.dialect.keywords .step, keyword.toList <+: step.trimmed →
          keyword.length ≤ "Étant donné que ".length := by
  intro m outline step
  obtain ⟨hclear, htakes⟩ := @classifies_builtin "fr-CA" (.ofEntries Builtin.french) rfl
  have hread : (m.lineContent? .stepLine step).any (fun content =>
      content.keyword = some "Étant donné que ") = true := by
    decide +kernel
  obtain ⟨content, hcontent, hkeyword⟩ := (Option.any_eq_true _ _).mp hread
  have hkeyword : content.keyword = some "Étant donné que " := of_decide_eq_true hkeyword
  obtain ⟨longest, -, hlongest, -, hlength⟩ := (hclear m step rfl).step content hcontent
  obtain rfl := Option.some.inj (hkeyword.symm.trans hlongest)
  exact ⟨fun l _ => ⟨hclear m l rfl, htakes canadian _ l rfl rfl rfl⟩, by decide +kernel,
    by decide +kernel, by decide +kernel, by decide +kernel, content, hcontent, hkeyword, hlength⟩

end Run
end Gherkin
