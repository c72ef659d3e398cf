import Gherkin.Proofs.Dialect.Requests
import Gherkin.Proofs.Run.Resolvers

/-!
# Trials

A token is tried as one kind after another, by a matcher that is written to while it
tries and into a token whose fields are written one by one.  A pragma switches the
dialect before the token is filled in, and its resolver may have kept a dialect by then.
None of this can be seen when a trial fails, and when it succeeds, nothing can be seen of
the trials before it.
-/

namespace Gherkin

open LanguageTag (normalize)

/-! ### Fields of tokens -/

/-- The fields of a token, which hold what was written to them last. -/
structure Token.Fields where
  line : Option Line
  kind : Option TokenKind
  keyword : Option String
  text : Option String
  items : List Span
  indent : Nat
  dialect : Option Dialect
  location : Location

namespace Token

/-- What the fields of a token hold. -/
def fields (t : Token) : Fields where
  line := t.line
  kind := t.kind?
  keyword := t.keyword?
  text := t.text?
  items := t.items
  indent := t.indent
  dialect := t.reading.map Reading.dialect
  location := t.location

/-- The token that nothing has been read of, whatever has been written to its fields. -/
def Fields.unread (f : Fields) : Token :=
  ⟨f.line, f.location.line, none⟩

@[simp] theorem unread_fields (t : Token) : t.fields.unread = t.fresh := rfl

@[simp] theorem unread_fields_unread (f : Fields) : f.unread.fields.unread = f.unread := rfl

end Token

/-! ### Trials step by step -/

/-- A matcher with the token that it tries. -/
structure Trial where
  matcher : Matcher
  token : Token.Fields

namespace Trial

/-- What is done in a trial.  An action that fails leaves the trial as far as it got. -/
abbrev Action :=
  EStateM DialectError Trial

/-- Writes to the fields of the token. -/
def write (change : Token.Fields → Token.Fields) : Action Unit :=
  modify fun s => { s with token := change s.token }

/-- Writes to the matcher. -/
def turn (change : Matcher → Matcher) : Action Unit :=
  modify fun s => { s with matcher := change s.matcher }

/-- Has the resolver of the matcher do something, which stays done if it fails. -/
def resolving {α : Type} (action : Resolver.Action α) : Action α := fun s =>
  -- the tags that the source is asked for are not followed here
  match action.run ⟨s.matcher.resolver, []⟩ with
  | .ok a u => .ok a { s with matcher := { s.matcher with resolver := u.resolver } }
  | .error e u => .error e { s with matcher := { s.matcher with resolver := u.resolver } }

/-- Fills in the token, in the dialect that is active now. -/
def record (kind : TokenKind) (content : Content) : Action Unit := do
  write fun f => { f with kind := some kind }
  write fun f => { f with keyword := content.keyword }
  write fun f => { f with text := content.text }
  write fun f => { f with items := content.items }
  let dialect := (← get).matcher.dialect
  write fun f => { f with dialect := some dialect }
  write fun f => { f with indent := content.indent }
  write fun f => { f with location := ⟨f.location.line, f.indent + 1⟩ }

/-- Switches the dialect at a pragma, and opens or closes a doc string at a separator. -/
def settle (kind : TokenKind) (content : Content) : Action Unit := do
  let f := (← get).token
  match kind with
  | .language =>
    let place : Location := ⟨f.location.line, f.unread.lineIndent + 1⟩
    let dialect ← resolving (Resolver.fetch (content.text.getD "") place)
    turn fun m => { m with dialect := dialect }
  | .docStringSeparator => turn fun m => { m with docString := f.line.bind m.docStringAfter }
  | _ => return ()

/-- Tries the token as the given kind, and fills it in if it is of that kind. -/
def tryAs (kind : TokenKind) : Action Bool := do
  let s ← get
  let some content := s.matcher.content? kind s.token.line
    | return false
  settle kind content
  record kind content
  return true

/-- Tries the token as the given kinds, until it is of one of them. -/
def tryAmong : List TokenKind → Action TokenKind
  | [] => return .other
  | kind :: kinds => do
    if ← tryAs kind then
      return kind
    tryAmong kinds

/-- Tries the token as all kinds, in the order for tokens without a grammar. -/
def classify : Action TokenKind :=
  tryAmong Matcher.classifyOrder

variable (s : Trial) (kind : TokenKind) (content : Content)

theorem run_record :
    (record kind content).run s =
      .ok () { s with
        token :=
          (s.token.unread.readAs
            { content with kind := kind, dialect := s.matcher.dialect }).fields } :=
  rfl

@[simp] theorem run_turn (change : Matcher → Matcher) :
    (turn change).run s = .ok () { s with matcher := change s.matcher } :=
  rfl

/-- A resolver that fails is behind it as it has been before. -/
theorem run_resolving_fetch (language : String) (place : Location) :
    (resolving (Resolver.fetch language place)).run s =
      match s.matcher.resolver.resolve language place with
      | .ok (d, r) => .ok d { s with matcher := { s.matcher with resolver := r } }
      | .error e => .error e s := by
  rw [EStateM.run, resolving, Resolver.run_fetch]
  rcases s.matcher.resolver.resolve language place with e | ⟨d, r⟩ <;> rfl

theorem run_settle :
    (settle kind content).run s =
      match s.matcher.after kind s.token.unread content with
      | .ok next => .ok () { s with matcher := next }
      | .error e => .error e s := by
  cases kind with
  | language =>
      have hnumber : s.token.unread.number = s.token.location.line := rfl
      simp only [settle, Matcher.after, EStateM.run_bind, EStateM.run_get, run_resolving_fetch,
        run_turn, hnumber]
      rcases s.matcher.resolver.resolve (content.text.getD "")
        ⟨s.token.location.line, s.token.unread.lineIndent + 1⟩ with e | ⟨d, r⟩
      · rfl
      · rfl
  | _ => rfl

/-- Step by step a token is tried as it is matched at once, and if it is not of the kind, or its
language cannot be used, matcher and token are as they have been. -/
theorem run_tryAs :
    (tryAs kind).run s =
      match s.matcher.matchAs kind s.token.unread with
      | .ok none => .ok false s
      | .ok (some (next, read)) => .ok true ⟨next, read.fields⟩
      | .error e => .error e s := by
  have hline : s.token.unread.line = s.token.line := rfl
  simp only [tryAs, Matcher.matchAs, EStateM.run_bind, EStateM.run_get, hline]
  cases s.matcher.content? kind s.token.line with
  | none => rfl
  | some content =>
      simp only [EStateM.run_bind, run_settle]
      rcases s.matcher.after kind s.token.unread content with e | next
      · rfl
      · simp only [run_record, EStateM.run_pure]

/-! ### What trials change -/

variable {s kind} {u : Trial}

theorem matchAs_of_tryAs (h : (tryAs kind).run s = .ok true u) :
    ∃ next read, s.matcher.matchAs kind s.token.unread = .ok (some (next, read)) ∧
      u = ⟨next, read.fields⟩ := by
  rw [run_tryAs] at h
  rcases hmatch : s.matcher.matchAs kind s.token.unread with e | _ | ⟨next, read⟩ <;>
    rw [hmatch] at h <;> cases h
  exact ⟨next, read, rfl, rfl⟩

/-- The trial behind a try, whatever has come of it. -/
def behind (s : Trial) (kind : TokenKind) : Trial :=
  match (tryAs kind).run s with
  | .ok _ u => u
  | .error _ u => u

/-- A try that does not succeed leaves no trace. -/
theorem behind_cases (s : Trial) (kind : TokenKind) :
    s.behind kind = s ∨ (tryAs kind).run s = .ok true (s.behind kind) := by
  rw [behind, run_tryAs]
  rcases s.matcher.matchAs kind s.token.unread with e | _ | ⟨next, read⟩
  · exact .inl rfl
  · exact .inl rfl
  · exact .inr rfl

theorem eq_of_tryAs_false (h : (tryAs kind).run s = .ok false u) : u = s := by
  have hbehind : s.behind kind = u := by rw [behind, h]
  rcases s.behind_cases kind with hsame | htry
  · rw [← hbehind, hsame]
  · rw [h] at htry
    cases htry

theorem eq_of_tryAs_error {e : DialectError} (h : (tryAs kind).run s = .error e u) : u = s := by
  have hbehind : s.behind kind = u := by rw [behind, h]
  rcases s.behind_cases kind with hsame | htry
  · rw [← hbehind, hsame]
  · rw [h] at htry
    cases htry

/-- What a trial keeps through all tries: the token is the same line or the end of the source, and
the resolver has the same source and keeps what the source has. -/
structure Continues (s u : Trial) : Prop where
  unread_eq : u.token.unread = s.token.unread
  source_eq : u.matcher.resolver.source = s.matcher.resolver.source
  coherent : s.matcher.resolver.Coherent → u.matcher.resolver.Coherent

theorem Continues.refl (s : Trial) : Continues s s :=
  ⟨rfl, rfl, id⟩

theorem Continues.trans {s u v : Trial} (h : Continues s u) (h' : Continues u v) : Continues s v :=
  ⟨h'.unread_eq.trans h.unread_eq, h'.source_eq.trans h.source_eq, h'.coherent ∘ h.coherent⟩

theorem continues_of_tryAs (h : (tryAs kind).run s = .ok true u) : Continues s u := by
  obtain ⟨next, read, hmatch, rfl⟩ := matchAs_of_tryAs h
  have hunread : read.fields.unread = s.token.unread := by
    rw [Token.unread_fields, Matcher.fresh_of_matchAs hmatch]
    rfl
  rcases Matcher.resolver_of_matchAs hmatch with hresolver | ⟨tag, place, d, hresolve⟩
  · exact ⟨hunread, congrArg Resolver.source hresolver, fun hs => hresolver ▸ hs⟩
  · exact ⟨hunread, (Resolver.frame_of_resolve hresolve).1, fun hs => hs.of_resolve hresolve⟩

theorem continues_behind (s : Trial) (kind : TokenKind) : Continues s (s.behind kind) := by
  rcases s.behind_cases kind with hsame | htry
  · rw [hsame]
    exact .refl s
  · exact continues_of_tryAs htry

/-- The trial behind tries as several kinds, whatever has come of each of them. -/
def behindAll (s : Trial) (kinds : List TokenKind) : Trial :=
  kinds.foldl behind s

theorem continues_behindAll (s : Trial) (kinds : List TokenKind) :
    Continues s (s.behindAll kinds) := by
  induction kinds generalizing s with
  | nil => exact .refl s
  | cons kind kinds ih => exact (s.continues_behind kind).trans (ih (s.behind kind))

/-! ### Trials that come to the same -/

/-- Two trials of the same line, or of the end of the source, by matchers that read in the same
dialect and doc string.  Their resolvers keep what their sources have, and these have the same for
a pragma.  What is kept already does not count, nor what the fields of the tokens hold. -/
structure Alike (s u : Trial) : Prop where
  unread_eq : u.token.unread = s.token.unread
  dialect_eq : u.matcher.dialect = s.matcher.dialect
  docString_eq : u.matcher.docString = s.matcher.docString
  coherent : s.matcher.resolver.Coherent
  coherent' : u.matcher.resolver.Coherent
  source_eq : ∀ tag, s.token.line.bind Line.languageTag? = some tag →
    u.matcher.resolver.source (normalize tag) = s.matcher.resolver.source (normalize tag)

theorem Alike.readsAlike (h : Alike s u) (kind : TokenKind) :
    Matcher.ReadsAlike (fun tag => s.token.line.bind Line.languageTag? = some tag)
      (s.matcher.matchAs kind s.token.unread) (u.matcher.matchAs kind u.token.unread) := by
  have hmatcher : u.matcher = s.matcher.withResolver u.matcher.resolver := by
    rw [Matcher.withResolver, ← h.dialect_eq, ← h.docString_eq]
  rw [hmatcher, h.unread_eq]
  exact Matcher.matchAs_withResolver
    (h.coherent.agreesOn h.coherent' fun tag htag => (h.source_eq tag htag).symm)
    fun _ tag htag => htag

/-- Trials that are alike come to the same, and are alike again. -/
theorem Alike.tryAs (h : Alike s u) (kind : TokenKind) :
    ((tryAs kind).run s = .ok false s ∧ (tryAs kind).run u = .ok false u) ∨
    (∃ e, (tryAs kind).run s = .error e s ∧ (tryAs kind).run u = .error e u) ∨
    ∃ s' u', (tryAs kind).run s = .ok true s' ∧ (tryAs kind).run u = .ok true u' ∧
      u'.token = s'.token ∧ Alike s' u' := by
  have hreads := h.readsAlike kind
  have hs := s.run_tryAs kind
  have hu := u.run_tryAs kind
  generalize s.matcher.matchAs kind s.token.unread = read at hreads hs
  generalize u.matcher.matchAs kind u.token.unread = read' at hreads hu
  cases hreads with
  | failed e => exact .inr (.inl ⟨e, hs, hu⟩)
  | missed => exact .inl ⟨hs, hu⟩
  | @read next resolver t hagrees =>
      right; right
      -- the resolvers may keep different dialects, but each of them as its source has them
      refine ⟨_, _, hs, hu, rfl, ?_⟩
      have hcontinues := continues_of_tryAs hs
      have hcontinues' := continues_of_tryAs hu
      have hline : t.fields.line = s.token.line :=
        congrArg Token.line hcontinues.unread_eq
      refine ⟨rfl, rfl, rfl, hcontinues.coherent h.coherent, hcontinues'.coherent h.coherent',
        fun tag htag => ?_⟩
      rw [hcontinues.source_eq, hcontinues'.source_eq]
      exact h.source_eq tag (hline ▸ htag)

/-- Behind any tries a trial is like that of an untouched token with a resolver that keeps
nothing. -/
theorem alike_behindAll (hs : s.matcher.resolver.Coherent) (kinds : List TokenKind) :
    Alike (s.behindAll kinds)
      ⟨(s.behindAll kinds).matcher.withResolver s.matcher.resolver.fresh,
        s.token.unread.fields⟩ := by
  have hcontinues := s.continues_behindAll kinds
  refine ⟨hcontinues.unread_eq.symm, rfl, rfl, hcontinues.coherent hs,
    s.matcher.resolver.coherent_fresh, fun tag _ => ?_⟩
  exact (congrFun hcontinues.source_eq (normalize tag)).symm

/-! ### Kinds without a grammar -/

/-- A token that is tried as some kinds is of the first of them that does not refuse it. -/
theorem tryAmong_cases (s : Trial) (kinds : List TokenKind) :
    (∃ kind next read, s.matcher.matchAs kind s.token.unread = .ok (some (next, read)) ∧
      s.matcher.classifyAmong s.token.unread kinds = .ok (kind, next, read) ∧
      (tryAmong kinds).run s = .ok kind ⟨next, read.fields⟩) ∨
    (∃ kind e, s.matcher.matchAs kind s.token.unread = .error e ∧
      s.matcher.classifyAmong s.token.unread kinds = .error e ∧
      (tryAmong kinds).run s = .error e s) ∨
    ∀ kind ∈ kinds, s.matcher.matchAs kind s.token.unread = .ok none := by
  induction kinds with
  | nil => exact .inr (.inr fun kind hkind => absurd hkind List.not_mem_nil)
  | cons kind kinds ih =>
      simp only [tryAmong, Matcher.classifyAmong, EStateM.run_bind, run_tryAs]
      rcases hmatch : s.matcher.matchAs kind s.token.unread with e | _ | ⟨next, read⟩
      · exact .inr (.inl ⟨kind, e, hmatch, rfl, rfl⟩)
      · rcases ih with hread | hfailed | hrefused
        · exact .inl hread
        · exact .inr (.inl hfailed)
        · exact .inr (.inr (List.forall_mem_cons.mpr ⟨hmatch, hrefused⟩))
      · exact .inl ⟨kind, next, read, hmatch, rfl, rfl⟩

/-- No token is of no kind. -/
theorem exists_matchAs_ne_none (m : Matcher) (t : Token) :
    ∃ kind ∈ Matcher.classifyOrder, m.matchAs kind t ≠ .ok none := by
  -- without a line it is the end of the source, and every line is free text
  cases hline : t.line with
  | none =>
      refine ⟨.eof, by decide, Matcher.matchAs_ne_none_of_isOf ?_⟩
      rw [Matcher.isOf, hline]
      rfl
  | some l =>
      refine ⟨.other, by decide, Matcher.matchAs_ne_none_of_isOf ?_⟩
      rw [Matcher.isOf_of_line hline]
      rfl

/-- Step by step a token is classified as it is at once, and if its language cannot be used, matcher
and token are as they have been. -/
theorem classify_cases (s : Trial) :
    (∃ kind next read, s.matcher.matchAs kind s.token.unread = .ok (some (next, read)) ∧
      s.matcher.classify s.token.unread = .ok (kind, next, read) ∧
      classify.run s = .ok kind ⟨next, read.fields⟩) ∨
    ∃ e, s.matcher.matchAs .language s.token.unread = .error e ∧
      s.matcher.classify s.token.unread = .error e ∧ classify.run s = .error e s := by
  rcases s.tryAmong_cases Matcher.classifyOrder with hread | ⟨kind, e, hmatch, hfailed⟩ | hrefused
  · exact .inl hread
  · obtain rfl := (Matcher.kind_eq_language_of_matchAs hmatch).1
    exact .inr ⟨e, hmatch, hfailed⟩
  · obtain ⟨kind, hkind, hne⟩ := exists_matchAs_ne_none s.matcher s.token.unread
    exact absurd (hrefused kind hkind) hne

/--
Trying a token step by step comes to what matching it at once comes to before anything has
been read of it.  A try that does not succeed leaves the token, the matcher and what its
resolver keeps as they have been.  One that succeeds leaves the line and its number; only a
pragma changes the dialect and what the resolver keeps, and only a separator the doc string.
Tries that are alike come to the same, and behind any earlier tries a try is like one of an
untouched token with a resolver that keeps nothing.  So a token that has been classified is
as if it had been tried, untouched, as the kind that was found.
-/
theorem tries_leave_no_trace (s : Trial) (kind : TokenKind) :
    ((tryAs kind).run s =
      match s.matcher.matchAs kind s.token.unread with
      | .ok none => .ok false s
      | .ok (some (next, read)) => .ok true ⟨next, read.fields⟩
      | .error e => .error e s) ∧
    (∀ u, ((tryAs kind).run s = .ok false u ∨ ∃ e, (tryAs kind).run s = .error e u) → u = s) ∧
    (∀ u, (tryAs kind).run s = .ok true u →
      u.token.unread = s.token.unread ∧
      (kind ≠ .language →
        u.matcher.dialect = s.matcher.dialect ∧ u.matcher.resolver = s.matcher.resolver) ∧
      (kind ≠ .docStringSeparator → u.matcher.docString = s.matcher.docString)) ∧
    (∀ u, Alike s u →
      ((tryAs kind).run s = .ok false s ∧ (tryAs kind).run u = .ok false u) ∨
      (∃ e, (tryAs kind).run s = .error e s ∧ (tryAs kind).run u = .error e u) ∨
      ∃ s' u', (tryAs kind).run s = .ok true s' ∧ (tryAs kind).run u = .ok true u' ∧
        u'.token = s'.token ∧ Alike s' u') ∧
    (s.matcher.resolver.Coherent → ∀ earlier : List TokenKind,
      Alike (s.behindAll earlier)
        ⟨(s.behindAll earlier).matcher.withResolver s.matcher.resolver.fresh,
          s.token.unread.fields⟩) ∧
    (classify.run s =
      match s.matcher.classify s.token.unread with
      | .ok (first, next, read) => .ok first ⟨next, read.fields⟩
      | .error e => .error e s) ∧
    (∀ first u, classify.run s = .ok first u →
      (tryAs first).run ⟨s.matcher, s.token.unread.fields⟩ = .ok true u) ∧
    ∀ e u, classify.run s = .error e u →
      u = s ∧ (tryAs .language).run ⟨s.matcher, s.token.unread.fields⟩ =
        .error e ⟨s.matcher, s.token.unread.fields⟩ := by
  refine ⟨s.run_tryAs kind, ?_, ?_, fun u hu => hu.tryAs kind, alike_behindAll, ?_⟩
  · rintro u (hfalse | ⟨e, herror⟩)
    · exact eq_of_tryAs_false hfalse
    · exact eq_of_tryAs_error herror
  · intro u hu
    have hunread := (continues_of_tryAs hu).unread_eq
    obtain ⟨next, read, hmatch, rfl⟩ := matchAs_of_tryAs hu
    refine ⟨hunread, fun hkind => ⟨?_, ?_⟩, fun hkind => ?_⟩
    · exact Matcher.dialect_of_matchAs hkind hmatch
    · exact Matcher.resolver_eq_of_matchAs hkind hmatch
    · exact Matcher.docString_eq_of_matchAs hkind hmatch
  · rcases s.classify_cases with ⟨first, next, read, hmatch, honce, hrun⟩ | ⟨e, hmatch, honce, hrun⟩
    · refine ⟨by rw [hrun, honce], fun first' u hu => ?_, fun e u hu => ?_⟩
      · rw [hrun] at hu
        obtain ⟨rfl, rfl⟩ := EStateM.Result.ok.inj hu
        rw [run_tryAs, Token.unread_fields_unread, hmatch]
      · rw [hrun] at hu
        cases hu
    · refine ⟨by rw [hrun, honce], fun first u hu => ?_, fun e' u hu => ?_⟩
      · rw [hrun] at hu
        cases hu
      · rw [hrun] at hu
        obtain ⟨rfl, rfl⟩ := EStateM.Result.error.inj hu
        exact ⟨rfl, by rw [run_tryAs, Token.unread_fields_unread, hmatch]⟩

/-- A pragma for French behind two other tries and one as a pragma, and a pragma for a language
without a table. -/
theorem tries_leave_no_trace_pragmas :
    let m : Matcher := ⟨Resolver.ofSource Builtin.keywords, .ofMap "en" .empty, none⟩
    let s : Trial := ⟨m, (Token.ofLine (Line.ofString " # language: FR") 3).fields⟩
    let u := s.behindAll [.tagLine, .comment, .language]
    let klingon : Trial := ⟨m, (Token.ofLine (Line.ofString "# language: tlh") 3).fields⟩
    (∃ u' v', (tryAs .language).run u = .ok true u' ∧
      (tryAs .language).run ⟨u.matcher.withResolver s.matcher.resolver.fresh,
        s.token.unread.fields⟩ = .ok true v' ∧
      v'.token = u'.token ∧ u'.matcher.docString = u.matcher.docString) ∧
    (∃ first v, classify.run s = .ok first v ∧
      (tryAs first).run ⟨s.matcher, s.token.unread.fields⟩ = .ok true v) ∧
    ∃ e, classify.run klingon = .error e klingon := by
  intro m s u klingon
  have hcoherent : s.matcher.resolver.Coherent := Resolver.coherent_ofSource Builtin.keywords
  obtain ⟨-, -, -, -, hbehind, -, hfirst, -⟩ := tries_leave_no_trace s .language
  refine ⟨?_, ?_, ?_⟩
  · have hread : (match (tryAs .language).run u with
        | .ok read _ => read
        | .error _ _ => false) = true := by decide +kernel
    have halike := hbehind hcoherent [.tagLine, .comment, .language]
    obtain ⟨-, -, hframe, hsame, -⟩ := tries_leave_no_trace u .language
    rcases hsame _ halike with ⟨hu, -⟩ | ⟨e, hu, -⟩ | ⟨u', v', hu, hv, htoken, -⟩
    · rw [hu] at hread
      cases hread
    · rw [hu] at hread
      cases hread
    · exact ⟨u', v', hu, hv, htoken, (hframe u' hu).2.2 TokenKind.noConfusion⟩
  · have hread : (match classify.run s with
        | .ok _ _ => true
        | .error _ _ => false) = true := by decide +kernel
    cases hrun : classify.run s with
    | ok first v => exact ⟨first, v, rfl, hfirst first v hrun⟩
    | error e v =>
        rw [hrun] at hread
        cases hread
  · have hfails : (match classify.run klingon with
        | .ok _ _ => false
        | .error _ _ => true) = true := by decide +kernel
    obtain ⟨-, -, -, -, -, -, -, herror⟩ := tries_leave_no_trace klingon .language
    cases hrun : classify.run klingon with
    | ok kind v =>
        rw [hrun] at hfails
        cases hfails
    | error e v =>
        obtain ⟨rfl, -⟩ := herror e v hrun
        exact ⟨e, rfl⟩

end Trial
end Gherkin
