import Gherkin.Proofs.Reader.Matching

/-!
# Tokens that wait

A run fetches tokens from its queue and then from its scanner.  Lookahead moves
tokens from the scanner into the queue and leaves readings on them.  Apart from
these readings, the tokens that wait are always the tokens that have not been
taken, each once and in order.
-/

namespace Gherkin

namespace Source

/-- No line of the source fails to be read. -/
def Readable (source : Source) : Prop :=
  ∀ read ∈ source, ∃ chars, read = .line chars

theorem readable_ofLines (lines : List (List Char)) : (ofLines lines).Readable := by
  intro read hread
  obtain ⟨chars, -, rfl⟩ := List.mem_map.mp hread
  exact ⟨chars, rfl⟩

@[simp] theorem tokens_nil (line : Nat) :
    tokens line [] = [.eof (line + 1)] := rfl

@[simp] theorem tokens_line (line : Nat) (chars : List Char) (source : Source) :
    tokens line (.line chars :: source) =
      .ofLine ⟨Scanner.dropMark (line + 1) chars⟩ (line + 1) ::
        tokens (line + 1) source := rfl

theorem length_tokens {source : Source} (h : source.Readable) (line : Nat) :
    (tokens line source).length = source.length + 1 := by
  induction source generalizing line with
  | nil => rfl
  | cons read source ih =>
      obtain ⟨chars, rfl⟩ := h read (by simp)
      rw [tokens_line, List.length_cons, List.length_cons,
        ih fun read hread => h read (by simp [hread])]

/-- The tokens of a source end with the end of the source. -/
theorem exists_tokens_eq (line : Nat) (lines : List (List Char)) :
    ∃ ts n, tokens line (ofLines lines) = ts ++ [Token.eof n] := by
  induction lines generalizing line with
  | nil => exact ⟨[], _, rfl⟩
  | cons chars lines ih =>
      obtain ⟨ts, n, hts⟩ := ih (line + 1)
      exact ⟨_ :: ts, n, congrArg (List.cons _) hts⟩

/-- In front of a token of a source there are only lines. -/
theorem isEof_of_tokens_eq {line : Nat} {lines : List (List Char)} {front rest : List Token}
    (hrest : rest ≠ []) (h : tokens line (ofLines lines) = front ++ rest) :
    ∀ t ∈ front, t.isEof = false := by
  induction lines generalizing line front with
  | nil =>
      intro t ht
      have hlength := congrArg List.length h
      have hone : (tokens line (ofLines [])).length = 1 := rfl
      have hpositive := List.length_pos_of_mem ht
      have hothers := List.length_pos_iff.mpr hrest
      rw [hone, List.length_append] at hlength
      omega
  | cons chars lines ih =>
      cases front with
      | nil => exact fun t ht => absurd ht List.not_mem_nil
      | cons u front =>
          obtain ⟨hfirst, hothers⟩ := List.cons.inj h
          intro t ht
          rcases List.mem_cons.mp ht with rfl | ht
          · rw [← hfirst]
            rfl
          · exact ih hothers t ht

/-- The token of a source behind others is the line with its number. -/
theorem eq_of_tokens_eq {line : Nat} {lines : List (List Char)} {front rest : List Token}
    {t : Token} (h : tokens line (ofLines lines) = front ++ t :: rest) :
    t.number = line + front.length + 1 ∧
      t.line = lines[front.length]?.map fun chars => ⟨Scanner.dropMark t.number chars⟩ := by
  induction front generalizing line lines with
  | nil =>
      cases lines with
      | nil =>
          obtain ⟨rfl, -⟩ := List.cons.inj h
          exact ⟨rfl, rfl⟩
      | cons chars lines =>
          obtain ⟨rfl, -⟩ := List.cons.inj h
          exact ⟨rfl, rfl⟩
  | cons first front ih =>
      cases lines with
      | nil =>
          have hlength := congrArg List.length (List.cons.inj h).2
          simp at hlength
      | cons chars lines =>
          have hrest : tokens (line + 1) (ofLines lines) = front ++ t :: rest :=
            (List.cons.inj h).2
          obtain ⟨hnumber, hline⟩ := ih hrest
          refine ⟨?_, hline⟩
          rw [hnumber, List.length_cons]
          omega

/-- A token of a source has the number of its place. -/
theorem number_of_tokens_eq {line : Nat} {lines : List (List Char)} {front rest : List Token}
    {t : Token} (h : tokens line (ofLines lines) = front ++ t :: rest) :
    t.number = line + front.length + 1 :=
  (eq_of_tokens_eq h).1

/-- The tokens of a source have not been read as anything. -/
theorem fresh_tokens (line : Nat) (lines : List (List Char)) :
    (tokens line (ofLines lines)).map Token.fresh = tokens line (ofLines lines) := by
  induction lines generalizing line with
  | nil => rfl
  | cons chars lines ih => exact congrArg (List.cons _) (ih (line + 1))

theorem lt_number_of_mem_tokens {line : Nat} {lines : List (List Char)} {t : Token}
    (h : t ∈ tokens line (ofLines lines)) : line < t.number := by
  induction lines generalizing line with
  | nil =>
      obtain rfl := List.mem_singleton.mp h
      exact Nat.lt_succ_self line
  | cons chars lines ih =>
      rcases List.mem_cons.mp h with rfl | h
      · exact Nat.lt_succ_self line
      · exact Nat.lt_of_succ_lt (ih h)

/-- The numbers of the tokens increase. -/
theorem pairwise_tokens (line : Nat) (lines : List (List Char)) :
    (tokens line (ofLines lines)).Pairwise fun t u => t.number < u.number := by
  induction lines generalizing line with
  | nil => exact List.pairwise_singleton _ _
  | cons chars lines ih =>
      exact List.pairwise_cons.mpr ⟨fun _ ht => lt_number_of_mem_tokens ht, ih (line + 1)⟩

end Source

/-- The tokens in the queue and those that the scanner still delivers are the
given ones, apart from readings that lookahead has left in the queue. -/
inductive Awaits : List Token → Scanner → List Token → Prop where
  | scanner {s : Scanner} :
      s.source.Readable → Awaits [] s (s.source.tokens s.line)
  | line {t : Token} {queue : List Token} {s : Scanner} {ts : List Token} :
      t.isEof = false → Awaits queue s ts → Awaits (t :: queue) s (t.fresh :: ts)
  | eof {s : Scanner} : s.source = [] → Awaits [s.atEnd] s [s.atEnd]

namespace Matcher

variable (m : Matcher)

@[simp] theorem isBetweenTags_fresh (t : Token) :
    m.isBetweenTags t.fresh = m.isBetweenTags t := rfl

theorem readAs?_isSome (kind : TokenKind) (t : Token) :
    (m.readAs? kind t).isSome = m.isOf kind t := by
  simp [readAs?, isOf]

theorem fresh_of_readAs? {kind : TokenKind} {t read : Token}
    (h : m.readAs? kind t = some read) : read.fresh = t.fresh := by
  rw [readAs?, Option.map_eq_some_iff] at h
  obtain ⟨content, -, rfl⟩ := h
  rfl

/-- The end of the source is of no kind that a glance asks for. -/
theorem isOf_eof_eq_false {kind : TokenKind} (h : kind ≠ .eof) (n : Nat) :
    m.isOf kind (.eof n) = false := by
  simp [isOf, content?, Token.eof, h]

theorem isBetweenTags_eof (n : Nat) : m.isBetweenTags (.eof n) = false := by
  simp [isBetweenTags, betweenTags, isOf_eof_eq_false]

theorem findSome?_betweenTags_isSome (t : Token) :
    (betweenTags.findSome? fun kind => m.readAs? kind t).isSome =
      m.isBetweenTags t := by
  rw [Bool.eq_iff_iff, List.findSome?_isSome_iff]
  simp [isBetweenTags, readAs?_isSome]

/-- The verdict of a glance depends on the kinds of the token alone. -/
theorem glance_verdict (t : Token) :
    (m.glance t).verdict =
      if m.isOf .examplesLine t then some true
      else if m.isBetweenTags t then none else some false := by
  rw [← findSome?_betweenTags_isSome, ← readAs?_isSome, glance]
  cases m.readAs? .examplesLine t with
  | some read => rfl
  | none =>
      cases betweenTags.findSome? fun kind => m.readAs? kind t with
      | some read => rfl
      | none => rfl

/-- A glance changes nothing but the reading of its token. -/
theorem glance_fresh (t : Token) : (m.glance t).token.fresh = t.fresh := by
  rw [glance]
  split
  · next read hread => exact m.fresh_of_readAs? hread
  · split
    · next read hread =>
        obtain ⟨kind, -, hkind⟩ := List.exists_of_findSome?_eq_some hread
        exact m.fresh_of_readAs? hkind
    · rfl

theorem glance_isEof (t : Token) : (m.glance t).token.isEof = t.isEof := by
  rw [← Token.fresh_isEof, glance_fresh, Token.fresh_isEof]

end Matcher

namespace Awaits

variable {queue : List Token} {s : Scanner} {ts : List Token}

theorem ne_nil (h : Awaits queue s ts) : ts ≠ [] := by
  cases h with
  | scanner hreadable =>
      intro hnil
      have hlength := Source.length_tokens hreadable s.line
      rw [hnil] at hlength
      cases hlength
  | line => exact List.cons_ne_nil _ _
  | eof => exact List.cons_ne_nil _ _

/-- A glance at the first token in the queue leaves what waits as it is. -/
theorem glance {t : Token} (m : Matcher) (ht : t.isEof = false)
    (h : Awaits queue s ts) :
    Awaits ((m.glance t).token :: queue) s (t.fresh :: ts) := by
  rw [← m.glance_fresh t]
  exact .line (by rw [m.glance_isEof, ht]) h

/-- Looking through the queue either decides as the tokens that wait do, or
finds nothing in the queue and leaves the decision to the scanner. -/
theorem lookThrough (m : Matcher) (h : Awaits queue s ts) :
    ((m.lookThrough queue).verdict = some (m.examplesAhead ts) ∧
        Awaits (m.lookThrough queue).tokens s ts) ∨
      ((m.lookThrough queue).verdict = none ∧ s.source.Readable ∧
        m.examplesAhead ts = m.examplesAhead (s.source.tokens s.line) ∧
        ∀ more s', Awaits more s' (s.source.tokens s.line) →
          Awaits ((m.lookThrough queue).tokens ++ more) s' ts) := by
  induction h with
  | scanner hreadable =>
      exact .inr ⟨rfl, hreadable, rfl, fun more s' hmore => hmore⟩
  | eof hsource => exact .inl ⟨rfl, .eof hsource⟩
  | @line t queue s ts ht hrest ih =>
      have hverdict := m.glance_verdict t
      by_cases hexamples : m.isOf .examplesLine t
      · have hv : (m.glance t).verdict = some true := by
          simp [hverdict, hexamples]
        left
        simp [Matcher.lookThrough, hv, Matcher.examplesAhead, hexamples,
          hrest.glance m ht]
      · by_cases hbetween : m.isBetweenTags t
        · have hv : (m.glance t).verdict = none := by
            simp [hverdict, hexamples, hbetween]
          have hahead : m.examplesAhead (t.fresh :: ts) = m.examplesAhead ts := by
            simp [Matcher.examplesAhead, hexamples, hbetween]
          rw [hahead]
          simp only [Matcher.lookThrough, hv, Lookahead.cons]
          rcases ih with ⟨hdecided, hwait⟩ | ⟨hopen, hreadable, hsame, hwait⟩
          · exact .inl ⟨hdecided, hwait.glance m ht⟩
          · exact .inr ⟨hopen, hreadable, hsame,
              fun more s' hmore => (hwait more s' hmore).glance m ht⟩
        · have hv : (m.glance t).verdict = some false := by
            simp [hverdict, hexamples, hbetween]
          left
          simp [Matcher.lookThrough, hv, Matcher.examplesAhead, hexamples, hbetween,
            hrest.glance m ht]

end Awaits

namespace Matcher

section

variable {m : Matcher} {line : Nat} {chars : List Char} {t : Token}
  (ht : t = Token.ofLine ⟨Scanner.dropMark (line + 1) chars⟩ (line + 1))

include ht

/-- A line that decides ends a look at the lines of a scanner. -/
theorem lookOn_of_verdict {verdict : Bool} (h : (m.glance t).verdict = some verdict)
    (source : Source) :
    m.lookOn line (.line chars :: source) =
      ⟨⟨[(m.glance t).token], some verdict, (m.glance t).events⟩, ⟨source, line + 1⟩, none⟩ := by
  subst ht
  simp only [lookOn, Scanner.read]
  rw [h]

/-- A line that does not decide is looked at in front of the others. -/
theorem lookOn_of_undecided (h : (m.glance t).verdict = none) (source : Source) :
    m.lookOn line (.line chars :: source) =
      (m.lookOn (line + 1) source).cons (m.glance t) := by
  subst ht
  simp only [lookOn, Scanner.read]
  rw [h]

end

/-- Induction on the lines of a scanner that are looked at, with what the look comes to. -/
@[elab_as_elim]
theorem lookOnInduction {m : Matcher} {motive : Nat → Source → FarLookahead → Prop}
    (nil : ∀ line, motive line [] (m.lookOn line []))
    (fault : ∀ line fault source,
      motive line (.fault fault :: source) (m.lookOn line (.fault fault :: source)))
    (decided : ∀ line chars source (g : Glance) verdict, g.token.isEof = false →
      motive line (.line chars :: source)
        ⟨⟨[g.token], some verdict, g.events⟩, ⟨source, line + 1⟩, none⟩)
    (undecided : ∀ line chars source (g : Glance), g.token.isEof = false →
      motive (line + 1) source (m.lookOn (line + 1) source) →
        motive line (.line chars :: source) ((m.lookOn (line + 1) source).cons g))
    (line : Nat) (source : Source) : motive line source (m.lookOn line source) := by
  induction source generalizing line with
  | nil => exact nil line
  | cons read source ih =>
      cases read with
      | fault e => exact fault line e source
      | line chars =>
          obtain ⟨t, ht⟩ : ∃ t, t = Token.ofLine ⟨Scanner.dropMark (line + 1) chars⟩ (line + 1) :=
            ⟨_, rfl⟩
          have heof : (m.glance t).token.isEof = false := by
            rw [m.glance_isEof, ht]
            rfl
          cases hverdict : (m.glance t).verdict with
          | some verdict =>
              rw [lookOn_of_verdict ht hverdict source]
              exact decided line chars source (m.glance t) verdict heof
          | none =>
              rw [lookOn_of_undecided ht hverdict source]
              exact undecided line chars source (m.glance t) heof (ih (line + 1))

/-- Looking at the lines of a scanner decides as its tokens do, and leaves them
in the queue. -/
theorem lookOn_spec (m : Matcher) {source : Source} (h : source.Readable)
    (line : Nat) :
    (m.lookOn line source).error? = none ∧
      (m.lookOn line source).verdict =
        some (m.examplesAhead (source.tokens line)) ∧
      Awaits (m.lookOn line source).tokens (m.lookOn line source).scanner
        (source.tokens line) := by
  induction source generalizing line with
  | nil => exact ⟨rfl, rfl, .eof rfl⟩
  | cons read source ih =>
      obtain ⟨chars, rfl⟩ := h read (by simp)
      have hsource : Source.Readable source := fun read hread => h read (by simp [hread])
      let t := Token.ofLine ⟨Scanner.dropMark (line + 1) chars⟩ (line + 1)
      let following := Source.tokens (line + 1) source
      have hrest : Awaits [] ⟨source, line + 1⟩ following := .scanner hsource
      have hverdict := m.glance_verdict t
      rw [Source.tokens_line]
      change _ ∧ _ = some (m.examplesAhead (t :: following)) ∧
        Awaits _ _ (t.fresh :: following)
      by_cases hexamples : m.isOf .examplesLine t
      · have hv : (m.glance t).verdict = some true := by
          simp [hverdict, hexamples]
        have hahead : m.examplesAhead (t :: following) = true := by
          simp [examplesAhead, hexamples]
        rw [lookOn_of_verdict rfl hv source, hahead]
        exact ⟨rfl, rfl, hrest.glance m rfl⟩
      · by_cases hbetween : m.isBetweenTags t
        · have hv : (m.glance t).verdict = none := by
            simp [hverdict, hexamples, hbetween]
          have hahead : m.examplesAhead (t :: following) = m.examplesAhead following := by
            simp [examplesAhead, hexamples, hbetween]
          obtain ⟨herror, hdecided, hwait⟩ := ih hsource (line + 1)
          rw [lookOn_of_undecided rfl hv source, hahead]
          exact ⟨herror, hdecided, hwait.glance m rfl⟩
        · have hv : (m.glance t).verdict = some false := by
            simp [hverdict, hexamples, hbetween]
          have hahead : m.examplesAhead (t :: following) = false := by
            simp [examplesAhead, hexamples, hbetween]
          rw [lookOn_of_verdict rfl hv source, hahead]
          exact ⟨rfl, rfl, hrest.glance m rfl⟩

end Matcher
end Gherkin
