import Gherkin.Proofs.Run.Resolvers

/-!
# Parses do not influence each other

What a parse leaves behind is a resolver that keeps dialects, and a matcher and a
builder that may be in any state.  A document comes to the same with all of them
as with new ones.  Of the source of keywords it depends on no more than two
tables: that of the default language and that of its pragma.
-/

namespace Gherkin

open LanguageTag (normalize)

/-- What a document comes to that is read with a matcher and a builder as something else has left
them behind. -/
def Run.restart (limit : Option Nat) (m : Matcher) (b : Builder) (source : Source) :
    Except Failure Document :=
  match Run.start limit m b source with
  | .ok run => run.complete.outcome
  | .error e => .error (.dialect e)

/-- Matchers whose resolvers agree on the default language start alike. -/
theorem Matcher.start_alike {P : String → Prop} {r s : Resolver} (h : r.AgreesOn P s)
    (hdefault : s.defaultLanguage = r.defaultLanguage) (hP : P r.defaultLanguage) :
    (∃ e, start r = .error e ∧ start s = .error e) ∨
      ∃ m resolver, start r = .ok m ∧ start s = .ok (m.withResolver resolver) ∧
        m.resolver.AgreesOn P resolver ∧ m.resolver.defaultLanguage = r.defaultLanguage ∧
        resolver.defaultLanguage = r.defaultLanguage := by
  have hr : start r = (r.resolve r.defaultLanguage ⟨1, 1⟩).map fun x => ⟨x.2, x.1, none⟩ := by
    rw [start, Resolver.resolveDefault]
    cases r.resolve r.defaultLanguage ⟨1, 1⟩ <;> rfl
  have hs : start s = (s.resolve r.defaultLanguage ⟨1, 1⟩).map fun x => ⟨x.2, x.1, none⟩ := by
    rw [start, Resolver.resolveDefault, hdefault]
    cases s.resolve r.defaultLanguage ⟨1, 1⟩ <;> rfl
  rw [hr, hs]
  rcases h.resolve hP ⟨1, 1⟩ with ⟨e, he, he'⟩ | ⟨d, r', s', hd, hd', hagrees⟩
  · rw [he, he']
    exact .inl ⟨e, rfl, rfl⟩
  · rw [hd, hd']
    exact .inr ⟨⟨r', d, none⟩, s', rfl, rfl, hagrees, (Resolver.frame_of_resolve hd).2,
      (Resolver.frame_of_resolve hd').2.trans hdefault⟩

namespace Run

variable {P : String → Prop} {limit : Option Nat} {m m' : Matcher} {source : Source}

/-- Runs start as twins, whatever the matchers and the builders have been left with. -/
theorem start_twin (limit : Option Nat) (source : Source)
    (h : m.resolver.AgreesOn P m'.resolver)
    (hdefault : m'.resolver.defaultLanguage = m.resolver.defaultLanguage)
    (hP : P m.resolver.defaultLanguage) (b b' : Builder) :
    (∃ e, Run.start limit m b source = .error e ∧ Run.start limit m' b' source = .error e) ∨
      ∃ r s, Run.start limit m b source = .ok r ∧ Run.start limit m' b' source = .ok s ∧
        Twin P r s := by
  rw [Run.start, Run.start, Matcher.reset, Matcher.reset]
  rcases Matcher.start_alike h hdefault hP with
    ⟨e, he, he'⟩ | ⟨reset, resolver, hreset, hreset', hagrees, -, -⟩
  · rw [he, he']
    exact .inl ⟨e, rfl, rfl⟩
  · rw [hreset, hreset']
    let r : Run :=
      { limit := limit, matcher := reset, builder := b.reset, scanner := ⟨source, 0⟩ }
    exact .inr ⟨_, _, rfl, rfl, ((Twin.intro (r := r) #[] hagrees).note _ _).openRules [.document]⟩

/-- What a document comes to does not depend on what the matcher and the builder have been left
with, and on the resolver no further than for the languages that are asked for. -/
theorem restart_eq (h : m.resolver.AgreesOn P m'.resolver)
    (hdefault : m'.resolver.defaultLanguage = m.resolver.defaultLanguage)
    (hP : P m.resolver.defaultLanguage) (b b' : Builder)
    (htag : ∀ r, Run.start limit m b source = .ok r → ∀ n, (steps n r).state = .start →
      ∀ tag, (steps n r).upcoming.bind Line.languageTag? = some tag → P tag) :
    restart limit m' b' source = restart limit m b source := by
  have hstarts := start_twin limit source h hdefault hP b b'
  rw [restart, restart]
  rcases hstarts with ⟨e, he, he'⟩ | ⟨r, s, hr, hs, htwin⟩
  · rw [he, he']
  · rw [hr, hs]
    exact htwin.outcome_complete (htag r hr)

end Run

namespace Parser

/-- A parser meets a pragma: at the start of the document it is the next line. -/
def Meets (p : Parser) (source : Source) (tag : String) : Prop :=
  ∃ start n, p.run source = .ok start ∧ (Run.steps n start).state = .start ∧
    (Run.steps n start).upcoming.bind Line.languageTag? = some tag

variable {p q : Parser} {source : Source} {P : String → Prop}

/-- A document has at most one pragma. -/
theorem eq_of_meets {tag tag' : String} (h : p.Meets source tag) (h' : p.Meets source tag') :
    tag = tag' := by
  obtain ⟨start, n, hstart, hn, htag⟩ := h
  obtain ⟨start', k, hstart', hk, htag'⟩ := h'
  obtain rfl := Except.ok.inj (hstart.symm.trans hstart')
  obtain rfl := Run.eq_of_pragmas hn htag hk htag'
  exact Option.some.inj (htag.symm.trans htag')

theorem parse_eq (p : Parser) (source : Source) :
    p.parse source =
      match Matcher.start p.resolver with
      | .ok m => Run.restart p.limit m {} source
      | .error e => .error (.dialect e) := by
  rw [parse, report_outcome, run]
  cases Matcher.start p.resolver <;> rfl

/-- Parsers whose resolvers agree on the languages that are asked for come to the same. -/
theorem parse_eq_of_agreesOn (h : p.resolver.AgreesOn P q.resolver) (hlimit : q.limit = p.limit)
    (hdefault : q.resolver.defaultLanguage = p.resolver.defaultLanguage)
    (hP : P p.resolver.defaultLanguage) (htag : ∀ tag, p.Meets source tag → P tag) :
    q.parse source = p.parse source := by
  rw [parse_eq, parse_eq, hlimit]
  rcases Matcher.start_alike h hdefault hP with
    ⟨e, he, he'⟩ | ⟨m, resolver, hm, hm', hagrees, hfirst, hsecond⟩
  · rw [he, he']
  · rw [hm, hm']
    have hagain : (m.withResolver resolver).resolver.defaultLanguage =
        m.resolver.defaultLanguage := hsecond.trans hfirst.symm
    refine Run.restart_eq hagrees hagain (by rwa [hfirst]) {} {} ?_
    intro r hr n hn tag hlanguage
    refine htag tag ⟨r, n, ?_, hn, hlanguage⟩
    rw [run, hm]
    exact hr

/-! ### What a parse leaves behind -/

/-- What may have become of the resolver of a parser: it still has its source and its default
language, and it keeps only what the source has. -/
structure Used (p : Parser) (resolver : Resolver) : Prop where
  coherent : resolver.Coherent
  source : resolver.source = p.resolver.source
  language : resolver.defaultLanguage = p.resolver.defaultLanguage

theorem Used.of_resolve {resolver next : Resolver} (h : p.Used resolver) {language : String}
    {location : Location} {d : Dialect}
    (hresolve : resolver.resolve language location = .ok (d, next)) : p.Used next := by
  obtain ⟨hsource, hdefault⟩ := Resolver.frame_of_resolve hresolve
  exact ⟨h.coherent.of_resolve hresolve, hsource.trans h.source, hdefault.trans h.language⟩

theorem Used.of_start {resolver : Resolver} (h : p.Used resolver) {m : Matcher}
    (hm : Matcher.start resolver = .ok m) : p.Used m.resolver := by
  rw [Matcher.start, Resolver.resolveDefault] at hm
  split at hm
  · next d next hresolve =>
      obtain rfl := Except.ok.inj hm
      exact h.of_resolve hresolve
  · cases hm

theorem Used.of_steps {start : Run} (h : p.Used start.matcher.resolver) (n : Nat) :
    p.Used (Run.steps n start).matcher.resolver :=
  Run.resolver_steps (fun hused hresolve => hused.of_resolve hresolve) start h n

/-- The resolver of a run has been used for the documents in front of it and for the lines that
the run has taken. -/
theorem used_of_run (h : p.resolver.Coherent) {start : Run} (hstart : p.run source = .ok start)
    (n : Nat) : p.Used (Run.steps n start).matcher.resolver := by
  rw [run] at hstart
  split at hstart
  · cases hstart
  · next m hm =>
      have hused : p.Used m.resolver := Used.of_start ⟨h, rfl, rfl⟩ hm
      rw [Run.start, Matcher.reset] at hstart
      split at hstart
      · cases hstart
      · next reset hreset =>
          obtain rfl := Except.ok.inj hstart
          exact (hused.of_start hreset).of_steps n

theorem used_report (h : p.resolver.Coherent) (source : Source) :
    p.Used (p.report source).resolver := by
  rw [report]
  cases hm : Matcher.start p.resolver with
  | error e => exact ⟨h, rfl, rfl⟩
  | ok m =>
      cases hrun : Run.start p.limit m {} source with
      | error e =>
          simp only [hrun]
          exact Used.of_start ⟨h, rfl, rfl⟩ hm
      | ok start =>
          have hstart : p.run source = .ok start := by
            rw [run, hm]
            exact hrun
          have hcompleted := used_of_run h hstart (start.unread + 1)
          simp only [hrun]
          rw [Run.matcher_complete]
          exact hcompleted

/-- A used resolver does as well as the one that has not been used. -/
theorem Used.agreesOn (h : p.resolver.Coherent) {resolver : Resolver} (hused : p.Used resolver)
    (P : String → Prop) : p.resolver.AgreesOn P resolver :=
  h.agreesOn hused.coherent fun _ _ => by rw [hused.source]

theorem parse_of_used (h : p.resolver.Coherent) {resolver : Resolver} (hused : p.Used resolver)
    (source : Source) : parse { p with resolver := resolver } source = p.parse source :=
  parse_eq_of_agreesOn (P := fun _ => True) (hused.agreesOn h _) rfl hused.language trivial
    fun _ _ => trivial

theorem outcome_reports (h : p.resolver.Coherent) (sources : List Source) :
    (p.reports sources).map Report.outcome = sources.map p.parse := by
  induction sources generalizing p with
  | nil => rfl
  | cons source sources ih =>
      have hused := used_report h source
      rw [reports, List.map_cons, List.map_cons, ih (p := p.next (p.report source)) hused.coherent]
      refine congrArg _ (List.map_congr_left fun other _ => ?_)
      exact parse_of_used h hused other

/-- A run with a matcher and a builder that have been left behind comes to what a parse comes
to. -/
theorem restart_of_used (h : p.resolver.Coherent) {m : Matcher} (hused : p.Used m.resolver)
    (b : Builder) (source : Source) : Run.restart p.limit m b source = p.parse source := by
  have hagrees := hused.agreesOn h fun _ => True
  rw [parse_eq]
  rcases Matcher.start_alike hagrees hused.language trivial with
    ⟨e, he, he'⟩ | ⟨first, resolver, hfirst, hreset, hfirst', hlanguage, -⟩
  · rw [he, Run.restart, Run.start, Matcher.reset, he']
  · rw [hfirst]
    have hbegun : p.Used first.resolver := Used.of_start ⟨h, rfl, rfl⟩ hfirst
    refine Run.restart_eq (P := fun _ => True) ?_ (hused.language.trans hlanguage.symm) trivial {} b
      fun _ _ _ _ _ _ => trivial
    exact hbegun.coherent.agreesOn hused.coherent fun _ _ => by rw [hbegun.source, hused.source]

/-! ### Independence -/

/-- Documents that are parsed one after the other come to what each of them comes to with a new
resolver.  So does a document that is read with a matcher and a builder that have been left behind
anywhere.  A document cannot tell two sources of keywords apart that have the same tables for the
default language and for the one language that its pragma names. -/
theorem parses_independent (h : p.resolver.Coherent) :
    let anew : Parser := { p with resolver := p.resolver.fresh }
    (∀ sources, (p.reports sources).map Report.outcome = sources.map anew.parse) ∧
      (∀ source, ∀ m b, p.Used m.resolver →
        Run.restart p.limit m b source = anew.parse source) ∧
      (∀ earlier start n, p.run earlier = .ok start →
        p.Used (Run.steps n start).matcher.resolver) ∧
      (∀ source (q : Parser), q.resolver.Coherent → q.limit = p.limit →
        q.resolver.defaultLanguage = p.resolver.defaultLanguage →
        q.resolver.source (normalize p.resolver.defaultLanguage) =
          p.resolver.source (normalize p.resolver.defaultLanguage) →
        (∀ tag, p.Meets source tag →
          q.resolver.source (normalize tag) = p.resolver.source (normalize tag)) →
        q.parse source = p.parse source) ∧
      ∀ source tag tag', p.Meets source tag → p.Meets source tag' → tag = tag' := by
  intro anew
  have hanew : anew.parse = p.parse :=
    funext (parse_of_used h ⟨p.resolver.coherent_fresh, rfl, rfl⟩)
  rw [hanew]
  refine ⟨outcome_reports h, fun source m b hused => restart_of_used h hused b source,
    fun earlier start n hstart => used_of_run h hstart n, ?_, fun source tag tag' => eq_of_meets⟩
  intro source q hq hlimit hlanguage hdefault hpragma
  let P : String → Prop := fun tag =>
    q.resolver.source (normalize tag) = p.resolver.source (normalize tag)
  have hagrees : p.resolver.AgreesOn P q.resolver := h.agreesOn hq fun tag htag => htag.symm
  exact parse_eq_of_agreesOn hagrees hlimit hlanguage hdefault hpragma

/-- Behind a document that ends inside a doc string, one in another language and one with a
language that nobody knows.  Where a document names a language, no third one is needed. -/
theorem parses_independent_history :
    let unclosed :=
      Source.ofLines (["Feature: a", "Scenario: b", "Given c", "\"\"\""].map String.toList)
    let french := Source.ofLines (["# language: fr", "Fonctionnalité: d"].map String.toList)
    let unknown := Source.ofLines (["# language: xx"].map String.toList)
    let two : KeywordSource := fun tag =>
      if tag = "en" ∨ tag = "fr" then Builtin.keywords tag else none
    ((Parser.reports {} [unclosed, french, unknown, unclosed]).map Report.outcome =
        [unclosed, french, unknown, unclosed].map (parse {})) ∧
      (∀ start n b, run {} unclosed = .ok start →
        Run.restart (some maxErrors) (Run.steps n start).matcher b french = parse {} french) ∧
      parse { resolver := .ofSource two } french = parse {} french := by
  intro unclosed french unknown two
  have hcoherent : Resolver.builtin.Coherent := Resolver.builtin.coherent_fresh
  obtain ⟨hreports, hrestart, hused, hsource, hone⟩ := parses_independent (p := {}) hcoherent
  refine ⟨hreports _, fun start n b hstart => hrestart french _ b (hused unclosed start n hstart),
    hsource french { resolver := .ofSource two } (Resolver.ofSource two).coherent_fresh rfl rfl
      rfl ?_⟩
  intro tag htag
  have hruns : (run {} french).toOption.any (fun start => decide (start.state = .start) &&
      decide (start.upcoming.bind Line.languageTag? = some "fr")) = true := by
    decide +kernel
  have hfrench : Meets {} french "fr" := by
    obtain ⟨start, hstart, hruns⟩ := exists_ok_of_any hruns
    rw [Bool.and_eq_true, decide_eq_true_eq, decide_eq_true_eq] at hruns
    exact ⟨start, 0, hstart, hruns.1, hruns.2⟩
  rw [hone french tag "fr" htag hfrench]
  rfl

end Parser
end Gherkin
