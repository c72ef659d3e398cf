import Gherkin.Dialect.Builtin
import Gherkin.Proofs.Dialect.Resolving
import Mathlib.Data.List.Dedup

/-!
# Requests for dialects

A resolver in use looks a tag up, asks its source and keeps the dialect, one step after
the other, and a step that has been taken stays taken when a later one fails.  Done so,
a request comes to what resolving the language comes to, and after an error nothing has
changed but that the source has been asked.
-/

namespace Gherkin

open LanguageTag (normalize)

/-! ### Tables without keywords for some kinds -/

/-- The kinds that are not composed of other kinds. -/
def KeywordKind.primitives : List KeywordKind :=
  all.filter fun kind => kind ≠ step

/-- The kinds that are not composed of others and that a table lists no keywords for. -/
def KeywordMap.lacking (map : KeywordMap) : List KeywordKind :=
  KeywordKind.primitives.filter fun kind => (map.keywords kind).isEmpty

/-- A table lists no keywords for any kind of steps. -/
def KeywordMap.LacksSteps (map : KeywordMap) : Prop :=
  ∀ kind ∈ KeywordKind.step.components, map.keywords kind = []

instance (map : KeywordMap) : Decidable map.LacksSteps :=
  inferInstanceAs (Decidable (∀ kind ∈ KeywordKind.step.components, map.keywords kind = []))

namespace Dialect

variable {language : String} {map : KeywordMap}

theorem keywords_ofMap_of_ne {kind : KeywordKind} (h : kind ≠ .step) :
    (ofMap language map).keywords kind = map.keywords kind := by
  have hcomponents : kind.components = [kind] := by
    cases kind with
    | step => exact absurd rfl h
    | _ => rfl
  have hkeywords : (ofMap language map).keywords kind = kind.components.flatMap map.keywords := rfl
  rw [hkeywords, hcomponents, List.flatMap_singleton]

theorem keywords_ofMap_step_eq_nil_iff :
    (ofMap language map).keywords .step = [] ↔ map.LacksSteps :=
  List.flatMap_eq_nil_iff

/-- What a dialect has no keywords for: what its table lists none for, and the composite kind if it
lists none for any of its components.  What the table lists for the composite kind does not
count. -/
theorem missing_ofMap (language : String) (map : KeywordMap) :
    (ofMap language map).missing =
      map.lacking ++ if map.LacksSteps then [.step] else [] := by
  have hall : KeywordKind.all = KeywordKind.primitives ++ [.step] := rfl
  rw [missing, hall, List.filter_append, KeywordMap.lacking]
  congr 1
  · refine List.filter_congr fun kind hkind => ?_
    rw [keywords_ofMap_of_ne (by simpa using (List.mem_filter.mp hkind).2)]
  · simp only [List.filter_singleton, Bool.cond_eq_ite, List.isEmpty_iff,
      keywords_ofMap_step_eq_nil_iff]

theorem missing_ofMap_eq_nil_iff : (ofMap language map).missing = [] ↔ map.lacking = [] := by
  rw [missing_ofMap, List.append_eq_nil_iff, and_iff_left_iff_imp]
  intro hlacking
  rw [if_neg]
  intro hsteps
  have hgiven : KeywordKind.givenStep ∈ map.lacking := by
    refine List.mem_filter.mpr ⟨by decide, ?_⟩
    rw [hsteps .givenStep (by decide)]
    rfl
  rw [hlacking] at hgiven
  cases hgiven

end Dialect

namespace Resolver

/-- A resolver in use, and the tags that its source has been asked for so far. -/
structure Use where
  resolver : Resolver
  asked : List String

/-- What is done with a resolver in use.  An action that fails leaves the use as far as it got. -/
abbrev Action :=
  EStateM DialectError Use

/-- Asks the source for the table of a tag. -/
def ask (tag : String) : Action (Option KeywordMap) := do
  modify fun u => { u with asked := u.asked ++ [tag] }
  return (← get).resolver.source tag

/-- Keeps a dialect. -/
def keep (tag : String) (dialect : Dialect) : Action Unit :=
  modify fun u =>
    { u with resolver := { u.resolver with cache := (tag, dialect) :: u.resolver.cache } }

/-- Gets the dialect for a language tag: the one that is kept, or the one that the source has,
which is kept then if no kind is without keywords. -/
def fetch (language : String) (location : Location) : Action Dialect := do
  let tag := normalize language
  if let some dialect := (← get).resolver.cache.lookup tag then
    return dialect
  let some map ← ask tag
    | throw ⟨.unsupported, tag, location⟩
  let dialect := Dialect.ofMap tag map
  unless dialect.missing.isEmpty do
    throw ⟨.incomplete dialect.missing, tag, location⟩
  keep tag dialect
  return dialect

variable (u : Use)

@[simp] theorem run_ask (tag : String) :
    (ask tag).run u = .ok (u.resolver.source tag) { u with asked := u.asked ++ [tag] } :=
  rfl

@[simp] theorem run_keep (tag : String) (dialect : Dialect) :
    (keep tag dialect).run u =
      .ok () { u with
        resolver := { u.resolver with cache := (tag, dialect) :: u.resolver.cache } } :=
  rfl

@[simp] theorem run_throw {α : Type} (e : DialectError) : (throw e : Action α).run u = .error e u :=
  rfl

/-- Step by step a dialect is got as it is resolved at once, and after an error the resolver is as
it has been. -/
theorem run_fetch (language : String) (location : Location) :
    (fetch language location).run u =
      match u.resolver.resolve language location with
      | .ok (d, r) => .ok d ⟨r, u.asked ++ u.resolver.lookups language⟩
      | .error e => .error e ⟨u.resolver, u.asked ++ u.resolver.lookups language⟩ := by
  cases hlookup : u.resolver.cache.lookup (normalize language) with
  | some dialect => simp [fetch, resolve, lookups, resolution, hlookup]
  | none =>
      cases hsource : u.resolver.source (normalize language) with
      | none => simp [fetch, resolve, lookups, resolution, consult, hlookup, hsource]
      | some map =>
          cases hmissing : (Dialect.ofMap (normalize language) map).missing with
          | nil =>
              simp [fetch, resolve, lookups, resolution, consult, hlookup, hsource, hmissing,
                -bind_pure_comp]
          | cons kind kinds =>
              simp [fetch, resolve, lookups, resolution, consult, hlookup, hsource, hmissing]

/-! ### Requests one after another -/

/-- A request for the dialect of a language that is named at a place, or for the default one. -/
inductive Request where
  | named (language : String) (location : Location)
  | default

namespace Request

/-- What the resolver is asked to resolve. -/
def resolve (r : Resolver) : Request → Except DialectError (Dialect × Resolver)
  | .named language location => r.resolve language location
  | .default => r.resolveDefault

/-- What a resolver in use does for a request. -/
def action : Request → Action Dialect
  | .named language location => fetch language location
  | .default => do fetch (← get).resolver.defaultLanguage ⟨1, 1⟩

/-- The language that a request asks for. -/
def wanted (defaultLanguage : String) : Request → String
  | .named language _ => language
  | .default => defaultLanguage

/-- The normal form of the tag that a request asks for. -/
def tag (defaultLanguage : String) (q : Request) : String :=
  normalize (q.wanted defaultLanguage)

/-- The place that an error names. -/
def location : Request → Location
  | .named _ location => location
  | .default => ⟨1, 1⟩

/-- The answer of a resolver that keeps nothing. -/
def answer (r : Resolver) (q : Request) : Except DialectError Dialect :=
  (q.resolve r.fresh).map Prod.fst

/-- The answer of a resolver in use, and the resolver in use behind it. -/
def serve (q : Request) (u : Use) : Except DialectError Dialect × Use :=
  match q.action.run u with
  | .ok d u' => (.ok d, u')
  | .error e u' => (.error e, u')

end Request

/-- Serves requests one after another, also behind one that has failed. -/
def serveAll : List Request → Use → List (Except DialectError Dialect) × Use
  | [], u => ([], u)
  | q :: qs, u =>
    let (answer, u) := q.serve u
    let (answers, u) := serveAll qs u
    (answer :: answers, u)

/-- The source of a resolver has a dialect for a tag that can be used. -/
def Resolves (r : Resolver) (tag : String) : Prop :=
  ∃ d, r.consult tag = .resolved d

/-- A resolver in use has served requests for the given tags, and was `r` before: it keeps a
dialect for each of them that its source has one for, and it has asked once for each of these and
every time for each of the others. -/
structure Served (r : Resolver) (tags : List String) (u : Use) : Prop where
  source_eq : u.resolver.source = r.source
  defaultLanguage_eq : u.resolver.defaultLanguage = r.defaultLanguage
  coherent : u.resolver.Coherent
  nodup_keys : (u.resolver.cache.map Prod.fst).Nodup
  mem_keys_iff : ∀ k, k ∈ u.resolver.cache.map Prod.fst ↔ k ∈ tags ∧ r.Resolves k
  count_asked : ∀ k, r.Resolves k → u.asked.count k = if k ∈ tags then 1 else 0
  count_asked_again : ∀ k, ¬r.Resolves k → u.asked.count k = tags.count k

namespace Request

variable (q : Request) (r : Resolver) (u : Use)

theorem resolve_eq : q.resolve r = r.resolve (q.wanted r.defaultLanguage) q.location := by
  cases q <;> rfl

/-- Step by step a request comes to the same as at once. -/
theorem run_action :
    q.action.run u =
      let asked := u.asked ++ u.resolver.lookups (q.wanted u.resolver.defaultLanguage)
      match q.resolve u.resolver with
      | .ok (d, r) => .ok d ⟨r, asked⟩
      | .error e => .error e ⟨u.resolver, asked⟩ := by
  have haction : q.action.run u =
      (fetch (q.wanted u.resolver.defaultLanguage) q.location).run u := by
    cases q with
    | named language location => rfl
    | default => simp only [action, wanted, location, EStateM.run_bind, EStateM.run_get]
  rw [haction, run_fetch, resolve_eq]

/-- The answer of a resolver that keeps nothing is that of its source. -/
theorem answer_eq :
    q.answer r = (r.consult (q.tag r.defaultLanguage)).dialect (q.tag r.defaultLanguage)
      q.location := by
  have hfresh := r.coherent_fresh.dialectFor_eq_consult (q.wanted r.defaultLanguage) q.location
  rw [answer, resolve_eq]
  exact hfresh

/-- What a resolver in use can do for a request: give the dialect that it keeps, keep and give the
dialect that its source has, or fail for want of a dialect. -/
theorem serve_cases {tag : String} (htag : q.tag u.resolver.defaultLanguage = tag) :
    (∃ d, u.resolver.cache.lookup tag = some d ∧ q.serve u = (.ok d, u)) ∨
    (∃ d, u.resolver.cache.lookup tag = none ∧ u.resolver.consult tag = .resolved d ∧
      q.serve u = (.ok d, ⟨{ u.resolver with cache := (tag, d) :: u.resolver.cache },
        u.asked ++ [tag]⟩)) ∨
    (∃ e, u.resolver.cache.lookup tag = none ∧
      (u.resolver.consult tag).dialect tag q.location = .error e ∧
      q.serve u = (.error e, { u with asked := u.asked ++ [tag] })) := by
  have hwanted : normalize (q.wanted u.resolver.defaultLanguage) = tag := htag
  rw [serve, run_action, resolve_eq, Resolver.resolve, lookups, resolution, hwanted]
  cases hlookup : u.resolver.cache.lookup tag with
  | some d => exact .inl ⟨d, rfl, by simp⟩
  | none =>
      right
      cases hconsult : u.resolver.consult tag with
      | known d => exact absurd hconsult (u.resolver.consult_ne_known tag d)
      | resolved d => exact .inl ⟨d, rfl, rfl, rfl⟩
      | incomplete missing => exact .inr ⟨_, rfl, rfl, rfl⟩
      | unsupported => exact .inr ⟨_, rfl, rfl, rfl⟩

theorem fst_serve : (q.serve u).1 = (q.resolve u.resolver).map Prod.fst := by
  rw [serve, run_action]
  rcases q.resolve u.resolver with e | ⟨d, r⟩ <;> rfl

variable {q u}

/-- After a request that has failed nothing has changed but that the source has been asked. -/
theorem use_of_error {e : DialectError} {u' : Use} (h : q.action.run u = .error e u') :
    u' = { u with asked := u.asked ++ [q.tag u.resolver.defaultLanguage] } := by
  have hserve : q.serve u = (.error e, u') := by rw [serve, h]
  rcases q.serve_cases u rfl with ⟨d, -, hok⟩ | ⟨d, -, -, hok⟩ | ⟨e', -, -, herror⟩
  · rw [hok] at hserve
    cases hserve
  · rw [hok] at hserve
    cases hserve
  · rw [herror] at hserve
    exact (Prod.mk.inj hserve).2.symm

end Request

variable {r : Resolver} {u : Use} {tags : List String}

theorem consult_eq (h : u.resolver.source = r.source) (tag : String) :
    u.resolver.consult tag = r.consult tag :=
  consult_congr (congrFun h tag)

theorem mem_keys_of_lookup {tag : String} {d : Dialect} {cache : List (String × Dialect)}
    (h : cache.lookup tag = some d) : tag ∈ cache.map Prod.fst := by
  obtain ⟨front, back, rfl, -⟩ := List.lookup_eq_some_iff.mp h
  simp

theorem not_mem_keys_of_lookup {tag : String} {cache : List (String × Dialect)}
    (h : cache.lookup tag = none) : tag ∉ cache.map Prod.fst := by
  rw [List.lookup_eq_none_iff] at h
  rintro hmem
  obtain ⟨entry, hentry, rfl⟩ := List.mem_map.mp hmem
  simpa using h entry hentry

theorem count_append_of_ne {k tag : String} (h : k ≠ tag) (tags : List String) :
    (tags ++ [tag]).count k = tags.count k := by
  rw [List.count_append, List.count_singleton, if_neg (by simpa using Ne.symm h), Nat.add_zero]

namespace Served

variable {tag : String} {d : Dialect}

/-- A tag that has been asked for before changes nothing when its dialect is kept. -/
theorem again (h : Served r tags u) (hmem : tag ∈ tags) (hresolves : r.Resolves tag) :
    Served r (tags ++ [tag]) u where
  source_eq := h.source_eq
  defaultLanguage_eq := h.defaultLanguage_eq
  coherent := h.coherent
  nodup_keys := h.nodup_keys
  mem_keys_iff k := by
    rw [h.mem_keys_iff, List.mem_append, List.mem_singleton]
    refine and_congr_left fun _ => (or_iff_left_of_imp ?_).symm
    rintro rfl
    exact hmem
  count_asked k hk := by
    rw [h.count_asked k hk]
    refine if_congr ?_ rfl rfl
    rw [List.mem_append, List.mem_singleton, or_iff_left_of_imp]
    rintro rfl
    exact hmem
  count_asked_again k hk := by
    rw [h.count_asked_again k hk, count_append_of_ne]
    rintro rfl
    exact hk hresolves

/-- A tag whose dialect is not kept yet is asked for, and its dialect is kept. -/
theorem first (h : Served r tags u) (hlookup : u.resolver.cache.lookup tag = none)
    (hresolved : r.consult tag = .resolved d) :
    Served r (tags ++ [tag])
      ⟨{ u.resolver with cache := (tag, d) :: u.resolver.cache }, u.asked ++ [tag]⟩ where
  source_eq := h.source_eq
  defaultLanguage_eq := h.defaultLanguage_eq
  coherent := by
    intro k d' hk
    rw [List.lookup_cons] at hk
    split at hk
    · next hsame =>
        obtain rfl := Option.some.inj hk
        rw [eq_of_beq hsame]
        exact (consult_eq h.source_eq tag).trans hresolved
    · exact h.coherent k d' hk
  nodup_keys := List.nodup_cons.mpr ⟨not_mem_keys_of_lookup hlookup, h.nodup_keys⟩
  mem_keys_iff k := by
    rw [List.map_cons, List.mem_cons, h.mem_keys_iff, List.mem_append, List.mem_singleton]
    constructor
    · rintro (rfl | ⟨hmem, hresolves⟩)
      · exact ⟨.inr rfl, d, hresolved⟩
      · exact ⟨.inl hmem, hresolves⟩
    · rintro ⟨hmem | rfl, hresolves⟩
      · exact .inr ⟨hmem, hresolves⟩
      · exact .inl rfl
  count_asked k hk := by
    -- the tag has not been asked for, or its dialect would be kept
    have hnew : tag ∉ tags := by
      intro hmem
      exact not_mem_keys_of_lookup hlookup ((h.mem_keys_iff tag).mpr ⟨hmem, d, hresolved⟩)
    by_cases hsame : k = tag
    · subst hsame
      rw [List.count_append, h.count_asked k hk, if_neg hnew, List.count_singleton_self,
        if_pos (List.mem_append_right _ (List.mem_singleton_self k))]
    · rw [count_append_of_ne hsame, h.count_asked k hk]
      refine if_congr ?_ rfl rfl
      rw [List.mem_append, List.mem_singleton, or_iff_left hsame]
  count_asked_again k hk := by
    have hne : k ≠ tag := by
      rintro rfl
      exact hk ⟨d, hresolved⟩
    rw [count_append_of_ne hne, count_append_of_ne hne, h.count_asked_again k hk]

/-- A tag that cannot be resolved is asked for every time, and nothing is kept. -/
theorem failed (h : Served r tags u) (hfails : ¬r.Resolves tag) :
    Served r (tags ++ [tag]) { u with asked := u.asked ++ [tag] } where
  source_eq := h.source_eq
  defaultLanguage_eq := h.defaultLanguage_eq
  coherent := h.coherent
  nodup_keys := h.nodup_keys
  mem_keys_iff k := by
    rw [h.mem_keys_iff, List.mem_append, List.mem_singleton]
    refine and_congr_left fun hk => (or_iff_left ?_).symm
    rintro rfl
    exact hfails hk
  count_asked k hk := by
    have hne : k ≠ tag := by
      rintro rfl
      exact hfails hk
    rw [count_append_of_ne hne, h.count_asked k hk]
    refine if_congr ?_ rfl rfl
    rw [List.mem_append, List.mem_singleton, or_iff_left hne]
  count_asked_again k hk := by
    rw [List.count_append, List.count_append, h.count_asked_again k hk]

end Served

theorem not_resolves_of_dialect_eq_error {tag : String} {location : Location} {e : DialectError}
    (h : (r.consult tag).dialect tag location = .error e) : ¬r.Resolves tag := by
  rintro ⟨d, hresolved⟩
  rw [hresolved] at h
  cases h

/-- One more request: the answer is that of a resolver that keeps nothing. -/
theorem Served.serve (h : Served r tags u) (q : Request) :
    (q.serve u).1 = q.answer r ∧
      Served r (tags ++ [q.tag r.defaultLanguage]) (q.serve u).2 := by
  rw [q.answer_eq]
  generalize htag : q.tag r.defaultLanguage = tag
  rw [← h.defaultLanguage_eq] at htag
  have hcases := q.serve_cases u htag
  rw [consult_eq h.source_eq] at hcases
  rcases hcases with ⟨d, hlookup, hserve⟩ | ⟨d, hlookup, hresolved, hserve⟩ |
    ⟨e, hlookup, herror, hserve⟩ <;> rw [hserve]
  · have hresolved := h.coherent tag d hlookup
    rw [consult_eq h.source_eq] at hresolved
    refine ⟨by rw [hresolved]; rfl, h.again ?_ ⟨d, hresolved⟩⟩
    exact ((h.mem_keys_iff tag).mp (mem_keys_of_lookup hlookup)).1
  · exact ⟨by rw [hresolved]; rfl, h.first hlookup hresolved⟩
  · exact ⟨herror.symm, h.failed (not_resolves_of_dialect_eq_error herror)⟩

/-- All requests: every answer is that of a resolver that keeps nothing. -/
theorem Served.serveAll (h : Served r tags u) (qs : List Request) :
    (serveAll qs u).1 = qs.map (Request.answer r) ∧
      Served r (tags ++ qs.map (Request.tag r.defaultLanguage)) (Resolver.serveAll qs u).2 := by
  induction qs generalizing tags u with
  | nil => exact ⟨rfl, by rwa [List.map_nil, List.append_nil]⟩
  | cons q qs ih =>
      obtain ⟨hanswer, hserved⟩ := h.serve q
      obtain ⟨hanswers, hall⟩ := ih hserved
      rw [List.append_assoc] at hall
      refine ⟨?_, hall⟩
      rw [List.map_cons, ← hanswer, ← hanswers]
      rfl

theorem served_nil (h : r.cache = []) : Served r [] ⟨r, []⟩ where
  source_eq := rfl
  defaultLanguage_eq := rfl
  coherent k d hlookup := by
    rw [h] at hlookup
    cases hlookup
  nodup_keys := by
    rw [h]
    exact List.nodup_nil
  mem_keys_iff k := by simp [h]
  count_asked k hk := rfl
  count_asked_again k hk := rfl

/-! ### What the answers are -/

theorem consult_of_table {tag : String} {map : KeywordMap} (h : r.source tag = some map) :
    r.consult tag =
      if map.lacking = [] then .resolved (.ofMap tag map)
      else .incomplete (map.lacking ++ if map.LacksSteps then [.step] else []) := by
  rw [consult, h]
  simp only
  split
  · next hmissing => rw [if_pos (Dialect.missing_ofMap_eq_nil_iff.mp hmissing)]
  · next hmissing =>
      rw [if_neg fun hlacking => hmissing (Dialect.missing_ofMap_eq_nil_iff.mpr hlacking),
        Dialect.missing_ofMap]

/-- A dialect that can be used is made from the table of its language, and it has keywords for
every kind. -/
theorem table_of_consult {tag : String} {d : Dialect} (h : r.consult tag = .resolved d) :
    (∃ map, r.source tag = some map ∧ d = .ofMap tag map) ∧ ∀ kind, d.keywords kind ≠ [] := by
  cases hsource : r.source tag with
  | none =>
      rw [consult, hsource] at h
      cases h
  | some map =>
      rw [consult_of_table hsource] at h
      split at h
      · next hlacking =>
          cases h
          refine ⟨⟨map, rfl, rfl⟩, fun kind hkind => ?_⟩
          have hmissing : kind ∈ (Dialect.ofMap tag map).missing :=
            List.mem_filter.mpr ⟨kind.mem_all, List.isEmpty_iff.mpr hkind⟩
          rw [Dialect.missing_ofMap_eq_nil_iff.mpr hlacking] at hmissing
          cases hmissing
      · cases h

/-- A request fails for want of keywords exactly if there is a table and it lists none for some
kind that is not composed of others. -/
theorem answer_eq_incomplete_iff (q : Request) {missing : List KeywordKind} {language : String}
    {location : Location} :
    q.answer r = .error ⟨.incomplete missing, language, location⟩ ↔
      language = q.tag r.defaultLanguage ∧ location = q.location ∧
        ∃ map, r.source (q.tag r.defaultLanguage) = some map ∧ map.lacking ≠ [] ∧
          missing = map.lacking ++ if map.LacksSteps then [.step] else [] := by
  rw [q.answer_eq]
  generalize q.tag r.defaultLanguage = tag
  cases hsource : r.source tag with
  | none =>
      have hconsult : r.consult tag = .unsupported := by rw [consult, hsource]
      simp [hconsult, Resolution.dialect]
  | some map =>
      rw [consult_of_table hsource]
      split
      · next hlacking => simp [Resolution.dialect, hlacking]
      · next hlacking =>
          simp only [Resolution.dialect, Except.error.injEq, DialectError.mk.injEq,
            DialectFault.incomplete.injEq, Option.some.injEq, exists_eq_left']
          constructor
          · rintro ⟨rfl, rfl, rfl⟩
            exact ⟨rfl, rfl, hlacking, rfl⟩
          · rintro ⟨rfl, rfl, -, rfl⟩
            exact ⟨rfl, rfl, rfl⟩

theorem isOk_answer_iff (q : Request) :
    (q.answer r).isOk = true ↔ r.Resolves (q.tag r.defaultLanguage) := by
  rw [q.answer_eq, Resolves]
  cases hconsult : r.consult (q.tag r.defaultLanguage) with
  | known d => exact absurd hconsult (r.consult_ne_known _ d)
  | resolved d => simp [Resolution.dialect, Except.isOk, Except.toBool]
  | incomplete missing => simp [Resolution.dialect, Except.isOk, Except.toBool]
  | unsupported => simp [Resolution.dialect, Except.isOk, Except.toBool]

/-- There are as many dialects as different tags that have been resolved. -/
theorem Served.cached_eq {qs : List Request}
    (h : Served r (qs.map (Request.tag r.defaultLanguage)) u) :
    u.resolver.cached = ((qs.filter fun q => (q.answer r).isOk).map
      (Request.tag r.defaultLanguage)).dedup.length := by
  have hsame (k : String) : k ∈ u.resolver.cache.map Prod.fst ↔
      k ∈ ((qs.filter fun q => (q.answer r).isOk).map (Request.tag r.defaultLanguage)).dedup := by
    rw [h.mem_keys_iff, List.mem_dedup, List.mem_map, List.mem_map]
    constructor
    · rintro ⟨⟨q, hq, rfl⟩, hresolves⟩
      exact ⟨q, List.mem_filter.mpr ⟨hq, (isOk_answer_iff q).mpr hresolves⟩, rfl⟩
    · rintro ⟨q, hq, rfl⟩
      obtain ⟨hmem, hok⟩ := List.mem_filter.mp hq
      exact ⟨⟨q, hmem, rfl⟩, (isOk_answer_iff q).mp hok⟩
  have hperm := (List.perm_ext_iff_of_nodup h.nodup_keys (List.nodup_dedup _)).mpr hsame
  rw [cached, ← hperm.length_eq, List.length_map]

/--
A resolver that serves a request step by step comes to what resolving the language at once
comes to, and asks its source for what is looked up then.  A new resolver that serves requests
one after another keeps under a tag nothing but the dialect that is made from the table of the
source for the tag, with keywords for every kind.  It answers as if it kept nothing, and after
a request that has failed nothing has changed but that the source has been asked.  The source
is asked for tags in normal form, once for each that can be resolved and once for each request
that fails, and there are as many dialects as different tags that have been resolved.  A
request fails for want of keywords exactly if there is a table and it lists none for some kind
that is not composed of others.
-/
theorem serves_coherently (hnew : r.cache = []) {qs : List Request}
    {answers : List (Except DialectError Dialect)} (hrun : serveAll qs ⟨r, []⟩ = (answers, u)) :
    (∀ (q : Request) (v : Use), q.action.run v =
      let asked := v.asked ++ v.resolver.lookups (q.wanted v.resolver.defaultLanguage)
      match q.resolve v.resolver with
      | .ok (d, resolver) => .ok d ⟨resolver, asked⟩
      | .error e => .error e ⟨v.resolver, asked⟩) ∧
    (∀ k d, u.resolver.cache.lookup k = some d →
      d.language = k ∧ (∃ map, r.source k = some map ∧ d = .ofMap k map) ∧
        ∀ kind, d.keywords kind ≠ []) ∧
    (u.resolver.cache.map Prod.fst).Nodup ∧
    answers = qs.map (Request.answer r) ∧
    (∀ q : Request, (q.serve u).1 = (q.resolve u.resolver).map Prod.fst ∧
      ∀ e u', q.action.run u = .error e u' →
        u' = { u with asked := u.asked ++ [q.tag r.defaultLanguage] }) ∧
    (∀ k, r.Resolves k →
      u.asked.count k = if k ∈ qs.map (Request.tag r.defaultLanguage) then 1 else 0) ∧
    (∀ k, ¬r.Resolves k → u.asked.count k = (qs.map (Request.tag r.defaultLanguage)).count k) ∧
    u.resolver.cached =
      ((qs.filter fun q => (q.answer r).isOk).map (Request.tag r.defaultLanguage)).dedup.length ∧
    ∀ (q : Request) (missing : List KeywordKind) (language : String) (location : Location),
      q.answer r = .error ⟨.incomplete missing, language, location⟩ ↔
        language = q.tag r.defaultLanguage ∧ location = q.location ∧
          ∃ map, r.source (q.tag r.defaultLanguage) = some map ∧ map.lacking ≠ [] ∧
            missing = map.lacking ++ if map.LacksSteps then [.step] else [] := by
  obtain ⟨hanswers, hserved⟩ := (served_nil hnew).serveAll qs
  rw [hrun] at hanswers hserved
  rw [List.nil_append] at hserved
  refine ⟨fun q v => q.run_action v, ?_, hserved.nodup_keys, hanswers, ?_, hserved.count_asked,
    hserved.count_asked_again, hserved.cached_eq,
    fun q missing language location => answer_eq_incomplete_iff q⟩
  · intro k d hlookup
    have hconsult := hserved.coherent k d hlookup
    rw [consult_eq hserved.source_eq] at hconsult
    obtain ⟨htable, hkeywords⟩ := table_of_consult hconsult
    refine ⟨?_, htable, hkeywords⟩
    obtain ⟨map, -, rfl⟩ := htable
    rfl
  · intro q
    refine ⟨q.fst_serve u, fun e u' herror => ?_⟩
    rw [q.use_of_error herror, hserved.defaultLanguage_eq]

/-- Requests to a resolver whose source has an empty table: for the default language, for the
language of that table twice, and for a language without a table. -/
theorem serves_coherently_twice :
    let source : KeywordSource := fun tag =>
      if tag = "xx" then some .empty else Builtin.keywords tag
    let qs : List Request := [.default, .named "XX" ⟨3, 1⟩, .named "en" ⟨4, 2⟩,
      .named "xx" ⟨5, 1⟩, .named "tlh" ⟨6, 1⟩]
    ∃ answers u, serveAll qs ⟨⟨source, "en", []⟩, []⟩ = (answers, u) ∧
      u.asked.count "en" = 1 ∧ u.asked.count "xx" = 2 ∧ u.resolver.cached = 1 ∧
      (∃ d, u.resolver.cache.lookup "en" = some d ∧ d.language = "en") ∧
      ∃ e, (Request.named "tlh" ⟨7, 1⟩).action.run u =
        .error e { u with asked := u.asked ++ ["tlh"] } := by
  intro source qs
  have hen : Resolves ⟨source, "en", []⟩ "en" := by
    have htag : Request.tag "en" .default = "en" := by decide +kernel
    rw [← htag]
    exact (isOk_answer_iff .default).mp (by decide +kernel)
  have hxx : ¬Resolves ⟨source, "en", []⟩ "xx" := by
    have htag : Request.tag "en" (.named "xx" ⟨1, 1⟩) = "xx" := by decide +kernel
    rw [← htag]
    exact mt (isOk_answer_iff (.named "xx" ⟨1, 1⟩)).mpr (by decide +kernel)
  have hkept : ((serveAll qs ⟨⟨source, "en", []⟩, []⟩).2.resolver.cache.lookup "en").isSome :=
    by decide +kernel
  have hfails : ((Request.named "tlh" ⟨7, 1⟩).serve
      (serveAll qs ⟨⟨source, "en", []⟩, []⟩).2).1.isOk = false := by decide +kernel
  rcases hrun : serveAll qs ⟨⟨source, "en", []⟩, []⟩ with ⟨answers, u⟩
  rw [hrun] at hkept hfails
  obtain ⟨-, hcoherent, -, -, hserve, honce, hagain, hcached, -⟩ := serves_coherently rfl hrun
  refine ⟨answers, u, rfl, (honce "en" hen).trans ?_, (hagain "xx" hxx).trans ?_,
    hcached.trans ?_, ?_, ?_⟩
  · decide +kernel
  · decide +kernel
  · decide +kernel
  · obtain ⟨d, hd⟩ := Option.isSome_iff_exists.mp hkept
    exact ⟨d, hd, (hcoherent "en" d hd).1⟩
  · rw [Request.serve] at hfails
    cases hrun : (Request.named "tlh" ⟨7, 1⟩).action.run u with
    | ok d u' =>
        rw [hrun] at hfails
        cases hfails
    | error e u' =>
        obtain rfl := (hserve _).2 e u' hrun
        have htag : Request.tag "en" (.named "tlh" ⟨7, 1⟩) = "tlh" := by decide +kernel
        exact ⟨e, by rw [htag]⟩

end Resolver
end Gherkin
