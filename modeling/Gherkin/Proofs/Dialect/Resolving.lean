import Gherkin.Dialect.Resolver

/-!
# Resolving again

A resolver that keeps a dialect resolves every language to the dialect that it
would have resolved it to before.  When it keeps only what its source has, it
answers as its source does.
-/

namespace Gherkin

/-- The dialect that a resolution comes to, or why the language with the tag cannot be used. -/
def Resolution.dialect (resolution : Resolution) (tag : String) (location : Location) :
    Except DialectError Dialect :=
  match resolution with
  | known dialect | resolved dialect => .ok dialect
  | incomplete missing => .error ⟨.incomplete missing, tag, location⟩
  | unsupported => .error ⟨.unsupported, tag, location⟩

namespace Resolver

/-- The dialect for a language tag, or why the language cannot be used. -/
def dialectFor (r : Resolver) (language : String) (location : Location) :
    Except DialectError Dialect :=
  (r.resolve language location).map Prod.fst

variable {r r' : Resolver} {language : String} {location : Location} {d : Dialect}

theorem dialectFor_eq (r : Resolver) (language : String) (location : Location) :
    r.dialectFor language location =
      (r.resolution (LanguageTag.normalize language)).dialect (LanguageTag.normalize language)
        location := by
  rw [dialectFor, resolve]
  cases r.resolution (LanguageTag.normalize language) <;> rfl

/-- The error names the normal form of the tag and the place that asked for it. -/
theorem eq_of_dialectFor_eq_error {e : DialectError}
    (h : r.dialectFor language location = .error e) :
    e.language = LanguageTag.normalize language ∧ e.location = location := by
  rw [dialectFor_eq] at h
  cases hresolution : r.resolution (LanguageTag.normalize language) <;> rw [hresolution] at h <;>
    cases h
  · exact ⟨rfl, rfl⟩
  · exact ⟨rfl, rfl⟩

theorem dialectFor_of_resolve (h : r.resolve language location = .ok (d, r')) :
    r.dialectFor language location = .ok d := by
  rw [dialectFor, h]
  rfl

theorem consult_ne_known (r : Resolver) (tag : String) (d : Dialect) :
    r.consult tag ≠ .known d := by
  rw [consult]
  split
  · exact Resolution.noConfusion
  · split <;> exact Resolution.noConfusion

theorem language_of_consult {tag : String} (h : r.consult tag = .resolved d) :
    d.language = tag := by
  rw [consult] at h
  split at h
  · cases h
  · split at h
    · cases h
      rfl
    · cases h

/-- A dialect that is resolved has been kept, or the source has it and it is kept now. -/
theorem kept_of_resolve (h : r.resolve language location = .ok (d, r')) :
    let tag := LanguageTag.normalize language
    r' = r ∧ r.cache.lookup tag = some d ∨
      r' = { r with cache := (tag, d) :: r.cache } ∧ r.cache.lookup tag = none ∧
        r.consult tag = .resolved d := by
  intro tag
  rw [resolve] at h
  cases hlookup : r.cache.lookup tag with
  | some dialect =>
      have hknown : r.resolution tag = .known dialect := by rw [resolution, hlookup]
      rw [hknown] at h
      cases h
      exact .inl ⟨rfl, rfl⟩
  | none =>
      have hconsult : r.resolution tag = r.consult tag := by rw [resolution, hlookup]
      right
      rw [hconsult] at h
      cases hsource : r.consult tag with
      | known dialect => exact absurd hsource (r.consult_ne_known tag dialect)
      | resolved dialect =>
          rw [hsource] at h
          cases h
          exact ⟨rfl, rfl, rfl⟩
      | incomplete missing =>
          rw [hsource] at h
          cases h
      | unsupported =>
          rw [hsource] at h
          cases h

theorem frame_of_resolve (h : r.resolve language location = .ok (d, r')) :
    r'.source = r.source ∧ r'.defaultLanguage = r.defaultLanguage := by
  rcases kept_of_resolve h with ⟨rfl, -⟩ | ⟨rfl, -, -⟩
  · exact ⟨rfl, rfl⟩
  · exact ⟨rfl, rfl⟩

theorem lookup_of_resolve (h : r.resolve language location = .ok (d, r')) :
    r'.cache.lookup (LanguageTag.normalize language) = some d := by
  rcases kept_of_resolve h with ⟨rfl, hlookup⟩ | ⟨rfl, -, -⟩
  · exact hlookup
  · exact List.lookup_cons_self

/-- A dialect that is kept is given again. -/
theorem resolve_of_kept (h : r.resolve language location = .ok (d, r')) (place : Location) :
    r'.resolve language place = .ok (d, r') := by
  rw [resolve, resolution, lookup_of_resolve h]

/-- Keeping a dialect changes no answer. -/
theorem dialectFor_of_kept (h : r.resolve language location = .ok (d, r')) (other : String)
    (place : Location) : r'.dialectFor other place = r.dialectFor other place := by
  rcases kept_of_resolve h with ⟨rfl, -⟩ | ⟨rfl, hlookup, hconsult⟩
  · rfl
  · rw [dialectFor_eq, dialectFor_eq, resolution, resolution, List.lookup_cons]
    cases hsame : LanguageTag.normalize other == LanguageTag.normalize language with
    | false => rfl
    | true =>
        rw [eq_of_beq hsame, hlookup, hconsult]
        rfl

/-! ### Resolvers that keep what their source has -/

/-- Every dialect that is kept is the one that the source has. -/
def Coherent (r : Resolver) : Prop :=
  ∀ tag d, r.cache.lookup tag = some d → r.consult tag = .resolved d

/-- The resolver before it has resolved anything. -/
def fresh (r : Resolver) : Resolver :=
  { r with cache := [] }

theorem coherent_fresh (r : Resolver) : r.fresh.Coherent := by
  intro tag d h
  cases h

theorem coherent_ofSource (source : KeywordSource) : (ofSource source).Coherent := by
  intro tag d h
  cases h

/-- Another default language does not change what is kept. -/
theorem Coherent.withDefaultLanguage (hr : r.Coherent) (tag : String) :
    (r.withDefaultLanguage tag).Coherent := by
  intro k d hlookup
  rw [Resolver.withDefaultLanguage] at hlookup ⊢
  rw [← hr k d hlookup, consult, consult]

/-- Resolving keeps a resolver coherent. -/
theorem Coherent.of_resolve (hr : r.Coherent) (h : r.resolve language location = .ok (d, r')) :
    r'.Coherent := by
  rcases kept_of_resolve h with ⟨rfl, -⟩ | ⟨rfl, -, hconsult⟩
  · exact hr
  · intro tag other hlookup
    rw [List.lookup_cons] at hlookup
    split at hlookup
    · next hsame =>
        obtain rfl := Option.some.inj hlookup
        rw [eq_of_beq hsame]
        exact hconsult
    · exact hr tag other hlookup

/-- A dialect of a coherent resolver is named by the normal form of the tag that was asked for. -/
theorem Coherent.language_eq (hr : r.Coherent) (h : r.resolve language location = .ok (d, r')) :
    d.language = LanguageTag.normalize language := by
  have hconsult : r.consult (LanguageTag.normalize language) = .resolved d := by
    rcases kept_of_resolve h with ⟨-, hlookup⟩ | ⟨-, -, hconsult⟩
    · exact hr _ d hlookup
    · exact hconsult
  exact language_of_consult hconsult

/-- A coherent resolver answers as its source does. -/
theorem Coherent.dialectFor_eq_consult (hr : r.Coherent) (language : String)
    (location : Location) :
    r.dialectFor language location =
      (r.consult (LanguageTag.normalize language)).dialect (LanguageTag.normalize language)
        location := by
  rw [dialectFor_eq, resolution]
  cases hlookup : r.cache.lookup (LanguageTag.normalize language) with
  | none => rfl
  | some dialect =>
      rw [hr _ dialect hlookup]
      rfl

/-- A source is consulted for one tag at a time. -/
theorem consult_congr {s : Resolver} {tag : String} (h : r.source tag = s.source tag) :
    r.consult tag = s.consult tag := by
  rw [consult, consult, h]

/-! ### Resolvers that answer alike -/

/-- Two resolvers give the same answers for languages with a property. -/
def AgreesOn (P : String → Prop) (r s : Resolver) : Prop :=
  ∀ language, P language → ∀ location,
    r.dialectFor language location = s.dialectFor language location

variable {P : String → Prop} {s s' : Resolver} {d' : Dialect}

theorem AgreesOn.of_resolve (h : r.AgreesOn P s) (hr : r.resolve language location = .ok (d, r'))
    (hs : s.resolve language location = .ok (d', s')) : r'.AgreesOn P s' := by
  intro other hother place
  rw [dialectFor_of_kept hr, dialectFor_of_kept hs]
  exact h other hother place

/-- Coherent resolvers answer alike where their sources have the same tables. -/
theorem Coherent.agreesOn (hr : r.Coherent) (hs : s.Coherent)
    (h : ∀ language, P language →
      r.source (LanguageTag.normalize language) = s.source (LanguageTag.normalize language)) :
    r.AgreesOn P s := by
  intro language hlanguage place
  rw [hr.dialectFor_eq_consult, hs.dialectFor_eq_consult, consult_congr (h language hlanguage)]

/-- Resolvers that answer alike resolve a language to the same dialect, or to no dialect for the
same reason. -/
theorem AgreesOn.resolve (h : r.AgreesOn P s) (hlanguage : P language) (location : Location) :
    (∃ e, r.resolve language location = .error e ∧ s.resolve language location = .error e) ∨
      ∃ d r' s', r.resolve language location = .ok (d, r') ∧
        s.resolve language location = .ok (d, s') ∧ r'.AgreesOn P s' := by
  have hsame := h language hlanguage location
  rw [dialectFor, dialectFor] at hsame
  rcases hr : r.resolve language location with e | ⟨d, r'⟩ <;>
    rcases hs : s.resolve language location with e' | ⟨d', s'⟩ <;> rw [hr, hs] at hsame
  · obtain rfl := Except.error.inj hsame
    exact .inl ⟨e, rfl, rfl⟩
  · cases hsame
  · cases hsame
  · obtain rfl := Except.ok.inj hsame
    exact .inr ⟨d, r', s', rfl, rfl, h.of_resolve hr hs⟩

end Resolver
end Gherkin
