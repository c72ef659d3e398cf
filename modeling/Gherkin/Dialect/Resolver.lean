import Gherkin.Dialect
import Gherkin.LanguageTag

/-!
# Resolving languages

A resolver turns language tags into dialects.  It looks a tag up by its normal form and keeps the
dialects that it has resolved, so that its source is asked once for each of them.  A language that
cannot be used is not kept.
-/

namespace Gherkin

/-- The language of documents that do not name one. -/
def defaultLanguage : String :=
  "en"

/-- A source of keyword tables with the dialects that were resolved from it, latest first. -/
structure Resolver where
  source : KeywordSource
  defaultLanguage : String
  cache : List (String × Dialect)

/-- What becomes of a language tag in normal form. -/
inductive Resolution where
  /-- The dialect is kept already. -/
  | known (dialect : Dialect)
  /-- The source has a table, and it lists keywords for every kind. -/
  | resolved (dialect : Dialect)
  /-- The source has a table, but some kinds have no keywords. -/
  | incomplete (missing : List KeywordKind)
  /-- The source has no table. -/
  | unsupported

namespace Resolver

/-- A resolver that has not resolved anything yet. -/
def ofSource (source : KeywordSource) : Resolver where
  source := source
  defaultLanguage := Gherkin.defaultLanguage
  cache := []

/-- The resolver with another default language, which is kept in normal form. -/
def withDefaultLanguage (r : Resolver) (language : String) : Resolver :=
  { r with defaultLanguage := LanguageTag.normalize language }

/-- The number of dialects that the resolver keeps. -/
def cached (r : Resolver) : Nat :=
  r.cache.length

/-- What the source has for a tag in normal form. -/
def consult (r : Resolver) (tag : String) : Resolution :=
  match r.source tag with
  | none => .unsupported
  | some map =>
    match (Dialect.ofMap tag map).missing with
    | [] => .resolved (Dialect.ofMap tag map)
    | missing => .incomplete missing

/-- What becomes of a tag in normal form: a dialect that is kept needs no source. -/
def resolution (r : Resolver) (tag : String) : Resolution :=
  match r.cache.lookup tag with
  | some dialect => .known dialect
  | none => r.consult tag

/--
The dialect for a language tag, and the resolver that keeps it.  The location is that of the
request and goes into the error; after an error nothing has changed.
-/
def resolve (r : Resolver) (language : String) (location : Location) :
    Except DialectError (Dialect × Resolver) :=
  let tag := LanguageTag.normalize language
  match r.resolution tag with
  | .known dialect => .ok (dialect, r)
  | .resolved dialect => .ok (dialect, { r with cache := (tag, dialect) :: r.cache })
  | .incomplete missing => .error ⟨.incomplete missing, tag, location⟩
  | .unsupported => .error ⟨.unsupported, tag, location⟩

/-- The dialect of the default language; an error stands at the start of the document. -/
def resolveDefault (r : Resolver) : Except DialectError (Dialect × Resolver) :=
  r.resolve r.defaultLanguage ⟨1, 1⟩

/-- The tags that a request for a language asks the source for: none when the dialect is kept. -/
def lookups (r : Resolver) (language : String) : List String :=
  let tag := LanguageTag.normalize language
  match r.resolution tag with
  | .known _ => []
  | _ => [tag]

end Resolver
end Gherkin
