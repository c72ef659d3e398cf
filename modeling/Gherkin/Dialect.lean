import Gherkin.Keyword
import Gherkin.Location

/-!
# Dialects

A dialect is a language together with its keywords for every kind, where the composite kind lists
the keywords of its components.  A dialect can be used only if no kind is without keywords.
-/

namespace Gherkin

/-- A language and the keywords that it has for every kind. -/
structure Dialect where
  language : String
  keywords : KeywordKind → List String

namespace Dialect

/-- The dialect of a language whose keywords a table lists. -/
def ofMap (language : String) (map : KeywordMap) : Dialect where
  language := language
  keywords kind := kind.components.flatMap map.keywords

/-- The kinds that have no keywords. -/
def missing (d : Dialect) : List KeywordKind :=
  KeywordKind.all.filter fun kind => (d.keywords kind).isEmpty

end Dialect

/-- Why a language cannot be used. -/
inductive DialectFault where
  /-- There is no keyword table for the language. -/
  | unsupported
  /-- The keyword table leaves kinds without keywords. -/
  | incomplete (missing : List KeywordKind)
deriving DecidableEq

/-- The first words of the error message; the language follows them. -/
def DialectFault.message : DialectFault → String
  | unsupported => "language not supported"
  | incomplete missing =>
    "incomplete keyword map, no keywords for " ++
      ", ".intercalate (missing.map KeywordKind.key) ++ " in language"

/-- A language that cannot be used, and the place that asked for it. -/
structure DialectError where
  fault : DialectFault
  language : String
  location : Location
deriving DecidableEq

/-- The error message names the fault, the language and the place. -/
def DialectError.message (e : DialectError) : String :=
  s!"{e.fault.message}: {e.language} {e.location.inWords}"

end Gherkin
