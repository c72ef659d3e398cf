import Gherkin.Text.Blank

/-!
# Language tags

A language tag has parts separated by hyphens or underscores.  Its normal form joins them by
hyphens in the usual case: a language in small letters, a region of two letters in capitals, a
script of four letters with a capital in front.
-/

namespace Gherkin.LanguageTag

/-- The separators between the parts of a tag. -/
def isSeparator (c : Char) : Bool :=
  c == '-' || c == '_'

/-- The parts of a tag; empty parts do not count. -/
def parts (tag : List Char) : List (List Char) :=
  (tag.splitOnP isSeparator).filter fun part => !part.isEmpty

/-- The number of bytes of a text in UTF-8. -/
def byteLength (cs : List Char) : Nat :=
  cs.foldr (fun c n => c.utf8Size + n) 0

/-- The usual case of a part that is not the first one; only ASCII letters have a case here. -/
def recase (part : List Char) : List Char :=
  if byteLength part = 2 then part.map Char.toUpper
  else if byteLength part = 4 then
    match part with
    | [] => []
    | c :: cs => c.toUpper :: cs.map Char.toLower
  else part.map Char.toLower

/-- The parts of a tag in their usual case. -/
def recaseParts : List (List Char) → List (List Char)
  | [] => []
  | language :: subtags => language.map Char.toLower :: subtags.map recase

/-- The normal form of a language tag. -/
def normalize (tag : String) : String :=
  String.ofList (['-'].intercalate (recaseParts (parts (Text.trim tag.toList))))

/-- The part of a tag in front of its first hyphen. -/
def primary (tag : String) : String :=
  String.ofList (tag.toList.takeWhile (· != '-'))

end Gherkin.LanguageTag
