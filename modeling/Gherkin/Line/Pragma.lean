import Gherkin.Line

/-!
# Language pragmas

A pragma names the language of a document: `# language: fr`, with any blanks between its parts and
around it.
-/

namespace Gherkin

/-- The characters of a language tag in a pragma. -/
def isTagChar (c : Char) : Bool :=
  c.isAlpha || c == '-' || c == '_'

/-- The language tag that the line names, if it is a pragma. -/
def Line.languageTag? (l : Line) : Option String := do
  let cs ← "#".toList.isPrefixOf? l.trimmed
  let cs ← "language".toList.isPrefixOf? (Text.trimStart cs)
  let cs ← ":".toList.isPrefixOf? (Text.trimStart cs)
  let tag := Text.trim cs
  guard (!tag.isEmpty && tag.all isTagChar)
  return String.ofList tag

end Gherkin
