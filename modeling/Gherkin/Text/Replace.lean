/-!
# Replacing a pattern

The occurrences of a pattern are found from the left and do not overlap: after an occurrence the
search goes on behind it.
-/

namespace Gherkin.Text

/--
Replaces every occurrence of `pattern` by `value`.  The number counts the characters that are
still to be skipped because they belong to an occurrence that has already been replaced.
-/
def replaceFrom (pattern value : List Char) : Nat → List Char → List Char
  | _, [] => []
  | skip + 1, _ :: cs => replaceFrom pattern value skip cs
  | 0, c :: cs =>
    if pattern.isPrefixOf (c :: cs) then
      value ++ replaceFrom pattern value (pattern.length - 1) cs
    else c :: replaceFrom pattern value 0 cs

/-- Replaces every occurrence of the non-empty text `pattern` by `value`, leftmost first. -/
def replace (pattern value cs : List Char) : List Char :=
  replaceFrom pattern value 0 cs

end Gherkin.Text
