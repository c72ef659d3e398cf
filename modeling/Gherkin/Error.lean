import Gherkin.Dialect
import Gherkin.Token

/-!
# Errors

A document can fail in three ways: its source cannot be read, its language cannot be used, or its
lines do not fit the grammar.  Only errors of the last kind are collected.
-/

namespace Gherkin

/-- Why a line could not be read. -/
inductive ReadFault where
  /-- The bytes of the line are not valid UTF-8. -/
  | invalidText
  /-- The source failed, in its own words. -/
  | source (message : String)
deriving DecidableEq

/-- What a reader says about the fault; a failing source speaks for itself. -/
def ReadFault.message : ReadFault → String
  | invalidText => "stream did not contain valid UTF-8"
  | source message => message

/-- A line that could not be read. -/
structure ScanError where
  line : Nat
  fault : ReadFault
deriving DecidableEq

/-- The error message names the line; the reason stands apart from it. -/
def ScanError.message (e : ScanError) : String :=
  s!"failed to read line {e.line}"

/-- How lines can fail to fit the grammar. -/
inductive SyntaxFault where
  /-- A line is of none of the expected kinds. -/
  | unexpectedToken (expected : List TokenKind) (found : String)
  /-- The source ends where a line is expected. -/
  | unexpectedEof (expected : List TokenKind)
  /-- A table row has another number of cells than the first row. -/
  | unevenTable (expected found : Nat)
deriving DecidableEq

/-- The names of kinds of tokens, separated by commas. -/
def TokenKind.nameList (kinds : List TokenKind) : String :=
  ", ".intercalate (kinds.map TokenKind.name)

/-- The first words of the error message; the place follows them. -/
def SyntaxFault.message : SyntaxFault → String
  | unexpectedToken expected found =>
    s!"expected: {TokenKind.nameList expected}, got '{found}'"
  | unexpectedEof expected =>
    s!"unexpected end of file, expected: {TokenKind.nameList expected}"
  | unevenTable expected found =>
    s!"inconsistent cell count within the table, expected {expected} cells, found {found}"

/-- A place where the lines do not fit the grammar. -/
structure SyntaxError where
  fault : SyntaxFault
  location : Location
deriving DecidableEq

/-- The error message names the fault and the place. -/
def SyntaxError.message (e : SyntaxError) : String :=
  s!"{e.fault.message} {e.location.inWords}"

/-- Why a document has not been read. -/
inductive Failure where
  | scan (error : ScanError)
  | dialect (error : DialectError)
  | parse (errors : List SyntaxError)
deriving DecidableEq

namespace Failure

/-- The error message; the syntax errors stand below each other. -/
def message : Failure → String
  | scan error => error.message
  | dialect error => error.message
  | parse errors => "parser errors:" ++ String.join (errors.map fun e => "\n  " ++ e.message)

/-- The places that a failure points at. -/
def locations : Failure → List Location
  | scan _ => []
  | dialect error => [error.location]
  | parse errors => errors.map SyntaxError.location

end Failure
end Gherkin
