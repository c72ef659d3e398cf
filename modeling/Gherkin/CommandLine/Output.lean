import Gherkin.Classification
import Gherkin.CommandLine.Arguments
import Gherkin.Document.Listing
import Gherkin.Parser

/-!
# Output of the command line

Each command reports on its files.  A file that cannot be opened or read is reported in place of
its content, and the files behind it are still dealt with.
-/

namespace Gherkin.CommandLine

/-- What a program has written itself, and the code that it exits with.  The log, which goes to
standard error as well, is left out. -/
structure Output where
  exitCode : Nat := 0
  stdout : String := ""
  stderr : String := ""
deriving DecidableEq

namespace Output

/-- One output behind another; the exit code is that of the first that failed. -/
def append (a b : Output) : Output where
  exitCode := if a.exitCode = 0 then b.exitCode else a.exitCode
  stdout := a.stdout ++ b.stdout
  stderr := a.stderr ++ b.stderr

/-- A file that could not be dealt with. -/
def failed (path message : String) : Output where
  exitCode := 1
  stderr := s!"{path}: {message}\n"

end Output

/-- What opening a file gives: what can be read from it, or a message. -/
abbrev Files :=
  String → Except String Source

/-- The counts in the report on a valid document. -/
def summary (d : Document) : String :=
  match d.feature with
  | none => "no feature"
  | some f =>
    let definitions := f.definitions.length
    s!"{definitions} scenario definition(s), {f.stepCount} step(s), language {f.language}"

/-- The report on one file, and the parser for the next one. -/
def validateFile (files : Files) (p : Parser) (path : String) : Output × Parser :=
  match files path with
  | .error message => (.failed path message, p)
  | .ok source =>
    let report := p.report source
    match report.outcome with
    | .ok d => ({ stderr := s!"{path}: valid ({summary d})\n" }, p.next report)
    | .error failure => (.failed path failure.message, p.next report)

/-- The reports on files, one after the other. -/
def validate (files : Files) (p : Parser) : List String → Output
  | [] => {}
  | path :: paths =>
    let (output, next) := validateFile files p path
    output.append (validate files next paths)

/-- A token on one line: where it stands, its kind, and whatever else it has. -/
def tokenLine (t : Token) : String :=
  let kind := (t.kind?.map TokenKind.name).getD "#None"
  let keyword := String.ofList (Text.trimEnd (t.keyword?.getD "").toList)
  let parts := [t.location.toString, kind, keyword, t.text?.getD ""] ++ t.items.map Span.text
  " ".intercalate (parts.filter fun part => !part.isEmpty)

/-- The tokens of a file, each on a line. -/
def tokens (files : Files) (r : Resolver) (path : String) : Output :=
  match files path with
  | .error message => .failed path message
  | .ok source =>
    match Matcher.start r with
    | .error e => .failed path e.message
    | .ok m =>
      let classified := m.classifyAll 0 source
      let listed : Output :=
        { stdout := String.join (classified.tokens.map fun t => tokenLine t ++ "\n") }
      match classified.failure with
      | none => listed
      | some failure => listed.append (.failed path failure.message)

/-- The listing of the document in a file. -/
def ast (files : Files) (p : Parser) (path : String) : Output :=
  match files path with
  | .error message => .failed path message
  | .ok source =>
    match p.parse source with
    | .ok d => { stdout := String.join (d.listing.map (· ++ "\n")) }
    | .error failure => .failed path failure.message

/-- Runs a command with the built-in languages, one of which is the default. -/
def Command.output (files : Files) (language : String) : Command → Output
  | validate paths =>
    CommandLine.validate files { resolver := Resolver.builtin.withDefaultLanguage language } paths
  | tokens path => CommandLine.tokens files (Resolver.builtin.withDefaultLanguage language) path
  | ast path =>
    CommandLine.ast files { resolver := Resolver.builtin.withDefaultLanguage language } path

/-- What is shown to those who ask for help or use the program wrongly. -/
def usageText : String :=
  "Usage: gherkin [--log-level LEVEL] [--language LANGUAGE] COMMAND FILE...\n\n" ++
  "Commands:\n" ++
  "  validate FILE...  report whether each file is a valid document\n" ++
  "  tokens FILE       list the tokens of a file\n" ++
  "  ast FILE          list the document in a file\n"

/-- Runs a command line whose arguments are read by the given reader. -/
def runWith (read : ArgumentReader) (files : Files) (environment : Option String)
    (arguments : List String) : Output :=
  match read arguments with
  | .error .usage => { exitCode := 2, stderr := usageText }
  | .error .help => { stdout := usageText }
  | .ok (command, options) => command.output files (language options environment)

/-- Runs a command line. -/
def run (files : Files) (environment : Option String) (arguments : List String) : Output :=
  runWith (readArguments {}) files environment arguments

end Gherkin.CommandLine
