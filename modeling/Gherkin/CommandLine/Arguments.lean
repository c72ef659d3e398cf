import Gherkin.Dialect.Resolver

/-!
# Arguments of the command line

A command line names a command and its files, and may set options in front of the command or
behind it.  What is set behind the command counts first.  Behind `--` everything is a file.
-/

namespace Gherkin.CommandLine

/-- What to do with which files. -/
inductive Command where
  | validate (files : List String)
  | tokens (file : String)
  | ast (file : String)
deriving DecidableEq

/-- The commands, without their files. -/
inductive CommandName where
  | validate
  | tokens
  | ast
deriving DecidableEq

/-- Why no command is run: its arguments are wrong, or they ask for help. -/
inductive Refusal where
  | usage
  | help
deriving DecidableEq

/-- The options that have been set. -/
structure Options where
  language : Option String := none
  logLevel : Option String := none
deriving DecidableEq

namespace Options

/-- Sets an option by its name.  An option can be set only once in one place. -/
def set (o : Options) (name value : String) : Except Refusal Options :=
  match name, o.language, o.logLevel with
  | "language", none, _ => .ok { o with language := some value }
  | "log-level", _, none => .ok { o with logLevel := some value }
  | _, _, _ => .error .usage

/-- The options where those set behind the command replace those set in front of it. -/
def override (outer inner : Options) : Options where
  language := inner.language.or outer.language
  logLevel := inner.logLevel.or outer.logLevel

end Options

/-- The forms of an argument. -/
inductive Argument where
  /-- A command, a file or the value of an option. -/
  | word (s : String)
  /-- Two hyphens. -/
  | filesOnly
  /-- A long option, whose value follows as the next argument. -/
  | flag (name : String)
  /-- A long option with its value. -/
  | assigned (name value : String)
  /-- Options of one letter each. -/
  | short (letters : String)
deriving DecidableEq

/-- An argument is an option when it starts with a hyphen and does not end there. -/
def Argument.ofString (s : String) : Argument :=
  match s.toList with
  | ['-', '-'] => .filesOnly
  | '-' :: '-' :: cs =>
    let name := cs.takeWhile (· != '=')
    match cs.dropWhile (· != '=') with
    | [] => .flag (String.ofList name)
    | _ :: value => .assigned (String.ofList name) (String.ofList value)
  | '-' :: c :: cs => .short (String.ofList (c :: cs))
  | _ => .word s

/-- The value of an option must not look like an option itself. -/
def isValue (s : String) : Bool :=
  match Argument.ofString s with
  | .word _ => true
  | _ => false

/-- The options that take a value. -/
def takesValue (name : String) : Bool :=
  name == "language" || name == "log-level"

namespace CommandName

/-- The command with a name. -/
def ofString? : String → Option CommandName
  | "validate" => some validate
  | "tokens" => some tokens
  | "ast" => some ast
  | _ => none

/-- Adds a file, whose name must not be empty.  Only `validate` takes more than one file. -/
def addFile (c : CommandName) (files : List String) (file : String) :
    Except Refusal (List String) :=
  if file.isEmpty || (c != validate && !files.isEmpty) then .error .usage
  else .ok (files ++ [file])

/-- The command on its files, of which there must be one at least. -/
def onFiles (c : CommandName) (files : List String) : Except Refusal Command :=
  match c, files with
  | validate, _ :: _ => .ok (.validate files)
  | tokens, [file] => .ok (.tokens file)
  | ast, [file] => .ok (.ast file)
  | _, _ => .error .usage

end CommandName

/--
Collects the files and the options behind a command.  What is wrong in front of a request for help
is found first.
-/
def filesAndOptions (c : CommandName) (files : List String) (o : Options) :
    List String → Except Refusal (List String × Options)
  | [] => .ok (files, o)
  | s :: rest =>
    match Argument.ofString s with
    | .filesOnly => do return (← rest.foldlM c.addFile files, o)
    | .word _ => do filesAndOptions c (← c.addFile files s) o rest
    | .assigned name value => do filesAndOptions c files (← o.set name value) rest
    | .short letters => .error (if letters.startsWith "h" then .help else .usage)
    | .flag name =>
      if name = "help" then .error .help
      else
        match rest with
        | value :: rest =>
          if takesValue name && isValue value then do
            filesAndOptions c files (← o.set name value) rest
          else .error .usage
        | [] => .error .usage

/-- The command `help` may be followed by the name of one command. -/
def asksForHelp (name : String) (rest : List String) : Bool :=
  name == "help" && rest.length ≤ 1 &&
    rest.all fun s => (CommandName.ofString? s).isSome || s == "help"

/-- A reader of command lines. -/
abbrev ArgumentReader :=
  List String → Except Refusal (Command × Options)

/-- Reads a command line, where `outer` holds the options read so far. -/
def readArguments (outer : Options) : ArgumentReader
  | [] => .error .usage
  | s :: rest =>
    match Argument.ofString s with
    | .filesOnly => .error .usage
    | .word name =>
      match CommandName.ofString? name with
      | some c => do
        let (files, inner) ← filesAndOptions c [] {} rest
        return (← c.onFiles files, outer.override inner)
      | none => .error (if asksForHelp name rest then .help else .usage)
    | .assigned name value => do readArguments (← outer.set name value) rest
    | .short letters =>
      .error (if letters.startsWith "h" || letters.startsWith "V" then .help else .usage)
    | .flag name =>
      if name = "help" || name = "version" then .error .help
      else
        match rest with
        | value :: rest =>
          if takesValue name && isValue value then do
            readArguments (← outer.set name value) rest
          else .error .usage
        | [] => .error .usage

/--
The default language of documents: what the arguments say, or else the environment, or else the
language of documents that do not name one.
-/
def language (o : Options) (environment : Option String) : String :=
  (o.language.or environment).getD defaultLanguage

end Gherkin.CommandLine
