import FilmReport.Report.Export
import FilmReport.Text.Blank
import FilmReport.Text.Pieces

/-!
Arguments of the command line. Options are written `--name value` or `--name=value`; `--skip-setup`
stands alone, nothing else is an argument, and of several values of an option the last counts.
-/

set_option autoImplicit false
set_option relaxedAutoImplicit false

namespace FilmReport.Command

open Shape

/-- An argument as it is read: an option with the name as it was written, or something else. -/
inductive Token where
  | option (name written : String) (value : Option String) (inline : Bool)
  | positional (value : String)
deriving DecidableEq, Repr

/-- Whether an option takes a value; none if there is no such option. -/
def takesValue? (name : String) : Option Bool :=
  if name = "dataset" ∨ name = "db" ∨ name = "export-dir" ∨ name = "formats" then some true
  else if name = "skip-setup" then some false
  else none

/--
The name and the value around the first equals sign; an equals sign that comes first and alone
belongs to a name.
-/
def inlineValue? (body : List Char) : Option (List Char × List Char) :=
  if body.tail.contains '=' then
    some (body.takeWhile (· != '='), (body.dropWhile (· != '=')).tail)
  else none

/-- The tokens of arguments. -/
def tokens : List String → List Token
  | [] => []
  | arg :: rest =>
    match arg.toList with
    | ['-', '-'] => rest.map .positional
    | '-' :: '-' :: body =>
      match inlineValue? body with
      | some (name, value) =>
        let name := String.ofList name
        .option name ("--" ++ name) (some (String.ofList value)) true :: tokens rest
      | none =>
        let name := String.ofList body
        if takesValue? name = some true then
          match rest with
          | value :: rest => .option name arg (some value) false :: tokens rest
          | [] => [.option name arg none false]
        else .option name arg none false :: tokens rest
    | '-' :: letter :: _ =>
      let name := String.singleton letter
      .option name ("-" ++ name) none false :: tokens rest
    | _ => .positional arg :: tokens rest

/-- Why arguments cannot be read. -/
inductive ArgumentError where
  | unknownOption (written : String)
  | missingValue (name : String)
  | superfluousValue (name : String)
  | ambiguousValue (written : String)
  | positional (value : String)
deriving DecidableEq, Repr

def ArgumentError.message : ArgumentError → String
  | unknownOption written => "Unknown option '" ++ written ++ "'"
  | missingValue name => "Option '--" ++ name ++ " <value>' argument missing"
  | superfluousValue name => "Option '--" ++ name ++ "' does not take an argument"
  | ambiguousValue written =>
    "Option '" ++ written ++ "' argument is ambiguous.\n" ++
    "Did you forget to specify the option argument for '" ++ written ++ "'?\n" ++
    "To specify an option argument starting with a dash use '" ++ written ++ "=-XYZ'."
  | positional value =>
    "Unexpected argument '" ++ value ++ "'. This command does not take positional arguments"

/-- Whether a value that stands by itself looks like an option. -/
def looksLikeOption (value : String) : Bool :=
  match value.toList with
  | '-' :: _ :: _ => true
  | _ => false

/-- The name and the value of an option, if it is used as it must be. -/
def Token.read : Token → Except ArgumentError (String × String)
  | positional value => .error (.positional value)
  | option name written value inline =>
    match takesValue? name, value with
    | none, _ => .error (.unknownOption written)
    | some true, none => .error (.missingValue name)
    | some true, some v =>
      if !inline && looksLikeOption v then .error (.ambiguousValue written) else .ok (name, v)
    | some false, some _ => .error (.superfluousValue name)
    | some false, none => .ok (name, "")

/-- The options of arguments by name. -/
def options (argv : List String) : Except ArgumentError (List (String × String)) :=
  (tokens argv).mapM Token.read

/-- What a run is asked for. -/
structure Arguments where
  dataset : Option String
  db : Option String
  exportDir : Option String
  formats : List Report.Format
  skipSetup : Bool
deriving DecidableEq, Repr

namespace Arguments

/-- The names of forms in a text, without blank ones. -/
def formatNames (text : String) : List String :=
  ((Text.splitAt ',' text).map Text.trimSpace).filter fun name => name ≠ ""

def check (given : List (String × String)) : Checked Arguments :=
  let last? (name : String) : Option String :=
    (given.reverse.find? fun o => o.1 = name).map Prod.snd
  let field (name : String) : Option Json := (last? name).map .string
  let formats := (last? "formats").getD "csv,json"
  (fun dataset db exportDir formats =>
      ⟨dataset, db, exportDir, formats, (last? "skip-setup").isSome⟩)
    <$> (optional (text 1) (field "dataset")).within (.field "dataset")
    <*> (optional (text 1) (field "db")).within (.field "db")
    <*> (optional (text 1) (field "export-dir")).within (.field "exportDir")
    <*> (list 1 Report.Format.check (some (.strings (formatNames formats)))).within
      (.field "formats")

/-- What the arguments of a command line ask for. -/
def read (argv : List String) : Except Fault Arguments :=
  match options argv with
  | .error e =>
    .error <| .ofCause .cliArgsInvalid "Unrecognized command line arguments."
      [("argv", .strings argv)] e.message
  | .ok given =>
    match (check given).toExcept with
    | .ok a => .ok a
    | .error issues =>
      .error <| .create .cliArgsInvalid "Command line arguments are invalid."
        [("issues", .array (issues.map Issue.toJson))]

end Arguments
end FilmReport.Command
