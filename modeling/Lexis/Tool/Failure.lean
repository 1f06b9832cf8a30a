import Lexis.Lexer.Error
import Lexis.Source.Map

/-!
# Failures of the tool

Why a command of the tool did not succeed.

* `IoError`: why a file could not be read or written.
* `Failure.message`: the failure in one line.
* `Failure.describe`: the failure with its class, as it stands on the last line of a run.
-/

namespace Lexis

/-- Why a file could not be read or written. -/
inductive IoError where
  /-- Nothing has the name. -/
  | notFound
  /-- The name of a directory to make is taken. -/
  | alreadyExists
  /-- A directory in the path is none. -/
  | notDirectory
  /-- The name of a file is that of a directory. -/
  | isDirectory
  /-- A name, or the whole path, is too long. -/
  | nameTooLong
  /-- The path has a character with which no name can be given to the system. -/
  | nulInName
  /-- The bytes are not the encoding of a text. -/
  | notText
  /-- Access is refused. -/
  | refused
  deriving DecidableEq, Repr

namespace IoError

/-- The class of an error. -/
def kind : IoError → String
  | .notFound => "NotFound"
  | .alreadyExists => "AlreadyExists"
  | .notDirectory => "NotADirectory"
  | .isDirectory => "IsADirectory"
  | .nameTooLong => "InvalidFilename"
  | .nulInName => "InvalidInput"
  | .notText => "InvalidData"
  | .refused => "PermissionDenied"

/-- The words for an error. -/
def words : IoError → String
  | .notFound => "No such file or directory"
  | .alreadyExists => "File exists"
  | .notDirectory => "Not a directory"
  | .isDirectory => "Is a directory"
  | .nameTooLong => "File name too long"
  | .nulInName => "file name contained an unexpected NUL byte"
  | .notText => "stream did not contain valid UTF-8"
  | .refused => "Permission denied"

/-- The number of an error that the system reports. -/
def number? : IoError → Option Nat
  | .notFound => some 2
  | .refused => some 13
  | .alreadyExists => some 17
  | .notDirectory => some 20
  | .isDirectory => some 21
  | .nameTooLong => some 36
  | .nulInName | .notText => none

/-- The error in one line. -/
def message (e : IoError) : String :=
  match e.number? with
  | some number => e.words ++ " (os error " ++ toString number ++ ")"
  | none => e.words

/-- The error with its class. -/
def describe (e : IoError) : String :=
  let front := match e.number? with
    | some number => "Os \x7b code: " ++ toString number ++ ", kind: "
    | none => "Error \x7b kind: "
  front ++ e.kind ++ ", message: " ++ Quoted.display e.words.toList ++ " \x7d"

end IoError

/-- Why a command did not succeed. -/
inductive Failure where
  /-- The settings are to be read from a file that is not there. -/
  | settingsMissing (path : String)
  /-- The settings cannot be read or written. -/
  | settingsAccess (error : IoError)
  /-- The settings are not a valid document. -/
  | settingsInvalid
  /-- A source file cannot be read. -/
  | unreadable (path : String) (error : IoError)
  /-- No source files are given. -/
  | noFiles
  /-- Files are to be checked by no job at all. -/
  | noJobs
  /-- Some source files have errors. -/
  | rejected (files : Nat)
  /-- A source file has a lexical error. -/
  | lexical (error : LexError)
  /-- A file number is unknown. -/
  | unknownFile (error : FileNotFound)
  deriving DecidableEq, Repr

namespace Failure

/-- The class of a failure, its name and the words in front of the message. -/
def category : Failure → String × String
  | .settingsMissing _ => ("Config", "Configuration error")
  | .settingsAccess _ => ("Io", "IO error")
  | .settingsInvalid => ("TomlParse", "TOML parse error")
  | .unreadable .. => ("FileOperation", "File operation failed")
  | .noFiles | .noJobs | .rejected _ => ("Validation", "Validation error")
  | .lexical _ => ("Lex", "Lexical error")
  | .unknownFile _ => ("SourceMap", "Source map error")

/-- What happened, without the class. -/
def detail : Failure → String
  | .settingsMissing path => "Configuration file not found: " ++ path
  | .settingsAccess error => error.message
  | .settingsInvalid => ""
  | .unreadable path error => "Cannot read " ++ path ++ ": " ++ error.message
  | .noFiles => "No input files specified"
  | .noJobs => "Number of jobs must be at least 1"
  | .rejected files => toString files ++ " file(s) with lexical errors"
  | .lexical error => error.message
  | .unknownFile error => error.message

/-- The failure in one line. -/
def message (f : Failure) : String := f.category.2 ++ ": " ++ f.detail

/-- The failure with its class. What is wrong with an invalid document is not told. -/
def describe (f : Failure) : String :=
  match f with
  | .settingsInvalid => f.category.1
  | .settingsAccess error => f.category.1 ++ "(" ++ error.describe ++ ")"
  | .lexical error => f.category.1 ++ "(" ++ error.describe ++ ")"
  | .unknownFile error =>
    f.category.1 ++ "(FileNotFound(" ++ Quoted.display error.id.display.toList ++ "))"
  | _ => f.category.1 ++ "(" ++ Quoted.display f.detail.toList ++ ")"

end Failure

/-- A source file that is given to a command: its name, and its text or why there is none. -/
structure Input where
  /-- The name, as it was given. -/
  name : String
  /-- The text. -/
  content : Except IoError Text

/-- The text of an input, or the failure to read it. -/
def Input.read (input : Input) : Except Failure Text :=
  match input.content with
  | .ok text => .ok text
  | .error error => .error (.unreadable input.name error)

end Lexis
