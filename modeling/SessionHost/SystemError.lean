/-!
# Errors of the operating system

An error of a file, process or connection call: its kind and its text.

Main definitions:

- `ErrorKind`, `SystemError`: kinds of errors, and errors.
- `SystemError.ofKind`: the error that the system reports for a kind.
-/

namespace SessionHost

/-- The kinds of errors that are told apart. -/
inductive ErrorKind where
  | notFound
  | permissionDenied
  | alreadyExists
  | notADirectory
  | isADirectory
  | invalidData
  | invalidInput
  | unexpectedEnd
  | connectionRefused
  | networkUnreachable
  | notConnected
  | other
deriving DecidableEq

/-- An error of the operating system. -/
structure SystemError where
  kind : ErrorKind
  message : String
deriving DecidableEq

/-- The name of a kind. -/
def ErrorKind.name : ErrorKind → String
  | .notFound => "NotFound"
  | .permissionDenied => "PermissionDenied"
  | .alreadyExists => "AlreadyExists"
  | .notADirectory => "NotADirectory"
  | .isADirectory => "IsADirectory"
  | .invalidData => "InvalidData"
  | .invalidInput => "InvalidInput"
  | .unexpectedEnd => "UnexpectedEof"
  | .connectionRefused => "ConnectionRefused"
  | .networkUnreachable => "NetworkUnreachable"
  | .notConnected => "NotConnected"
  | .other => "Other"

/-- The text that the system has for a kind. -/
def ErrorKind.text : ErrorKind → String
  | .notFound => "No such file or directory (os error 2)"
  | .permissionDenied => "Permission denied (os error 13)"
  | .alreadyExists => "File exists (os error 17)"
  | .notADirectory => "Not a directory (os error 20)"
  | .isADirectory => "Is a directory (os error 21)"
  | .invalidData => "stream did not contain valid UTF-8"
  | .invalidInput => "invalid argument"
  | .unexpectedEnd => "unexpected end of file"
  | .connectionRefused => "Connection refused (os error 111)"
  | .networkUnreachable => "Network is unreachable (os error 101)"
  | .notConnected => "Transport endpoint is not connected (os error 107)"
  | .other => "other error"

/-- The error that the system reports for a kind. -/
def SystemError.ofKind (kind : ErrorKind) : SystemError := ⟨kind, kind.text⟩

end SessionHost
