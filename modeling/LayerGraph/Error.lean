import LayerGraph.Key
import LayerGraph.Record

/-!
# Errors

What makes an operation fail as a whole, with the wording of each cause in one place. Problems that
an operation can go on from are warnings.
-/

namespace LayerGraph

/-- Why a file could not be read or written. -/
inductive FileFault
  | notFound
  | isDirectory
  | notDirectory
  | alreadyExists
  | permissionDenied
  | nameTooLong
  | nulByte
  | notUtf8
deriving DecidableEq, Repr

/-- The wording of a file fault, with the number that the operating system gives it if it is one of
its own. -/
def FileFault.message : FileFault → String
  | notFound => "No such file or directory (os error 2)"
  | isDirectory => "Is a directory (os error 21)"
  | notDirectory => "Not a directory (os error 20)"
  | alreadyExists => "File exists (os error 17)"
  | permissionDenied => "Permission denied (os error 13)"
  | nameTooLong => "File name too long (os error 36)"
  | nulByte => "file name contained an unexpected NUL byte"
  | notUtf8 => "stream did not contain valid UTF-8"

/-- Why a record store refused an operation. -/
inductive RefusalCause
  | noRecord (kind : EntityKind) (name : String)
  | writeRejected (kind : EntityKind) (name : String)
  | other (text : String)
deriving DecidableEq, Repr

/-- The wording of a refusal. -/
def RefusalCause.message : RefusalCause → String
  | noRecord kind name => s!"no record {kind.name}:{name}"
  | writeRejected kind name => s!"write rejected for {kind.name}:{name}"
  | other text => text

/-- Why settings were refused. -/
inductive SettingsFault
  /-- The text is not well formed, or holds something that does not fit. -/
  | unreadable
  | notPositive (key : String)
  | emptyPath (key : String)
  | alreadyInitialized
deriving DecidableEq, Repr

/-- The wording of a settings fault. That of a text that is not well formed is left to the reader of
such texts, and not known here. -/
def SettingsFault.message? : SettingsFault → Option String
  | unreadable => none
  | notPositive key => some s!"{key} must be greater than 0"
  | emptyPath key => some s!"{key} must not be empty"
  | alreadyInitialized =>
    some "Stratum is already initialized in this directory. Found existing 'stratum.yaml'"

/-- Why an operation failed. -/
inductive Error
  | file (fault : FileFault)
  | json (message : String)
  | settings (fault : SettingsFault)
  | refused (cause : RefusalCause)
  | projectNotFound (project : String)
  | invalidProjectName (project : String)
  | invalidKey (input : String) (fault : KeyFault)
  | internal (message : String)
deriving DecidableEq, Repr

/-- The wording of an error. That of settings whose text is not well formed ends where the words of
the reader of such texts would begin. -/
def Error.message : Error → String
  | file fault => s!"I/O error: {fault.message}"
  | json message => s!"JSON error: {message}"
  | settings fault => "configuration error: " ++ fault.message?.getD ""
  | refused cause => s!"record store error: {cause.message}"
  | projectNotFound project => s!"project not found: {project}"
  | invalidProjectName project =>
    s!"invalid project name '{project}': use letters, digits, '-', '_' or '.'"
  | invalidKey input fault => s!"invalid node key '{input}': {fault.reason}"
  | internal message => s!"internal error: {message}"

end LayerGraph
