/-
One run over files: read the input, work on it, write the output.  Nothing is
written unless the work succeeds.
-/
import FirmwareUpdate.FileSystem
import FirmwareUpdate.Image

namespace FirmwareUpdate

/-- What to do with which files. -/
structure Job where
  settings : Settings
  direction : Direction
  input : String
  output : String
deriving DecidableEq, Repr

/-- Why a job failed. -/
inductive JobError
  | unreadable (path : String) (cause : FileError)
  | image (cause : ImageError)
  | unwritable (path : String) (cause : FileError)
deriving DecidableEq, Repr

namespace JobError

/-- What failed. -/
def headline : JobError → String
  | unreadable path _ => "unable to read " ++ path
  | image cause => cause.message
  | unwritable path _ => "unable to write " ++ path

/-- Why it failed, where the system gave a reason. -/
def cause? : JobError → Option String
  | unreadable _ cause => some cause.message
  | image _ => none
  | unwritable _ cause => some cause.message

/-- The failure and its cause on one line. -/
def message (e : JobError) : String :=
  match e.cause? with
  | none => e.headline
  | some cause => e.headline ++ ": " ++ cause

/-- The report at the end of a failed run. -/
def report (e : JobError) : String :=
  match e.cause? with
  | none => "Error: " ++ e.headline
  | some cause => "Error: " ++ e.headline ++ "\n\nCaused by:\n    " ++ cause

end JobError

namespace Job

/-- The output content for an input content. -/
def transform (job : Job) (content : Bytes) : Except JobError Bytes :=
  match Image.process job.settings job.direction content with
  | .error e => .error (.image e)
  | .ok result => .ok result

/-- Carry out a job on files: the number of bytes written and the files afterwards. -/
def run (job : Job) (fs : FileSystem) : Except JobError (Nat × FileSystem) :=
  match fs.read job.input with
  | .error e => .error (.unreadable job.input e)
  | .ok content =>
      match job.transform content with
      | .error e => .error e
      | .ok result =>
          match fs.write job.output result with
          | .error e => .error (.unwritable job.output e)
          | .ok fs => .ok (result.length, fs)

end Job

end FirmwareUpdate
