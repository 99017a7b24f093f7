/-
The program: read the command line and carry out its job on the files of the system.
-/
import FirmwareUpdate.CommandLine

namespace FirmwareUpdate

/-- A failure with the number and text that the system gives.  Some numbers come
with their sign changed and their text in small letters. -/
def FileError.ofCode (code : UInt32) (text : String) : FileError :=
  .system (if code < 0x80000000 then code else 0 - code).toNat text.capitalize

/-- The reason that the system gives for a failed file operation. -/
def FileError.ofSystem (e : IO.Error) : FileError :=
  match e with
  | .noFileOrDirectory _ code details
  | .permissionDenied _ code details
  | .inappropriateType _ code details
  | .invalidArgument _ code details
  | .resourceExhausted _ code details
  | .otherError code details => .ofCode code details
  | e => .system 5 (toString e)

namespace CommandLine

/-- Print an outcome and give its exit code. -/
def Outcome.print (outcome : Outcome) : IO UInt32 := do
  (← IO.getStdout).putStr outcome.output
  unless outcome.errors.isEmpty do
    (← IO.getStderr).putStrLn outcome.errors
  return outcome.exitCode.toUInt32

/-- Write a file and see to it that the system has taken all of it. -/
def writeAll (path : String) (content : Bytes) : IO Unit :=
  IO.FS.withFile path .write fun handle => do
    handle.write ⟨content.toArray⟩
    handle.flush

/-- Carry out a job on the files of the system. -/
def perform (job : Job) (cipherName : String) : IO Outcome := do
  match ← (IO.FS.readBinFile job.input).toBaseIO with
  | .error e => return failure (.unreadable job.input (.ofSystem e))
  | .ok content =>
      match job.transform content.toList with
      | .error e => return failure e
      | .ok result =>
          match ← (writeAll job.output result).toBaseIO with
          | .error e => return failure (.unwritable job.output (.ofSystem e))
          | .ok _ => return ⟨0, summary result.length cipherName, ""⟩

/-- Do what the arguments ask for. -/
def execute (args : List String) : IO UInt32 := do
  match parse args with
  | .error stop => stop.outcome.print
  | .ok job =>
      match job.settings.name with
      | .error e => (failure (.image e)).print
      | .ok name => (← perform job name).print

end CommandLine

end FirmwareUpdate

/-- Run the program. -/
def main (args : List String) : IO UInt32 :=
  FirmwareUpdate.CommandLine.execute args
