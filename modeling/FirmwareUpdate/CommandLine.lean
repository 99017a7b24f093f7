/-
The program on the command line: what it prints, how it exits and what it leaves
in the directory.
-/
import FirmwareUpdate.CommandLine.Parse

namespace FirmwareUpdate

namespace CommandLine

/-- The name and version line. -/
def versionText : String := "sdfu-encrypter 0.1.0\n"

/-- The text shown on request. -/
def helpText : String :=
  "Encrypt firmware images for the secure DFU bootloader\n\n"
    ++ "Usage: sdfu-encrypter [OPTIONS] --input <INPUT> --output <OUTPUT> "
    ++ "<--encrypt|--decrypt>\n\n"
    ++ "Options:\n"
    ++ "  -e, --encrypt              Encrypt the input file\n"
    ++ "  -d, --decrypt              Decrypt the input file\n"
    ++ "  -c, --no-checksum          Do not append or verify the checksum\n"
    ++ "  -i, --input <INPUT>        Input file\n"
    ++ "  -o, --output <OUTPUT>      Output file\n"
    ++ "      --cipher <CIPHER>      Cipher, by id or name (default: the compiled-in one)\n"
    ++ "      --mode <MODE>          Chaining mode for block ciphers "
    ++ "(default: the compiled-in one)\n"
    ++ "      --checksum <CHECKSUM>  Checksum algorithm or \"none\" "
    ++ "(default: the compiled-in one)\n"
    ++ "  -h, --help                 Print help\n"
    ++ "  -V, --version              Print version\n"

/-- What a run of the program shows to its caller. -/
structure Outcome where
  exitCode : UInt8
  output : String
  errors : String
deriving DecidableEq, Repr

/-- The outcome of a line that asks for no job. -/
def Stop.outcome : Stop → Outcome
  | misuse e => ⟨2, "", e.report⟩
  | help => ⟨0, helpText, ""⟩
  | version => ⟨0, versionText, ""⟩

/-- The summary of a job that wrote `written` bytes. -/
def summary (written : Nat) (cipherName : String) : String :=
  "Processed " ++ toString written ++ " bytes use " ++ cipherName ++ "\n"

/-- The outcome of a job that failed. -/
def failure (e : JobError) : Outcome :=
  ⟨1, "", e.report⟩

/-- Run the program on files. -/
def run (args : List String) (fs : FileSystem) : Outcome × FileSystem :=
  match parse args with
  | .error stop => (stop.outcome, fs)
  | .ok job =>
      match job.settings.name with
      | .error e => (failure (.image e), fs)
      | .ok name =>
          match job.run fs with
          | .error e => (failure e, fs)
          | .ok (written, fs) => (⟨0, summary written name, ""⟩, fs)

end CommandLine

end FirmwareUpdate
