/-
The options of the command line and the complaints about their misuse.
-/
import FirmwareUpdate.CommandLine.Terminal
import FirmwareUpdate.Job
import FirmwareUpdate.Name

namespace FirmwareUpdate

namespace CommandLine

/-- The options. -/
inductive OptionName
  | encrypt
  | decrypt
  | noChecksum
  | input
  | output
  | cipher
  | mode
  | checksum
  | help
  | version
deriving DecidableEq, Repr

namespace OptionName

/-- All options, in the order in which they are listed to the user. -/
def all : List OptionName :=
  [encrypt, decrypt, noChecksum, input, output, cipher, mode, checksum, help, version]

/-- The name that follows two dashes. -/
def long : OptionName → String
  | encrypt => "encrypt"
  | decrypt => "decrypt"
  | noChecksum => "no-checksum"
  | input => "input"
  | output => "output"
  | cipher => "cipher"
  | mode => "mode"
  | checksum => "checksum"
  | help => "help"
  | version => "version"

/-- The letter that follows one dash. -/
def short? : OptionName → Option Char
  | encrypt => some 'e'
  | decrypt => some 'd'
  | noChecksum => some 'c'
  | input => some 'i'
  | output => some 'o'
  | help => some 'h'
  | version => some 'V'
  | cipher | mode | checksum => none

/-- The word that stands for the value in messages, where the option has one. -/
def valueWord? : OptionName → Option String
  | input => some "INPUT"
  | output => some "OUTPUT"
  | cipher => some "CIPHER"
  | mode => some "MODE"
  | checksum => some "CHECKSUM"
  | encrypt | decrypt | noChecksum | help | version => none

/-- The option as messages show it. -/
def shown (o : OptionName) : String :=
  match o.valueWord? with
  | none => "--" ++ o.long
  | some word => "--" ++ o.long ++ " <" ++ word ++ ">"

/-- The option with this long name. -/
def ofLong? (name : String) : Option OptionName :=
  all.find? fun o => o.long == name

/-- The option with this letter. -/
def ofShort? (c : Char) : Option OptionName :=
  all.find? fun o => o.short? == some c

end OptionName

/-- A misuse of the command line. -/
inductive UsageError
  | missingRequired (absent : List String)
  | conflict (first second : OptionName)
  | repeated (o : OptionName)
  | unexpectedArgument (text : String)
  | missingValue (o : OptionName)
  | unexpectedValue (o : OptionName) (value : String)
  | invalidValue (o : OptionName) (value reason : String)
deriving DecidableEq, Repr

namespace UsageError

open Terminal

/-- What is wrong, with the words of the user and the names of options emphasised.
Only the reason for a bad value stands as it came. -/
def message : UsageError → String
  | missingRequired absent =>
      "the following required arguments were not provided:"
        ++ String.join (absent.map fun what => "\n  " ++ emphasised what)
  | conflict first second =>
      "the argument '" ++ emphasised first.shown ++ "' cannot be used with '"
        ++ emphasised second.shown ++ "'"
  | repeated o => "the argument '" ++ emphasised o.shown ++ "' cannot be used multiple times"
  | unexpectedArgument text => "unexpected argument '" ++ emphasised text ++ "' found"
  | missingValue o =>
      "a value is required for '" ++ emphasised o.shown ++ "' but none was supplied"
  | unexpectedValue o value =>
      "unexpected value '" ++ emphasised value ++ "' for '" ++ emphasised o.shown
        ++ "' found; no more were expected"
  | invalidValue o value reason =>
      "invalid value '" ++ emphasised value ++ "' for '" ++ emphasised o.shown ++ "': " ++ reason

/-- The text that is shown for a misuse: what is wrong, and where to read more.  The summary
of the usage that a terminal shows between the two is left out. -/
def report (e : UsageError) : String :=
  strip (emphasised "error:" ++ " " ++ e.message ++ "\n\nFor more information, try '"
    ++ emphasised OptionName.help.shown ++ "'.")

end UsageError

/-- Why the reading of a command line ends without a job. -/
inductive Stop
  | misuse (e : UsageError)
  | help
  | version
deriving DecidableEq, Repr

end CommandLine

end FirmwareUpdate
