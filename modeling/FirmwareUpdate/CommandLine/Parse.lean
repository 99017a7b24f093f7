/-
The reading of a command line, argument by argument.  The value of an option is
checked when the next option appears or the line ends, so a misuse in between
is reported first; a value attached to its option is checked at once.
-/
import FirmwareUpdate.CommandLine.Option

namespace FirmwareUpdate

namespace CommandLine

/-- What has been read of a command line. -/
structure Reading where
  given : List OptionName := []
  input : Option String := none
  output : Option String := none
  cipher : Option CipherKind := none
  mode : Option ChainMode := none
  checksum : Option (Option ChecksumKind) := none
  /-- The option that was named last and its value, if it has come already. -/
  waiting : Option (OptionName × Option String) := none
  /-- Whether two dashes have ended the options. -/
  ended : Bool := false

namespace Reading

/-- Keep the value of an option. -/
def store (r : Reading) (o : OptionName) (value : String) : Except Stop Reading :=
  let invalid (what : String) : Except Stop Reading :=
    .error (.misuse (.invalidValue o value (what ++ " '" ++ value ++ "'")))
  match o with
  | .input =>
      if value = "" then .error (.misuse (.missingValue o))
      else .ok { r with input := some value }
  | .output =>
      if value = "" then .error (.misuse (.missingValue o))
      else .ok { r with output := some value }
  | .cipher =>
      match CipherKind.ofName value with
      | .ok kind => .ok { r with cipher := some kind }
      | .error _ => invalid "unknown cipher"
  | .mode =>
      match ChainMode.ofName value with
      | .ok mode => .ok { r with mode := some mode }
      | .error _ => invalid "unknown chaining mode"
  | .checksum =>
      if sameName value "none" then .ok { r with checksum := some none }
      else
        match ChecksumKind.ofName value with
        | .ok kind => .ok { r with checksum := some (some kind) }
        | .error _ => invalid "unknown checksum"
  | _ => .ok r

/-- Take in an option with its value.  A missing value is reported before a
repetition, and a repetition before a bad value. -/
def accept (r : Reading) (o : OptionName) (value : Option String) : Except Stop Reading :=
  if o.valueWord?.isSome && value.isNone then .error (.misuse (.missingValue o))
  else if o ∈ r.given then .error (.misuse (.repeated o))
  else
    match o with
    | .help => .error .help
    | .version => .error .version
    | _ => ({ r with given := r.given ++ [o] } : Reading).store o (value.getD "")

/-- Take in the option that is waiting. -/
def settle (r : Reading) : Except Stop Reading :=
  match r.waiting with
  | none => .ok r
  | some (o, value) => ({ r with waiting := none } : Reading).accept o value

/-- Name an option, with the value attached to it, if any. -/
def name (r : Reading) (o : OptionName) (attached : Option String) : Except Stop Reading :=
  match r.settle with
  | .error e => .error e
  | .ok r =>
      if o.valueWord?.isSome && attached.isNone then .ok { r with waiting := some (o, none) }
      else r.accept o attached

/-- Read the letters after a single dash.  A letter that takes a value takes the
rest of the argument, less an equals sign in front. -/
def letters (r : Reading) : List Char → Except Stop Reading
  | [] => .ok r
  | c :: rest =>
      match OptionName.ofShort? c with
      | none => .error (.misuse (.unexpectedArgument ("-" ++ c.toString)))
      | some o =>
          if o.valueWord?.isNone then
            match r.name o none with
            | .error e => .error e
            | .ok r => letters r rest
          else
            match rest with
            | [] => r.name o none
            | '=' :: value => r.name o (some (String.ofList value))
            | value => r.name o (some (String.ofList value))

/-- Read a name after two dashes, up to an equals sign, and the value behind it. -/
def word (r : Reading) (text : List Char) : Except Stop Reading :=
  let name := String.ofList (text.takeWhile (· != '='))
  let attached := match text.dropWhile (· != '=') with
    | [] => none
    | _ :: value => some (String.ofList value)
  match OptionName.ofLong? name with
  | none => .error (.misuse (.unexpectedArgument ("--" ++ name)))
  | some o =>
      match o.valueWord?, attached with
      | none, some value => .error (.misuse (.unexpectedValue o value))
      | _, _ => r.name o attached

/-- Read an argument that is not an option: the value that is waited for. -/
def value (r : Reading) (text : String) : Except Stop Reading :=
  match r.waiting with
  | some (o, none) => .ok { r with waiting := some (o, some text) }
  | _ => .error (.misuse (.unexpectedArgument text))

/-- Read one argument. -/
def argument (r : Reading) (text : String) : Except Stop Reading :=
  if r.ended then .error (.misuse (.unexpectedArgument text))
  else
    match text.toList with
    | ['-', '-'] => .ok { r with ended := true }
    | '-' :: '-' :: rest => r.word rest
    | '-' :: c :: rest => r.letters (c :: rest)
    | _ => r.value text

/-- Read arguments in order. -/
def arguments (r : Reading) : List String → Except Stop Reading
  | [] => r.settle
  | text :: rest =>
      match r.argument text with
      | .error e => .error e
      | .ok r => r.arguments rest

/-- The settings asked for; the default where nothing was said.  Checksums can be
switched off whatever else is said about them. -/
def settings (r : Reading) : Settings :=
  { cipher := r.cipher.getD Defaults.cipher
    mode := r.mode.getD Defaults.mode
    checksum :=
      if OptionName.noChecksum ∈ r.given then none else r.checksum.getD Defaults.checksum }

/-- The directions that were named, in order. -/
def directions (r : Reading) : List OptionName :=
  r.given.filter fun o => o == .encrypt || o == .decrypt

/-- What a job cannot do without and was not given. -/
def absent (r : Reading) : List String :=
  (if r.input.isNone then [OptionName.input.shown] else [])
    ++ (if r.output.isNone then [OptionName.output.shown] else [])
    ++ if r.directions.isEmpty then ["<--encrypt|--decrypt>"] else []

/-- The job asked for.  Of two directions the one named first complains; then both
paths and a direction must be there. -/
def job (r : Reading) : Except Stop Job :=
  match r.directions, r.input, r.output with
  | first :: second :: _, _, _ => .error (.misuse (.conflict first second))
  | [o], some input, some output =>
      let direction := if o == .encrypt then Direction.encrypt else .decrypt
      .ok ⟨r.settings, direction, input, output⟩
  | _, _, _ => .error (.misuse (.missingRequired r.absent))

end Reading

/-- The job that a command line asks for. -/
def parse (args : List String) : Except Stop Job :=
  match ({} : Reading).arguments args with
  | .error e => .error e
  | .ok r => r.job

end CommandLine

end FirmwareUpdate
