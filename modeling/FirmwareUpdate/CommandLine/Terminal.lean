/-
Messages for a terminal.  Parts of a message are emphasised by control sequences.
Where no terminal reads the message, these are taken out again, together with all
control characters that came in with the words of the user.
-/
namespace FirmwareUpdate

namespace Terminal

/-- Words that stand out: bold is switched on before them and off behind them. -/
def emphasised (words : String) : String :=
  "\x1b[1m" ++ words ++ "\x1b[0m"

/-- Where the reading of a message stands: in plain text, or in a control sequence
that an escape has opened.  A string for the device has a head of its own, with
parameters and intermediate characters, before its text. -/
inductive Sequence
  | text
  | escape
  | designation
  | parameters
  | command
  | device
  | deviceParameters
  | deviceIntermediates
  | string
deriving DecidableEq, Repr

/-- Whether a character is a blank.  All but the space are control characters. -/
def isBlank (c : Char) : Bool :=
  c == ' ' || c == '\t' || c == '\n' || c == '\r' || c == '\x0c'

/-- Whether a character of plain text is shown: the blanks, and every character
that is not a control character of ASCII. -/
def isShown (c : Char) : Bool :=
  isBlank c || ('!' ≤ c && c != '\x7f')

/-- Whether a character holds the byte that ends the text of a string. -/
def endsString (c : Char) : Bool :=
  (String.utf8EncodeChar c).contains 0x9C

namespace Sequence

/-- The sequence that an escape opens with its second character. -/
def opened (c : Char) : Sequence :=
  if c == '[' then parameters
  else if c == ']' then command
  else if c == 'P' then device
  else if c == 'X' || c == '^' || c == '_' then string
  else text

/-- The state behind a character that is not shown.  An escape opens a sequence
anywhere, and two control characters break one off; else each kind of sequence
has its own last character. -/
def next (s : Sequence) (c : Char) : Sequence :=
  if c == '\x1b' then escape
  else if c == '\x18' || c == '\x1a' then text
  else
    match s with
    | text => text
    | escape =>
        if '0' ≤ c && c ≤ '~' then opened c
        else if ' ' ≤ c && c ≤ '/' then designation
        else escape
    | designation => if '0' ≤ c && c ≤ '~' then text else designation
    | parameters => if '@' ≤ c && c ≤ '~' then text else parameters
    | command => if c == '\x07' then text else command
    | device =>
        if '@' ≤ c && c ≤ '~' then string
        else if '0' ≤ c && c ≤ '?' then deviceParameters
        else if ' ' ≤ c && c ≤ '/' then deviceIntermediates
        else device
    | deviceParameters =>
        if '<' ≤ c && c ≤ '~' then string
        else if ' ' ≤ c && c ≤ '/' then deviceIntermediates
        else deviceParameters
    | deviceIntermediates => if '0' ≤ c && c ≤ '~' then string else deviceIntermediates
    | string => if endsString c then text else string

/-- Whether a blank inside a sequence is shown.  Commands and strings, from their
heads on, hide their blanks. -/
def passes (s : Sequence) (c : Char) : Bool :=
  match s with
  | text | command | device | deviceParameters | deviceIntermediates | string => false
  | escape | designation | parameters => isBlank c && c != ' '

end Sequence

/-- The characters that are shown.  A blank that shows inside a sequence interrupts
it: what follows is shown up to the next control character, which the sequence
takes in again. -/
def shown (s : Sequence) (interrupted : Bool) : List Char → List Char
  | [] => []
  | c :: rest =>
      if s == .text || interrupted then
        if isShown c then
          let s := if c.val < 0x80 then s else .text
          c :: shown s interrupted rest
        else shown (s.next c) false rest
      else if s.passes c then c :: shown s true rest
      else shown (s.next c) false rest

/-- A message without its control characters. -/
def strip (message : String) : String :=
  String.ofList (shown .text false message.toList)

end Terminal

end FirmwareUpdate
