import TapeMachine.CommandLine.UsageError
import TapeMachine.Text.DecimalDigit

/-!
# Tokens

Each argument is a value, an option, perhaps with a value attached to it, or the marker `--`, after
which every argument is a value. Long names may be cut short as long as one option alone is meant.
A negative number is a value, and so is a text with a space that names no option.
-/

namespace TapeMachine.CommandLine

/-- What an argument is. -/
inductive Token where
  | value (text : String)
  | marker
  /-- An option, written as a letter or as a long name. -/
  | option (f : Flag) (short : Bool) (attached : Option (List Char))
  /-- Something that looks like an option and is none. -/
  | unknown (text : String)
  deriving DecidableEq, Repr

namespace Token

/-- Split at the first equals sign. -/
def splitEquals (cs : List Char) : List Char × Option (List Char) :=
  match cs.dropWhile (· != '=') with
  | [] => (cs, none)
  | _ :: rest => (cs.takeWhile (· != '='), some rest)

/-- A nonempty sequence of decimal digits, which one line feed may end. -/
def isDigits (cs : List Char) : Bool :=
  let digits := cs.takeWhile fun c => (Text.digitValue? c).isSome
  let rest := cs.drop digits.length
  digits != [] && (rest == [] || rest == ['\n'])

/-- The number that follows a minus sign: digits, or digits after a point that digits may precede. -/
def isNumber (cs : List Char) : Bool :=
  isDigits cs ||
    match cs.dropWhile fun c => (Text.digitValue? c).isSome with
    | '.' :: rest => isDigits rest
    | _ => false

/-- An argument that starts with a dash and names no option. -/
def unnamed (text : String) (tail : List Char) : Token :=
  if isNumber tail || text.toList.contains ' ' then .value text else .unknown text

/-- An argument that starts with two dashes. -/
def ofLong (text : String) : Except UsageError Token :=
  let (name, attached) := splitEquals text.toList
  match Flag.ofLongName? name with
  | some f => .ok (.option f false attached)
  | none =>
    match Flag.completions name with
    | [] => .ok (unnamed text text.toList.tail)
    | [f] => .ok (.option f false attached)
    | fs => .error (.ambiguous text fs)

/-- An argument of a dash, a letter and what follows. An equals sign right after the letter is not
part of what is attached. -/
def ofShort (text : String) (c : Char) (rest : List Char) : Token :=
  match Flag.ofLetter? c with
  | none => unnamed text (c :: rest)
  | some f =>
    match rest with
    | [] => .option f true none
    | '=' :: more => .option f true (some more)
    | _ => .option f true (some rest)

/-- An argument before the marker. -/
def ofText (text : String) : Except UsageError Token :=
  match text.toList with
  | '-' :: '-' :: _ => ofLong text
  | '-' :: c :: rest => .ok (ofShort text c rest)
  | _ => .ok (.value text)

/-- The tokens of all arguments. -/
def ofArguments : List String → Except UsageError (List Token)
  | [] => .ok []
  | a :: rest =>
    if a = "--" then .ok (.marker :: rest.map .value)
    else
      match ofText a with
      | .error e => .error e
      | .ok t =>
        match ofArguments rest with
        | .error e => .error e
        | .ok ts => .ok (t :: ts)

end Token

end TapeMachine.CommandLine
