import TapeMachine.CommandLine.Token
import TapeMachine.Setup

/-!
# Options

The options that the arguments ask for. Arguments are taken from left to right, and of an option
given twice the last counts. A help request acts when it is reached; a program that is missing and
arguments that mean nothing are found at the end.
-/

namespace TapeMachine.CommandLine

/-- What the command is asked to do. -/
structure Options where
  program : String
  cells : Value
  extensible : Bool
  cellBits : Value
  dump : Bool
  debug : Bool

/-- Why the command ends before it has begun. -/
inductive Stop where
  | help
  | usage (e : UsageError)

/-- The options found so far. -/
structure Gathered where
  program : Option String := none
  cells : Value := .int 30000
  extensible : Bool := false
  cellBits : Value := .int 8
  dump : Bool := false
  debug : Bool := false
  /-- Arguments that mean nothing, the newest first. -/
  extras : List String := []

/-- A sequence of flags written as one token: those without a value, and perhaps a last one with
its value, if that is attached. -/
structure Cluster where
  plain : List Flag
  valued : Option (Flag × Option String)

/-- A flag and the letters that follow it: its value if it takes one, else more flags. -/
def Cluster.ofLetters (f : Flag) : List Char → Except UsageError Cluster
  | [] => .ok (if f.takesValue then ⟨[], some (f, none)⟩ else ⟨[f], none⟩)
  | c :: rest =>
    if f.takesValue then .ok ⟨[], some (f, some (String.ofList (c :: rest)))⟩
    else
      match Flag.ofLetter? c with
      | none => .error (.unexpectedValue f (String.ofList (c :: rest)))
      | some g =>
        match ofLetters g rest with
        | .error e => .error e
        | .ok k => .ok { k with plain := f :: k.plain }

/-- Take an option apart. -/
def Cluster.ofToken (f : Flag) (short : Bool) : (attached : Option (List Char)) →
    Except UsageError Cluster
  | none => ofLetters f []
  | some text =>
    if f.takesValue then .ok ⟨[], some (f, some (String.ofList text))⟩
    else if short && text != [] then ofLetters f text
    else .error (.unexpectedValue f (String.ofList text))

namespace Gathered

/-- Act on flags without a value, in order. -/
def setPlain (g : Gathered) : List Flag → Except Stop Gathered
  | [] => .ok g
  | .help :: _ => .error .help
  | .extensible :: fs => setPlain { g with extensible := true } fs
  | .dump :: fs => setPlain { g with dump := true } fs
  | .debug :: fs => setPlain { g with debug := true } fs
  | .cells :: fs | .cellBits :: fs => setPlain g fs

/-- A tape length. -/
def readCells (text : String) : Except UsageError Int :=
  match Text.readInteger text with
  | .error _ => .error (.badCells text)
  | .ok n => if n < 1 then .error .cellsNotPositive else .ok n

/-- A cell width. -/
def readBits (text : String) : Except UsageError Int :=
  match Text.readInteger text with
  | .error _ => .error (.badBits text)
  | .ok n => if (CellKind.ofBits? n).isSome then .ok n else .error (.unsupportedBits n)

/-- The value that a text is read as. An attached marker counts as no value at all. -/
def readValue (read : String → Except UsageError Int) (text : String) : Except Stop Value :=
  if text = "--" then .ok (.list [])
  else
    match read text with
    | .error e => .error (.usage e)
    | .ok n => .ok (.int n)

/-- Act on a flag with its value. -/
def setValued (g : Gathered) (f : Flag) (text : String) : Except Stop Gathered :=
  match f with
  | .cells => (readValue readCells text).map fun v => { g with cells := v }
  | .cellBits => (readValue readBits text).map fun v => { g with cellBits := v }
  | _ => .ok g

/-- Act on a cluster whose value, if it has one, is known. -/
def setCluster (g : Gathered) (plain : List Flag) (valued : Option (Flag × String)) :
    Except Stop Gathered :=
  match g.setPlain plain with
  | .error s => .error s
  | .ok g =>
    match valued with
    | none => .ok g
    | some (f, text) => g.setValued f text

/-- Remember an argument that means nothing. -/
def addExtra (g : Gathered) (text : String) : Gathered := { g with extras := text :: g.extras }

/-- Take the tokens from left to right. The first value is the program; a marker next to it goes
with it. -/
def takeTokens (g : Gathered) : List Token → Except Stop Gathered
  | [] => .ok g
  | .value text :: rest =>
    if g.program.isSome then (g.addExtra text).takeTokens rest
    else
      match rest with
      | .marker :: rest => { g with program := some text }.takeTokens rest
      | rest => { g with program := some text }.takeTokens rest
  | .marker :: rest =>
    if g.program.isSome then (g.addExtra "--").takeTokens rest
    else
      match rest with
      | .value text :: rest => { g with program := some text }.takeTokens rest
      | rest => (g.addExtra "--").takeTokens rest
  | .unknown text :: rest => (g.addExtra text).takeTokens rest
  | .option f short attached :: rest =>
    match Cluster.ofToken f short attached with
    | .error e => .error (.usage e)
    | .ok ⟨plain, none⟩ =>
      match g.setCluster plain none with
      | .error s => .error s
      | .ok g => g.takeTokens rest
    | .ok ⟨plain, some (f, some text)⟩ =>
      match g.setCluster plain (some (f, text)) with
      | .error s => .error s
      | .ok g => g.takeTokens rest
    | .ok ⟨plain, some (f, none)⟩ =>
      match rest with
      | .value text :: rest =>
        match g.setCluster plain (some (f, text)) with
        | .error s => .error s
        | .ok g => g.takeTokens rest
      | _ => .error (.usage (.missingValue f))

/-- The options, once all tokens are taken. -/
def finish (g : Gathered) : Except Stop Options :=
  match g.program with
  | none => .error (.usage .missingProgram)
  | some program =>
    if g.extras.isEmpty then
      .ok ⟨program, g.cells, g.extensible, g.cellBits, g.dump, g.debug⟩
    else .error (.usage (.unrecognized g.extras.reverse))

end Gathered

/-- The options that arguments ask for. -/
def Options.ofArguments (arguments : List String) : Except Stop Options :=
  match Token.ofArguments arguments with
  | .error e => .error (.usage e)
  | .ok tokens =>
    match ({} : Gathered).takeTokens tokens with
    | .error s => .error s
    | .ok g => g.finish

end TapeMachine.CommandLine
