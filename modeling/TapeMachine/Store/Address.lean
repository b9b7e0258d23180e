import TapeMachine.Number.Power
import TapeMachine.Text.HexDigit
import TapeMachine.Text.Split
import TapeMachine.Text.Utf8

/-!
# Addresses of stores

The text that says where a store lives names a file, or no file at all: a store without a file lives
only as long as a call to it. A text that starts with a scheme has a name, and after a question mark
options; escapes in both stand for bytes, and what follows a number sign is left out. Of options with
the same name the last one counts if it says what is opened, and the first if it says how the file is
used.
-/

namespace TapeMachine

/-- How the file of a store is opened. -/
inductive OpenMode where
  /-- It has to be there, and is only read. -/
  | reading
  /-- It has to be there. -/
  | existing
  /-- It is made if it is not there. -/
  | creating
  deriving DecidableEq, Repr

/-- How much a mode allows. -/
def OpenMode.rank : OpenMode → Nat
  | .reading => 0
  | .existing => 1
  | .creating => 2

/-- How the file of a store is used. -/
structure FileUse where
  mode : OpenMode := .creating
  /-- The file is declared never to change. -/
  immutable : Bool := false
  /-- The path that a new file takes its permissions from. -/
  permissionsOf : Option String := none
  /-- Users of the file keep each other out by a directory beside it. -/
  lockedBeside : Bool := false
  deriving DecidableEq, Repr

/-- Where a store lives. -/
inductive Address where
  /-- Nowhere: each call has a new store, which may only be read. -/
  | passing (readOnly : Bool)
  /-- In a file. -/
  | file (name : String) (use : FileUse)
  deriving DecidableEq, Repr

/-- Why a text is no address. -/
inductive AddressError where
  | unknownMode (mode : String)
  /-- A mode that allows more than the one before it. -/
  | modeNotAllowed (mode : String)
  | unknownCache (mode : String)
  | unknownSystem (name : String)
  deriving DecidableEq, Repr

/-- How it is reported. -/
def AddressError.message : AddressError → String
  | .unknownMode mode => "no such access mode: " ++ mode
  | .modeNotAllowed mode => "access mode not allowed: " ++ mode
  | .unknownCache mode => "no such cache mode: " ++ mode
  | .unknownSystem name => "no such vfs: " ++ name

namespace Address

/-- The bytes that a part of an address stands for, up to the first that is zero. -/
def unescape : List Char → List UInt8
  | '%' :: a :: b :: cs =>
    match Text.hexValue? a, Text.hexValue? b with
    | some x, some y =>
      if 16 * x + y = 0 then [] else UInt8.ofNat (16 * x + y) :: unescape cs
    | _, _ => String.utf8EncodeChar '%' ++ unescape (a :: b :: cs)
  | c :: cs => String.utf8EncodeChar c ++ unescape cs
  | [] => []

/-- The text that a part of an address stands for. -/
def decode (cs : List Char) : String := Text.Utf8.decodeLossy (unescape cs)

/-- An option: a name, and a value after an equals sign. -/
def option (cs : List Char) : String × String :=
  (decode (cs.takeWhile (· != '=')), decode ((cs.dropWhile (· != '=')).drop 1))

/-- The options of an address. One without a name is left out. -/
def options (cs : List Char) : List (String × String) :=
  ((Text.pieces '&' cs).map option).filter fun o => !o.1.isEmpty

/-- The number whose digits, in some base, a text starts with; none if it has too many digits or is
above the largest one of 32 bits. -/
def leadingNumber? (base most : Nat) (value? : Char → Option Nat) (cs : List Char) : Option Nat :=
  let digits := ((cs.dropWhile (· == '0')).takeWhile fun c => (value? c).isSome).filterMap value?
  let n := digits.foldl (fun n d => base * n + d) 0
  if digits.length ≤ most ∧ n < Number.powerOfTwo 31 then some n else none

/-- The number that a text starts with, in base sixteen after a sign for it; zero if there is none of
32 bits. -/
def leadingNumber (cs : List Char) : Nat :=
  let decimal := leadingNumber? 10 10 fun c => if c.isDigit then Text.hexValue? c else none
  match cs with
  | '0' :: x :: c :: rest =>
    if (x = 'x' ∨ x = 'X') ∧ (Text.hexValue? c).isSome then
      (leadingNumber? 16 8 Text.hexValue? (c :: rest)).getD 0
    else (decimal cs).getD 0
  | _ => (decimal cs).getD 0

/-- Whether the value of an option says yes. Of a number only the last eight bits count. -/
def saysYes (s : String) : Bool :=
  match s.toList with
  | c :: cs =>
    if c.isDigit then leadingNumber (c :: cs) % 256 != 0
    else ["on", "yes", "true"].contains (String.ofList ((c :: cs).map Char.toLower))
  | [] => false

/-- The file system in which a directory beside a file locks it. -/
def besideSystem : String := "unix-dotfile"

/-- The file systems that a store can be asked to use. -/
def systems : List String := ["unix", "unix-none", besideSystem, "unix-excl"]

/-- The file system that has no files. -/
def memorySystem : String := "memdb"

/-- What the options of an address ask for. -/
structure Request where
  passing : Bool := false
  mode : OpenMode := .creating
  system : String := "unix"
  /-- What was said first about the file never changing. -/
  immutable : Option Bool := none
  /-- What was said first about leaving the file unlocked. -/
  unlocked : Option Bool := none
  /-- The first path named for its permissions. -/
  permissionsOf : Option String := none

/-- Ask for a mode. It must not allow more than the one that was asked for before. -/
def Request.choose (r : Request) (mode : OpenMode) (value : String) : Except AddressError Request :=
  if !r.passing && r.mode.rank < mode.rank then .error (.modeNotAllowed value)
  else .ok { r with passing := false, mode := mode }

/-- One option more. Those that are not known ask for nothing. -/
def Request.add (r : Request) (name value : String) : Except AddressError Request :=
  match name with
  | "mode" =>
    match value with
    | "ro" => r.choose .reading value
    | "rw" => r.choose .existing value
    | "rwc" => r.choose .creating value
    | "memory" => .ok { r with passing := true }
    | _ => .error (.unknownMode value)
  | "cache" =>
    if value = "shared" ∨ value = "private" then .ok r else .error (.unknownCache value)
  | "vfs" => .ok { r with system := value }
  | "immutable" => .ok { r with immutable := some (r.immutable.getD (saysYes value)) }
  | "nolock" => .ok { r with unlocked := some (r.unlocked.getD (saysYes value)) }
  | "modeof" => .ok { r with permissionsOf := some (r.permissionsOf.getD value) }
  | _ => .ok r

/-- What a list of options asks for. -/
def Request.addAll (r : Request) : List (String × String) → Except AddressError Request
  | [] => .ok r
  | (name, value) :: rest =>
    match r.add name value with
    | .error e => .error e
    | .ok r => r.addAll rest

/-- How a request has a file used. What never changes needs no lock. -/
def Request.use (r : Request) : FileUse :=
  let immutable := r.immutable.getD false
  { mode := r.mode, immutable := immutable, permissionsOf := r.permissionsOf,
    lockedBeside := r.system = besideSystem && !immutable && !r.unlocked.getD false }

/-- The address of a name under a request. -/
def ofName (name : String) (r : Request) : Address :=
  if r.passing then .passing false
  else if name.isEmpty ∨ name = ":memory:" then .passing (r.mode = .reading)
  else if r.system = memorySystem then .passing (r.mode = .reading || r.use.immutable)
  else .file name r.use

/-- The address that follows a scheme. -/
def ofRest (cs : List Char) : Except AddressError Address :=
  let cs := cs.takeWhile (· != '#')
  match Request.addAll {} (options ((cs.dropWhile (· != '?')).drop 1)) with
  | .error e => .error e
  | .ok r =>
    if (memorySystem :: systems).contains r.system then
      .ok (ofName (decode (cs.takeWhile (· != '?'))) r)
    else .error (.unknownSystem r.system)

/-- The address that a text gives. -/
def ofText (s : String) : Except AddressError Address :=
  match s.toList with
  | 'f' :: 'i' :: 'l' :: 'e' :: ':' :: cs => ofRest cs
  | _ => .ok (ofName s {})

end Address

end TapeMachine
