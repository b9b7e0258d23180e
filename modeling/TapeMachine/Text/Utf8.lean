import TapeMachine.Text.Quoted

/-!
# UTF-8

Bytes are decoded one at a time by a machine that is either between characters or within one. Its
output is a list of pieces: a character, or an ill-formed run of bytes that is as long as some
character could still have begun with it. `decode` refuses the first ill-formed run and says where
it is; `decodeLossy` puts one U+FFFD in place of each.
-/

namespace TapeMachine.Text.Utf8

/-- Why bytes are ill-formed. -/
inductive Reason where
  /-- No character starts with this byte. -/
  | badStart
  /-- The byte that follows cannot continue the character. -/
  | badContinuation
  /-- The bytes end within a character. -/
  | truncated
  deriving DecidableEq, Repr

/-- What decoding finds: a character, or an ill-formed run of bytes. -/
inductive Piece where
  | char (c : Char)
  | bad (length : Nat) (reason : Reason)
  deriving DecidableEq, Repr

/-- How many bytes a piece was made of. -/
def Piece.length : Piece → Nat
  | .char c => c.utf8Size
  | .bad n _ => n

/-- Where the machine stands between two bytes. -/
inductive State where
  /-- Between characters. -/
  | between
  /-- Within a character: `taken` bytes gave `value`, and `owed + 1` more have to follow, the next
  of them from `low` to `high`. -/
  | within (owed low high value taken : Nat)
  deriving DecidableEq, Repr

/-- The state after the first byte of a character of several bytes. -/
def lead? (b : Nat) : Option State :=
  if 0xC2 ≤ b ∧ b ≤ 0xDF then some (.within 0 0x80 0xBF (b - 0xC0) 1)
  else if b = 0xE0 then some (.within 1 0xA0 0xBF 0 1)
  else if b = 0xED then some (.within 1 0x80 0x9F 0xD 1)
  else if 0xE1 ≤ b ∧ b ≤ 0xEF then some (.within 1 0x80 0xBF (b - 0xE0) 1)
  else if b = 0xF0 then some (.within 2 0x90 0xBF 0 1)
  else if b = 0xF4 then some (.within 2 0x80 0x8F 4 1)
  else if 0xF1 ≤ b ∧ b ≤ 0xF3 then some (.within 2 0x80 0xBF (b - 0xF0) 1)
  else none

/-- The machine's state, and the pieces found so far, the newest first. -/
structure Scan where
  state : State
  found : List Piece

/-- A byte between characters. -/
def Scan.start (found : List Piece) (b : Nat) : Scan :=
  if b < 0x80 then ⟨.between, .char (Char.ofNat b) :: found⟩
  else match lead? b with
    | some q => ⟨q, found⟩
    | none => ⟨.between, .bad 1 .badStart :: found⟩

/-- One byte. -/
def Scan.feed (s : Scan) (b : UInt8) : Scan :=
  match s.state with
  | .between => .start s.found b.toNat
  | .within owed low high value taken =>
    if low ≤ b.toNat ∧ b.toNat ≤ high then
      let value := value * 64 + (b.toNat - 0x80)
      match owed with
      | 0 => ⟨.between, .char (Char.ofNat value) :: s.found⟩
      | n + 1 => ⟨.within n 0x80 0xBF value (taken + 1), s.found⟩
    else .start (.bad taken .badContinuation :: s.found) b.toNat

/-- The pieces in order, once the bytes have ended. -/
def Scan.finish (s : Scan) : List Piece :=
  match s.state with
  | .between => s.found.reverse
  | .within _ _ _ _ taken => (.bad taken .truncated :: s.found).reverse

/-- The pieces that bytes are made of. -/
def pieces (bytes : List UInt8) : List Piece :=
  (bytes.foldl Scan.feed ⟨.between, []⟩).finish

/-- The bytes of a text. -/
def encode (s : String) : List UInt8 := s.toList.flatMap String.utf8EncodeChar

/-- The character that stands for a piece. -/
def Piece.shown : Piece → Char
  | .char c => c
  | .bad _ _ => Char.ofNat 0xFFFD

/-- The text of bytes, with U+FFFD for each ill-formed run. -/
def decodeLossy (bytes : List UInt8) : String := String.ofList ((pieces bytes).map Piece.shown)

/-- The first ill-formed run. -/
structure DecodeError where
  /-- Where it starts. -/
  position : Nat
  /-- How many bytes it has. -/
  length : Nat
  /-- Its first byte. -/
  byte : Nat
  reason : Reason
  deriving DecidableEq, Repr

/-- The position, length and reason of the first ill-formed run. -/
def firstBad : (position : Nat) → List Piece → Option (Nat × Nat × Reason)
  | _, [] => none
  | pos, .bad n r :: _ => some (pos, n, r)
  | pos, .char c :: ps => firstBad (pos + c.utf8Size) ps

/-- The characters of bytes that are well-formed throughout. -/
def decode (bytes : List UInt8) : Except DecodeError (List Char) :=
  let ps := pieces bytes
  match firstBad 0 ps with
  | some (pos, n, r) => .error ⟨pos, n, ((bytes.drop pos).headD 0).toNat, r⟩
  | none => .ok (ps.map Piece.shown)

/-- How a reason is worded. -/
def Reason.message : Reason → String
  | .badStart => "invalid start byte"
  | .badContinuation => "invalid continuation byte"
  | .truncated => "unexpected end of data"

/-- How an ill-formed run is reported. -/
def DecodeError.message (e : DecodeError) : String :=
  let place :=
    if e.length = 1 then
      "byte 0x" ++ String.ofList (hexDigits 2 e.byte) ++ " in position " ++ toString e.position
    else
      "bytes in position " ++ toString e.position ++ "-" ++ toString (e.position + e.length - 1)
  "'utf-8' codec can't decode " ++ place ++ ": " ++ e.reason.message

end TapeMachine.Text.Utf8
