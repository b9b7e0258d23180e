import TapeMachine.Arity
import TapeMachine.Machine
import TapeMachine.Room

/-!
# Setting up a run

A run is configured with loosely typed values. They are examined in a fixed order, and the first
that cannot be used is reported: the tape length against its minimum, the brackets, the cell width,
and last the making of the tape.
-/

namespace TapeMachine

/-- What a run is configured with. -/
structure Config where
  cells : Value := .int 30000
  extensible : Value := .bool false
  cellBits : Value := .int 8
  maxSteps : Value := .null
  maxOutput : Value := .null

/-- The call that configures a run. -/
def Config.call : String := "Interpreter.__init__"

/-- Set a value by its name. The program is not set this way. -/
def Config.set (c : Config) (name : String) (v : Value) : Except ArgumentError Config :=
  match name with
  | "cells" => .ok { c with cells := v }
  | "extensible" => .ok { c with extensible := v }
  | "cell_bits" => .ok { c with cellBits := v }
  | "max_steps" => .ok { c with maxSteps := v }
  | "max_output_bytes" => .ok { c with maxOutput := v }
  | "self" | "program" => .error (.repeated Config.call name)
  | _ => .error (.unexpected Config.call name)

/-- The configuration given by named values. The first name that cannot be used is reported. -/
def Config.ofNamed (values : List (String × Value)) : Except ArgumentError Config :=
  values.foldlM (fun c (name, v) => c.set name v) {}

/-- Why a run cannot be set up. -/
inductive SetupError where
  /-- The tape would have no cell. -/
  | tapeTooShort
  /-- The tape length cannot be compared with a number. -/
  | unorderedLength (v : Value)
  /-- The tape length is not an integer. -/
  | fractionalLength
  /-- The tape length is no index. -/
  | lengthTooLarge
  /-- There is no room for the tape. -/
  | outOfMemory
  /-- The brackets do not match. -/
  | brackets (e : Error)
  /-- A value cannot be converted. -/
  | conversion (e : ConversionError)
  /-- No cell has this width. -/
  | unsupportedWidth (v : Value)

/-- How a failed setup is reported. -/
def SetupError.message : SetupError → String
  | .tapeTooShort => "Tape length must be at least 1"
  | .unorderedLength v =>
    "'<' not supported between instances of '" ++ v.typeName ++ "' and 'int'"
  | .fractionalLength => "can't multiply sequence by non-int of type 'float'"
  | .lengthTooLarge => "cannot fit 'int' into an index-sized integer"
  | .outOfMemory => ""
  | .brackets e => e.message
  | .conversion e => e.message
  | .unsupportedWidth v =>
    if v.isWritable then
      "Unsupported cell width " ++ v.shown ++ "; expected one of " ++
        ", ".intercalate (CellKind.supported.map fun k => toString k.bits)
    else Text.unwritableMessage

/-- The largest index. -/
def maxIndex : Int := Number.powerOfTwo 63 - 1

/-- An integer as the length of a tape that is made. -/
def lengthOfInt (room : Room) (n : Int) : Except SetupError { n : Nat // 0 < n } :=
  if h : n < 1 then .error .tapeTooShort
  else if n > maxIndex then .error .lengthTooLarge
  else if n > room.cells then .error .outOfMemory
  else .ok ⟨n.toNat, by omega⟩

/-- A positive length that there is room for is that of the tape. -/
theorem lengthOfInt_of_le {room : Room} {n : Int} (hpos : 0 < n) (hroom : n ≤ room.cells) :
    lengthOfInt room n = .ok ⟨n.toNat, by omega⟩ := by
  have hcells := room.cells_lt
  have hindex : (Number.powerOfTwo 60 : Int) ≤ maxIndex := by decide
  rw [lengthOfInt, dif_neg (by omega), if_neg (by omega), if_neg (by omega)]

/-- A value as the length of a tape that is made. -/
def lengthOf (room : Room) : Value → Except SetupError { n : Nat // 0 < n }
  | .int n => lengthOfInt room n
  | .bool b => lengthOfInt room (if b then 1 else 0)
  | .real x => .error (if x.lt 1 then .tapeTooShort else .fractionalLength)
  | v => .error (.unorderedLength v)

/-- A tape length is at least one, as far as that can be told before the tape is made. -/
def checkLength : Value → Except SetupError Unit
  | .int n => if n < 1 then .error .tapeTooShort else .ok ()
  | .bool b => if b then .ok () else .error .tapeTooShort
  | .real x => if x.lt 1 then .error .tapeTooShort else .ok ()
  | v => .error (.unorderedLength v)

/-- A value as a cell width. -/
def widthOf (v : Value) : Except SetupError CellKind :=
  match v.toInt with
  | .error e => .error (.conversion e)
  | .ok n =>
    match CellKind.ofBits? n with
    | none => .error (.unsupportedWidth v)
    | some k => .ok k

/-- A configuration whose values are in use. The tape length and whether the tape is extensible
stay as they were given, as they act only when a tape is made. -/
structure Setup where
  room : Room
  cells : Value
  extensible : Value
  kind : CellKind
  caps : Caps

/-- The settings of the next run. -/
def Setup.settings (s : Setup) : Except SetupError Settings :=
  match lengthOf s.room s.cells with
  | .error e => .error e
  | .ok ⟨n, h⟩ => .ok {
      cells := n
      cells_pos := h
      extensible := s.extensible.truth
      kind := s.kind
      caps := s.caps
      shownExtensible := s.extensible.shown }

theorem Setup.settings_of_lengthOf {s : Setup} {n : { n : Nat // 0 < n }}
    (h : lengthOf s.room s.cells = .ok n) :
    s.settings = .ok ⟨n.1, n.2, s.extensible.truth, s.kind, s.caps, s.extensible.shown⟩ := by
  rw [Setup.settings, h]

theorem Setup.eq_of_settings {s : Setup} {settings : Settings} (h : s.settings = .ok settings) :
    settings.caps = s.caps ∧ settings.kind = s.kind ∧ settings.shownExtensible = s.extensible.shown := by
  unfold Setup.settings at h
  split at h <;> cases h
  exact ⟨rfl, rfl, rfl⟩

/-- Set up a run: the code, the configuration in use, and the settings of the first run. -/
def Setup.ofConfig (room : Room) (p : Program) (c : Config) :
    Except SetupError (Code × Setup × Settings) :=
  match checkLength c.cells with
  | .error e => .error e
  | .ok _ =>
    match Code.ofProgram p with
    | .error e => .error (.brackets e)
    | .ok code =>
      match widthOf c.cellBits with
      | .error e => .error e
      | .ok kind =>
        let setup : Setup :=
          ⟨room, c.cells, c.extensible, kind, ⟨Limit.ofValue c.maxSteps, Limit.ofValue c.maxOutput⟩⟩
        setup.settings.map fun s => (code, setup, s)

/-- A configuration that passes every check is set up. -/
theorem Setup.ofConfig_eq_ok {room : Room} {p : Program} {c : Config} {code : Code} {kind : CellKind}
    {settings : Settings} (hlength : checkLength c.cells = .ok ()) (hcode : Code.ofProgram p = .ok code)
    (hkind : widthOf c.cellBits = .ok kind)
    (hsettings : Setup.settings ⟨room, c.cells, c.extensible, kind,
      ⟨Limit.ofValue c.maxSteps, Limit.ofValue c.maxOutput⟩⟩ = .ok settings) :
    Setup.ofConfig room p c = .ok (code, ⟨room, c.cells, c.extensible, kind,
      ⟨Limit.ofValue c.maxSteps, Limit.ofValue c.maxOutput⟩⟩, settings) := by
  simp only [Setup.ofConfig, hlength, hcode, hkind, hsettings, Except.map]

/-- A run that is set up has the code of its program, the settings of its setup, and the caps that the
configuration asks for. -/
theorem Setup.of_ofConfig_eq_ok {room : Room} {p : Program} {c : Config} {code : Code} {setup : Setup}
    {settings : Settings} (h : Setup.ofConfig room p c = .ok (code, setup, settings)) :
    Code.ofProgram p = .ok code ∧ setup.settings = .ok settings ∧
      setup.caps = ⟨Limit.ofValue c.maxSteps, Limit.ofValue c.maxOutput⟩ := by
  unfold Setup.ofConfig at h
  split at h
  · cases h
  · split at h
    · cases h
    · next hcode =>
      split at h
      · cases h
      · dsimp only at h
        generalize hsettings : Setup.settings _ = x at h
        cases x with
        | error e => cases h
        | ok s =>
          cases h
          exact ⟨hcode, hsettings, rfl⟩

end TapeMachine
