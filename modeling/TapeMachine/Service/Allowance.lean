import TapeMachine.Cell
import TapeMachine.Value

/-!
# Allowances

A request may ask for less than the service allows, and never for more. What it asks for is clamped
to the range from one to a ceiling; a cell width that cannot be used becomes the default width.
-/

namespace TapeMachine.Service

/-- The settings that a request is run with. -/
structure Allowance where
  cells : Int
  extensible : Bool
  maxSteps : Int
  maxOutput : Int
  cellBits : Int
  deriving DecidableEq, Repr

/-- The most cells. -/
def cellCeiling : Int := 65536

/-- The most steps. -/
def stepCeiling : Int := 1000000

/-- The most bytes of output. -/
def outputCeiling : Int := 5000

/-- The number of cells of a request that names none. -/
def defaultCells : Int := 30000

/-- The cell width of a request that names none that can be used. -/
def defaultBits : Int := 8

/-- The nearest number from one to a ceiling. -/
def clampTo (ceiling n : Int) : Int := max 1 (min n ceiling)

/-- A field of the settings, converted and clamped. -/
def clampField (settings : Value) (name : String) (default ceiling : Int) :
    Except ConversionError Int :=
  match (settings.fieldD name (.int default)).toInt with
  | .error e => .error e
  | .ok n => .ok (clampTo ceiling n)

/-- The cell width that the settings ask for, if it can be used, else the default. Only an infinite
number is refused. -/
def allowedBits (settings : Value) : Except ConversionError Int :=
  match (settings.fieldD "cell_bits" (.int defaultBits)).toInt with
  | .ok n => .ok (if (CellKind.ofBits? n).isSome then n else defaultBits)
  | .error .infinite => .error .infinite
  | .error _ => .ok defaultBits

/-- Clamp the fields of settings. The first field that cannot be converted is reported. -/
def Allowance.ofFields (settings : Value) : Except ConversionError Allowance :=
  match clampField settings "cells" defaultCells cellCeiling with
  | .error e => .error e
  | .ok cells =>
    match clampField settings "max_steps" stepCeiling stepCeiling with
    | .error e => .error e
    | .ok steps =>
      match clampField settings "max_output_bytes" outputCeiling outputCeiling with
      | .error e => .error e
      | .ok output =>
        match allowedBits settings with
        | .error e => .error e
        | .ok bits =>
          .ok ⟨cells, (settings.fieldD "extensible" (.bool false)).truth, steps, output, bits⟩

/-- Clamp the settings of a request. -/
def Allowance.ofSettings (settings : Value) : Except ConversionError Allowance :=
  match settings.toSettings with
  | .error e => .error e
  | .ok fields => Allowance.ofFields fields

/-- An allowance as settings. -/
def Allowance.toValue (a : Allowance) : Value :=
  .table [
    ("cells", .int a.cells),
    ("extensible", .bool a.extensible),
    ("max_steps", .int a.maxSteps),
    ("max_output_bytes", .int a.maxOutput),
    ("cell_bits", .int a.cellBits)]

end TapeMachine.Service
