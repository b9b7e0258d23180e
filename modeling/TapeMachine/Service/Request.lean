import TapeMachine.Service.IntegerText
import TapeMachine.Value

/-!
# Requests

The bodies and parameters of requests, and the checks they pass before anything is done with them.
All fields of a body are checked, and the complaints are listed in the order of the fields.
-/

namespace TapeMachine.Service

open Number

/-- What is wrong with a part of a request. -/
inductive Complaint where
  | missing
  /-- A body that is not a table. -/
  | notATable
  | notAText
  /-- Settings that are not a table. -/
  | badSettings
  | notAnInteger
  /-- A text that spells no integer. -/
  | unreadableInteger
  /-- A number with a fraction. -/
  | fraction
  | notFinite
  | integerTooLarge
  deriving DecidableEq, Repr

/-- The name of a complaint. -/
def Complaint.name : Complaint → String
  | .missing => "missing"
  | .notATable => "model_attributes_type"
  | .notAText => "string_type"
  | .badSettings => "dict_type"
  | .notAnInteger => "int_type"
  | .unreadableInteger => "int_parsing"
  | .fraction => "int_from_float"
  | .notFinite => "finite_number"
  | .integerTooLarge => "int_parsing_size"

/-- A complaint about a place in a request. -/
structure Invalid where
  complaint : Complaint
  place : List String
  /-- What stands at the place, or where something is missing. -/
  found : Value

/-- A complaint as a table. -/
def Invalid.toValue (i : Invalid) : Value :=
  .table [("type", .text i.complaint.name), ("loc", .list (i.place.map .text))]

/-! ### Values of fields -/

/-- A text. -/
def readText : Value → Except Complaint String
  | .text s => .ok s
  | _ => .error .notAText

/-- A table of settings, or none. -/
def readSettings : Value → Except Complaint Value
  | .null => .ok .null
  | .table fs => .ok (.table fs)
  | _ => .error .badSettings

/-- An integer that a text spells. -/
def spelledInteger (s : String) : Except Complaint Int :=
  match IntegerText.read s with
  | .ok n => .ok n
  | .error .malformed => .error .unreadableInteger
  | .error (.tooLong _) => .error .integerTooLarge

/-- A floating-point number that is an integer of 64 bits. -/
def wholeNumber (x : Binary64) : Except Complaint Int :=
  match x with
  | .nan | .infinite _ => .error .notFinite
  | .finite negative m e =>
    if x.isWhole then
      let n := Binary64.truncate negative m e
      if -(powerOfTwo 63 : Int) < n && n < powerOfTwo 63 then .ok n else .error .integerTooLarge
    else .error .fraction

/-- An integer. -/
def readInteger : Value → Except Complaint Int
  | .int n => .ok n
  | .bool b => .ok (if b then 1 else 0)
  | .real x => wholeNumber x
  | .text s => spelledInteger s
  | _ => .error .notAnInteger

/-- An integer, or none. -/
def readIntegerOrNull : Value → Except Complaint (Option Int)
  | .null => .ok none
  | v => (readInteger v).map some

/-! ### Bodies -/

/-- A field of a body; a missing one is a complaint unless there is a default. -/
def readField {α : Type} (fields : List (String × Value)) (name : String)
    (default : Option α) (read : Value → Except Complaint α) : Except Invalid α :=
  match fields.lookup name with
  | none =>
    match default with
    | some a => .ok a
    | none => .error ⟨.missing, ["body", name], .table fields⟩
  | some v =>
    match read v with
    | .ok a => .ok a
    | .error c => .error ⟨c, ["body", name], v⟩

/-- The complaint of a field, if it has one. -/
def complaints {α : Type} : Except Invalid α → List Invalid
  | .ok _ => []
  | .error i => [i]

/-- The fields of a body. -/
def bodyFields : Option Value → Except (List Invalid) (List (String × Value))
  | none => .error [⟨.missing, ["body"], .null⟩]
  | some (.table fs) => .ok fs
  | some v => .error [⟨.notATable, ["body"], v⟩]

/-- A request to run a text. -/
structure RunRequest where
  code : String
  input : String
  /-- A table, or null. -/
  settings : Value
  scriptId : Option Int

/-- Check a request to run a text. -/
def RunRequest.ofBody (body : Option Value) : Except (List Invalid) RunRequest :=
  match bodyFields body with
  | .error is => .error is
  | .ok fs =>
    let code := readField fs "code" none readText
    let input := readField fs "input" (some "") readText
    let settings := readField fs "settings" (some .null) readSettings
    let scriptId := readField fs "script_id" (some none) readIntegerOrNull
    match code, input, settings, scriptId with
    | .ok code, .ok input, .ok settings, .ok scriptId => .ok ⟨code, input, settings, scriptId⟩
    | _, _, _, _ =>
      .error (complaints code ++ complaints input ++ complaints settings ++ complaints scriptId)

/-- A request to check the brackets of a text. -/
structure ValidateRequest where
  code : String

/-- Check a request to check brackets. -/
def ValidateRequest.ofBody (body : Option Value) : Except (List Invalid) ValidateRequest :=
  match bodyFields body with
  | .error is => .error is
  | .ok fs =>
    match readField fs "code" none readText with
    | .ok code => .ok ⟨code⟩
    | .error i => .error [i]

/-- A request to save a script. -/
structure SaveRequest where
  title : String
  code : String

/-- Check a request to save a script. -/
def SaveRequest.ofBody (body : Option Value) : Except (List Invalid) SaveRequest :=
  match bodyFields body with
  | .error is => .error is
  | .ok fs =>
    let title := readField fs "title" none readText
    let code := readField fs "code" none readText
    match title, code with
    | .ok title, .ok code => .ok ⟨title, code⟩
    | _, _ => .error (complaints title ++ complaints code)

/-- An integer in the path or in the query. -/
def readParameter (place text : String) : Except (List Invalid) Int :=
  match spelledInteger text with
  | .ok n => .ok n
  | .error c => .error [⟨c, [place, "script_id"], .text text⟩]

end TapeMachine.Service
