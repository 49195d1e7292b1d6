import QueryEditor.Binary64.Extent
import QueryEditor.Defaults
import QueryEditor.JsonValue
import QueryEditor.Text.Blank

namespace QueryEditor.Coercion

open Text

/-- The integer that a text starts with, behind white space, if it takes no more than 32 bits. -/
def intStart? (raw : String) : Option Int :=
  let (negative, unsigned) := Numeral.sign (trimStart raw.toList)
  let (digits, _) := Numeral.digits unsigned
  let magnitude : Int := decimalValue digits
  let number := if negative then -magnitude else magnitude
  if !digits.isEmpty && -2147483648 ≤ number && number ≤ 2147483647 then some number else none

def readFloat (raw : String) : Except OutOfRange (Option Binary64) := do
  let bytes := bytes (trimStart raw.toList)
  match ← Numeral.extent bytes with
  | none => return none
  | some stop =>
    let (numeral, _) ← cut bytes stop
    return ((ofBytes? numeral).bind Binary64.ofText?).filter (·.isFinite)

def floatStart? (raw : String) : Option Binary64 :=
  (readFloat raw).toOption.join

def isTrue (raw : String) : Bool :=
  match JsonValue.parse? raw with
  | some (.boolean truth) => truth
  | _ => false

def literal (type : TypeDefinition) (raw : String) : Value :=
  match type with
  | .builtin .boolean => .boolean (isTrue raw)
  | .builtin .int => ((intStart? raw).map (.int <| Int64.ofInt ·)).getD type.defaultValue
  | .builtin .float => ((floatStart? raw).map .float).getD type.defaultValue
  | .enum values => if values.values.contains raw then .enum raw else type.defaultValue
  | _ => .string raw

end QueryEditor.Coercion
