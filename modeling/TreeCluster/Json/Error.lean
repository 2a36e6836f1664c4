import TreeCluster.Text.Decimal
import TreeCluster.Text.Quoted

/-! # Why a JSON text is refused

A text may be no JSON at all (`malformed`), may end too early (`cutOff`), or may hold a value
of another shape than the one that is due (`shape`). -/

namespace TreeCluster.Json

open Text

/-- What was found where something else was due. -/
inductive Found where
  | null
  | bool (b : Bool)
  | integer (n : Int)
  /-- A number with a fraction or an exponent, or beyond 64 bits, by its shortest numeral. -/
  | float (numeral : String)
  | string (s : String)
  | sequence
  | map
  deriving DecidableEq

/-- How the finding is named. -/
def Found.message : Found → String
  | .null => "null"
  | .bool b => "boolean `" ++ (if b then "true" else "false") ++ "`"
  | .integer n => "integer `" ++ Decimal.signed n ++ "`"
  | .float numeral => "floating point `" ++ numeral ++ "`"
  | .string s => "string " ++ Quoted.quoted s
  | .sequence => "sequence"
  | .map => "map"

/-- How a value of the wrong shape differs from the one that is due. -/
inductive Mismatch where
  | wrongType (found : Found) (due : String)
  | outOfRange (n : Int) (due : String)
  | duplicateField (name : String)
  | missingField (name : String)
  | wrongLength (length : Nat) (due : String)
  | unknownVariant (name : String) (variants : List String)
  deriving DecidableEq

/-- The alternatives in a message. -/
def alternatives : List String → String
  | [] => "there are no variants"
  | [a] => "expected `" ++ a ++ "`"
  | [a, b] => "expected `" ++ a ++ "` or `" ++ b ++ "`"
  | variants => "expected one of " ++ ", ".intercalate (variants.map fun v => "`" ++ v ++ "`")

/-- The sentence that reports a mismatch. -/
def Mismatch.message : Mismatch → String
  | .wrongType found due => "invalid type: " ++ found.message ++ ", expected " ++ due
  | .outOfRange n due => "invalid value: " ++ (Found.integer n).message ++ ", expected " ++ due
  | .duplicateField name => "duplicate field `" ++ name ++ "`"
  | .missingField name => "missing field `" ++ name ++ "`"
  | .wrongLength length due =>
    "invalid length " ++ Decimal.text length ++ ", expected " ++ due
  | .unknownVariant name variants =>
    "unknown variant `" ++ name ++ "`, " ++ alternatives variants

/-- Why a text is refused. -/
inductive ReadError where
  | malformed
  | cutOff
  | mismatch (m : Mismatch)
  deriving DecidableEq

end TreeCluster.Json
