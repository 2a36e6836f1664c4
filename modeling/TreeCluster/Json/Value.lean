import TreeCluster.Text.Decimal
import TreeCluster.Text.Hexadecimal

/-! # JSON values and their text

`Value.text` writes a value without any blanks, members in the order they are listed. -/

namespace TreeCluster.Json

open Text

/-- A JSON value whose numbers are integers. -/
inductive Value where
  | null
  | bool (b : Bool)
  | number (n : Int)
  | string (s : String)
  | array (items : List Value)
  | object (members : List (String × Value))

/-- How a character is written inside a string: quotes, backslashes and controls are escaped. -/
def escapeChar (c : Char) : List Char :=
  match c with
  | '"' => ['\\', '"']
  | '\\' => ['\\', '\\']
  | '\x08' => ['\\', 'b']
  | '\x0c' => ['\\', 'f']
  | '\n' => ['\\', 'n']
  | '\r' => ['\\', 'r']
  | '\t' => ['\\', 't']
  | c =>
    if c.toNat < 32 then
      ['\\', 'u', '0', '0', Hexadecimal.digitChar (c.toNat / 16),
        Hexadecimal.digitChar (c.toNat % 16)]
    else [c]

/-- A string in its quotes. -/
def stringChars (s : String) : List Char :=
  '"' :: (s.toList.flatMap escapeChar ++ ['"'])

mutual

/-- The characters of a value. -/
def Value.chars : Value → List Char
  | .null => ['n', 'u', 'l', 'l']
  | .bool true => ['t', 'r', 'u', 'e']
  | .bool false => ['f', 'a', 'l', 's', 'e']
  | .number n => (Decimal.signed n).toList
  | .string s => stringChars s
  | .array items => '[' :: itemChars items
  | .object members => '\x7b' :: memberChars members

/-- The items of an array and its closing bracket. -/
def itemChars : List Value → List Char
  | [] => [']']
  | [v] => v.chars ++ [']']
  | v :: more => v.chars ++ ',' :: itemChars more

/-- The members of an object and its closing brace. -/
def memberChars : List (String × Value) → List Char
  | [] => ['\x7d']
  | [(key, v)] => stringChars key ++ ':' :: v.chars ++ ['\x7d']
  | (key, v) :: more => stringChars key ++ ':' :: v.chars ++ ',' :: memberChars more

end

/-- The text of a value. -/
def Value.text (v : Value) : String :=
  String.ofList v.chars

end TreeCluster.Json
