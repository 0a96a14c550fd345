import CoolStatics.Json.Basic

/-!
Writing JSON values as text without blanks. Only quotes, backslashes and control characters are
escaped.
-/
namespace CoolStatics.Json

def hexDigit (n : Nat) : Char := Char.ofNat (if n < 10 then 48 + n else 87 + n)

def escaped (c : Char) : List Char :=
  if c = '"' then ['\\', '"']
  else if c = '\\' then ['\\', '\\']
  else if c.toNat < 0x20 then
    ['\\', 'u', '0', '0', hexDigit (c.toNat / 16), hexDigit (c.toNat % 16)]
  else [c]

def quoted (s : String) : String := "\"" ++ String.ofList (s.toList.flatMap escaped) ++ "\""

mutual

def render : Json → String
  | .null => "null"
  | .bool true => "true"
  | .bool false => "false"
  | .int n => if n < 0 then "-" ++ n.natAbs.repr else n.natAbs.repr
  | .float text => text
  | .str s => quoted s
  | .arr xs => "[" ++ ",".intercalate (renderAll xs) ++ "]"
  | .obj fs => "\x7b" ++ ",".intercalate (renderFields fs) ++ "\x7d"

def renderAll : List Json → List String
  | [] => []
  | x :: rest => render x :: renderAll rest

def renderFields : List (String × Json) → List String
  | [] => []
  | (k, v) :: rest => (quoted k ++ ":" ++ render v) :: renderFields rest

end

end CoolStatics.Json
