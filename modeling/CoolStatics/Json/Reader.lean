import CoolStatics.Json.Numeral

/-!
Reading JSON text. Nothing beyond the grammar is accepted: no comments, no trailing commas, no
control characters or lone surrogates in strings, and no text after the value. Arrays and objects
nest at most as deep as the caller allows.
-/
namespace CoolStatics.Json

/-- Reads a value off the front of the text. -/
abbrev Reader (α : Type) := List Char → Option (α × List Char)

namespace Reader

def isBlank (c : Char) : Bool := c = ' ' || c = '\t' || c = '\n' || c = '\r'

def skip (cs : List Char) : List Char := cs.dropWhile isBlank

def digit? (c : Char) : Option Nat :=
  if '0' ≤ c ∧ c ≤ '9' then some (c.toNat - '0'.toNat) else none

def hexDigit? (c : Char) : Option Nat :=
  if '0' ≤ c ∧ c ≤ '9' then some (c.toNat - '0'.toNat)
  else if 'a' ≤ c ∧ c ≤ 'f' then some (c.toNat - 'a'.toNat + 10)
  else if 'A' ≤ c ∧ c ≤ 'F' then some (c.toNat - 'A'.toNat + 10)
  else none

/-- The code unit of four hexadecimal digits. -/
def unit? (a b c d : Char) : Option Nat := do
  return (((← hexDigit? a) * 16 + (← hexDigit? b)) * 16 + (← hexDigit? c)) * 16 + (← hexDigit? d)

def isHighSurrogate (u : Nat) : Bool := 0xD800 ≤ u && u < 0xDC00

def isLowSurrogate (u : Nat) : Bool := 0xDC00 ≤ u && u < 0xE000

/-- The character of a one-letter escape. -/
def escape? : Char → Option Char
  | '"' => some '"'
  | '\\' => some '\\'
  | '/' => some '/'
  | 'b' => some '\x08'
  | 'f' => some '\x0c'
  | 'n' => some '\n'
  | 'r' => some '\r'
  | 't' => some '\t'
  | _ => none

/-- The rest of a string after its opening quote. -/
def stringRest : Reader (List Char)
  | [] => none
  | '"' :: rest => some ([], rest)
  | '\\' :: 'u' :: a :: b :: c :: d :: rest => do
    let u ← unit? a b c d
    if isLowSurrogate u then none
    else if isHighSurrogate u then
      match rest with
      | '\\' :: 'u' :: e :: f :: g :: h :: rest => do
        let low ← unit? e f g h
        if isLowSurrogate low then
          let (tail, rest) ← stringRest rest
          some (Char.ofNat (0x10000 + (u - 0xD800) * 0x400 + (low - 0xDC00)) :: tail, rest)
        else none
      | _ => none
    else
      let (tail, rest) ← stringRest rest
      some (Char.ofNat u :: tail, rest)
  | '\\' :: c :: rest => do
    let c ← escape? c
    let (tail, rest) ← stringRest rest
    some (c :: tail, rest)
  | c :: rest =>
    if c.toNat < 0x20 then none
    else do
      let (tail, rest) ← stringRest rest
      some (c :: tail, rest)

def digits : List Char → List Nat × List Char
  | [] => ([], [])
  | c :: rest =>
    match digit? c with
    | some d => let (ds, rest) := digits rest; (d :: ds, rest)
    | none => ([], c :: rest)

def digits1 : Reader (List Nat) := fun cs =>
  match digits cs with
  | ([], _) => none
  | found => some found

/-- The digits before the point, of which only zero itself starts with a zero. -/
def whole : Reader (List Nat) := fun cs => do
  let (ds, rest) ← digits1 cs
  match ds with
  | 0 :: _ :: _ => none
  | _ => some (ds, rest)

def fraction : Reader (Option (List Nat))
  | '.' :: rest => (digits1 rest).map fun (ds, rest) => (some ds, rest)
  | cs => some (none, cs)

def signedDigits : Reader Int := fun cs =>
  let value (ds : List Nat) : Int := Numeral.ofDigits ds
  match cs with
  | '+' :: rest => (digits1 rest).map fun (ds, rest) => (value ds, rest)
  | '-' :: rest => (digits1 rest).map fun (ds, rest) => (-value ds, rest)
  | rest => (digits1 rest).map fun (ds, rest) => (value ds, rest)

def exponent : Reader (Option Int)
  | 'e' :: rest => (signedDigits rest).map fun (e, rest) => (some e, rest)
  | 'E' :: rest => (signedDigits rest).map fun (e, rest) => (some e, rest)
  | cs => some (none, cs)

def numeral : Reader Numeral := fun cs => do
  let (negative, rest) := match cs with
    | '-' :: rest => (true, rest)
    | rest => (false, rest)
  let (whole, rest) ← whole rest
  let (fraction, rest) ← fraction rest
  let (exponent, rest) ← exponent rest
  let plain := fraction.isNone && exponent.isNone
  some (⟨negative, whole, fraction.getD [], exponent.getD 0, plain⟩, rest)

def textBetween (start stop : List Char) : String :=
  String.ofList (start.take (start.length - stop.length))

def number : Reader Json := fun cs => do
  let (n, rest) ← numeral cs
  match n.int? with
  | some value => some (.int value, rest)
  | none => if n.overflows then none else some (.float (textBetween cs rest), rest)

def after (word : List Char) (cs : List Char) : Option (List Char) :=
  match word, cs with
  | [], cs => some cs
  | w :: word, c :: cs => if w = c then after word cs else none
  | _ :: _, [] => none

def keyword (word : String) (value : Json) : Reader Json := fun cs =>
  (after word.toList cs).map (value, ·)

/-- At most the given number of items that are divided by commas, up to and with the closing
character. -/
def items {α : Type} (item : Reader α) (close : Char) : Nat → Reader (List α)
  | 0, _ => none
  | n + 1, cs => do
    let (a, rest) ← item cs
    match skip rest with
    | ',' :: rest =>
      let (others, rest) ← items item close n (skip rest)
      some (a :: others, rest)
    | c :: rest => if c = close then some ([a], rest) else none
    | [] => none

def enclosed {α : Type} (limit : Nat) (item : Reader α) (close : Char) : Reader (List α) := fun cs =>
  match skip cs with
  | [] => none
  | c :: rest => if c = close then some ([], rest) else items item close limit (c :: rest)

def field (value : Reader Json) : Reader (String × Json)
  | '"' :: rest => do
    let (name, rest) ← stringRest rest
    match skip rest with
    | ':' :: rest =>
      let (v, rest) ← value (skip rest)
      some ((String.ofList name, v), rest)
    | _ => none
  | _ => none

/-- A value without blanks in front, in which arrays and objects nest up to the given depth and none
has more items than the limit. -/
def value (limit : Nat) : Nat → Reader Json
  | _, [] => none
  | depth, c :: rest =>
    match c with
    | '"' => (stringRest rest).map fun (s, rest) => (.str (String.ofList s), rest)
    | '[' =>
      match depth with
      | 0 => none
      | depth + 1 => (enclosed limit (value limit depth) ']' rest).map fun (xs, rest) => (.arr xs, rest)
    | '\x7b' =>
      match depth with
      | 0 => none
      | depth + 1 =>
        (enclosed limit (field (value limit depth)) '\x7d' rest).map fun (fs, rest) => (.obj fs, rest)
    | 'n' => keyword "null" .null (c :: rest)
    | 't' => keyword "true" (.bool true) (c :: rest)
    | 'f' => keyword "false" (.bool false) (c :: rest)
    | _ => number (c :: rest)

end Reader

/-- The value that a text holds, if arrays and objects nest at most `depth` deep in it. There are
never more items than characters. -/
def parse? (depth : Nat) (text : String) : Option Json := do
  let (v, rest) ← Reader.value text.length depth (Reader.skip text.toList)
  if (Reader.skip rest).isEmpty then some v else none

end CoolStatics.Json
