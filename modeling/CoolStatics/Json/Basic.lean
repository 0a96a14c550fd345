/-!
JSON values. An object keeps its fields in the order of the text, repeated ones included. Numbers
are integers where they are written as such and fit 64 bits; of any other number only the text is
kept.
-/
namespace CoolStatics

inductive Json
  | null
  | bool (value : Bool)
  | int (value : Int)
  | float (text : String)
  | str (value : String)
  | arr (items : List Json)
  | obj (fields : List (String × Json))

end CoolStatics
