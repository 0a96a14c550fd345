/-!
Lines and places in source files.
-/
namespace CoolStatics

abbrev Line := UInt32

structure Place where
  file : String
  line : Line
  deriving DecidableEq, Repr

def Line.text (l : Line) : String := l.toNat.repr

def Place.text (p : Place) : String := p.file ++ ":" ++ Line.text p.line

end CoolStatics
