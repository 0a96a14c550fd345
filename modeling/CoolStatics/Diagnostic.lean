import CoolStatics.Place

/-!
Diagnostics as they are shown: a message, where it applies, and perhaps a hint.
-/
namespace CoolStatics

structure Diagnostic where
  message : String
  place : Option Place
  hint : Option String
  deriving DecidableEq, Repr

namespace Diagnostic

/-- `FILE:LINE: MESSAGE`, or the message alone where it concerns the whole program. -/
def text (d : Diagnostic) : String :=
  match d.place with
  | some place => place.text ++ ": " ++ d.message
  | none => d.message

def listing (ds : List Diagnostic) : String := String.join (ds.map (·.text ++ "\n"))

@[simp] theorem listing_nil : listing [] = "" := rfl

def summary (path : String) (ds : List Diagnostic) : String :=
  ds.length.repr ++ " static semantic error" ++ (if ds.length = 1 then "" else "s") ++ " in " ++ path

/-- Stands after the diagnostics of a program that failed. -/
def halted : String := "Compilation halted due to static semantic errors."

def checkCode : String := "coolc::check"

def code : String := "coolc::semantic"

end Diagnostic
end CoolStatics
