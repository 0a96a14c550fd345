import CoolStatics.ProgramFile.Decode
import CoolStatics.ProgramFile.Lower

/-!
Loading a program from the text of its file.
-/
namespace CoolStatics

namespace Path

/-- The parts of a path that lead somewhere else. -/
def parts (path : String) : List String :=
  (path.splitOn "/").filter fun part => part ≠ "" ∧ part ≠ "."

/-- The name of the file that a path ends in. -/
def fileName? (path : String) : Option String :=
  match (parts path).getLast? with
  | some ".." => none
  | last => last

end Path

inductive LoadError
  | unreadable (path : String)
  | malformed (path : String)
  | empty (node : EmptyNode)
  deriving DecidableEq, Repr

namespace LoadError

def message : LoadError → String
  | unreadable path => "Failed to read program '" ++ path ++ "'"
  | malformed path => "Failed to parse program '" ++ path ++ "'"
  | empty ⟨.block, place⟩ => place.text ++ ": block expression has no body"
  | empty ⟨.case, place⟩ => place.text ++ ": case expression has no branches"

def code? : LoadError → Option String
  | empty ⟨.block, _⟩ => some "coolc::load::empty_block"
  | empty ⟨.case, _⟩ => some "coolc::load::empty_case"
  | _ => none

def help? : LoadError → Option String
  | empty ⟨.block, _⟩ => some "a block needs at least one expression"
  | _ => none

end LoadError

/-- Loads the program at a path, given the text there if there is any. The file name of a class
defaults to that of the path. -/
def Program.load (path : String) (content : Option String) (i : Interner) :
    Except LoadError Program × Interner :=
  match content with
  | none => (.error (.unreadable path), i)
  | some text =>
    match ProgramFile.parse? text with
    | none => (.error (.malformed path), i)
    | some file =>
      let (loaded, i) := file.lower ((Path.fileName? path).getD path) i
      (loaded.mapError .empty, i)

end CoolStatics
