/-!
Sets of characters as ranges of code points.
-/
namespace CoolStatics.Text

/-- Closed ranges of code points. -/
abbrev Ranges := List (Nat × Nat)

namespace Ranges

def holds (rs : Ranges) (c : Char) : Bool :=
  rs.any fun (lo, hi) => lo ≤ c.toNat && c.toNat ≤ hi

/-- No range is empty, and between two neighbours lies a gap. -/
def ascending : Ranges → Bool
  | [] => true
  | [(lo, hi)] => lo ≤ hi
  | (lo, hi) :: (lo', hi') :: rest => lo ≤ hi && hi + 1 < lo' && ascending ((lo', hi') :: rest)

def count (rs : Ranges) : Nat := rs.foldr (fun (lo, hi) n => hi + 1 - lo + n) 0

end Ranges
end CoolStatics.Text
