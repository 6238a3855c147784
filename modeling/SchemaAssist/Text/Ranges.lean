/-! # Sets of characters given by ranges

A set of characters is a list of ranges of code points, first and last one included.
-/
namespace SchemaAssist.Text

def inRanges (ranges : List (Nat × Nat)) (code : Nat) : Bool :=
  ranges.any fun r => decide (r.1 ≤ code) && decide (code ≤ r.2)

end SchemaAssist.Text
