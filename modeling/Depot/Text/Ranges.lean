/-!
This module contains sets of characters given as ranges of code points.
-/

namespace Depot.Text

def inRanges (ranges : Array (Nat × Nat)) (code : Nat) : Bool :=
  ranges.any fun range => range.1 ≤ code && code ≤ range.2

end Depot.Text
