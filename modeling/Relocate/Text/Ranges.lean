/-!
# Classes of code points

A class of characters is a table of closed intervals of code points. Membership is a scan of the
table; the tables are short enough for that, and a scan is easy to reason about.
-/
namespace Relocate.Text

/-- The code point lies in one of the closed intervals. -/
def inRanges (ranges : List (Nat × Nat)) (code : Nat) : Bool :=
  ranges.any fun range => range.1 ≤ code && code ≤ range.2

end Relocate.Text
