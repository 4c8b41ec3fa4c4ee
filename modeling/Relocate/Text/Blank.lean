import Relocate.Text.Ranges
import Relocate.Text.Basic

/-!
# Blank text

White space is what Unicode calls so, with the four information separators below the space. The
zero width space is no white space.
-/
namespace Relocate.Text

/-- White space characters. -/
def blankRanges : List (Nat × Nat) := [
  (0x9, 0xd), (0x1c, 0x20), (0x85, 0x85), (0xa0, 0xa0), (0x1680, 0x1680), (0x2000, 0x200a),
  (0x2028, 0x2029), (0x202f, 0x202f), (0x205f, 0x205f), (0x3000, 0x3000)]

/-- The character is white space. -/
def isBlankChar (c : Char) : Bool := inRanges blankRanges c.toNat

/-- The text is empty or holds white space only. -/
def isBlank (t : Text) : Bool := t.all isBlankChar

end Relocate.Text
