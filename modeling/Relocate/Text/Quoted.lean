import Relocate.Text.Basic
import Relocate.Text.Printable

/-!
# Quoted text

Messages show a path or a name between quotes. Single quotes are used unless the text holds a single
quote and no double quote. The quote in use and the backslash are escaped; tab, line feed and
carriage return have a letter each, and any other character that is not printable is written as
its code point in hexadecimal, with two, four or eight digits.
-/
namespace Relocate.Text

/-- The last `width` hexadecimal digits of a number, with leading zeros. -/
def hexDigits : (width : Nat) → Nat → Text
  | 0, _ => []
  | width + 1, n => hexDigits width (n / 16) ++ [Nat.digitChar (n % 16)]

/-- One character inside quotes. -/
def escapeChar (quote c : Char) : Text :=
  if c = quote || c = '\\' then ['\\', c]
  else if c = '\t' then ['\\', 't']
  else if c = '\n' then ['\\', 'n']
  else if c = '\r' then ['\\', 'r']
  else if isPrintable c then [c]
  else if c.toNat < 0x100 then ['\\', 'x'] ++ hexDigits 2 c.toNat
  else if c.toNat < 0x10000 then ['\\', 'u'] ++ hexDigits 4 c.toNat
  else ['\\', 'U'] ++ hexDigits 8 c.toNat

/-- The quote that suits a text: a double quote only where it saves escaping. -/
def quoteFor (t : Text) : Char :=
  if t.contains '\x27' && !t.contains '"' then '"' else '\x27'

/-- The text between quotes. -/
def quoted (t : Text) : Text :=
  let quote := quoteFor t
  [quote] ++ t.flatMap (escapeChar quote) ++ [quote]

end Relocate.Text
