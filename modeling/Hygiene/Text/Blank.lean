/-!
# Blank characters

The characters with the Unicode property `White_Space`. Trimming a line removes all of them from
its front, so a line may be indented with more than spaces and tabs.
-/

namespace Hygiene.Text

/-- Whether a character is white space. -/
def isBlank (c : Char) : Bool :=
  let code := c.toNat
  (0x09 ≤ code && code ≤ 0x0D) || code == 0x20 || code == 0x85 || code == 0xA0 || code == 0x1680
    || (0x2000 ≤ code && code ≤ 0x200A) || code == 0x2028 || code == 0x2029 || code == 0x202F
    || code == 0x205F || code == 0x3000

end Hygiene.Text
