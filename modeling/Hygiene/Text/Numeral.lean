/-!
# Decimal numerals

Whole numbers in decimal: a minus sign in front of a negative one, no plus sign, no padding.
-/

namespace Hygiene.Text

def decimal (n : Int) : String :=
  if n < 0 then "-" ++ n.natAbs.repr else n.natAbs.repr

end Hygiene.Text
