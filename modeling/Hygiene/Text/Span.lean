/-!
# Spans

A stretch of a text, given by where it starts and how long it is, both in UTF-8 bytes
(`byteLength`).
-/

namespace Hygiene.Text

/-- The number of UTF-8 bytes of several characters. -/
def byteLength : List Char → Nat
  | [] => 0
  | c :: cs => c.utf8Size + byteLength cs

/-- A stretch of text: byte offset and byte length. -/
structure Span where
  offset : Nat
  length : Nat
  deriving DecidableEq

def Span.between (start stop : Nat) : Span := ⟨start, stop - start⟩

end Hygiene.Text
