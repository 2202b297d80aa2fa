import Hygiene.Text.Extending

/-!
# Quoted text

Text between double quotes, in which every character that could be misread is spelled out: the quote
and the backslash behind a backslash, NUL, tab, newline and carriage return by a letter, and all
else that is not printable or extends its neighbour by its number in braces. A single quote stands
for itself. The first character of `escape` is a backslash exactly when the character is spelled
out, so the closing quote is the only bare one.
-/

namespace Hygiene.Text

/-- A code point in lower-case hexadecimal without padding, in braces behind `\u`. -/
def numbered (c : Char) : List Char :=
  '\\' :: 'u' :: '{' :: Nat.toDigits 16 c.toNat ++ ['}']

/-- The spelling of one character inside quotes. -/
def escape (c : Char) : List Char :=
  match c with
  | '\x00' => ['\\', '0']
  | '\t' => ['\\', 't']
  | '\r' => ['\\', 'r']
  | '\n' => ['\\', 'n']
  | '"' => ['\\', '"']
  | '\\' => ['\\', '\\']
  | c => if isPrintable c && !isExtending c then [c] else numbered c

/-- The spelling of a text inside quotes, without the quotes. -/
def escapeAll (cs : List Char) : List Char :=
  cs.flatMap escape

def quoted (s : String) : String :=
  String.ofList ('"' :: escapeAll s.toList ++ ['"'])

@[simp] theorem escapeAll_cons (c : Char) (cs : List Char) :
    escapeAll (c :: cs) = escape c ++ escapeAll cs := rfl

@[simp] theorem toList_quoted (s : String) :
    (quoted s).toList = '"' :: escapeAll s.toList ++ ['"'] := String.toList_ofList

end Hygiene.Text
