import Prefill.Text.Printable

/-!
Text as it is shown inside a message: in double quotes, with every character escaped that would
not be seen as itself.
-/

namespace Prefill.Text

/-- One character between double quotes. -/
def shown (c : Char) : Text :=
  match c with
  | '"' => "\\\"".toList
  | '\\' => "\\\\".toList
  | '\n' => "\\n".toList
  | '\r' => "\\r".toList
  | '\t' => "\\t".toList
  | '\x00' => "\\0".toList
  | c =>
    if isExtender c || !isPrintable c then "\\u\x7b".toList ++ hex 1 c.toNat ++ ['\x7d'] else [c]

/-- Text in double quotes. -/
def inQuotes (text : Text) : Text := '"' :: (text.flatMap shown ++ ['"'])

/-- Text in double quotes, for a message. -/
def quoted (text : Text) : String := str (inQuotes text)

end Prefill.Text
