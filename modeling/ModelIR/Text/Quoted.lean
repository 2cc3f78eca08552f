import ModelIR.Text.Unseen

/-!
# Quoted text

Text between quotes, in which quotes, backslashes and unseen characters are written with a
backslash.
-/

namespace ModelIR.Quoted

/-- A character as it is written between quotes. -/
def encodeChar : Char → List Char
  | '"' => ['\\', '"']
  | '\\' => ['\\', '\\']
  | '\n' => ['\\', 'n']
  | '\r' => ['\\', 'r']
  | '\t' => ['\\', 't']
  | '\x00' => ['\\', '0']
  | c => if isUnseen c then "\\u\x7b".toList ++ Nat.toDigits 16 c.toNat ++ ['\x7d'] else [c]

/-- The text between quotes. -/
def encode (text : String) : String :=
  String.ofList ('"' :: (text.toList.flatMap encodeChar ++ ['"']))

end ModelIR.Quoted
