/-
Double-quoted text.

The quote, the backslash and the characters below U+0020 are written as escapes, with a letter
where one exists and as `\u00hh` otherwise.  All else is written as it is.
-/

namespace Reify
namespace Text

/-- The digit that writes `n` in hexadecimal, for `n` below 16. -/
def hexDigit (n : Nat) : Char :=
  if n < 10 then Char.ofNat (48 + n) else Char.ofNat (87 + n)

def quoteChar (c : Char) : List Char :=
  match c with
  | '"' => ['\\', '"']
  | '\\' => ['\\', '\\']
  | '\x08' => ['\\', 'b']
  | '\x0C' => ['\\', 'f']
  | '\n' => ['\\', 'n']
  | '\r' => ['\\', 'r']
  | '\t' => ['\\', 't']
  | c =>
    if c.toNat < 0x20 then
      ['\\', 'u', '0', '0', hexDigit (c.toNat / 16), hexDigit (c.toNat % 16)]
    else [c]

def quoteChars (cs : List Char) : List Char :=
  '"' :: (cs.flatMap quoteChar ++ ['"'])

/-- The text as a double-quoted literal. -/
def quote (text : String) : String := String.ofList (quoteChars text.toList)

example : quote "say \"hi\"\n" = "\"say \\\"hi\\\"\\n\"" := rfl
example : quote "\x01\x7F" = "\"\\u0001\x7F\"" := rfl

end Text
end Reify
