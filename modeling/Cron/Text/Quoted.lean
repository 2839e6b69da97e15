import Cron.Text.Standalone

/-!
# Quoted text

Text as error messages and journal records show it: between double quotes, on
one line, with every character that would not show by itself written as an
escape.  The escapes are `\0`, `\t`, `\r`, `\n`, `\\` and `\"`, and a code point
in lower-case hexadecimal digits for all others.  A single quote is left alone.
-/

namespace Cron.Text.Quoted

/-- One character as it is shown between quotes. -/
def escape (c : Char) : List Char :=
  match c with
  | '\x00' => ['\\', '0']
  | '\t' => ['\\', 't']
  | '\r' => ['\\', 'r']
  | '\n' => ['\\', 'n']
  | '\\' => ['\\', '\\']
  | '"' => ['\\', '"']
  | c =>
      if isStandalone c then [c]
      else '\\' :: 'u' :: '\x7b' :: Nat.toDigits 16 c.toNat ++ ['\x7d']

/-- The text between double quotes. -/
def quote (cs : List Char) : List Char := '"' :: cs.flatMap escape ++ ['"']

end Cron.Text.Quoted
