/-
Quoted text, the way values show a string to a reader.

Quotation marks and backslashes are escaped, tab, line feed, carriage return and NUL have short escapes, and every other
character that would not show is written by its hexadecimal number. `quote` puts the marks around it.
-/
import PartitionedScan.Text.Unprintable

namespace PartitionedScan.Text.Quoted

/-- one character inside the quotation marks -/
def escape (c : Char) : List Char :=
  match c with
  | '\t' => ['\\', 't']
  | '\n' => ['\\', 'n']
  | '\r' => ['\\', 'r']
  | '"' => ['\\', '"']
  | '\\' => ['\\', '\\']
  | c =>
    if c.toNat = 0 then ['\\', '0']
    else if c.toNat < 32 || isUnprintable c then
      ['\\', 'u', '\x7b'] ++ Nat.toDigits 16 c.toNat ++ ['\x7d']
    else [c]

/-- the text between quotation marks, escaped where needed -/
def quote (s : String) : String :=
  String.ofList ('"' :: s.toList.flatMap escape ++ ['"'])

end PartitionedScan.Text.Quoted
