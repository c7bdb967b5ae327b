import WikiPress.Text.Digits
import WikiPress.Text.Printable

/-!
# Quoted texts

The quoting that messages use: double quotes and backslashes are escaped, common controls have a
letter, and every other character without a picture of its own is written by its code point.
-/

namespace WikiPress.Text

def quoteChar (c : Char) : List Char :=
  match c with
  | '"' => ['\\', '"']
  | '\\' => ['\\', '\\']
  | '\n' => ['\\', 'n']
  | '\r' => ['\\', 'r']
  | '\t' => ['\\', 't']
  | '\x00' => ['\\', '0']
  | c =>
    if isPrintable c then [c]
    else ['\\', 'u', '\x7b'] ++ hexDigits c.toNat ++ ['\x7d']

def quoted (s : String) : String :=
  .ofList ('"' :: s.toList.flatMap quoteChar ++ ['"'])

end WikiPress.Text
