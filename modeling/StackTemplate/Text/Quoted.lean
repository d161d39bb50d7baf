import StackTemplate.Text.Unseen

/-!
# Quoted texts in messages

Names are shown in double quotes. Quotes, backslashes, line ends, tabs and the
null character are escaped with a backslash, other characters that cannot be
seen by their hexadecimal number, and everything else stands for itself.
-/

namespace StackTemplate.Text

/-- A character inside quotes. -/
def quoteChar (c : Char) : List Char :=
  match c with
  | '"' => ['\\', '"']
  | '\\' => ['\\', '\\']
  | '\n' => ['\\', 'n']
  | '\r' => ['\\', 'r']
  | '\t' => ['\\', 't']
  | '\x00' => ['\\', '0']
  | c =>
    if !isUnseen c then [c]
    else '\\' :: 'u' :: '\x7b' :: Nat.toDigits 16 c.toNat ++ ['\x7d']

/-- A text in quotes. -/
def quote (text : String) : List Char := '"' :: text.toList.flatMap quoteChar ++ ['"']

/-- Texts in quotes, with commas between them, in brackets. -/
def quoteList (texts : List String) : String :=
  let separated := match texts.map quote with
    | [] => []
    | first :: others => first ++ others.flatMap fun text => ',' :: ' ' :: text
  String.ofList ('[' :: separated ++ [']'])

end StackTemplate.Text
