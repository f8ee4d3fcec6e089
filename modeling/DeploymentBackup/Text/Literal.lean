import DeploymentBackup.Text.Invisible

namespace DeploymentBackup.Text

/-!
# Quoted literals

A message that is shown inside another one is written as a double-quoted literal: quotes,
backslashes and control characters are escaped, and so is every character that would not
show as itself, by its code point in braces.

* `literal` — the quoted form of a text.
-/

/-- One character inside a literal. -/
def literalChar (c : Char) : List Char :=
  match c with
  | '\x00' => ['\\', '0']
  | '\t' => ['\\', 't']
  | '\r' => ['\\', 'r']
  | '\n' => ['\\', 'n']
  | '"' => ['\\', '"']
  | '\\' => ['\\', '\\']
  | c => if isInvisible c then "\\u\x7b".toList ++ Nat.toDigits 16 c.toNat ++ ['}'] else [c]

/-- A text as a double-quoted literal. -/
def literal (s : String) : String :=
  String.ofList ('"' :: s.toList.flatMap literalChar ++ ['"'])

end DeploymentBackup.Text
