namespace DeploymentBackup.Shell

/-!
# Quoting for a shell

A text that becomes one word of a command is written so that the shell reads it back
unchanged. Texts of harmless characters stay as they are; others are put between single
quotes, and the characters that could end or trouble these are written outside of them.

* `quote` — a text as one word.
-/

/-- A character that has no meaning for a shell. -/
def isHarmless (c : Char) : Bool :=
  c.isAlphanum || c = '-' || c = '_' || c = '=' || c = '/' || c = ',' || c = '.' || c = '+'

/-- A character between single quotes; quotes are closed around some. -/
def quoteChar (c : Char) : List Char :=
  if c = '\'' || c = '!' then ['\'', '\\', c, '\''] else [c]

/-- The characters of a text as one word. -/
def quoteChars (cs : List Char) : List Char :=
  if cs ≠ [] ∧ cs.all isHarmless then cs
  else '\'' :: cs.flatMap quoteChar ++ ['\'']

/-- A text as one word. -/
def quote (s : String) : String :=
  String.ofList (quoteChars s.toList)

end DeploymentBackup.Shell
