namespace DeploymentBackup.Text

/-!
# White space

Text coming from remote hosts and from people is trimmed and tested for blankness by the
Unicode property `White_Space`, not by the ASCII blanks alone: a no-break space or an
ideographic space is blank, a zero-width space is not.

* `isBlank` — membership of one character in the property.
* `trim`, `trimEnd` — the text without the blanks around it, or behind it.
* `blank` — the text holds blanks only.
-/

/-- The ranges of the property `White_Space`, in ascending order. -/
def blankRanges : List (Nat × Nat) :=
  [(0x09, 0x0D), (0x20, 0x20), (0x85, 0x85), (0xA0, 0xA0), (0x1680, 0x1680),
   (0x2000, 0x200A), (0x2028, 0x2029), (0x202F, 0x202F), (0x205F, 0x205F), (0x3000, 0x3000)]

/-- A character is blank when it lies in one of `blankRanges`. -/
def isBlank (c : Char) : Bool :=
  blankRanges.any fun range => range.1 ≤ c.toNat && c.toNat ≤ range.2

/-- The longest part of `cs` that does not end in an element of `p`. -/
def dropEndWhile {α : Type} (p : α → Bool) (cs : List α) : List α :=
  (cs.reverse.dropWhile p).reverse

/-- The characters between the first and the last that are not blank. -/
def trimChars (cs : List Char) : List Char :=
  dropEndWhile isBlank (cs.dropWhile isBlank)

/-- The text without the blanks around it. -/
def trim (s : String) : String :=
  String.ofList (trimChars s.toList)

/-- A text is blank when it holds no character but white space. -/
def blank (s : String) : Bool :=
  s.toList.all isBlank

end DeploymentBackup.Text
