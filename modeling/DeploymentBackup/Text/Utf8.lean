namespace DeploymentBackup.Text

/-!
# Bytes and text

Text is written as UTF-8. Bytes from outside are read in two ways: strictly, where one
ill-formed sequence makes the whole ill-formed, and leniently, where each maximal
ill-formed subsequence becomes one replacement character.

* `encode` — the bytes of a text.
* `decode?` — the text of well-formed bytes.
* `decodeLossy` — the text of any bytes.
-/

/-- Contents of files and streams. -/
abbrev Bytes := List UInt8

/-- The bytes of a list of characters. -/
def encodeChars (cs : List Char) : Bytes :=
  cs.flatMap String.utf8EncodeChar

/-- The bytes of a text. -/
def encode (s : String) : Bytes :=
  encodeChars s.toList

/-- The character that stands for an ill-formed subsequence. -/
def replacement : Char := '\uFFFD'

/-- What a leading byte asks for: the bits it contributes, how many bytes follow, and the
    bounds of the first of them. Every later byte lies between `0x80` and `0xBF`. -/
structure Lead where
  bits : Nat
  more : Nat
  low : Nat
  high : Nat

/-- Reads a byte as a leading byte. The narrowed bounds exclude overlong forms,
    surrogates and values past the last code point. -/
def Lead.of? (byte : UInt8) : Option Lead :=
  let b := byte.toNat
  if b < 0x80 then some ⟨b, 0, 0, 0⟩
  else if 0xC2 ≤ b ∧ b ≤ 0xDF then some ⟨b - 0xC0, 1, 0x80, 0xBF⟩
  else if b = 0xE0 then some ⟨0, 2, 0xA0, 0xBF⟩
  else if b = 0xED then some ⟨0xD, 2, 0x80, 0x9F⟩
  else if 0xE1 ≤ b ∧ b ≤ 0xEF then some ⟨b - 0xE0, 2, 0x80, 0xBF⟩
  else if b = 0xF0 then some ⟨0, 3, 0x90, 0xBF⟩
  else if b = 0xF4 then some ⟨4, 3, 0x80, 0x8F⟩
  else if 0xF1 ≤ b ∧ b ≤ 0xF3 then some ⟨b - 0xF0, 3, 0x80, 0xBF⟩
  else none

/-- Reads `more` trailing bytes, the first within the given bounds. The result is the
    value and the bytes left, or only the bytes left once one byte does not fit. -/
def readTrail (value : Nat) : (more low high : Nat) → Bytes → Option Nat × Bytes
  | 0, _, _, rest => (some value, rest)
  | _ + 1, _, _, [] => (none, [])
  | more + 1, low, high, b :: rest =>
    if low ≤ b.toNat ∧ b.toNat ≤ high then
      readTrail (value * 64 + (b.toNat - 0x80)) more 0x80 0xBF rest
    else (none, b :: rest)

theorem readTrail_length (value more low high : Nat) (bytes : Bytes) :
    (readTrail value more low high bytes).2.length ≤ bytes.length := by
  induction more generalizing value low high bytes with
  | zero => simp [readTrail]
  | succ more ih =>
    cases bytes with
    | nil => simp [readTrail]
    | cons b rest =>
      rw [readTrail]
      split
      · exact Nat.le_trans (ih _ _ _ _) (by simp)
      · exact Nat.le_refl _

/-- The character at the front of `b :: rest`, or none for an ill-formed subsequence,
    and the bytes behind it. -/
def readChar (b : UInt8) (rest : Bytes) : Option Char × Bytes :=
  match Lead.of? b with
  | none => (none, rest)
  | some lead =>
    match readTrail lead.bits lead.more lead.low lead.high rest with
    | (some value, rest) => (some (Char.ofNat value), rest)
    | (none, rest) => (none, rest)

theorem readChar_length (b : UInt8) (rest : Bytes) :
    (readChar b rest).2.length ≤ rest.length := by
  unfold readChar
  split
  · exact Nat.le_refl _
  · rename_i lead _
    have h := readTrail_length lead.bits lead.more lead.low lead.high rest
    split <;> simp_all

/-- The characters of any bytes, with `replacement` for what is ill-formed. -/
def decodeLossyChars : Bytes → List Char
  | [] => []
  | b :: rest =>
    (readChar b rest).1.getD replacement :: decodeLossyChars (readChar b rest).2
termination_by bytes => bytes.length
decreasing_by
  have := readChar_length b rest
  simp only [List.length_cons]
  omega

/-- The text of any bytes, with `replacement` for what is ill-formed. -/
def decodeLossy (bytes : Bytes) : String :=
  String.ofList (decodeLossyChars bytes)

/-- The characters of well-formed bytes. -/
def decodeChars? : Bytes → Option (List Char)
  | [] => some []
  | b :: rest => do
    let c ← (readChar b rest).1
    let cs ← decodeChars? (readChar b rest).2
    return c :: cs
termination_by bytes => bytes.length
decreasing_by
  have := readChar_length b rest
  simp only [List.length_cons]
  omega

/-- The text of well-formed bytes. -/
def decode? (bytes : Bytes) : Option String :=
  (decodeChars? bytes).map String.ofList

end DeploymentBackup.Text
