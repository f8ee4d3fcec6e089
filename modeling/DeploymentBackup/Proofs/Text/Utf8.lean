import DeploymentBackup.Text.Utf8
import Mathlib.Tactic.SplitIfs

namespace DeploymentBackup.Text

/-!
# Reading text that was written

* `readChar_utf8EncodeChar` — the character at the front of its own bytes is read.
* `decode?_encode`, `decodeLossy_encode` — every text is read back from its bytes.
-/

theorem toNat_ofNat_of_lt {n : Nat} (h : n < 256) : (UInt8.ofNat n).toNat = n := by
  rw [UInt8.toNat_ofNat']
  exact Nat.mod_eq_of_lt h

/-! ### Leading bytes -/

theorem lead_one {n : Nat} (h : n < 0x80) : Lead.of? (UInt8.ofNat n) = some ⟨n, 0, 0, 0⟩ := by
  simp only [Lead.of?, toNat_ofNat_of_lt (show n < 256 by omega), if_pos h]

theorem lead_two {n : Nat} (hlow : 0xC2 ≤ n) (hhigh : n ≤ 0xDF) :
    Lead.of? (UInt8.ofNat n) = some ⟨n - 0xC0, 1, 0x80, 0xBF⟩ := by
  simp only [Lead.of?, toNat_ofNat_of_lt (show n < 256 by omega)]
  rw [if_neg (by omega), if_pos ⟨hlow, hhigh⟩]

/-- The byte behind a leading byte of three is bounded more narrowly at both ends: no
    overlong form, no surrogate. -/
theorem lead_three {n : Nat} (hlow : 0xE0 ≤ n) (hhigh : n ≤ 0xEF) :
    Lead.of? (UInt8.ofNat n) =
      some ⟨n - 0xE0, 2, if n = 0xE0 then 0xA0 else 0x80, if n = 0xED then 0x9F else 0xBF⟩ := by
  simp only [Lead.of?, toNat_ofNat_of_lt (show n < 256 by omega)]
  rw [if_neg (by omega), if_neg (by omega)]
  by_cases h0 : n = 0xE0
  · simp [h0]
  by_cases hD : n = 0xED
  · simp [hD]
  rw [if_neg h0, if_neg hD, if_pos ⟨by omega, hhigh⟩, if_neg h0, if_neg hD]

/-- The byte behind a leading byte of four is bounded likewise: no overlong form, nothing
    past the last code point. -/
theorem lead_four {n : Nat} (hlow : 0xF0 ≤ n) (hhigh : n ≤ 0xF4) :
    Lead.of? (UInt8.ofNat n) =
      some ⟨n - 0xF0, 3, if n = 0xF0 then 0x90 else 0x80, if n = 0xF4 then 0x8F else 0xBF⟩ := by
  simp only [Lead.of?, toNat_ofNat_of_lt (show n < 256 by omega)]
  rw [if_neg (by omega), if_neg (by omega), if_neg (by omega), if_neg (by omega),
    if_neg (by omega)]
  by_cases h0 : n = 0xF0
  · simp [h0]
  by_cases h4 : n = 0xF4
  · simp [h4]
  rw [if_neg h0, if_neg h4, if_pos ⟨by omega, by omega⟩, if_neg h0, if_neg h4]

/-! ### Characters -/

/-- A trailing byte in bounds is read, whatever follows it. -/
theorem readTrail_cons {value more low high n : Nat} {rest : Bytes} (hn : n < 256)
    (hlow : low ≤ n) (hhigh : n ≤ high) :
    readTrail value (more + 1) low high (UInt8.ofNat n :: rest) =
      readTrail (value * 64 + (n - 0x80)) more 0x80 0xBF rest := by
  rw [readTrail, toNat_ofNat_of_lt hn, if_pos ⟨hlow, hhigh⟩]

theorem readChar_of_lead {b : UInt8} {lead : Lead} {bytes rest : Bytes} {value : Nat}
    (hlead : Lead.of? b = some lead)
    (htrail : readTrail lead.bits lead.more lead.low lead.high bytes = (some value, rest)) :
    readChar b bytes = (some (Char.ofNat value), rest) := by
  simp only [readChar, hlead, htrail]

/-- The character at the front of its own bytes is read, and nothing else is taken. -/
theorem readChar_utf8EncodeChar (c : Char) (rest : Bytes) :
    ∃ b more, String.utf8EncodeChar c = b :: more ∧
      readChar b (more ++ rest) = (some c, rest) := by
  have hc : Char.ofNat c.val.toNat = c := Char.ofNat_toNat c
  have hvalid : c.val.toNat < 0xD800 ∨ (0xDFFF < c.val.toNat ∧ c.val.toNat < 0x110000) := c.valid
  rw [String.utf8EncodeChar]
  generalize c.val.toNat = v at hc hvalid
  -- One case for each number of bytes.
  by_cases h1 : v ≤ 0x7F
  · refine ⟨UInt8.ofNat v, [], by rw [if_pos h1], ?_⟩
    rw [readChar_of_lead (lead_one (show v < 0x80 by omega)) rfl, hc, List.nil_append]
  by_cases h2 : v ≤ 0x7FF
  · refine ⟨_, _, by rw [if_neg h1, if_pos h2], ?_⟩
    rw [readChar_of_lead (lead_two (by omega) (by omega)), hc]
    simp only [List.cons_append, List.nil_append]
    rw [readTrail_cons (by omega) (by omega) (by omega), readTrail]
    exact congrArg (fun value => (some value, rest)) (by omega)
  by_cases h3 : v ≤ 0xFFFF
  · refine ⟨_, _, by rw [if_neg h1, if_neg h2, if_pos h3], ?_⟩
    rw [readChar_of_lead (lead_three (by omega) (by omega)), hc]
    simp only [List.cons_append, List.nil_append]
    rw [readTrail_cons (by omega) (by split_ifs <;> omega) (by split_ifs <;> omega),
      readTrail_cons (by omega) (by omega) (by omega), readTrail]
    exact congrArg (fun value => (some value, rest)) (by omega)
  · refine ⟨_, _, by rw [if_neg h1, if_neg h2, if_neg h3], ?_⟩
    rw [readChar_of_lead (lead_four (by omega) (by omega)), hc]
    simp only [List.cons_append, List.nil_append]
    rw [readTrail_cons (by omega) (by split_ifs <;> omega) (by split_ifs <;> omega),
      readTrail_cons (by omega) (by omega) (by omega),
      readTrail_cons (by omega) (by omega) (by omega), readTrail]
    exact congrArg (fun value => (some value, rest)) (by omega)

/-! ### Texts -/

theorem decodeChars?_encodeChars (cs : List Char) : decodeChars? (encodeChars cs) = some cs := by
  induction cs with
  | nil => rw [encodeChars, List.flatMap_nil, decodeChars?]
  | cons c cs ih =>
    obtain ⟨b, more, hbytes, hread⟩ := readChar_utf8EncodeChar c (encodeChars cs)
    have hcons : encodeChars (c :: cs) = b :: (more ++ encodeChars cs) := by
      rw [encodeChars, List.flatMap_cons, hbytes, List.cons_append]
      rfl
    rw [hcons, decodeChars?, hread]
    simp only [ih]
    rfl

/-- Every text is read back from its bytes. -/
theorem decode?_encode (s : String) : decode? (encode s) = some s := by
  rw [decode?, encode, decodeChars?_encodeChars, Option.map_some, String.ofList_toList]

theorem decodeLossyChars_encodeChars (cs : List Char) :
    decodeLossyChars (encodeChars cs) = cs := by
  induction cs with
  | nil => rw [encodeChars, List.flatMap_nil, decodeLossyChars]
  | cons c cs ih =>
    obtain ⟨b, more, hbytes, hread⟩ := readChar_utf8EncodeChar c (encodeChars cs)
    have hcons : encodeChars (c :: cs) = b :: (more ++ encodeChars cs) := by
      rw [encodeChars, List.flatMap_cons, hbytes, List.cons_append]
      rfl
    rw [hcons, decodeLossyChars, hread, ih]
    rfl

/-- What is well-formed is read leniently as it is read strictly. -/
theorem decodeLossy_encode (s : String) : decodeLossy (encode s) = s := by
  rw [decodeLossy, encode, decodeLossyChars_encodeChars, String.ofList_toList]

end DeploymentBackup.Text
