import DeploymentBackup.Proofs.Text.Utf8
import Mathlib.Algebra.Ring.Nat

namespace DeploymentBackup.Text

/-!
# Reading any bytes leniently

A byte of ASCII is never part of the sequence of another character, so that bytes can be cut in
front of it before they are read or afterwards. And a character of ASCII is never read from
anything but its own byte. NUL is left out there: it stands for a value that is no character.

* `readTrail_append`, `readChar_append`, `decodeLossyChars_append` — bytes in front of one of ASCII.
* `decodeLossyChars_text` — bytes behind those of a text.
* `byte_of_mem`, `getLast?_of_decodeLossyChars` — where a character of ASCII comes from.
-/

/-! ### Leading bytes -/

theorem Lead.of_ascii {b : UInt8} (hb : b.toNat < 0x80) :
    Lead.of? b = some ⟨b.toNat, 0, 0, 0⟩ := by
  simp only [Lead.of?, if_pos hb]

/-- Every other leading byte is followed by bytes above ASCII, and its value is above ASCII as soon
    as the first one of them is known. -/
theorem Lead.of_high {b : UInt8} {lead : Lead} (h : Lead.of? b = some lead)
    (hb : 0x80 ≤ b.toNat) :
    0x80 ≤ lead.low ∧ ∃ more, lead.more = more + 1 ∧
      0x80 ≤ (lead.bits * 64 + (lead.low - 0x80)) * 64 ^ more := by
  simp only [Lead.of?, if_neg (Nat.not_lt.mpr hb)] at h
  generalize b.toNat = n at h
  -- One case for each of the seven ranges of leading bytes.
  split at h
  · rename_i hrange
    obtain rfl := Option.some.inj h
    refine ⟨Nat.le_refl _, 0, rfl, ?_⟩
    simp only [Nat.sub_self]
    omega
  split at h
  · obtain rfl := Option.some.inj h
    exact ⟨by decide, 1, rfl, by decide⟩
  split at h
  · obtain rfl := Option.some.inj h
    exact ⟨by decide, 1, rfl, by decide⟩
  split at h
  · rename_i hother hrange
    obtain rfl := Option.some.inj h
    refine ⟨Nat.le_refl _, 1, rfl, ?_⟩
    simp only [Nat.sub_self]
    omega
  split at h
  · obtain rfl := Option.some.inj h
    exact ⟨by decide, 2, rfl, by decide⟩
  split at h
  · obtain rfl := Option.some.inj h
    exact ⟨by decide, 2, rfl, by decide⟩
  split at h
  · rename_i hrange
    obtain rfl := Option.some.inj h
    refine ⟨Nat.le_refl _, 2, rfl, ?_⟩
    simp only [Nat.sub_self]
    omega
  · cases h

/-! ### Bytes in front of ASCII -/

/-- What is read of trailing bytes does not change when a byte of ASCII stands behind them. -/
theorem readTrail_append {more low high : Nat} (hlow : more = 0 ∨ 0x80 ≤ low) {b : UInt8}
    (hb : b.toNat < 0x80) (value : Nat) (bytes rest : Bytes) :
    readTrail value more low high (bytes ++ b :: rest) =
      ((readTrail value more low high bytes).1,
        (readTrail value more low high bytes).2 ++ b :: rest) := by
  induction more generalizing value low high bytes with
  | zero => rfl
  | succ more ih =>
    have hlow : 0x80 ≤ low := by omega
    cases bytes with
    | nil =>
      -- The byte of ASCII is below all bounds, and so it is left.
      have hout : ¬ (low ≤ b.toNat ∧ b.toNat ≤ high) := by omega
      show (if low ≤ b.toNat ∧ b.toNat ≤ high then _ else (none, b :: rest)) = _
      rw [if_neg hout]
      rfl
    | cons b' bytes =>
      rw [List.cons_append, readTrail, readTrail]
      split
      · exact ih (.inr (Nat.le_refl _)) _ _
      · rfl

/-- A character is the value behind its leading byte. -/
theorem readChar_eq {b : UInt8} {lead : Lead} (h : Lead.of? b = some lead) (bytes : Bytes) :
    readChar b bytes =
      ((readTrail lead.bits lead.more lead.low lead.high bytes).1.map Char.ofNat,
        (readTrail lead.bits lead.more lead.low lead.high bytes).2) := by
  simp only [readChar, h]
  split
  · rename_i htrail
    rw [htrail]
    rfl
  · rename_i htrail
    rw [htrail]
    rfl

theorem readChar_append {b b' : UInt8} (hb : b'.toNat < 0x80) (bytes rest : Bytes) :
    readChar b (bytes ++ b' :: rest) =
      ((readChar b bytes).1, (readChar b bytes).2 ++ b' :: rest) := by
  cases hlead : Lead.of? b with
  | none => simp only [readChar, hlead]
  | some lead =>
    have hlow : lead.more = 0 ∨ 0x80 ≤ lead.low := by
      by_cases hascii : b.toNat < 0x80
      · rw [Lead.of_ascii hascii] at hlead
        cases hlead
        exact .inl rfl
      · exact .inr (Lead.of_high hlead (Nat.not_lt.mp hascii)).1
    rw [readChar_eq hlead, readChar_eq hlead, readTrail_append hlow hb]

/-- Bytes are read alike with and without what follows, when that starts with ASCII. -/
theorem decodeLossyChars_append {b : UInt8} (hb : b.toNat < 0x80) (bytes rest : Bytes) :
    decodeLossyChars (bytes ++ b :: rest) =
      decodeLossyChars bytes ++ decodeLossyChars (b :: rest) := by
  fun_induction decodeLossyChars bytes with
  | case1 => rfl
  | case2 b' bytes ih =>
    rw [List.cons_append, decodeLossyChars, readChar_append hb, ih, List.cons_append]

/-- A text in front of any bytes is read as it is. -/
theorem decodeLossyChars_text (cs : List Char) (rest : Bytes) :
    decodeLossyChars (encodeChars cs ++ rest) = cs ++ decodeLossyChars rest := by
  induction cs with
  | nil => rfl
  | cons c cs ih =>
    obtain ⟨b, more, hbytes, hread⟩ := readChar_utf8EncodeChar c (encodeChars cs ++ rest)
    have hcons : encodeChars (c :: cs) ++ rest = b :: (more ++ (encodeChars cs ++ rest)) := by
      rw [encodeChars, List.flatMap_cons, hbytes]
      simp only [List.cons_append, List.append_assoc]
      rfl
    rw [hcons, decodeLossyChars, hread, ih]
    rfl

/-! ### Characters of ASCII -/

/-- A value only grows with its trailing bytes. -/
theorem le_readTrail {more low high value result : Nat} {bytes rest : Bytes}
    (h : readTrail value more low high bytes = (some result, rest)) :
    value * 64 ^ more ≤ result := by
  induction more generalizing value low high bytes with
  | zero =>
    cases h
    simp
  | succ more ih =>
    cases bytes with
    | nil => cases h
    | cons b bytes =>
      rw [readTrail] at h
      split at h
      · calc value * 64 ^ (more + 1)
          _ = value * 64 * 64 ^ more := by rw [Nat.pow_succ', ← Nat.mul_assoc]
          _ ≤ (value * 64 + (b.toNat - 0x80)) * 64 ^ more :=
            Nat.mul_le_mul_right _ (Nat.le_add_right _ _)
          _ ≤ result := ih h
      · cases h

/-- What is read of trailing bytes is their front. -/
theorem readTrail_suffix (value more low high : Nat) (bytes : Bytes) :
    (readTrail value more low high bytes).2 <:+ bytes := by
  induction more generalizing value low high bytes with
  | zero => exact List.suffix_refl _
  | succ more ih =>
    cases bytes with
    | nil => exact List.suffix_refl _
    | cons b bytes =>
      rw [readTrail]
      split
      · exact (ih _ _ _ _).trans (List.suffix_cons b bytes)
      · exact List.suffix_refl _

theorem readChar_suffix (b : UInt8) (bytes : Bytes) : (readChar b bytes).2 <:+ bytes := by
  cases hlead : Lead.of? b with
  | none => simpa only [readChar, hlead] using List.suffix_refl bytes
  | some lead =>
    rw [readChar_eq hlead]
    exact readTrail_suffix lead.bits lead.more lead.low lead.high bytes

/-- A byte of ASCII is a character. -/
theorem readChar_ascii {b : UInt8} (hb : b.toNat < 0x80) (bytes : Bytes) :
    readChar b bytes = (some (Char.ofNat b.toNat), bytes) :=
  readChar_of_lead (Lead.of_ascii hb) rfl

/-- Every value is a code point of its own, or none. -/
theorem toNat_ofNat_or (value : Nat) :
    (Char.ofNat value).toNat = value ∨ Char.ofNat value = '\x00' := by
  unfold Char.ofNat
  by_cases hvalid : value.isValidChar
  · rw [dif_pos hvalid]
    exact .inl rfl
  · rw [dif_neg hvalid]
    exact .inr rfl

/-- What is read behind a byte above ASCII is above ASCII too. -/
theorem le_of_readTrail {lead : Lead} {b : UInt8} (h : Lead.of? b = some lead)
    (hb : 0x80 ≤ b.toNat) {bytes rest : Bytes} {value : Nat}
    (hread : readTrail lead.bits lead.more lead.low lead.high bytes = (some value, rest)) :
    0x80 ≤ value := by
  obtain ⟨-, more, hmore, hleast⟩ := Lead.of_high h hb
  rw [hmore] at hread
  cases bytes with
  | nil => cases hread
  | cons b' bytes =>
    rw [readTrail] at hread
    split at hread
    · rename_i hbounds
      calc 0x80
        _ ≤ (lead.bits * 64 + (lead.low - 0x80)) * 64 ^ more := hleast
        _ ≤ (lead.bits * 64 + (b'.toNat - 0x80)) * 64 ^ more :=
          Nat.mul_le_mul_right _ (by omega)
        _ ≤ value := le_readTrail hread
    · cases hread

/-- Other bytes are never read as a character of ASCII, NUL excepted. -/
theorem readChar_high {b : UInt8} (hb : 0x80 ≤ b.toNat) (bytes : Bytes) :
    0x80 ≤ ((readChar b bytes).1.getD replacement).toNat ∨
      (readChar b bytes).1.getD replacement = '\x00' := by
  have hreplacement : 0x80 ≤ replacement.toNat := by decide
  cases hlead : Lead.of? b with
  | none =>
    rw [readChar, hlead]
    exact .inl hreplacement
  | some lead =>
    rw [readChar_eq hlead]
    cases htrail : readTrail lead.bits lead.more lead.low lead.high bytes with
    | mk value rest =>
      cases value with
      | none => exact .inl hreplacement
      | some value =>
        -- A value that is no code point is read as NUL.
        rcases toNat_ofNat_or value with hvalue | hvalue
        · exact .inl (Nat.le_trans (le_of_readTrail hlead hb htrail) (Nat.le_of_eq hvalue.symm))
        · exact .inr hvalue

/-- A character of ASCII, NUL excepted, is read from its own byte only. -/
theorem byte_of_readChar {b : UInt8} {bytes : Bytes} {c : Char}
    (h : (readChar b bytes).1.getD replacement = c) (hascii : c.toNat < 0x80) (hnul : c ≠ '\x00') :
    b.toNat = c.toNat ∧ (readChar b bytes).2 = bytes := by
  by_cases hb : b.toNat < 0x80
  · rw [readChar_ascii hb] at h ⊢
    refine ⟨?_, rfl⟩
    rcases toNat_ofNat_or b.toNat with hvalue | hvalue
    · rw [← hvalue, ← h]
      rfl
    · exact absurd (h.symm.trans hvalue) hnul
  · rcases readChar_high (Nat.not_lt.mp hb) bytes with hhigh | hzero
    · rw [h] at hhigh
      omega
    · exact absurd (h.symm.trans hzero) hnul

/-- A character of ASCII, NUL excepted, is in a text only when its byte is among those read. -/
theorem byte_of_mem {c : Char} (hascii : c.toNat < 0x80) (hnul : c ≠ '\x00') {bytes : Bytes}
    (h : c ∈ decodeLossyChars bytes) : ∃ b ∈ bytes, b.toNat = c.toNat := by
  fun_induction decodeLossyChars bytes with
  | case1 => cases h
  | case2 b bytes ih =>
    rcases List.mem_cons.mp h with h | h
    · exact ⟨b, List.mem_cons_self, (byte_of_readChar h.symm hascii hnul).1⟩
    · obtain ⟨b', hmem, hvalue⟩ := ih h
      exact ⟨b', List.mem_cons_of_mem b ((readChar_suffix b bytes).subset hmem), hvalue⟩

/-- Only of no bytes there is nothing to read. -/
theorem decodeLossyChars_eq_nil {bytes : Bytes} : decodeLossyChars bytes = [] ↔ bytes = [] := by
  cases bytes with
  | nil => simp only [decodeLossyChars]
  | cons b bytes => simp only [decodeLossyChars, reduceCtorEq]

/-- The last character is one of ASCII, NUL excepted, only when its byte is the last one. -/
theorem getLast?_of_decodeLossyChars {c : Char} (hascii : c.toNat < 0x80) (hnul : c ≠ '\x00')
    {bytes : Bytes} (h : (decodeLossyChars bytes).getLast? = some c) :
    ∃ b, bytes.getLast? = some b ∧ b.toNat = c.toNat := by
  fun_induction decodeLossyChars bytes with
  | case1 => cases h
  | case2 b bytes ih =>
    cases hrest : decodeLossyChars (readChar b bytes).2 with
    | nil =>
      rw [hrest] at h
      obtain ⟨hvalue, hleft⟩ := byte_of_readChar (Option.some.inj h) hascii hnul
      rw [hleft, decodeLossyChars_eq_nil] at hrest
      exact ⟨b, hrest ▸ rfl, hvalue⟩
    | cons c' cs =>
      rw [hrest, List.getLast?_cons_cons, ← hrest] at h
      obtain ⟨b', hlast, hvalue⟩ := ih h
      refine ⟨b', ?_, hvalue⟩
      obtain ⟨front, hfront⟩ := readChar_suffix b bytes
      rw [← hfront, List.getLast?_cons, List.getLast?_append, hlast]
      rfl

end DeploymentBackup.Text
