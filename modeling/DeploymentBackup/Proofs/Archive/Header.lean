import DeploymentBackup.Archive.Writer
import DeploymentBackup.Proofs.Text.Utf8
import Mathlib.Tactic.IntervalCases
import Mathlib.Tactic.Ring

namespace DeploymentBackup.Archive

open Text

/-!
# Headers that were written

Each field of a header is read back as it was written, and the sum of the header is the one that
it declares.

* `octal?_octalField`, `number?_sizeField` — numbers.
* `field_append` — a field between what stands before and behind it.
* `Named` — the names and owners that fit a header.
* `sum_header`, `size_header`, `name_header` — the fields of a header.
-/

/-! ### Bytes and characters -/

theorem encodeChars_cons (c : Char) (cs : List Char) :
    encodeChars (c :: cs) = String.utf8EncodeChar c ++ encodeChars cs :=
  List.flatMap_cons

theorem ofNat_ne_zero {n : Nat} (hpos : 0 < n) (h : n < 256) : UInt8.ofNat n ≠ 0 := by
  intro hc
  have hn := congrArg UInt8.toNat hc
  rw [toNat_ofNat_of_lt h] at hn
  exact Nat.ne_of_gt hpos hn

/-- Only the NUL is written with a zero byte. -/
theorem zero_mem_utf8EncodeChar {c : Char} (h : 0 ∈ String.utf8EncodeChar c) : c = '\x00' := by
  have hc : Char.ofNat c.val.toNat = c := Char.ofNat_toNat c
  have hvalid : c.val.toNat < 0x110000 := by
    rcases c.valid with h | ⟨-, h⟩
    · exact Nat.lt_trans h (by decide)
    · exact h
  have hhigh {n : Nat} (hlow : 0x80 ≤ n) (hfits : n < 256) : ¬ 0 = UInt8.ofNat n :=
    fun hc => ofNat_ne_zero (by omega) hfits hc.symm
  rw [String.utf8EncodeChar] at h
  generalize c.val.toNat = v at hc hvalid h
  -- Every byte of the longer forms has its high bit set.
  by_cases h1 : v ≤ 0x7F
  · rw [if_pos h1, List.mem_singleton] at h
    by_cases hv : v = 0
    · rw [← hc, hv]
    · exact absurd h.symm (ofNat_ne_zero (by omega) (by omega))
  rw [if_neg h1] at h
  by_cases h2 : v ≤ 0x7FF
  · rw [if_pos h2] at h
    simp only [List.mem_cons, List.not_mem_nil, or_false] at h
    rcases h with h | h <;> exact absurd h (hhigh (by omega) (by omega))
  rw [if_neg h2] at h
  by_cases h3 : v ≤ 0xFFFF
  · rw [if_pos h3] at h
    simp only [List.mem_cons, List.not_mem_nil, or_false] at h
    rcases h with h | h | h <;> exact absurd h (hhigh (by omega) (by omega))
  · rw [if_neg h3] at h
    simp only [List.mem_cons, List.not_mem_nil, or_false] at h
    rcases h with h | h | h | h <;> exact absurd h (hhigh (by omega) (by omega))

theorem not_mem_encodeChars {cs : List Char} (h : '\x00' ∉ cs) : 0 ∉ encodeChars cs := by
  intro hzero
  obtain ⟨c, hc, hbyte⟩ := List.mem_flatMap.mp hzero
  exact h (zero_mem_utf8EncodeChar hbyte ▸ hc)

/-- Bytes without a NUL are cut behind them. -/
theorem cut_append_zeros {bytes : Bytes} (h : 0 ∉ bytes) (n : Nat) :
    cut (bytes ++ List.replicate n 0) = bytes := by
  have hzeros : cut (List.replicate n 0) = [] := by
    cases n <;> rfl
  unfold cut at *
  rw [List.takeWhile_append_of_pos, hzeros, List.append_nil]
  intro b hb
  simp only [bne_iff_ne, ne_eq]
  rintro rfl
  exact h hb

/-! ### Numbers -/

theorem length_octalDigits (width n : Nat) : (octalDigits width n).length = width := by
  induction width generalizing n with
  | zero => rfl
  | succ width ih => rw [octalDigits, List.length_append, ih, List.length_singleton]

/-- The character of an octal digit. -/
def IsOctal (c : Char) : Prop :=
  '0' ≤ c ∧ c ≤ '7'

theorem isOctal_digitChar {d : Nat} (h : d < 8) : IsOctal (Nat.digitChar d) := by
  unfold IsOctal
  interval_cases d <;> decide

theorem isOctal_of_mem {width n : Nat} {c : Char} (h : c ∈ octalDigits width n) : IsOctal c := by
  induction width generalizing n with
  | zero => cases h
  | succ width ih =>
    rw [octalDigits, List.mem_append, List.mem_singleton] at h
    rcases h with h | rfl
    · exact ih h
    · exact isOctal_digitChar (Nat.mod_lt n (by decide))

theorem IsOctal.bounds {c : Char} (h : IsOctal c) : 48 ≤ c.toNat ∧ c.toNat ≤ 55 :=
  h

theorem IsOctal.ne_nul {c : Char} (h : IsOctal c) : c ≠ '\x00' := by
  rintro rfl
  exact absurd h.bounds.1 (by decide)

theorem IsOctal.not_blank {c : Char} (h : IsOctal c) : isBlank c = false := by
  obtain ⟨hlow, hhigh⟩ := h.bounds
  simp only [isBlank, blankRanges, List.any_cons, List.any_nil, Bool.or_false, Bool.or_eq_false_iff,
    Bool.and_eq_false_iff, decide_eq_false_iff_not]
  omega

theorem trimChars_of_not_blank {cs : List Char} (h : ∀ c ∈ cs, isBlank c = false) :
    trimChars cs = cs := by
  have hdrop : ∀ {cs : List Char}, (∀ c ∈ cs, isBlank c = false) → cs.dropWhile isBlank = cs := by
    intro cs h
    cases cs with
    | nil => rfl
    | cons c rest => rw [List.dropWhile_cons_of_neg (by simp [h c])]
  unfold trimChars dropEndWhile
  rw [hdrop h, hdrop fun c hc => h c (List.mem_reverse.mp hc), List.reverse_reverse]

/-- The digits of a number are those of its last places. -/
theorem foldl_octalDigits (width n : Nat) :
    (octalDigits width n).foldl (fun value c => do
      let value ← value
      if '0' ≤ c ∧ c.toNat < '0'.toNat + 8 then some (value * 8 + (c.toNat - '0'.toNat))
      else none) (some 0) = some (n % 8 ^ width) := by
  induction width generalizing n with
  | zero => simp [octalDigits, Nat.mod_one]
  | succ width ih =>
    -- The digits before the last one are those of the eighth part of the number.
    have hdigit : n % 8 < 8 := Nat.mod_lt n (by decide)
    have hvalue : (Nat.digitChar (n % 8)).toNat = 48 + n % 8 := by
      interval_cases n % 8 <;> rfl
    have hplace : n / 8 % 8 ^ width * 8 + n % 8 = n % 8 ^ (width + 1) := by
      rw [Nat.pow_succ, Nat.mul_comm (8 ^ width), Nat.mod_mul]
      ring
    have hoctal := isOctal_digitChar hdigit
    rw [octalDigits, List.foldl_append, ih, List.foldl_cons, List.foldl_nil]
    have hbound : '0' ≤ Nat.digitChar (n % 8) ∧
        (Nat.digitChar (n % 8)).toNat < '0'.toNat + 8 := by
      refine ⟨hoctal.1, ?_⟩
      rw [hvalue]
      change 48 + n % 8 < 48 + 8
      omega
    simp only [Option.bind_eq_bind, Option.bind_some]
    rw [if_pos hbound, hvalue, ← hplace]
    change some (_ + (48 + n % 8 - 48)) = _
    rw [Nat.add_sub_cancel_left]

theorem digits?_octalDigits {width n : Nat} (hwidth : 0 < width) (h : n < 8 ^ width) :
    digits? 8 (octalDigits width n) = some n := by
  have hne : (octalDigits width n).isEmpty = false := by
    rw [List.isEmpty_eq_false_iff, ← List.length_pos_iff, length_octalDigits]
    exact hwidth
  rw [digits?, if_neg (by simp [hne]), foldl_octalDigits, Nat.mod_eq_of_lt h]

/-- A number is read back from its field. -/
theorem octal?_octalField {width n : Nat} (hwidth : 0 < width) (h : n < 8 ^ width)
    (hfits : n < UInt64.size) : octal? (octalField (width + 1) n) = some n := by
  -- The field is cut at its NUL; what is left has neither blanks nor a sign.
  have hnul : '\x00' ∉ octalDigits width n := fun hc => (isOctal_of_mem hc).ne_nul rfl
  have hcut : cut (octalField (width + 1) n) = encodeChars (octalDigits width n) :=
    cut_append_zeros (not_mem_encodeChars hnul) 1
  have hsign : ∀ rest, octalDigits width n ≠ '+' :: rest := by
    intro rest hc
    have hplus : IsOctal '+' := isOctal_of_mem (by rw [hc]; exact List.mem_cons_self)
    exact absurd hplus.bounds.1 (by decide)
  have hunsigned : unsigned? 8 (octalDigits width n) = some n := by
    unfold unsigned?
    split
    · rename_i rest hc
      exact absurd hc (hsign rest)
    · rw [digits?_octalDigits hwidth h]
      exact if_pos hfits
  rw [octal?, hcut, decodeChars?_encodeChars]
  simp only [Option.bind_eq_bind, Option.bind_some]
  rw [trimChars_of_not_blank fun c hc => (isOctal_of_mem hc).not_blank, hunsigned]

/-- An octal digit is written in one byte. -/
theorem encodeChars_of_isOctal {cs : List Char} (h : ∀ c ∈ cs, IsOctal c) :
    encodeChars cs = cs.map fun c => UInt8.ofNat c.toNat := by
  induction cs with
  | nil => rfl
  | cons c rest ih =>
    have hc : c.val.toNat ≤ 0x7F := Nat.le_trans (h c List.mem_cons_self).bounds.2 (by decide)
    rw [encodeChars_cons, ih fun c hc => h c (List.mem_cons_of_mem _ hc), String.utf8EncodeChar]
    simp only [if_pos hc]
    rfl

theorem length_octalField (width n : Nat) : (octalField (width + 1) n).length = width + 1 := by
  rw [octalField, encodeChars_of_isOctal fun c hc => isOctal_of_mem hc]
  simp [length_octalDigits]

theorem length_bigEndian (width n : Nat) : (bigEndian width n).length = width := by
  induction width generalizing n with
  | zero => rfl
  | succ width ih => rw [bigEndian, List.length_append, ih, List.length_singleton]

theorem foldl_bigEndian (width n : Nat) :
    (bigEndian width n).foldl (fun value b => value * 256 + b.toNat) 0 = n % 256 ^ width := by
  induction width generalizing n with
  | zero => simp [bigEndian, Nat.mod_one]
  | succ width ih =>
    have hbyte : (UInt8.ofNat (n % 256)).toNat = n % 256 :=
      toNat_ofNat_of_lt (Nat.mod_lt n (by decide))
    rw [bigEndian, List.foldl_append, ih, List.foldl_cons, List.foldl_nil, hbyte, Nat.pow_succ,
      Nat.mul_comm (256 ^ width), Nat.mod_mul]
    ring

theorem length_sizeField (n : Nat) : (sizeField n).length = 12 := by
  unfold sizeField
  split
  · exact length_octalField 11 n
  · rw [List.length_append, length_bigEndian]
    rfl

/-- A size is read back from its field, in whichever of the two forms it was written. -/
theorem number?_sizeField {n : Nat} (h : n < UInt64.size) : number? (sizeField n) = some n := by
  unfold sizeField
  split
  · rename_i hsmall
    -- A digit has no high bit, so the field is not taken for the bytes of the number.
    have hread : octal? (octalField 12 n) = some n :=
      octal?_octalField (by decide) (Nat.lt_succ_of_le hsmall) h
    have hdigits : encodeChars (octalDigits 11 n) = _ :=
      encodeChars_of_isOctal fun c hc => isOctal_of_mem hc
    cases hcs : octalDigits 11 n with
    | nil => exact absurd (congrArg List.length hcs) (by rw [length_octalDigits]; decide)
    | cons c rest =>
      have hc : IsOctal c := isOctal_of_mem (by rw [hcs]; exact List.mem_cons_self)
      have hfirst : (UInt8.ofNat c.toNat).toNat < 0x80 := by
        rw [toNat_ofNat_of_lt (Nat.lt_of_le_of_lt hc.bounds.2 (by decide))]
        exact Nat.lt_of_le_of_lt hc.bounds.2 (by decide)
      have hbytes : octalField 12 n =
          UInt8.ofNat c.toNat :: (rest.map (fun c => UInt8.ofNat c.toNat) ++ [0]) := by
        rw [octalField, hdigits, hcs]
        rfl
      rw [hbytes] at hread ⊢
      rw [number?, if_pos hfirst, hread]
  · rw [List.cons_append, number?, if_neg (by decide)]
    change some ((bigEndian 8 n).foldl _ 0) = _
    rw [foldl_bigEndian]
    exact congrArg some (Nat.mod_eq_of_lt h)

/-! ### Fields -/

theorem field_append {front value back : Bytes} {offset length : Nat}
    (hfront : front.length = offset) (hvalue : value.length = length) :
    field (front ++ value ++ back) offset length = value := by
  rw [field, ← hfront, ← hvalue, List.append_assoc, List.drop_left, List.take_left]

theorem length_fill {width : Nat} {bytes : Bytes} (h : bytes.length ≤ width) :
    (fill width bytes).length = width := by
  rw [fill, List.length_append, List.length_replicate]
  omega

theorem sumOfOthers_le (others : Bytes) : sumOfOthers others ≤ 256 + 255 * others.length := by
  have hsum (sum : Nat) : others.foldl (fun sum b => sum + b.toNat) sum ≤
      sum + 255 * others.length := by
    induction others generalizing sum with
    | nil => exact Nat.le_refl sum
    | cons b rest ih =>
      have hb := b.toNat_lt
      have hrest := ih (sum + b.toNat)
      rw [List.foldl_cons, List.length_cons]
      omega
  exact hsum 256

/-- A name and an owner that fit their fields. -/
structure Named (name owner : Bytes) : Prop where
  name : name.length ≤ 100
  owner : owner.length ≤ 16

section

variable {name owner : Bytes} {size : Nat} {type : UInt8}

theorem Named.length_front (h : Named name owner) (size : Nat) :
    (headerFront name owner size).length = 148 := by
  rw [headerFront]
  simp only [List.length_append, length_fill h.name, length_fill h.owner, length_sizeField,
    length_octalField 7, length_octalField 11]

theorem length_back (type : UInt8) : (headerBack type).length = 356 := by
  have hmagic : (encode "ustar  \x00").length ≤ 255 := by decide
  have hnone : (fill 100 []).length = 100 := by decide
  rw [headerBack]
  simp only [List.length_append, length_fill hmagic, hnone, List.length_singleton]

theorem Named.length_header (h : Named name owner) (size : Nat) (type : UInt8) :
    (header name owner size type).length = blockSize := by
  rw [header]
  simp only [List.length_append, h.length_front, length_back, length_octalField 7]
  rfl

/-- The sum of a header is counted without the field in which it stands. -/
theorem headerSum_header (h : Named name owner) (size : Nat) (type : UInt8) :
    headerSum (header name owner size type) =
      sumOfOthers (headerFront name owner size ++ headerBack type) := by
  have hdrop : (headerFront name owner size ++ octalField 8 (sumOfOthers
      (headerFront name owner size ++ headerBack type))).length = 156 := by
    rw [List.length_append, h.length_front, length_octalField 7]
  unfold headerSum header
  rw [← hdrop, List.drop_left, List.append_assoc, ← h.length_front size, List.take_left]

/-- A header declares its own sum. -/
theorem sum_header (h : Named name owner) (size : Nat) (type : UInt8) :
    octal? (field (header name owner size type) 148 8) =
      some (headerSum (header name owner size type)) := by
  have hbound := sumOfOthers_le (headerFront name owner size ++ headerBack type)
  rw [List.length_append, h.length_front, length_back] at hbound
  rw [headerSum_header h, header, field_append (h.length_front size) (length_octalField 7 _)]
  exact octal?_octalField (by decide) (by omega) (Nat.lt_of_le_of_lt hbound (by decide))

theorem size_header (h : Named name owner) (hsize : size < UInt64.size) (type : UInt8) :
    number? (field (header name owner size type) 124 12) = some size := by
  have hfront : (fill 100 name ++ octalField 8 0o644 ++ fill 16 owner).length = 124 := by
    simp only [List.length_append, length_fill h.name, length_fill h.owner, length_octalField 7]
  have hsplit : header name owner size type =
      (fill 100 name ++ octalField 8 0o644 ++ fill 16 owner) ++ sizeField size ++
        (octalField 12 0 ++ octalField 8 (sumOfOthers
          (headerFront name owner size ++ headerBack type)) ++ headerBack type) := by
    simp only [header, headerFront, List.append_assoc]
  rw [hsplit, field_append hfront (length_sizeField size), number?_sizeField hsize]

/-- Every header that is written has the layout of long names. -/
theorem format_header (h : Named name owner) (size : Nat) (type : UInt8) :
    formatOf (header name owner size type) = .extended := by
  have hnone : (fill 100 []).length = 100 := by decide
  have hmagic : (encode "ustar  \x00").length = 8 := by decide
  have hfront : (headerFront name owner size ++ octalField 8 (sumOfOthers
      (headerFront name owner size ++ headerBack type)) ++ [type] ++ fill 100 []).length = 257 := by
    simp only [List.length_append, h.length_front, length_octalField 7, hnone,
      List.length_singleton]
  have hsplit : header name owner size type =
      (headerFront name owner size ++ octalField 8 (sumOfOthers
        (headerFront name owner size ++ headerBack type)) ++ [type] ++ fill 100 []) ++
        encode "ustar  \x00" ++ List.replicate 247 0 := by
    simp only [header, headerBack, fill, hmagic, List.append_assoc]
  unfold formatOf
  rw [hsplit, field_append hfront hmagic]
  decide

theorem type_header (h : Named name owner) (size : Nat) (type : UInt8) :
    typeOf (header name owner size type) = type := by
  have hfront : (headerFront name owner size ++ octalField 8 (sumOfOthers
      (headerFront name owner size ++ headerBack type))).length = 156 := by
    rw [List.length_append, h.length_front, length_octalField 7]
  have hback : (headerBack type)[0]? = some type := rfl
  unfold typeOf header
  rw [List.getD_eq_getElem?_getD, List.getElem?_append_right (Nat.le_of_eq hfront), hfront, hback]
  rfl

/-- A name without a NUL is read as it was written. -/
theorem name_header (h : Named name owner) (hnul : 0 ∉ name) (size : Nat) (type : UInt8) :
    nameOf (header name owner size type) = name := by
  have hfront : ([] : Bytes).length = 0 := rfl
  have hsplit : header name owner size type = [] ++ fill 100 name ++
      (octalField 8 0o644 ++ fill 16 owner ++ sizeField size ++ octalField 12 0 ++
        octalField 8 (sumOfOthers (headerFront name owner size ++ headerBack type)) ++
        headerBack type) := by
    simp only [header, headerFront, List.append_assoc, List.nil_append]
  have hformat : ¬ (formatOf (header name owner size type) = .split ∧
      cut (field (header name owner size type) 345 155) ≠ []) := by
    rw [format_header h]
    rintro ⟨hc, -⟩
    cases hc
  unfold nameOf
  rw [if_neg hformat, hsplit, field_append hfront (length_fill h.name), fill,
    cut_append_zeros hnul]

end

end DeploymentBackup.Archive
