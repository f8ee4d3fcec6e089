import DeploymentBackup.Proofs.Text.Lines
import DeploymentBackup.Shell.Quote
import DeploymentBackup.Shell.Word

namespace DeploymentBackup.Shell

open Text

/-!
# Quoted words are read back

A word of a command is written with plain characters first and quoted ones behind them. Between
single quotes a shell reads everything as it is, but quotes end at the next one; so a text with
quotes in it comes in several stretches, which the shell puts together again.

* `isInert` — the characters that may stand without quotes.
* `ReadsWord` — the parts that a shell reads, with one lemma for each kind of part.
* `Spelled` — a word as it is written; `Spelled.ofText` the word of a text.
* `Spelled.readsWord`, `Spelled.mergeParts_parts` — what the shell makes of it.
-/

/-! ### Characters -/

/-- The characters that have a meaning for a shell, in some place of a word or between words. -/
def special : List Char :=
  [' ', '\t', '\n', ';', '&', '|', '<', '>', '(', ')', '\'', '"', '\\', '$', '\x60', '*', '?', '[',
    '~', '#']

/-- A character that stands for itself without quotes, wherever it is in a word. -/
def isInert (c : Char) : Bool :=
  !special.contains c

theorem isInert_iff {c : Char} : isInert c = true ↔ c ∉ special := by
  simp only [isInert, Bool.not_eq_true', List.contains_eq_mem, decide_eq_false_iff_not]

theorem isMeta_of_isInert {c : Char} (h : isInert c = true) : isMeta c = false := by
  refine Bool.eq_false_iff.mpr fun hmeta => isInert_iff.mp h ?_
  have hmem : c ∈ " \t\n;&|<>()".toList := by simpa only [isMeta, List.contains_iff_mem] using hmeta
  have hspecial : " \t\n;&|<>()".toList.all special.contains = true := by decide
  exact List.contains_iff_mem.mp (List.all_eq_true.mp hspecial c hmem)

theorem isInert_of_isHarmless {c : Char} (h : isHarmless c = true) : isInert c = true := by
  refine isInert_iff.mpr fun hmem => ?_
  have hspecial : special.all (fun c => !isHarmless c) = true := by decide
  have hc := List.all_eq_true.mp hspecial c hmem
  rw [h] at hc
  cases hc

/-! ### Parts of a word -/

/-- Nothing more belongs to a word. -/
def EndsWord (rest : List Char) : Prop :=
  rest = [] ∨ ∃ c more, rest = c :: more ∧ isMeta c = true

/-- From these characters the shell reads the parts of a word, up to a rest. -/
def ReadsWord (cs : List Char) (w : Word) (rest : List Char) : Prop :=
  ∀ fuel, cs.length < fuel → wordParts fuel cs = some (w, rest)

namespace ReadsWord

variable {cs more rest : List Char} {w : Word}

theorem nothing (h : EndsWord rest) : ReadsWord rest [] rest := by
  intro fuel hfuel
  obtain ⟨fuel, rfl⟩ : ∃ n, fuel = n + 1 := ⟨fuel - 1, by omega⟩
  rcases h with rfl | ⟨c, more, rfl, hc⟩
  · rfl
  · rw [wordParts.eq_def]
    simp only [hc, if_true]

theorem char {c : Char} (hc : isInert c = true) (h : ReadsWord more w rest) :
    ReadsWord (c :: more) (.literal false [c] :: w) rest := by
  intro fuel hfuel
  obtain ⟨fuel, rfl⟩ : ∃ n, fuel = n + 1 := ⟨fuel - 1, by omega⟩
  have hne : ∀ d ∈ special, c ≠ d := fun d hd hcd => isInert_iff.mp hc (hcd ▸ hd)
  rw [wordParts.eq_def]
  simp only [isMeta_of_isInert hc, hne '\'' (by decide), hne '"' (by decide), hne '\\' (by decide),
    hne '$' (by decide), hne '\x60' (by decide), if_false, Bool.false_eq_true]
  rw [h fuel (by simpa using hfuel)]
  rfl

/-- What stands between single quotes is read as it is. -/
theorem quoted {body : List Char} (hbody : '\'' ∉ body) (h : ReadsWord more w rest) :
    ReadsWord ('\'' :: (body ++ '\'' :: more)) (.literal true body :: w) rest := by
  intro fuel hfuel
  obtain ⟨fuel, rfl⟩ : ∃ n, fuel = n + 1 := ⟨fuel - 1, by omega⟩
  have hmeta : isMeta '\'' = false := by decide
  simp only [List.length_cons, List.length_append] at hfuel
  rw [wordParts.eq_def]
  simp only [hmeta, if_false, if_true, Bool.false_eq_true, cutAt_append hbody]
  rw [h fuel (by omega)]
  rfl

theorem escaped {c : Char} (hc : c ≠ '\n') (h : ReadsWord more w rest) :
    ReadsWord ('\\' :: c :: more) (.literal true [c] :: w) rest := by
  intro fuel hfuel
  obtain ⟨fuel, rfl⟩ : ∃ n, fuel = n + 1 := ⟨fuel - 1, by omega⟩
  have hmeta : isMeta '\\' = false := by decide
  simp only [List.length_cons] at hfuel
  rw [wordParts.eq_def]
  simp only [hmeta, if_false, if_true, Bool.false_eq_true, Char.reduceEq]
  rw [h fuel (by omega)]
  rfl

theorem plain (hcs : ∀ c ∈ cs, isInert c = true) (h : ReadsWord more w rest) :
    ReadsWord (cs ++ more) (cs.map (fun c => .literal false [c]) ++ w) rest := by
  induction cs with
  | nil => exact h
  | cons c cs ih =>
    obtain ⟨hc, hcs⟩ := List.forall_mem_cons.mp hcs
    exact (ih hcs).char hc

end ReadsWord

/-! ### Quoted texts -/

/-- The characters of a text between single quotes. -/
def quotedChars (cs : List Char) : List Char :=
  '\'' :: (cs.flatMap quoteChar ++ ['\''])

/-- The stretches in which a quoted text is read; `front` is what stands between the open quotes so
    far. -/
def stretches (front : List Char) : List Char → List (List Char)
  | [] => [front]
  | c :: cs =>
    if c = '\'' || c = '!' then front :: [c] :: stretches [] cs else stretches (front ++ [c]) cs

theorem flatten_stretches (front cs : List Char) : (stretches front cs).flatten = front ++ cs := by
  induction cs generalizing front with
  | nil => simp [stretches]
  | cons c cs ih =>
    rw [stretches]
    split
    · simp [ih]
    · simp [ih]

theorem stretches_ne_nil (front cs : List Char) : stretches front cs ≠ [] := by
  induction cs generalizing front with
  | nil => simp [stretches]
  | cons c cs ih =>
    rw [stretches]
    split
    · simp
    · exact ih _

/-- The quotes around a text are closed in front of a character that could end them, and opened
    behind it; the shell reads the stretches in between and these characters. -/
theorem ReadsWord.stretches {front more rest : List Char} {w : Word} (hfront : '\'' ∉ front)
    (cs : List Char) (h : ReadsWord more w rest) :
    ReadsWord ('\'' :: (front ++ (cs.flatMap quoteChar ++ '\'' :: more)))
      ((Shell.stretches front cs).map (.literal true) ++ w) rest := by
  -- `front` is what the open quotes hold so far, and it ends with them.
  induction cs generalizing front with
  | nil => exact h.quoted hfront
  | cons c cs ih =>
    rw [Shell.stretches, List.flatMap_cons, quoteChar]
    split
    · rename_i hc
      have hline : c ≠ '\n' := by
        rintro rfl
        simp at hc
      have hrest := ih (List.not_mem_nil (a := '\''))
      exact (hrest.escaped hline).quoted hfront
    · rename_i hc
      have hquote : '\'' ∉ front ++ [c] := by
        simp only [Bool.or_eq_true, decide_eq_true_eq, not_or] at hc
        simpa [hfront] using Ne.symm hc.1
      simpa using ih hquote

/-! ### Words as they are written -/

/-- A word as it is written: plain characters, and quoted ones behind them if there are any. -/
structure Spelled where
  plain : List Char
  quoted : Option (List Char)

namespace Spelled

/-- The word can be read: there is something of it, and what is not quoted needs no quotes. -/
structure Sound (w : Spelled) : Prop where
  inert : ∀ c ∈ w.plain, isInert c = true
  nonempty : w.quoted = none → w.plain ≠ []

/-- The text of a word. -/
def text (w : Spelled) : String :=
  String.ofList (w.plain ++ w.quoted.getD [])

/-- The characters with which a word is written. -/
def chars (w : Spelled) : List Char :=
  w.plain ++ w.quoted.elim [] quotedChars

/-- The word that a shell makes of the characters. -/
def word (w : Spelled) : Word :=
  (if w.plain = [] then [] else [.literal false w.plain]) ++
    w.quoted.elim [] fun cs => [.literal true cs]

/-- The parts in which a shell reads the word. -/
def parts (w : Spelled) : Word :=
  w.plain.map (fun c => .literal false [c]) ++
    w.quoted.elim [] fun cs => (stretches [] cs).map (.literal true)

/-- The word of a text, quoted if it has to be. -/
def ofText (text : String) : Spelled :=
  if text.toList ≠ [] ∧ text.toList.all isHarmless then ⟨text.toList, none⟩
  else ⟨[], some text.toList⟩

theorem sound_ofText (text : String) : (ofText text).Sound := by
  unfold ofText
  split
  · rename_i h
    exact ⟨fun c hc => isInert_of_isHarmless (List.all_eq_true.mp h.2 c hc), fun _ => h.1⟩
  · exact ⟨fun c hc => absurd hc List.not_mem_nil, nofun⟩

theorem text_ofText (text : String) : (ofText text).text = text := by
  unfold ofText Spelled.text
  split <;> simp

theorem chars_ofText (text : String) : (ofText text).chars = (quote text).toList := by
  rw [quote, String.toList_ofList, quoteChars, ofText, chars]
  split
  · exact List.append_nil _
  · rfl

/-- A word with plain characters in front of it. -/
def behind (front : List Char) (w : Spelled) : Spelled :=
  { w with plain := front ++ w.plain }

variable {w : Spelled} {rest : List Char}

theorem Sound.behind (hw : w.Sound) {front : List Char} (hfront : ∀ c ∈ front, isInert c = true) :
    (w.behind front).Sound where
  inert := List.forall_mem_append.mpr ⟨hfront, hw.inert⟩
  nonempty := fun hquoted => List.append_ne_nil_of_right_ne_nil _ (hw.nonempty hquoted)

theorem text_behind (front : List Char) (w : Spelled) :
    (w.behind front).text = String.ofList front ++ w.text := by
  simp [text, Spelled.behind]

theorem chars_behind (front : List Char) (w : Spelled) :
    (w.behind front).chars = front ++ w.chars :=
  List.append_assoc _ _ _

theorem readsWord (hw : w.Sound) (hrest : EndsWord rest) :
    ReadsWord (w.chars ++ rest) w.parts rest := by
  have hquoted : ReadsWord (w.quoted.elim [] quotedChars ++ rest)
      (w.quoted.elim [] fun cs => (stretches [] cs).map (.literal true)) rest := by
    cases w.quoted with
    | none => exact .nothing hrest
    | some cs =>
      have h := ReadsWord.stretches (List.not_mem_nil (a := '\'')) cs (.nothing hrest)
      simpa [quotedChars] using h
  rw [chars, parts, List.append_assoc]
  exact hquoted.plain hw.inert

end Spelled

/-- Parts of one kind become one part, unless the next one is of this kind too. -/
theorem mergeParts_append {q : Bool} {texts : List (List Char)} {w : Word} (hne : texts ≠ [])
    (hw : ∀ text more, mergeParts w ≠ .literal q text :: more) :
    mergeParts (texts.map (.literal q) ++ w) = .literal q texts.flatten :: mergeParts w := by
  induction texts with
  | nil => exact absurd rfl hne
  | cons text texts ih =>
    rw [List.map_cons, List.cons_append, mergeParts]
    cases texts with
    | nil =>
      simp only [List.map_nil, List.nil_append, List.flatten_cons, List.flatten_nil,
        List.append_nil]
      split
      · rename_i r b more hmerged
        have hkind : q ≠ r := fun hq => hw b more (hq ▸ hmerged)
        rw [if_neg hkind, hmerged]
      · rfl
    | cons next texts =>
      rw [ih (List.cons_ne_nil _ _)]
      simp

theorem Spelled.mergeParts_parts {w : Spelled} : mergeParts w.parts = w.word := by
  have hquoted : mergeParts (w.quoted.elim [] fun cs => (stretches [] cs).map (.literal true)) =
      w.quoted.elim [] fun cs => [.literal true cs] := by
    cases w.quoted with
    | none => rfl
    | some cs =>
      have hmerge := mergeParts_append (q := true) (w := []) (stretches_ne_nil [] cs) nofun
      rwa [List.append_nil, flatten_stretches] at hmerge
  rw [parts, word]
  split
  · rename_i hnil
    rw [hnil, List.map_nil, List.nil_append, hquoted, List.nil_append]
  · rename_i hne
    have hother : ∀ text more, mergeParts (w.quoted.elim [] fun cs =>
        (stretches [] cs).map (.literal true)) ≠ .literal false text :: more := by
      rw [hquoted]
      cases w.quoted <;> nofun
    have hplain : w.plain.map (fun c => Part.literal false [c]) =
        (w.plain.map fun c => [c]).map (.literal false) := by
      rw [List.map_map]
      rfl
    rw [hplain, mergeParts_append (by simpa using hne) hother, hquoted, ← List.flatMap_def,
      List.flatMap_singleton']
    rfl

end DeploymentBackup.Shell
