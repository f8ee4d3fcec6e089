import DeploymentBackup.Proofs.Shell.Spelling
import DeploymentBackup.Shell.Expansion
import Mathlib.Data.List.Forall2

namespace DeploymentBackup.Shell

open Text

/-!
# How a command line is read

A shell cuts a command line into words and operators and expands the words. A word stands for a text
when this is all that it can become: it expands to one field, whatever the shell knows and whatever
it is ready to run, and the field is no pattern for anything but itself.

* `Meant` — a word or an operator as it is meant.
* `Word.StandsFor`, `ReadAs` — what a shell makes of a word and of a command line.
* `Spelled.standsFor` — a word as it is written stands for its text.
* `Lexeme`, `readAs_intercalate` — a line of such words and of operators is read as it is meant.
* `ReadAs.unique` — a line is read in one way only.
-/

/-- A word or an operator of a command line, as it is meant. -/
inductive Meant
  | operator (text : String)
  | word (text : String)
deriving DecidableEq

/-- A word stands for a text: it expands to one field with this text and changes nothing, and as a
    pattern this field matches the text only. -/
def Word.StandsFor (w : Word) (text : String) : Prop :=
  ∃ field : List Marked, plain field = text ∧ elements field = text.toList.map .literal ∧
    ∀ run s, fields run s w = ([field], s)

/-- What a token says. -/
def Token.Says : Token → Meant → Prop
  | .operator text, .operator meant => text = meant
  | .word w, .word meant => w.StandsFor meant
  | _, _ => False

/-- A command line is read as these words and operators. -/
def ReadAs (line : String) (meant : List Meant) : Prop :=
  ∃ tokens, tokens? line = some tokens ∧ List.Forall₂ Token.Says tokens meant

/-! ### Expansion -/

theorem assemble_chars {cs : List Marked} (field : Option (List Marked)) (ps : List Piece) :
    assemble field (cs.map .char ++ ps) =
      assemble (if cs = [] then field else some (cs.reverse ++ field.getD [])) ps := by
  induction cs generalizing field with
  | nil => rfl
  | cons c cs ih =>
    rw [List.map_cons, List.cons_append, assemble, ih]
    cases cs <;> simp

/-- Characters that are quoted or have no meaning in a pattern stand for themselves. -/
theorem elementsFrom_literal {cs : List Marked}
    (hcs : ∀ c ∈ cs, c.1 = false → isInert c.2 = true) {fuel : Nat} (hfuel : cs.length ≤ fuel) :
    elementsFrom fuel cs = cs.map fun c => .literal c.2 := by
  induction cs generalizing fuel with
  | nil => cases fuel <;> rfl
  | cons c cs ih =>
    obtain ⟨hc, hcs⟩ := List.forall_mem_cons.mp hcs
    rw [List.length_cons] at hfuel
    obtain ⟨fuel, rfl⟩ : ∃ n, fuel = n + 1 := ⟨fuel - 1, by omega⟩
    have hrest : elementsFrom fuel cs = cs.map fun c => .literal c.2 := ih hcs (by omega)
    obtain ⟨quoted, c⟩ := c
    cases quoted with
    | true => rw [elementsFrom, hrest, List.map_cons]
    | false =>
      -- Only the three characters that start something in a pattern are read otherwise.
      have hne : ∀ d ∈ special, c ≠ d := fun d hd hcd => isInert_iff.mp (hc rfl) (hcd ▸ hd)
      rw [elementsFrom, hrest, List.map_cons]
      · exact hne '*' (by decide)
      · exact hne '?' (by decide)
      · exact hne '[' (by decide)

namespace Spelled

variable {w : Spelled}

/-- The field that a word expands to. -/
def field (w : Spelled) : List Marked :=
  w.plain.map (false, ·) ++ (w.quoted.getD []).map (true, ·)

theorem tilde_word (hw : w.Sound) (s : Session) : tilde s w.word = w.word := by
  unfold tilde
  split
  · rename_i rest more hword
    have hhome : '~' ∈ w.plain := by
      unfold word at hword
      split at hword
      · cases hq : w.quoted <;> simp [hq] at hword
      · obtain ⟨hplain, -⟩ : w.plain = '~' :: rest ∧ _ := by simpa using hword
        exact hplain ▸ List.mem_cons_self
    exact absurd (hw.inert _ hhome) (by decide)
  · rfl

theorem pieces_word (w : Spelled) (run : Substitute) (s : Session) :
    pieces run s w.word =
      (w.plain.map (fun c => .char (false, c)) ++ w.quoted.elim [] fun cs =>
        if cs = [] then [.mark] else cs.map fun c => .char (true, c), s) := by
  obtain ⟨plain, quoted⟩ := w
  rcases plain with _ | ⟨p, plain⟩ <;> rcases quoted with _ | _ | ⟨c, cs⟩ <;>
    simp [word, pieces, partPieces]

/-- A word expands to one field, and nothing is looked up or run for it. -/
theorem fields_word (hw : w.Sound) (run : Substitute) (s : Session) :
    fields run s w.word = ([w.field], s) := by
  rw [fields, tilde_word hw, pieces_word]
  have hmarked (quoted : Bool) (cs : List Char) :
      cs.map (fun c => Piece.char (quoted, c)) = (cs.map (quoted, ·)).map .char := by
    rw [List.map_map]
    rfl
  refine congrArg (·, s) ?_
  rw [field, hmarked, assemble_chars]
  cases hquoted : w.quoted with
  | none =>
    simp [assemble, hw.nonempty hquoted]
  | some cs =>
    cases cs with
    | nil => cases hplain : w.plain <;> simp [assemble]
    | cons c cs =>
      simp only [Option.elim_some, reduceCtorEq, if_false, Option.getD_some]
      rw [hmarked, ← List.append_nil (List.map Piece.char _), assemble_chars]
      cases hplain : w.plain <;> simp [assemble]

theorem standsFor (hw : w.Sound) : w.word.StandsFor w.text := by
  refine ⟨w.field, ?_, ?_, fields_word hw⟩
  · simp [field, text, Shell.plain, List.map_map, Function.comp_def]
  · rw [elements, elementsFrom_literal _ (Nat.le_refl _)]
    · simp [field, text, List.map_map, Function.comp_def]
    · intro c hc hplain
      rw [field, List.mem_append, List.mem_map, List.mem_map] at hc
      rcases hc with ⟨d, hd, rfl⟩ | ⟨d, -, rfl⟩
      · exact hw.inert d hd
      · cases hplain

end Spelled

/-! ### Tokens -/

/-- Nothing follows, or a blank. -/
def Apart (rest : List Char) : Prop :=
  rest = [] ∨ ∃ more, rest = ' ' :: more

theorem Apart.endsWord {rest : List Char} (h : Apart rest) : EndsWord rest :=
  h.imp id fun ⟨more, hrest⟩ => ⟨' ', more, hrest, by decide⟩

/-- From these characters the shell reads tokens, up to the end. -/
def ReadsTokens (cs : List Char) (tokens : List Token) : Prop :=
  ∀ fuel, cs.length < fuel → tokensFrom fuel cs = some tokens

theorem operatorAt_of_isMeta {c : Char} (hc : isMeta c = false) (rest : List Char) :
    operatorAt (c :: rest) = none := by
  unfold operatorAt
  split <;> first | rfl | (rename_i h; cases h; cases hc)

theorem redirectAt_eq_none {cs : List Char} (h : ∀ c ∈ cs.head?, c ≠ '<' ∧ c ≠ '>') :
    redirectAt cs = none := by
  unfold redirectAt
  split <;> first | rfl | simp at h

namespace Spelled

variable {w : Spelled} {rest : List Char}

/-- A word is no descriptor of a redirection: none is behind its digits. -/
theorem descriptorAt_chars (hw : w.Sound) (hrest : Apart rest) :
    descriptorAt (w.chars ++ rest) = none := by
  -- Behind digits there are other plain characters, a quote, or what follows the word.
  have hbehind : ∀ c ∈ ((w.quoted.elim [] quotedChars ++ rest).dropWhile Char.isDigit).head?,
      c ≠ '<' ∧ c ≠ '>' := by
    rcases hrest with rfl | ⟨more, rfl⟩ <;> cases w.quoted <;> simp [quotedChars]
  have hhead (cs : List Char) (hcs : ∀ c ∈ cs, isInert c = true) :
      ∀ c ∈ ((cs ++ (w.quoted.elim [] quotedChars ++ rest)).dropWhile Char.isDigit).head?,
        c ≠ '<' ∧ c ≠ '>' := by
    induction cs with
    | nil => exact hbehind
    | cons c cs ih =>
      obtain ⟨hc, hcs⟩ := List.forall_mem_cons.mp hcs
      rw [List.cons_append, List.dropWhile_cons]
      split
      · exact ih hcs
      · rintro d hd
        obtain rfl : c = d := by simpa using hd
        exact ⟨fun h => absurd (h ▸ hc) (by decide), fun h => absurd (h ▸ hc) (by decide)⟩
  have hplain := hhead w.plain hw.inert
  rw [← List.append_assoc] at hplain
  rw [descriptorAt]
  simp only [chars, redirectAt_eq_none hplain, Option.isNone_none, Bool.or_true, if_true]

/-- A word starts with a character that starts a word. -/
theorem exists_chars_eq_cons (hw : w.Sound) :
    ∃ c cs, w.chars = c :: cs ∧ isMeta c = false ∧ c ≠ '#' := by
  rw [chars]
  cases hplain : w.plain with
  | nil =>
    cases hquoted : w.quoted with
    | none => exact absurd hplain (hw.nonempty hquoted)
    | some cs => exact ⟨'\'', _, rfl, by decide, by decide⟩
  | cons c cs =>
    have hc : isInert c = true := hw.inert c (hplain ▸ List.mem_cons_self)
    exact ⟨c, _, rfl, isMeta_of_isInert hc, fun h => absurd (h ▸ hc) (by decide)⟩

end Spelled

namespace ReadsTokens

variable {rest : List Char} {tokens : List Token}

theorem nothing : ReadsTokens [] [] := by
  intro fuel hfuel
  obtain ⟨fuel, rfl⟩ : ∃ n, fuel = n + 1 := ⟨fuel - 1, by omega⟩
  rfl

theorem blank (h : ReadsTokens rest tokens) : ReadsTokens (' ' :: rest) tokens := by
  intro fuel hfuel
  obtain ⟨fuel, rfl⟩ : ∃ n, fuel = n + 1 := ⟨fuel - 1, by omega⟩
  rw [tokensFrom]
  exact h fuel (by simpa using hfuel)

/-- A word that ends where the next blank is is one token. -/
theorem word {w : Spelled} (hw : w.Sound) (hrest : Apart rest) (h : ReadsTokens rest tokens) :
    ReadsTokens (w.chars ++ rest) (.word w.word :: tokens) := by
  intro fuel hfuel
  obtain ⟨fuel, rfl⟩ : ∃ n, fuel = n + 1 := ⟨fuel - 1, by omega⟩
  have hdescriptor := w.descriptorAt_chars hw hrest
  have hread := w.readsWord hw hrest.endsWord
  -- The first character rules out everything that a token could be but a word.
  obtain ⟨c, cs, hchars, hmeta, hcomment⟩ := w.exists_chars_eq_cons hw
  rw [hchars, List.cons_append] at hfuel hdescriptor hread ⊢
  have hblank : ∀ d, isMeta d = true → c ≠ d := fun d hd hcd => by
    rw [hcd, hd] at hmeta
    cases hmeta
  have hredirect : redirectAt (c :: (cs ++ rest)) = none := by
    refine redirectAt_eq_none fun d hd => ?_
    obtain rfl : c = d := by simpa using hd
    exact ⟨hblank '<' (by decide), hblank '>' (by decide)⟩
  rw [tokensFrom.eq_def]
  simp only [hblank '\n' (by decide), hblank ' ' (by decide), hblank '\t' (by decide), hcomment,
    operatorAt_of_isMeta hmeta, hdescriptor, hredirect, if_false, Bool.or_self, Bool.false_eq_true,
    decide_false]
  rw [hread _ (by simp)]
  dsimp only
  rw [h fuel (by simp at hfuel; omega), Spelled.mergeParts_parts]
  rfl

theorem operator {text : String} (htext : text = "&&" ∨ text = "|") (hrest : Apart rest)
    (h : ReadsTokens rest tokens) :
    ReadsTokens (text.toList ++ rest) (.operator text :: tokens) := by
  intro fuel hfuel
  obtain ⟨fuel, rfl⟩ : ∃ n, fuel = n + 1 := ⟨fuel - 1, by omega⟩
  have hbar : operatorAt ('|' :: rest) = some "|" := by
    rcases hrest with rfl | ⟨more, rfl⟩ <;> rfl
  rcases htext with rfl | rfl
  · change tokensFrom (fuel + 1) ('&' :: '&' :: rest) = _
    have hmore : tokensFrom fuel (('&' :: '&' :: rest).drop "&&".length) = some tokens :=
      h fuel (by simp at hfuel; omega)
    rw [tokensFrom.eq_def]
    simp [operatorAt, hmore]
  · change tokensFrom (fuel + 1) ('|' :: rest) = _
    have hmore : tokensFrom fuel (('|' :: rest).drop "|".length) = some tokens :=
      h fuel (by simp at hfuel; omega)
    rw [tokensFrom.eq_def]
    simp [hbar, hmore]

end ReadsTokens

/-! ### Command lines -/

/-- A word or an operator as it is written. -/
inductive Lexeme
  | operator (text : String)
  | word (w : Spelled)

namespace Lexeme

/-- The operator is one that joins commands, or the word can be read. -/
def Sound : Lexeme → Prop
  | operator text => text = "&&" ∨ text = "|"
  | word w => w.Sound

/-- The characters with which a word or an operator is written. -/
def chars : Lexeme → List Char
  | operator text => text.toList
  | word w => w.chars

/-- The token that a shell makes of the characters. -/
def token : Lexeme → Token
  | operator text => .operator text
  | word w => .word w.word

/-- What is meant by a word or an operator. -/
def meant : Lexeme → Meant
  | operator text => .operator text
  | word w => .word w.text

variable {l : Lexeme} {ls : List Lexeme}

theorem says_token (hl : l.Sound) : l.token.Says l.meant := by
  cases l with
  | operator text => rfl
  | word w => exact w.standsFor hl

theorem readsTokens_chars (hl : l.Sound) {rest : List Char} {tokens : List Token}
    (hrest : Apart rest) (h : ReadsTokens rest tokens) :
    ReadsTokens (l.chars ++ rest) (l.token :: tokens) := by
  cases l with
  | operator text => exact h.operator hl hrest
  | word w => exact h.word hl hrest

theorem readsTokens_intercalate (hls : ∀ l ∈ ls, l.Sound) :
    ReadsTokens ([' '].intercalate (ls.map chars)) (ls.map token) := by
  induction ls with
  | nil => exact .nothing
  | cons l ls ih =>
    obtain ⟨hl, hls⟩ := List.forall_mem_cons.mp hls
    cases ls with
    | nil =>
      have hread := readsTokens_chars hl (.inl rfl) .nothing
      rw [List.append_nil] at hread
      simpa using hread
    | cons next ls =>
      rw [List.map_cons, List.map_cons, List.intercalate_cons_cons, List.append_assoc]
      exact readsTokens_chars hl (.inr ⟨_, rfl⟩) (ih hls).blank

end Lexeme

/-- Words and operators with a blank between each two of them are read as they are meant. -/
theorem readAs_intercalate {line : String} {ls : List Lexeme} (hls : ∀ l ∈ ls, l.Sound)
    (hline : line.toList = [' '].intercalate (ls.map Lexeme.chars)) :
    ReadAs line (ls.map Lexeme.meant) := by
  refine ⟨ls.map Lexeme.token, ?_, ?_⟩
  · rw [tokens?, hline]
    refine Lexeme.readsTokens_intercalate hls _ ?_
    rw [← hline, String.length_toList]
    exact Nat.lt_succ_self _
  · rw [List.forall₂_map_left_iff, List.forall₂_map_right_iff, List.forall₂_same]
    exact fun l hl => Lexeme.says_token (hls l hl)

/-! ### One reading -/

theorem Word.StandsFor.unique {w : Word} {a b : String} (ha : w.StandsFor a)
    (hb : w.StandsFor b) : a = b := by
  obtain ⟨field, rfl, -, hfield⟩ := ha
  obtain ⟨other, rfl, -, hother⟩ := hb
  -- A word expands in the same way in every shell; any one of them will do.
  have hone := (hfield (fun _ s => ([], s)) (.start "" [] [] none ⟨[], [], 0⟩)).symm.trans
    (hother _ _)
  simp only [Prod.mk.injEq, List.cons.injEq, and_true] at hone
  rw [hone]

theorem Token.Says.unique : Relator.RightUnique Token.Says := by
  intro t a b ha hb
  cases t <;> cases a <;> cases b <;>
    first
    | exact ha.elim
    | exact hb.elim
    | exact congrArg Meant.operator (ha.symm.trans hb)
    | exact congrArg Meant.word (Word.StandsFor.unique ha hb)

/-- A command line is read in one way only. -/
theorem ReadAs.unique {line : String} {meant other : List Meant} (h : ReadAs line meant)
    (hother : ReadAs line other) : meant = other := by
  obtain ⟨tokens, htokens, hsays⟩ := h
  obtain ⟨tokens', htokens', hsays'⟩ := hother
  obtain rfl : tokens = tokens' := Option.some_inj.mp (htokens.symm.trans htokens')
  exact List.right_unique_forall₂' Token.Says.unique hsays hsays'

end DeploymentBackup.Shell
