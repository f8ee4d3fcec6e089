import DeploymentBackup.Proofs.Remote.Jobs
import DeploymentBackup.Proofs.Shell.Reading
import DeploymentBackup.Remote.Command

namespace DeploymentBackup.Remote

open Shell

/-!
# Commands are read as they are meant

The texts in a command come from a configuration, and from what the host itself has said. A shell
reads each of them as one word, whatever its characters are, and sees no other operators than the
ones between the fixed words.

* `Piece.meant`, `Piece.isSound` — what a piece is for the shell, if what is not quoted in it needs
  no quotes.
* `Command.readAs_render` — a command of such pieces is read as it is meant.
* `Command.meant_eq_of_render_eq` — so the text of a command tells what is meant.
* `commands_read` — so is every command for a host.
* `IsLookUp` — the commands that look jobs up, which others cannot be mistaken for.
-/

namespace Piece

/-- A text that joins commands. -/
def joins (text : String) : Bool :=
  text = "&&" || text = "|"

/-- What a piece is meant to be. -/
def meant : Piece → Meant
  | bare text => if joins text then .operator text else .word text
  | word text => .word text
  | assignment name value => .word (name ++ "=" ++ value)

/-- What is not quoted in a piece needs no quotes. -/
def isSound : Piece → Bool
  | bare text => joins text || !text.toList.isEmpty && text.toList.all isInert
  | word _ => true
  | assignment name _ => name.toList.all isInert

/-- A piece as it is written. -/
def lexeme : Piece → Lexeme
  | bare text => if joins text then .operator text else .word ⟨text.toList, none⟩
  | word text => .word (.ofText text)
  | assignment name value => .word (.behind (name ++ "=").toList (.ofText value))

variable {p : Piece}

theorem sound_lexeme (hp : p.isSound = true) : p.lexeme.Sound := by
  cases p with
  | bare text =>
    rw [lexeme]
    split
    · rename_i hjoins
      simpa [joins, Lexeme.Sound] using hjoins
    · rename_i hjoins
      obtain ⟨hne, hinert⟩ : text.toList ≠ [] ∧ ∀ c ∈ text.toList, isInert c = true := by
        simpa [isSound, hjoins] using hp
      exact ⟨hinert, fun _ => hne⟩
  | word text => exact Spelled.sound_ofText text
  | assignment name value =>
    have hname : ∀ c ∈ name.toList, isInert c = true := by simpa [isSound] using hp
    refine (Spelled.sound_ofText value).behind fun c hc => ?_
    rw [String.toList_append, List.mem_append] at hc
    rcases hc with hc | hc
    · exact hname c hc
    · obtain rfl : c = '=' := by simpa using hc
      decide

theorem chars_lexeme (p : Piece) : p.lexeme.chars = p.render.toList := by
  cases p with
  | bare text =>
    rw [lexeme]
    split
    · rfl
    · exact List.append_nil _
  | word text => exact Spelled.chars_ofText text
  | assignment name value =>
    rw [render, String.toList_append, ← Spelled.chars_ofText]
    exact Spelled.chars_behind _ _

theorem meant_lexeme (p : Piece) : p.lexeme.meant = p.meant := by
  cases p with
  | bare text =>
    rw [lexeme, meant]
    split
    · rfl
    · simp [Lexeme.meant, Spelled.text]
  | word text => exact congrArg Meant.word (Spelled.text_ofText text)
  | assignment name value =>
    refine congrArg Meant.word ?_
    rw [Spelled.text_behind, Spelled.text_ofText, String.ofList_toList]

end Piece

/-- A command is read as its pieces are meant. -/
theorem Command.readAs_render {c : Command} (hc : c.all Piece.isSound = true) :
    ReadAs c.render (c.map Piece.meant) := by
  have hsound : ∀ l ∈ c.map Piece.lexeme, l.Sound := by
    refine List.forall_mem_map.mpr fun p hp => Piece.sound_lexeme ?_
    exact List.all_eq_true.mp hc p hp
  have hchars : c.render.toList = [' '].intercalate ((c.map Piece.lexeme).map Lexeme.chars) := by
    rw [Command.render, String.toList_intercalate, List.map_map, List.map_map]
    exact congrArg _ (List.map_congr_left fun p _ => (Piece.chars_lexeme p).symm)
  have hread := readAs_intercalate hsound hchars
  rwa [List.map_map, funext Piece.meant_lexeme (f := Lexeme.meant ∘ Piece.lexeme)] at hread

/-- Commands with one text are meant alike. -/
theorem Command.meant_eq_of_render_eq {c d : Command} (hc : c.all Piece.isSound = true)
    (hd : d.all Piece.isSound = true) (h : c.render = d.render) :
    c.map Piece.meant = d.map Piece.meant :=
  (Command.readAs_render hc).unique (h ▸ Command.readAs_render hd)

/-- A host reads every command as the fixed words and operators in it, and every text in it as one
    word that stands for the text, or as what is behind the name of the variable. This is so
    whatever the directories, the job, the paths and the names are. -/
theorem commands_read (l : Layout) (j : Job) (s : Script) (path directory : String) :
    ReadAs (Command.findScripts l).render
      [.word "find", .word l.jobsRoot, .word "-path", .word "*/bin/bbr/*", .word "-type",
        .word "f"] ∧
    ReadAs (Command.run path).render [.word "sudo", .word path] ∧
    ReadAs (Command.script l j s path).render
      (if s.movesData then
        [.word "sudo", .word "mkdir", .word "-p", .word (j.directory l), .operator "&&",
          .word "sudo", .word ("ARTIFACT_DIRECTORY=" ++ (j.directory l ++ "/")), .word path]
      else [.word "sudo", .word path]) ∧
    ReadAs (Command.removeAll l).render
      [.word "sudo", .word "rm", .word "-rf", .word l.backupRoot] ∧
    ReadAs (Command.size directory).render
      [.word "sudo", .word "du", .word "-sh", .word directory, .operator "|", .word "cut",
        .word "-f1"] ∧
    ReadAs (Command.listDigests directory).render
      [.word "cd", .word directory, .operator "&&", .word "sudo", .word "find", .word ".",
        .word "-type", .word "f", .word "-exec", .word "sha256sum", .word "\x7b\x7d", .word "+"] ∧
    ReadAs (Command.pack directory).render
      [.word "sudo", .word "tar", .word "-C", .word directory, .word "-c", .word "."] ∧
    ReadAs (Command.unpack directory).render
      [.word "sudo", .word "mkdir", .word "-p", .word directory, .operator "&&", .word "sudo",
        .word "tar", .word "-C", .word directory, .word "-x"] := by
  refine ⟨Command.readAs_render rfl, Command.readAs_render rfl, ?_, Command.readAs_render rfl,
    Command.readAs_render rfl, Command.readAs_render rfl, Command.readAs_render rfl,
    Command.readAs_render rfl⟩
  -- A script that moves no data is run without a directory.
  rw [Command.script]
  split
  · exact Command.readAs_render rfl
  · exact Command.readAs_render rfl

/-! ### Commands that look jobs up -/

/-- The text of a command that lists the scripts of jobs, or runs a metadata script. -/
def IsLookUp (command : String) : Prop :=
  (∃ l, command = (Command.findScripts l).render) ∨
    ∃ root name, command = (Command.run (scriptPath root name .metadata)).render

/-- Commands that are meant otherwise look nothing up. -/
theorem not_isLookUp {c : Command} (hsound : c.all Piece.isSound = true)
    (hfind : ∀ l, c.map Piece.meant ≠ (Command.findScripts l).map Piece.meant)
    (hrun : ∀ root name, c.map Piece.meant ≠
      (Command.run (scriptPath root name .metadata)).map Piece.meant) :
    ¬ IsLookUp c.render := by
  rintro (⟨l, hrender⟩ | ⟨root, name, hrender⟩)
  · exact hfind l (Command.meant_eq_of_render_eq hsound rfl hrender)
  · exact hrun root name (Command.meant_eq_of_render_eq hsound rfl hrender)

theorem not_isLookUp_removeAll (l : Layout) : ¬ IsLookUp (Command.removeAll l).render := by
  refine not_isLookUp rfl (fun l' h => ?_) (fun root name h => ?_)
  · simp [Command.removeAll, Command.findScripts, Command.fixed, Piece.meant, Piece.joins] at h
  · simp [Command.removeAll, Command.run, Command.fixed, Piece.meant, Piece.joins] at h

theorem not_isLookUp_script (l : Layout) (job : Job) {s : Script} (hs : s ≠ .metadata)
    (root name : String) : ¬ IsLookUp (Command.script l job s (scriptPath root name s)).render := by
  rw [Command.script]
  split
  · refine not_isLookUp rfl (fun l' h => ?_) (fun root name h => ?_)
    · simp [Command.makeDirectory, Command.findScripts, Command.fixed, Piece.meant,
        Piece.joins] at h
    · simp [Command.makeDirectory, Command.run, Command.fixed, Piece.meant, Piece.joins] at h
  · refine not_isLookUp rfl (fun l' h => ?_) (fun root' name' h => ?_)
    · simp [Command.run, Command.findScripts, Command.fixed, Piece.meant, Piece.joins] at h
    · have hpaths : scriptPath root name s = scriptPath root' name' .metadata := by
        simpa [Command.run, Piece.meant] using h
      exact hs (Script.eq_of_scriptPath_eq hpaths)

end DeploymentBackup.Remote
