import DeploymentBackup.Remote.Host

namespace DeploymentBackup

/-!
# Commands that are issued

A runner can write down each command that it is asked to run, with how the command ended. The
actions of a host with such a runner are those of the host itself: they end alike and leave the
same world, whatever was written down before. What they add to the notes are the commands that
they issue.

* `Remote.Issued` — a command with how it ended; `Issued.failure?` tells what is wrong with that.
* `Remote.outcomeOf` — the first failure of commands.
* `Runner.noting`, `Remote.Host.noting` — notes are taken.
* `Act.Issues` — the commands that an action issues.
* `Remote.issues_runUntilFailure`, `Remote.issues_runAll` — the two ways through a list of commands.
-/

namespace Remote

/-- A command that was issued, with how it ended. -/
structure Issued where
  command : String
  ended : Except Fault Ended

/-- What is reported of a command that failed: it was not run to its end, or ended with a status
    other than zero. -/
def Issued.failure? (i : Issued) : Option Instance.Fault :=
  match i.ended with
  | .error cause => some (.remote cause)
  | .ok e => if e.success then none else some (.remoteCommand i.command e.exitCode e.stderrText)

/-- The first failure of commands, if any of them failed. -/
def outcomeOf (issued : List Issued) : Except Instance.Fault Unit :=
  match issued.findSome? Issued.failure? with
  | none => .ok ()
  | some cause => .error cause

variable {i : Issued} {issued : List Issued}

theorem outcomeOf_cons_of_none (hnone : i.failure? = none) :
    outcomeOf (i :: issued) = outcomeOf issued := by
  rw [outcomeOf, List.findSome?_cons, hnone, outcomeOf]

theorem outcomeOf_cons_of_some {cause : Instance.Fault} (hsome : i.failure? = some cause) :
    outcomeOf (i :: issued) = .error cause := by
  rw [outcomeOf, List.findSome?_cons, hsome]

theorem outcomeOf_eq_ok_iff : outcomeOf issued = .ok () ↔ ∀ i ∈ issued, i.failure? = none := by
  rw [← List.findSome?_eq_none_iff, outcomeOf]
  split <;> simp_all

end Remote

open Remote

variable {W α β : Type}

/-! ### Notes -/

/-- The runner, with notes of the commands that it is asked to run. -/
def Runner.noting (r : Runner W) : Runner (W × List Issued) where
  run := fun command v =>
    ((r.run command v.1).1, (r.run command v.1).2,
      v.2 ++ [⟨command, (r.run command v.1).1.map (·.toEnded)⟩])
  stream := fun command sink v =>
    ((r.stream command sink v.1).1, (r.stream command sink v.1).2,
      v.2 ++ [⟨command, (r.stream command sink v.1).1.2⟩])
  feed := fun command source v =>
    ((r.feed command source v.1).1, (r.feed command source v.1).2,
      v.2 ++ [⟨command, (r.feed command source v.1).1⟩])

/-- The host, with notes of the commands that are run on it. -/
def Remote.Host.noting (h : Host W) : Host (W × List Issued) where
  id := h.id
  layout := h.layout
  runner := h.runner.noting
  known := fun v => h.known v.1
  remember := fun jobs v => (h.remember jobs v.1, v.2)

namespace Act

/-- An action issues commands: with notes it is the same action, and adds these to the notes. -/
def Issues (y : Act (W × List Issued) α) (x : Act W α) (w : W) (issued : List Issued) : Prop :=
  ∀ notes, y (w, notes) = ((x w).1, (x w).2, notes ++ issued)

variable {y : Act (W × List Issued) α} {x : Act W α} {w after : W} {issued more : List Issued}

theorem issues_pure (a : α) (w : W) : Issues (Pure.pure a) (Pure.pure a) w [] := by
  intro notes
  simp only [pure_apply, List.append_nil]

theorem issues_ofExcept (r : Except Instance.Fault α) (w : W) :
    Issues (ofExcept r) (ofExcept r) w [] := by
  intro notes
  rw [ofExcept_apply, ofExcept_apply, List.append_nil]

/-- An action that does not panic gives its outcome when a failure is a value. -/
theorem attempt_of_mapError {r : Except Instance.Fault α}
    (hvalue : (x w).1 = r.mapError .fault) : x.attempt w = (.ok r, (x w).2) := by
  rcases hx : x w with ⟨result, after⟩
  rw [hx] at hvalue
  obtain rfl : result = r.mapError .fault := hvalue
  rw [Act.attempt, hx]
  cases r <;> rfl

theorem Issues.bind_ok {g : α → Act (W × List Issued) β} {f : α → Act W β} {a : α}
    (hx : Issues y x w issued) (hvalue : x w = (.ok a, after))
    (hf : Issues (g a) (f a) after more) : Issues (y >>= g) (x >>= f) w (issued ++ more) := by
  intro notes
  rw [bind_apply, bind_apply, hx, hvalue]
  show g a (after, notes ++ issued) = _
  rw [hf, List.append_assoc]

theorem Issues.bind_error {g : α → Act (W × List Issued) β} {f : α → Act W β} {halt : Halt}
    (hx : Issues y x w issued) (hvalue : x w = (.error halt, after)) :
    Issues (y >>= g) (x >>= f) w issued := by
  intro notes
  rw [bind_apply, bind_apply, hx, hvalue]

/-- What an action gives is put to use without another command. -/
theorem Issues.bind_pure (hx : Issues y x w issued) (f : α → β) :
    Issues (y >>= fun a => Pure.pure (f a)) (x >>= fun a => Pure.pure (f a)) w issued := by
  intro notes
  rw [bind_apply, bind_apply, hx]
  rcases x w with ⟨halt | a, after⟩ <;> rfl

theorem Issues.attempt (hx : Issues y x w issued) : Issues y.attempt x.attempt w issued := by
  intro notes
  rw [Act.attempt, Act.attempt, hx]
  rcases x w with ⟨(cause | payload) | a, after⟩ <;> rfl

end Act

open Act

namespace Remote

/-! ### Commands that are run -/

/-- A command in a world, with how it ends there. -/
def issue (r : Runner W) (c : Command) (w : W) : Issued :=
  ⟨c.render, (r.run c.render w).1.map (·.toEnded)⟩

/-- A command that must succeed gives its output, or what is reported of its failure. -/
theorem checked_ends (r : Runner W) (c : Command) (w : W) :
    (∃ text, (issue r c w).failure? = none ∧
      checked r c w = (.ok text, (r.run c.render w).2)) ∨
    ∃ cause, (issue r c w).failure? = some cause ∧
      checked r c w = (.error (.fault cause), (r.run c.render w).2) := by
  rcases hrun : r.run c.render w with ⟨cause | output, after⟩
  · refine .inr ⟨.remote cause, ?_, checked_of_fault hrun⟩
    rw [issue, hrun]
    rfl
  · have hissue : issue r c w = ⟨c.render, .ok output.toEnded⟩ := by
      rw [issue, hrun]
      rfl
    rw [hissue, checked_of_output hrun]
    show (∃ text, (if output.success then none else some _) = none ∧ _) ∨ _
    by_cases hsuccess : output.success = true
    · rw [if_pos hsuccess, if_pos hsuccess]
      exact .inl ⟨output.stdoutText, rfl, rfl⟩
    · exact .inr ⟨_, if_neg hsuccess, by rw [if_neg hsuccess]⟩

/-- A command that must succeed is issued once. -/
theorem issues_checked (r : Runner W) (c : Command) (w : W) :
    Issues (checked r.noting c) (checked r c) w [issue r c w] := by
  intro notes
  have hnoting : r.noting.run c.render (w, notes) =
      ((r.run c.render w).1, (r.run c.render w).2, notes ++ [issue r c w]) := rfl
  rcases hrun : r.run c.render w with ⟨cause | output, after⟩
  · rw [hrun] at hnoting
    rw [checked_of_fault hrun, checked_of_fault hnoting]
  · rw [hrun] at hnoting
    rw [checked_of_output hrun, checked_of_output hnoting]

/-- Commands are issued up to the first that fails, and that failure is the outcome. -/
theorem issues_runUntilFailure (r : Runner W) (commands : List Command) (w : W) :
    ∃ issued ran left, commands = ran ++ left ∧
      issued.map (·.command) = ran.map Command.render ∧
      Issues (runUntilFailure r.noting commands) (runUntilFailure r commands) w issued ∧
      (runUntilFailure r commands w).1 = (outcomeOf issued).mapError .fault ∧
      (∀ i ∈ issued.dropLast, i.failure? = none) ∧
      (left ≠ [] → ∃ i, issued.getLast? = some i ∧ i.failure? ≠ none) := by
  induction commands generalizing w with
  | nil => exact ⟨[], [], [], rfl, rfl, issues_pure () w, rfl, by simp, by simp⟩
  | cons c rest ih =>
    have hissues := issues_checked r c w
    rcases checked_ends r c w with ⟨text, hfailure, hchecked⟩ | ⟨cause, hfailure, hchecked⟩
    · -- The command succeeds, and the loop goes on with the others.
      obtain ⟨issued, ran, left, rfl, hcommands, hrest, houtcome, hdone, hleft⟩ :=
        ih (r.run c.render w).2
      refine ⟨issue r c w :: issued, c :: ran, left, rfl, ?_, hissues.bind_ok hchecked hrest,
        ?_, ?_, ?_⟩
      · rw [List.map_cons, List.map_cons, hcommands]
        rfl
      · rw [outcomeOf_cons_of_none hfailure, ← houtcome, runUntilFailure, bind_apply, hchecked]
      · intro i hi
        cases issued with
        | nil => cases hi
        | cons next others =>
          rcases List.mem_cons.mp hi with rfl | hi
          · exact hfailure
          · exact hdone i hi
      · intro hmore
        obtain ⟨i, hlast, hi⟩ := hleft hmore
        exact ⟨i, by rw [List.getLast?_cons, hlast]; rfl, hi⟩
    · -- The loop ends here, and the rest of the commands is left.
      refine ⟨[issue r c w], [c], rest, rfl, rfl, hissues.bind_error hchecked, ?_, by simp, ?_⟩
      · rw [outcomeOf_cons_of_some hfailure, runUntilFailure, bind_apply, hchecked]
        rfl
      · exact fun _ => ⟨issue r c w, rfl, by simp [hfailure]⟩

/-- All commands are issued, and the first failure is the outcome. -/
theorem issues_runAll (r : Runner W) (commands : List Command) (w : W) :
    ∃ issued, issued.map (·.command) = commands.map Command.render ∧
      Issues (runAll r.noting commands) (runAll r commands) w issued ∧
      (runAll r commands w).1 = (outcomeOf issued).mapError .fault := by
  induction commands generalizing w with
  | nil => exact ⟨[], rfl, issues_pure () w, rfl⟩
  | cons c rest ih =>
    obtain ⟨issued, hcommands, hrest, houtcome⟩ := ih (r.run c.render w).2
    -- The first command ends somehow, and those behind it are issued in any case.
    obtain ⟨first, hfirst, hended⟩ : ∃ first : Except Instance.Fault String,
        (checked r c).attempt w = (.ok first, (r.run c.render w).2) ∧
        (first.bind fun _ => outcomeOf issued) = outcomeOf (issue r c w :: issued) := by
      rcases checked_ends r c w with ⟨text, hfailure, hchecked⟩ | ⟨cause, hfailure, hchecked⟩
      · exact ⟨.ok text, by rw [attempt, hchecked], (outcomeOf_cons_of_none hfailure).symm⟩
      · exact ⟨.error cause, by rw [attempt, hchecked], (outcomeOf_cons_of_some hfailure).symm⟩
    have hothers := attempt_of_mapError houtcome
    refine ⟨issue r c w :: issued, ?_, ?_, ?_⟩
    · rw [List.map_cons, List.map_cons, hcommands]
      rfl
    · have hreport := issues_ofExcept (first.bind fun _ => outcomeOf issued)
        (runAll r rest (r.run c.render w).2).2
      rw [← List.append_nil issued]
      exact (issues_checked r c w).attempt.bind_ok hfirst (hrest.attempt.bind_ok hothers hreport)
    · rw [runAll, bind_apply, hfirst]
      show (((runAll r rest).attempt >>= fun others =>
        Act.ofExcept (first.bind fun _ => others)) (r.run c.render w).2).1 = _
      rw [bind_apply, hothers, ← hended]
      exact congrArg Prod.fst (ofExcept_apply _ _)

end Remote

end DeploymentBackup
