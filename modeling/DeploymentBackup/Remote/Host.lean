import DeploymentBackup.Digests.Listing
import DeploymentBackup.Instance.Basic
import DeploymentBackup.Remote.Command
import DeploymentBackup.Remote.Runner

namespace DeploymentBackup.Remote

open Text

/-!
# Instances on a host

An instance that is reached by running commands on a host. The jobs of the host are looked
up when they are first needed and remembered once the look-up has succeeded; what the
instance is capable of, what it does and what it holds all follow from them.

* `checked` — a command that must succeed.
* `Host` — what is known of a host.
* `Host.jobs` — the jobs of the host.
* `Host.toInstance`, `blobAt` — the instance and its blobs.
-/

variable {W : Type}

/-! ### Running commands -/

/-- The end of a command that must succeed. -/
def checkEnd (c : Command) (e : Ended) : Except Instance.Fault Unit :=
  if e.success then .ok () else .error (.remoteCommand c.render e.exitCode e.stderrText)

/-- Runs a command that must succeed, and gives its output. -/
def checked (r : Runner W) (c : Command) : Act W String := do
  let output ← Act.ofResult .remote (r.run c.render)
  Act.ofExcept (checkEnd c output.toEnded)
  return output.stdoutText

theorem checked_of_fault {r : Runner W} {c : Command} {w after : W} {cause : Fault}
    (hrun : r.run c.render w = (.error cause, after)) :
    checked r c w = (.error (.fault (.remote cause)), after) := by
  have hresult : Act.ofResult .remote (r.run c.render) w =
      (.error (.fault (.remote cause)), after) := by
    rw [Act.ofResult, hrun]
    rfl
  rw [checked, Act.bind_apply, hresult]

/-- A command that came to its end gives its output, unless its status is one of a failure. -/
theorem checked_of_output {r : Runner W} {c : Command} {w after : W} {output : Output}
    (hrun : r.run c.render w = (.ok output, after)) :
    checked r c w =
      (if output.success then .ok output.stdoutText
        else .error (.fault (.remoteCommand c.render output.exitCode output.stderrText)),
        after) := by
  have hresult : Act.ofResult .remote (r.run c.render) w = (.ok output, after) := by
    rw [Act.ofResult, hrun]
    rfl
  rw [checked, Act.bind_apply, hresult]
  show ((Act.ofExcept (checkEnd c output.toEnded) : Act W Unit) >>= fun _ =>
    pure output.stdoutText) after = _
  rw [Act.bind_apply, Act.ofExcept_apply, checkEnd]
  by_cases hsuccess : output.success = true
  · rw [if_pos hsuccess, if_pos hsuccess]
    rfl
  · rw [if_neg hsuccess, if_neg hsuccess]
    rfl

/-- Runs commands up to the first that fails. -/
def runUntilFailure (r : Runner W) : List Command → Act W Unit
  | [] => pure ()
  | c :: rest => do
    let _ ← checked r c
    runUntilFailure r rest

/-- Runs all commands, and reports the first failure when they are through. -/
def runAll (r : Runner W) : List Command → Act W Unit
  | [] => pure ()
  | c :: rest => do
    let first ← (checked r c).attempt
    let others ← (runAll r rest).attempt
    Act.ofExcept (first.bind fun _ => others)

/-! ### Blobs -/

/-- The blob in a directory of a host. -/
def blobAt (r : Runner W) (id : Identifier) (directory : String) : Blob W where
  id := id
  size := do
    return trim (← checked r (.size directory))
  digests := do
    let output ← checked r (.listDigests directory)
    Act.ofExcept ((Digests.ofListing output).mapError .checksum)
  fetch := fun sink w =>
    let c := Command.pack directory
    let ((bytes, ended), w) := r.stream c.render sink w
    ((bytes, (ended.mapError .remote).bind (checkEnd c) |>.mapError .fault), w)
  replace := fun source => do
    let c := Command.unpack directory
    let ended ← Act.ofResult .remote (r.feed c.render source)
    Act.ofExcept (checkEnd c ended)

/-! ### Instances -/

/-- A host, with the place where its jobs are remembered. -/
structure Host (W : Type) where
  id : Identifier
  layout : Layout
  runner : Runner W
  /-- The jobs, once they were looked up. -/
  known : W → Option (List Job)
  remember : List Job → W → W

namespace Host

/-- A job with the shared blob that its metadata script names. -/
def describe (h : Host W) (j : Job) : Act W Job :=
  match j.script? .metadata with
  | none => pure j
  | some path => do
    let output ← checked h.runner (.run path)
    let name ← Act.ofExcept <|
      (backupNameOf output).mapError fun fault => .jobMetadata j.name fault.message
    return j.withBackupName name

/-- The jobs with their shared blobs, up to the first failure. -/
def describeAll (h : Host W) : List Job → Act W (List Job)
  | [] => pure []
  | j :: rest => do
    let j ← h.describe j
    return j :: (← h.describeAll rest)

/-- Looks the jobs up. -/
def discover (h : Host W) : Act W (List Job) := do
  let listing ← checked h.runner (.findScripts h.layout)
  h.describeAll (jobsOf h.layout.jobsRoot listing)

/-- Remembers the jobs. -/
def learn (h : Host W) (jobs : List Job) : Act W Unit :=
  fun w => (.ok (), h.remember jobs w)

/-- The jobs of the host. -/
def jobs (h : Host W) : Act W (List Job) := fun w =>
  match h.known w with
  | some jobs => (.ok jobs, w)
  | none =>
    Act.bind h.discover (fun jobs => do
      h.learn jobs
      return jobs) w

/-- The commands that run one script of all jobs that have it. -/
def commands (h : Host W) (s : Script) (jobs : List Job) : List Command :=
  jobs.filterMap fun j => (j.script? s).map (Command.script h.layout j s)

/-- What the host is capable of: it has a script for it, and cleans up if it holds data. -/
def capable (h : Host W) (phase : Phase) : Act W Bool := do
  let jobs ← h.jobs
  match Script.ofPhase? phase with
  | some s => return jobs.any (·.has s)
  | none => return jobs.any (·.holdsData)

/-- What the host does in a phase. Every job is unlocked, whatever fails; otherwise the
    first failure is the last thing that happens. -/
def act (h : Host W) (phase : Phase) : Act W Unit :=
  match phase, Script.ofPhase? phase with
  | _, none => do
    let _ ← checked h.runner (.removeAll h.layout)
  | .postBackupUnlock, some s | .postRestoreUnlock, some s => do
    runAll h.runner (h.commands s (← h.jobs))
  | _, some s => do
    runUntilFailure h.runner (h.commands s (← h.jobs))

/-- The blob of the instance itself, if a job keeps data in it, and the shared blobs. -/
def blobs (h : Host W) : Act W (List (Blob W)) := do
  let jobs ← h.jobs
  let own :=
    if jobs.any fun j => j.holdsData && j.backupName.isNone then
      [blobAt h.runner h.id h.layout.instanceDirectory]
    else []
  return own ++ (sharedNames jobs).map fun name =>
    blobAt h.runner (.named name) (h.layout.namedDirectory name)

/-- The instance on a host. -/
def toInstance (h : Host W) : Instance W where
  id := h.id
  capable := h.capable
  act := h.act
  blobs := h.blobs

end Host

end DeploymentBackup.Remote
