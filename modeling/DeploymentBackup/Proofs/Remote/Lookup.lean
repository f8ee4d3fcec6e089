import DeploymentBackup.Proofs.Remote.Discovery
import DeploymentBackup.Proofs.Remote.Issued

namespace DeploymentBackup.Remote

open Text

/-!
# Looking jobs up

The jobs of a host are looked up in a conversation: one command lists the scripts of all jobs, and
each job with a metadata script is asked for its shared blob. The conversation ends with the first
reply that is of no use, and then there are no jobs.

* `Exchange`, `Happens` — commands with the replies to them, and where they take place.
* `Asks`, `LooksUp` — the exchanges of a look-up, with what comes of them.
* `Carries` — an action that carries on exchanges, and nothing else.
* `LooksUp.inOrder` — the commands of a look-up.
* `Host.jobs_of_known`, `Host.jobs_of_unknown` — the jobs of a host.
-/

variable {W α β : Type}

/-! ### Exchanges -/

/-- A command that was given to a host, with the reply. -/
structure Exchange where
  command : Command
  reply : Except Fault Output

namespace Exchange

/-- What is noted of an exchange. -/
def issued (e : Exchange) : Issued :=
  ⟨e.command.render, e.reply.map (·.toEnded)⟩

/-- The output of a command that must succeed. -/
def output (e : Exchange) : Except Instance.Fault String :=
  match e.reply with
  | .error cause => .error (.remote cause)
  | .ok output =>
    if output.success then .ok output.stdoutText
    else .error (.remoteCommand e.command.render output.exitCode output.stderrText)

/-- A job with the shared blob that its metadata script has told. -/
def tells (e : Exchange) (job : Job) : Except Instance.Fault Job := do
  let output ← e.output
  let name ← (backupNameOf output).mapError fun fault => .jobMetadata job.name fault.message
  return job.withBackupName name

end Exchange

/-- A command in a world, with the reply. -/
def exchange (r : Runner W) (c : Command) (w : W) : Exchange :=
  ⟨c, (r.run c.render w).1⟩

/-- Exchanges take place one after the other, from one world to another. -/
def Happens (r : Runner W) : W → List Exchange → W → Prop
  | w, [], after => w = after
  | w, e :: rest, after =>
    ∃ next, r.run e.command.render w = (e.reply, next) ∧ Happens r next rest after

theorem Happens.append {r : Runner W} {w mid after : W} {es more : List Exchange}
    (h : Happens r w es mid) (hmore : Happens r mid more after) :
    Happens r w (es ++ more) after := by
  induction es generalizing w with
  | nil =>
    cases h
    exact hmore
  | cons e es ih =>
    obtain ⟨next, hrun, hrest⟩ := h
    exact ⟨next, hrun, ih hrest⟩

/-- Jobs are asked for their shared blobs, as far as they have metadata scripts, and up to the first
    of these that fails or prints something unusable. -/
inductive Asks : List Job → List Exchange → Except Instance.Fault (List Job) → Prop
  | done : Asks [] [] (.ok [])
  | silent {job : Job} {jobs : List Job} {es : List Exchange}
      {result : Except Instance.Fault (List Job)} (hnone : job.script? .metadata = none)
      (hrest : Asks jobs es result) : Asks (job :: jobs) es (result.map (job :: ·))
  | told {job described : Job} {jobs : List Job} {e : Exchange} {es : List Exchange} {path : String}
      {result : Except Instance.Fault (List Job)} (hpath : job.script? .metadata = some path)
      (hcommand : e.command = .run path) (htells : e.tells job = .ok described)
      (hrest : Asks jobs es result) : Asks (job :: jobs) (e :: es) (result.map (described :: ·))
  | failed {job : Job} {jobs : List Job} {e : Exchange} {path : String} {cause : Instance.Fault}
      (hpath : job.script? .metadata = some path) (hcommand : e.command = .run path)
      (htells : e.tells job = .error cause) : Asks (job :: jobs) [e] (.error cause)

/-- A look-up: the scripts are listed, and if that succeeds, the jobs that they belong to are
    asked. -/
inductive LooksUp (l : Layout) : List Exchange → Except Instance.Fault (List Job) → Prop
  | lost {find : Exchange} {cause : Instance.Fault} (hcommand : find.command = .findScripts l)
      (houtput : find.output = .error cause) : LooksUp l [find] (.error cause)
  | listed {find : Exchange} {listing : String} {es : List Exchange}
      {result : Except Instance.Fault (List Job)} (hcommand : find.command = .findScripts l)
      (houtput : find.output = .ok listing) (hasks : Asks (jobsOf l.jobsRoot listing) es result) :
      LooksUp l (find :: es) result

/-! ### The commands of a look-up -/

/-- The scripts are listed, and then the metadata scripts of jobs run, in ascending order of the
    jobs. -/
def InOrder (l : Layout) (commands : List Command) : Prop :=
  ∃ names : List String, names.Pairwise (· < ·) ∧
    commands = .findScripts l :: names.map fun name => .run (scriptPath l.jobsRoot name .metadata)

/-- The metadata scripts that run are those of some of the jobs, in the order of the jobs. -/
theorem Asks.exists_commands {root : String} {jobs : List Job} {es : List Exchange}
    {result : Except Instance.Fault (List Job)} (h : Asks jobs es result)
    (hpaths : ∀ job ∈ jobs, ∀ path, job.script? .metadata = some path →
      path = scriptPath root job.name .metadata) :
    ∃ asked : List Job, asked.Sublist jobs ∧
      es.map (·.command) = asked.map fun job => .run (scriptPath root job.name .metadata) := by
  induction h with
  | done => exact ⟨[], .slnil, rfl⟩
  | silent _ _ ih =>
    obtain ⟨asked, hsublist, hcommands⟩ := ih fun job hjob => hpaths job (.tail _ hjob)
    exact ⟨asked, hsublist.cons _, hcommands⟩
  | told hpath hcommand _ _ ih =>
    obtain ⟨asked, hsublist, hcommands⟩ := ih fun job hjob => hpaths job (.tail _ hjob)
    refine ⟨_, hsublist.cons_cons _, ?_⟩
    rw [List.map_cons, List.map_cons, hcommands, hcommand, hpaths _ List.mem_cons_self _ hpath]
  | failed hpath hcommand =>
    refine ⟨[_], List.singleton_sublist.mpr List.mem_cons_self, ?_⟩
    rw [List.map_singleton, List.map_singleton, hcommand, hpaths _ List.mem_cons_self _ hpath]

theorem LooksUp.inOrder {l : Layout} {es : List Exchange}
    {result : Except Instance.Fault (List Job)} (h : LooksUp l es result) :
    InOrder l (es.map (·.command)) := by
  cases h with
  | lost hcommand => exact ⟨[], .nil, by rw [List.map_singleton, hcommand]; rfl⟩
  | @listed find listing es _ hcommand _ hasks =>
    have hpaths : ∀ job ∈ jobsOf l.jobsRoot listing, ∀ path,
        job.script? .metadata = some path → path = scriptPath l.jobsRoot job.name .metadata := by
      intro job hjob path hpath
      obtain ⟨name, s, -, rfl⟩ := mem_jobsOf.mp hjob
      exact (script?_jobOf.mp hpath).2
    obtain ⟨asked, hsublist, hcommands⟩ := hasks.exists_commands hpaths
    refine ⟨asked.map (·.name), ?_, ?_⟩
    · have hnames := pairwise_ascending ((Remote.listed l.jobsRoot listing).map (·.1))
      rw [← names_jobsOf] at hnames
      exact hnames.sublist (hsublist.map _)
    · rw [List.map_cons, hcommand, hcommands, List.map_map]
      rfl

/-! ### Actions that carry on exchanges -/

/-- An action carries on exchanges, which are all that it issues, and has a result. -/
structure Carries (r : Runner W) (y : Act (W × List Issued) α) (x : Act W α) (w : W)
    (es : List Exchange) (result : Except Instance.Fault α) (after : W) : Prop where
  happens : Happens r w es after
  issues : Act.Issues y x w (es.map Exchange.issued)
  ends : x w = (result.mapError .fault, after)

namespace Carries

variable {r : Runner W} {y : Act (W × List Issued) α} {x : Act W α} {w after last : W}
  {es more : List Exchange}

theorem pure (a : α) (w : W) : Carries r (Pure.pure a) (Pure.pure a) w [] (.ok a) w :=
  ⟨rfl, Act.issues_pure a w, rfl⟩

theorem ofExcept (result : Except Instance.Fault α) (w : W) :
    Carries r (Act.ofExcept result) (Act.ofExcept result) w [] result w :=
  ⟨rfl, Act.issues_ofExcept result w, Act.ofExcept_apply result w⟩

theorem checked (r : Runner W) (c : Command) (w : W) :
    Carries r (checked r.noting c) (checked r c) w [exchange r c w] (exchange r c w).output
      (r.run c.render w).2 where
  happens := ⟨_, rfl, rfl⟩
  issues := issues_checked r c w
  ends := by
    rcases hrun : r.run c.render w with ⟨cause | output, after⟩
    · rw [checked_of_fault hrun, exchange, Exchange.output, hrun]
      rfl
    · rw [checked_of_output hrun, exchange, Exchange.output, hrun]
      dsimp only
      split <;> rfl

theorem bind_ok {a : α} {result : Except Instance.Fault β} {g : α → Act (W × List Issued) β}
    {f : α → Act W β} (hx : Carries r y x w es (.ok a) after)
    (hf : Carries r (g a) (f a) after more result last) :
    Carries r (y >>= g) (x >>= f) w (es ++ more) result last where
  happens := hx.happens.append hf.happens
  issues := by
    rw [List.map_append]
    exact hx.issues.bind_ok hx.ends hf.issues
  ends := by
    rw [Act.bind_apply, hx.ends]
    exact hf.ends

theorem bind_error {cause : Instance.Fault} {g : α → Act (W × List Issued) β} {f : α → Act W β}
    (hx : Carries r y x w es (.error cause) after) :
    Carries r (y >>= g) (x >>= f) w es (.error cause) after where
  happens := hx.happens
  issues := hx.issues.bind_error hx.ends
  ends := by
    rw [Act.bind_apply, hx.ends]
    rfl

/-- What an action gives is put to use without another exchange. -/
theorem bind_pure {result : Except Instance.Fault α} (f : α → β)
    (hx : Carries r y x w es result after) :
    Carries r (y >>= fun a => Pure.pure (f a)) (x >>= fun a => Pure.pure (f a)) w es (result.map f)
      after where
  happens := hx.happens
  issues := hx.issues.bind_pure f
  ends := by
    rw [Act.bind_apply, hx.ends]
    cases result <;> rfl

end Carries

/-! ### The look-up of a host -/

namespace Host

/-- A look-up took place on a host, from one world to another. -/
structure LookedUp (h : Host W) (w : W) (es : List Exchange)
    (result : Except Instance.Fault (List Job)) (after : W) : Prop where
  happens : Happens h.runner w es after
  looksUp : LooksUp h.layout es result
  inOrder : InOrder h.layout (es.map (·.command))

variable {h : Host W} {w : W}

theorem carries_describe {job : Job} {path : String} (hpath : job.script? .metadata = some path)
    (w : W) :
    Carries h.runner (h.noting.describe job) (h.describe job) w
      [exchange h.runner (.run path) w] ((exchange h.runner (.run path) w).tells job)
      (h.runner.run (Command.run path).render w).2 := by
  have hchecked := Carries.checked h.runner (.run path) w
  unfold describe
  simp only [hpath]
  rw [Exchange.tells]
  cases houtput : (exchange h.runner (.run path) w).output with
  | error cause =>
    rw [houtput] at hchecked
    exact hchecked.bind_error
  | ok output =>
    rw [houtput] at hchecked
    exact hchecked.bind_ok ((Carries.ofExcept _ _).bind_pure _)

theorem carries_describeAll (h : Host W) (jobs : List Job) (w : W) :
    ∃ es result after, Asks jobs es result ∧
      Carries h.runner (h.noting.describeAll jobs) (h.describeAll jobs) w es result after := by
  -- The world in which a job is asked is the one that the jobs before it have left.
  induction jobs generalizing w with
  | nil => exact ⟨[], .ok [], w, .done, .pure [] w⟩
  | cons job jobs ih =>
    cases hpath : job.script? .metadata with
    | none =>
      obtain ⟨es, result, after, hasks, hcarries⟩ := ih w
      have hdescribe :
          Carries h.runner (h.noting.describe job) (h.describe job) w [] (.ok job) w := by
        unfold describe
        simp only [hpath]
        exact .pure job w
      exact ⟨es, _, after, .silent hpath hasks, hdescribe.bind_ok (hcarries.bind_pure _)⟩
    | some path =>
      have hdescribe := carries_describe (h := h) hpath w
      cases htells : (exchange h.runner (.run path) w).tells job with
      | error cause =>
        rw [htells] at hdescribe
        exact ⟨_, _, _, .failed hpath rfl htells, hdescribe.bind_error⟩
      | ok described =>
        rw [htells] at hdescribe
        obtain ⟨es, result, after, hasks, hcarries⟩ :=
          ih (h.runner.run (Command.run path).render w).2
        exact ⟨_, _, after, .told hpath rfl htells hasks,
          hdescribe.bind_ok (hcarries.bind_pure _)⟩

theorem carries_discover (h : Host W) (w : W) :
    ∃ es result after, LooksUp h.layout es result ∧
      Carries h.runner h.noting.discover h.discover w es result after := by
  have hfind := Carries.checked h.runner (.findScripts h.layout) w
  cases houtput : (exchange h.runner (.findScripts h.layout) w).output with
  | error cause =>
    rw [houtput] at hfind
    exact ⟨_, _, _, .lost rfl houtput, hfind.bind_error⟩
  | ok listing =>
    rw [houtput] at hfind
    obtain ⟨es, result, after, hasks, hcarries⟩ := h.carries_describeAll
      (jobsOf h.layout.jobsRoot listing) (h.runner.run (Command.findScripts h.layout).render w).2
    exact ⟨_, result, after, .listed rfl houtput hasks, hfind.bind_ok hcarries⟩

/-- Jobs that are known are not looked up again. -/
theorem jobs_of_known {jobs : List Job} (hknown : h.known w = some jobs) :
    h.jobs w = (.ok jobs, w) := by
  rw [Host.jobs, hknown]

theorem issues_jobs_of_known {jobs : List Job} (hknown : h.known w = some jobs) :
    Act.Issues h.noting.jobs h.jobs w [] := by
  intro notes
  rw [jobs_of_known hknown, jobs_of_known (h := h.noting) (w := (w, notes)) hknown,
    List.append_nil]

/-- Jobs that are not known are looked up, and remembered if that succeeds. -/
theorem jobs_of_unknown (hunknown : h.known w = none) :
    ∃ es result after, h.LookedUp w es result after ∧
      Act.Issues h.noting.jobs h.jobs w (es.map Exchange.issued) ∧
      (∀ jobs, result = .ok jobs → h.Finds jobs ∧ h.jobs w = (.ok jobs, h.remember jobs after)) ∧
      ∀ cause, result = .error cause → h.jobs w = (.error (.fault cause), after) := by
  obtain ⟨es, result, after, hlooks, hcarries⟩ := h.carries_discover w
  have hends := hcarries.ends
  have hjobs : h.jobs w = (h.discover >>= fun jobs => do h.learn jobs; return jobs) w := by
    rw [Host.jobs, hunknown]
    rfl
  refine ⟨es, result, after, ⟨hcarries.happens, hlooks, hlooks.inOrder⟩, fun notes => ?_, ?_, ?_⟩
  · have hnoting : h.noting.jobs (w, notes) =
        (h.noting.discover >>= fun jobs => do h.noting.learn jobs; return jobs) (w, notes) := by
      rw [Host.jobs, show h.noting.known (w, notes) = none from hunknown]
      rfl
    rw [hnoting, hjobs, Act.bind_apply, Act.bind_apply, hcarries.issues, hends]
    cases result <;> rfl
  · rintro jobs rfl
    rw [hjobs, Act.bind_apply, hends]
    exact ⟨⟨w, by rw [hends]; rfl⟩, rfl⟩
  · rintro cause rfl
    rw [hjobs, Act.bind_apply, hends]
    rfl

/-- Nothing but commands happens on a host when its jobs are asked for. -/
theorem issues_jobs (h : Host W) (w : W) :
    ∃ issued, Act.Issues h.noting.jobs h.jobs w issued := by
  cases hknown : h.known w with
  | some jobs => exact ⟨[], issues_jobs_of_known hknown⟩
  | none =>
    obtain ⟨es, result, after, -, hissues, -⟩ := jobs_of_unknown hknown
    exact ⟨_, hissues⟩

end Host

end DeploymentBackup.Remote
