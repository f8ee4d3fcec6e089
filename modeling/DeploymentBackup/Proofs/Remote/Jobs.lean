import DeploymentBackup.Proofs.Text.Ascending
import DeploymentBackup.Proofs.Text.Lines
import DeploymentBackup.Remote.Job

namespace DeploymentBackup.Remote

open Text

/-!
# Jobs that a listing shows

A listing of files comes from a host and may be any text. The jobs that it shows are those of the
paths of scripts among its lines, and nothing else in it matters.

* `IsScriptPath` — the paths that count.
* `scriptAt?_eq_some_iff` — the job and the script of a path.
* `mem_listed`, `mem_jobsOf`, `script?_jobOf` — the scripts, the jobs, and the scripts of a job.
* `jobsOf_exact` — the jobs of a listing.
-/

/-! ### Paths of scripts -/

/-- The path of a script of a job below the directory of the jobs. -/
def IsScriptPath (root path : String) : Prop :=
  ∃ job s, '/' ∉ job.toList ∧ path = scriptPath root job s

theorem Script.ofFileName?_eq_some_iff {name : String} {s : Script} :
    ofFileName? name = some s ↔ name = s.fileName := by
  constructor
  · intro h
    simpa [eq_comm] using List.find?_some h
  · rintro rfl
    cases s <;> rfl

theorem Script.slash_notMem_fileName (s : Script) : '/' ∉ s.fileName.toList := by
  cases s <;> decide

theorem Script.mem_all (s : Script) : s ∈ all := by
  cases s <;> decide

/-- Behind the directory of the jobs a path of a script has four steps. -/
theorem toList_scriptPath (root job : String) (s : Script) :
    (scriptPath root job s).toList = (withoutEndSlashes root ++ "/").toList ++
      ['/'].intercalate [job.toList, "bin".toList, "bbr".toList, s.fileName.toList] := by
  simp [scriptPath, List.intercalate_cons_cons]

/-- A path of a script ends with the name of the script. -/
theorem Script.eq_of_scriptPath_eq {root root' job job' : String} {s s' : Script}
    (h : scriptPath root job s = scriptPath root' job' s') : s = s' := by
  -- Read from its end, the path has the name up to the first slash.
  have hcut (root job : String) (s : Script) : ∃ rest, cutAt '/'
      (scriptPath root job s).toList.reverse = some (s.fileName.toList.reverse, rest) := by
    have hname : '/' ∉ s.fileName.toList.reverse := by
      simpa using s.slash_notMem_fileName
    have hpath : (scriptPath root job s).toList.reverse = s.fileName.toList.reverse ++
        '/' :: (withoutEndSlashes root ++ "/" ++ job ++ "/bin/bbr").toList.reverse := by
      simp [scriptPath]
    exact ⟨_, by rw [hpath, cutAt_append hname]⟩
  obtain ⟨rest, hs⟩ := hcut root job s
  obtain ⟨rest', hs'⟩ := hcut root' job' s'
  rw [h, hs'] at hs
  have hnames : s'.fileName = s.fileName :=
    String.toList_inj.mp (List.reverse_injective (Prod.mk.inj (Option.some.inj hs)).1)
  have hfound := ofFileName?_eq_some_iff.mpr (rfl : s'.fileName = s'.fileName)
  rw [hnames, ofFileName?_eq_some_iff.mpr rfl] at hfound
  exact Option.some.inj hfound

/-- A path names a script of a job exactly when it is the path of this script. -/
theorem scriptAt?_eq_some_iff {root path job : String} {s : Script} :
    scriptAt? root path = some (job, s) ↔ '/' ∉ job.toList ∧ path = scriptPath root job s := by
  have hsteps : ('/' ∉ job.toList ↔ ∀ step ∈ [job.toList, "bin".toList, "bbr".toList,
      s.fileName.toList], '/' ∉ step) := by
    simp [Script.slash_notMem_fileName]
  constructor
  · intro h
    unfold scriptAt? at h
    split at h
    · cases h
    · rename_i rest hrest
      split at h
      · rename_i job' file hpieces
        obtain ⟨s', hfile, hpair⟩ := Option.map_eq_some_iff.mp h
        obtain ⟨rfl, rfl⟩ : job' = job ∧ s' = s := by simpa using hpair
        obtain rfl := Script.ofFileName?_eq_some_iff.mp hfile
        have hlists : pieces '/' rest =
            [job'.toList, "bin".toList, "bbr".toList, s'.fileName.toList] := by
          simpa [List.map_map] using congrArg (List.map String.toList) hpieces
        -- The steps joined again are what stands behind the directory of the jobs.
        obtain ⟨hjoined, hplain⟩ := (pieces_eq_iff (by simp)).mp hlists
        refine ⟨hsteps.mpr hplain, String.toList_inj.mp ?_⟩
        rw [stripPrefix?_eq_some_iff.mp hrest, toList_scriptPath, hjoined]
      · cases h
  · rintro ⟨hjob, rfl⟩
    have hpieces := (pieces_eq_iff (by simp)).mpr ⟨rfl, hsteps.mp hjob⟩
    unfold scriptAt?
    rw [stripPrefix?_eq_some_iff.mpr (toList_scriptPath root job s)]
    dsimp only
    rw [hpieces]
    simp [Script.ofFileName?_eq_some_iff.mpr rfl]

/-! ### The jobs -/

section

variable {root listing name : String} {s : Script} {found : List (String × Script)}

theorem mem_listed :
    (name, s) ∈ listed root listing ↔
      '/' ∉ name.toList ∧ scriptPath root name s ∈ (lines listing).map trim := by
  simp only [listed, List.mem_filterMap, List.mem_map, scriptAt?_eq_some_iff]
  constructor
  · rintro ⟨line, hline, hname, hpath⟩
    exact ⟨hname, line, hline, hpath⟩
  · rintro ⟨hname, line, hline, hpath⟩
    exact ⟨line, hline, hname, hpath⟩

/-- Some members of a list with their values are looked up like the members. -/
theorem lookup_map_filter {value : Script → String} {p : Script → Bool} {path : String}
    (scripts : List Script) :
    ((scripts.filter p).map fun s => (s, value s)).lookup s = some path ↔
      (s ∈ scripts ∧ p s = true) ∧ path = value s := by
  induction scripts with
  | nil => simp
  | cons first rest ih =>
    by_cases hs : s = first
    · subst hs
      cases hp : p s with
      | true => simp [hp, eq_comm]
      | false => simp [hp, ih]
    · have hne : (s == first) = false := beq_eq_false_iff_ne.mpr hs
      cases hp : p first with
      | true => simp [List.lookup_cons, hp, hne, hs, ih]
      | false => simp [hp, hs, ih]

/-- A job has a script exactly when the script is listed. -/
theorem script?_jobOf {path : String} :
    (jobOf root found name).script? s = some path ↔
      (name, s) ∈ found ∧ path = scriptPath root name s := by
  rw [Job.script?, jobOf, lookup_map_filter]
  simp [Script.mem_all]

theorem mem_jobsOf {job : Job} :
    job ∈ jobsOf root listing ↔
      ∃ name s, (name, s) ∈ listed root listing ∧ job = jobOf root (listed root listing) name := by
  simp only [jobsOf, List.mem_map, mem_ascending]
  constructor
  · rintro ⟨name, ⟨⟨_, s⟩, hfound, rfl⟩, rfl⟩
    exact ⟨_, s, hfound, rfl⟩
  · rintro ⟨name, s, hfound, rfl⟩
    exact ⟨name, ⟨(name, s), hfound, rfl⟩, rfl⟩

theorem names_jobsOf (root listing : String) :
    (jobsOf root listing).map (·.name) = ascending ((listed root listing).map (·.1)) := by
  rw [jobsOf, List.map_map]
  exact List.map_id _

/-- The jobs of a listing depend on which scripts are listed, and on nothing else. -/
theorem jobsOf_congr {other : String}
    (h : ∀ found, found ∈ listed root listing ↔ found ∈ listed root other) :
    jobsOf root listing = jobsOf root other := by
  have hnames : ascending ((listed root listing).map (·.1)) =
      ascending ((listed root other).map (·.1)) := by
    apply ascending_eq
    simp only [List.mem_map, h, implies_true]
  have hjobs : jobOf root (listed root listing) = jobOf root (listed root other) := by
    funext name
    simp only [jobOf, List.contains_eq_mem, h]
  simp only [jobsOf, hnames, hjobs]

end

/-- The jobs of a listing stand in ascending order of their names, each with a script at least. A
    job has a script at a path exactly when the path is a line of the listing, white space around
    it aside, and consists of the directory of the jobs, the job, and the place of the script.
    Listings have the same jobs exactly when they have the same paths of this form. -/
theorem jobsOf_exact (root listing : String) :
    ((jobsOf root listing).map (·.name)).Pairwise (· < ·) ∧
    (∀ job ∈ jobsOf root listing, ∃ s path, job.script? s = some path) ∧
    (∀ name s path, (∃ job ∈ jobsOf root listing, job.name = name ∧ job.script? s = some path) ↔
      path ∈ (lines listing).map trim ∧ '/' ∉ name.toList ∧
        path = withoutEndSlashes root ++ "/" ++ name ++ "/bin/bbr/" ++ s.fileName) ∧
    ∀ other, jobsOf root listing = jobsOf root other ↔ ∀ path, IsScriptPath root path →
      (path ∈ (lines listing).map trim ↔ path ∈ (lines other).map trim) := by
  have hscripts (listing name : String) (s : Script) (path : String) :
      (∃ job ∈ jobsOf root listing, job.name = name ∧ job.script? s = some path) ↔
        path ∈ (lines listing).map trim ∧ '/' ∉ name.toList ∧ path = scriptPath root name s := by
    constructor
    · rintro ⟨job, hjob, rfl, hpath⟩
      obtain ⟨name, _, -, rfl⟩ := mem_jobsOf.mp hjob
      obtain ⟨hfound, rfl⟩ := script?_jobOf.mp hpath
      obtain ⟨hname, hline⟩ := mem_listed.mp hfound
      exact ⟨hline, hname, rfl⟩
    · rintro ⟨hline, hname, rfl⟩
      have hfound := mem_listed.mpr ⟨hname, hline⟩
      exact ⟨_, mem_jobsOf.mpr ⟨name, s, hfound, rfl⟩, rfl, script?_jobOf.mpr ⟨hfound, rfl⟩⟩
  refine ⟨?_, fun job hjob => ?_, hscripts listing, fun other => ⟨fun hsame path => ?_,
    fun h => ?_⟩⟩
  · rw [names_jobsOf]
    exact pairwise_ascending _
  · obtain ⟨name, s, hfound, rfl⟩ := mem_jobsOf.mp hjob
    exact ⟨s, _, script?_jobOf.mpr ⟨hfound, rfl⟩⟩
  · rintro ⟨name, s, hname, rfl⟩
    -- A path of this form is a line exactly when some job has the script.
    have hline (listing : String) := hscripts listing name s (scriptPath root name s)
    simp only [hname, not_false_eq_true, and_true] at hline
    rw [← hline listing, ← hline other, hsame]
  · apply jobsOf_congr
    rintro ⟨name, s⟩
    rw [mem_listed, mem_listed]
    exact and_congr_right fun hname => h _ ⟨name, s, hname, rfl⟩

end DeploymentBackup.Remote
