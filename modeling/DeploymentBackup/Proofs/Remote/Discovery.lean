import DeploymentBackup.Proofs.Remote.Jobs
import DeploymentBackup.Remote.Host
import Mathlib.Data.List.Forall2

namespace DeploymentBackup.Remote

open Text

/-!
# Jobs that a host finds

The jobs of a host are those that its listing shows, each with the shared blob that its metadata
script may name. Whatever the host prints, they stand in ascending order, and none of them is left
with a blank name of a shared blob.

* `Host.Finds` — jobs that a look-up gives.
* `Described` — what a metadata script adds to a job.
* `Host.Finds.ascending`, `Host.Finds.shared` — what is known of the jobs.
-/

variable {W : Type} {h : Host W} {jobs : List Job}

/-- A look-up of the jobs of a host can give these. -/
def Host.Finds (h : Host W) (jobs : List Job) : Prop :=
  ∃ w, (h.discover w).1 = .ok jobs

theorem Host.Finds.intro {w : W} (hfound : (h.discover w).1.toOption = some jobs) :
    h.Finds jobs := by
  refine ⟨w, ?_⟩
  cases hdiscover : (h.discover w).1 with
  | error halt =>
    rw [hdiscover] at hfound
    cases hfound
  | ok found =>
    rw [hdiscover] at hfound
    exact congrArg Except.ok (Option.some.inj hfound)

/-- A job as it was listed, with the shared blob that it keeps its data in; a blank name is none. -/
structure Described (listed job : Job) : Prop where
  name : job.name = listed.name
  scripts : job.scripts = listed.scripts
  shared : ∀ name, job.backupName = some name → blank name = false

namespace Host

theorem describe_described {listed job : Job} {w w' : W} (hnone : listed.backupName = none)
    (hdescribe : h.describe listed w = (.ok job, w')) : Described listed job := by
  cases hscript : listed.script? .metadata with
  | none =>
    simp only [describe, hscript] at hdescribe
    cases hdescribe
    exact ⟨rfl, rfl, by simp [hnone]⟩
  | some path =>
    simp only [describe, hscript] at hdescribe
    obtain ⟨output, after, -, hdescribe⟩ := Act.bind_eq_ok_iff.mp hdescribe
    obtain ⟨name, after', -, hdescribe⟩ := Act.bind_eq_ok_iff.mp hdescribe
    cases hdescribe
    refine ⟨rfl, rfl, fun shared hshared => ?_⟩
    simpa using (Option.filter_eq_some_iff.mp hshared).2

theorem describeAll_described {listed : List Job} {w w' : W}
    (hnone : ∀ job ∈ listed, job.backupName = none)
    (hdescribe : h.describeAll listed w = (.ok jobs, w')) : List.Forall₂ Described listed jobs := by
  induction listed generalizing jobs w with
  | nil =>
    cases hdescribe
    exact .nil
  | cons first rest ih =>
    obtain ⟨hfirst, hrest⟩ := List.forall_mem_cons.mp hnone
    obtain ⟨job, after, hjob, hdescribe⟩ := Act.bind_eq_ok_iff.mp hdescribe
    obtain ⟨others, after', hothers, hdescribe⟩ := Act.bind_eq_ok_iff.mp hdescribe
    cases hdescribe
    exact .cons (describe_described hfirst hjob) (ih hrest hothers)

/-- The jobs that are found are those of some listing. -/
theorem Finds.listed (hfound : h.Finds jobs) :
    ∃ listing, List.Forall₂ Described (jobsOf h.layout.jobsRoot listing) jobs := by
  obtain ⟨w, hdiscover⟩ := hfound
  obtain ⟨listing, after, -, hdescribe⟩ := Act.bind_eq_ok_iff.mp (Prod.ext hdiscover rfl)
  refine ⟨listing, describeAll_described (fun job hjob => ?_) hdescribe⟩
  obtain ⟨name, s, -, rfl⟩ := mem_jobsOf.mp hjob
  rfl

theorem Finds.ascending (hfound : h.Finds jobs) : (jobs.map (·.name)).Pairwise (· < ·) := by
  obtain ⟨listing, hdescribed⟩ := hfound.listed
  have hnames : List.Forall₂ (· = ·) ((jobsOf h.layout.jobsRoot listing).map (·.name))
      (jobs.map (·.name)) := by
    rw [List.forall₂_map_left_iff, List.forall₂_map_right_iff]
    exact hdescribed.imp fun _ _ hjob => hjob.name.symm
  rw [List.forall₂_eq_eq_eq] at hnames
  rw [← hnames, names_jobsOf]
  exact pairwise_ascending _

theorem Finds.shared (hfound : h.Finds jobs) {job : Job} (hjob : job ∈ jobs) {name : String}
    (hname : job.backupName = some name) : blank name = false := by
  obtain ⟨listing, hdescribed⟩ := hfound.listed
  obtain ⟨k, hk, rfl⟩ := List.getElem_of_mem hjob
  exact (hdescribed.get (hdescribed.length_eq ▸ hk) hk).shared name hname

/-- The scripts of a job that is found are where scripts of this job are. -/
theorem Finds.path_eq (hfound : h.Finds jobs) {job : Job} (hjob : job ∈ jobs) {s : Script}
    {path : String} (hpath : job.script? s = some path) :
    path = scriptPath h.layout.jobsRoot job.name s := by
  obtain ⟨listing, hdescribed⟩ := hfound.listed
  obtain ⟨k, hk, rfl⟩ := List.getElem_of_mem hjob
  have hlength := hdescribed.length_eq
  have hjob' : Described (jobsOf h.layout.jobsRoot listing)[k] jobs[k] :=
    hdescribed.get (hlength ▸ hk) hk
  obtain ⟨name, t, -, hname⟩ := mem_jobsOf.mp (List.getElem_mem (hlength ▸ hk))
  rw [hname] at hjob'
  rw [Job.script?, hjob'.scripts] at hpath
  rw [hjob'.name]
  exact (script?_jobOf.mp hpath).2

end Host

end DeploymentBackup.Remote
