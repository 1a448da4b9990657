import Matinier.Foundation.Machine
import Matinier.Processing.Runner

/-!
# What the runner stores

Every step changes at most one job, or ends those left over from before the start of the process.
From this follow the histories of jobs, and that an artifact is stored exactly with the completed
job that it is the result of, whatever is raised. The workers stay as many as they are as long as
nothing is raised where the task of a job catches nothing.
-/

namespace Matinier
namespace Processing

variable {cfg : Config} {w w' : World}

/-- What a step does to the store. -/
inductive Effect (w w' : World) : Prop
  | quiet (hjobs : w'.jobs = w.jobs) (hartifacts : w'.artifacts = w.artifacts)
      (hhistory : w'.history = w.history) (hmade : w'.made = w.made)
  | dropped (jobId artifactId : ℕ) (hnew : artifactId ∉ w.made.map Prod.snd)
      (hjobs : w'.jobs = w.jobs) (hartifacts : w'.artifacts = w.artifacts)
      (hhistory : w'.history = w.history) (hmade : w'.made = w.made ++ [(jobId, artifactId)])
  | created (record : ProcessingJobRecord) (hjobs : w.jobs.insert record = some w'.jobs)
      (hstatus : record.status = .queued) (hresult : record.resultArtifactId = none)
      (hartifacts : w'.artifacts = w.artifacts)
      (hhistory : w'.history = w.history ++ [(record.id, .queued)]) (hmade : w'.made = w.made)
  | moved (before after : ProcessingJobRecord) (hbefore : w.jobs.get after.id = some before)
      (hjobs : w.jobs.Writes w'.jobs after) (hnext : after.status ∈ before.status.next)
      (hopen : after.status ≠ .completed)
      (hresult : after.resultArtifactId = before.resultArtifactId)
      (hartifacts : w'.artifacts = w.artifacts)
      (hhistory : w'.history = w.history ++ [(after.id, after.status)]) (hmade : w'.made = w.made)
  | kept (before after : ProcessingJobRecord) (artifact : GeneratedArtifact)
      (hbefore : w.jobs.get after.id = some before) (hrunning : before.status = .running)
      (hjobs : w.jobs.Writes w'.jobs after) (hcompleted : after.status = .completed)
      (hresult : after.resultArtifactId = some artifact.id)
      (hnew : artifact.id ∉ w.made.map Prod.snd)
      (hartifacts : w'.artifacts = w.artifacts ++ [artifact])
      (hhistory : w'.history = w.history ++ [(after.id, .completed)])
      (hmade : w'.made = w.made ++ [(after.id, artifact.id)])
  | recovered (now : ℕ) (hjobs : w'.jobs = recoverInterrupted w.jobs now)
      (hartifacts : w'.artifacts = w.artifacts)
      (hhistory : w'.history = w.history ++ w.unfinished.map fun jobId => (jobId, .failed))
      (hmade : w'.made = w.made)

namespace World

theorem start_effect {now : ℕ} (h : w.start cfg now = some w') : Effect w w' := by
  unfold start at h
  split_ifs at h
  cases h
  exact .recovered now rfl rfl rfl rfl

theorem submit_effect {jobId now : ℕ} {request : JobRequest} {targetPackageId : Option ℕ}
    (h : w.submit cfg jobId request targetPackageId now = some w') : Effect w w' := by
  unfold submit at h
  split_ifs at h
  split at h
  · cases h
  · next workflow _ =>
    split at h
    · cases h
    · next jobs hjobs =>
      cases h
      exact .created _ hjobs rfl rfl rfl rfl rfl

theorem cancel_effect {jobId now : ℕ} (h : w.cancel jobId now = some w') : Effect w w' := by
  unfold cancel at h
  split at h
  · cases h
  · next jobs record hmark =>
    cases h
    obtain ⟨before, hbefore, hallowed, rfl, rfl, hwrites⟩ := mark_eq_some hmark fun _ => rfl
    refine .moved before _ hbefore hwrites ?_ nofun rfl rfl rfl rfl
    rcases List.mem_pair.mp hallowed with hstatus | hstatus <;> simp [hstatus, JobStatus.next]

theorem take_effect {i : ℕ} (h : w.take i = some w') : Effect w w' := by
  unfold take at h
  split at h
  · cases h
    exact .quiet rfl rfl rfl rfl
  · cases h

theorem setUp_effect {i now : ℕ} {raises : Bool} (h : w.setUp i now raises = some w') :
    Effect w w' := by
  unfold setUp at h
  split at h
  · split_ifs at h
    · cases h
      exact .quiet rfl rfl rfl rfl
    · cases h
      exact .quiet rfl rfl rfl rfl
    · split at h
      · cases h
        exact .quiet rfl rfl rfl rfl
      · next jobs record hmark =>
        cases h
        obtain ⟨before, hbefore, hallowed, rfl, rfl, hwrites⟩ := mark_eq_some hmark fun _ => rfl
        refine .moved before _ hbefore hwrites ?_ nofun rfl rfl rfl rfl
        simp [List.mem_singleton.mp hallowed, JobStatus.next]
  · cases h

theorem load_effect {i : ℕ} {error : Option JobError} (h : w.load i error = some w') :
    Effect w w' := by
  unfold load at h
  split at h
  · split at h
    · cases h
      exact .quiet rfl rfl rfl rfl
    · cases h
      exact .quiet rfl rfl rfl rfl
    · split_ifs at h <;> cases h <;> exact .quiet rfl rfl rfl rfl
  · cases h

theorem complete_eq_some {jobs jobs' : Jobs} {jobId artifactId now : ℕ}
    (h : complete jobs jobId artifactId now = some jobs') :
    ∃ before after, jobs.get jobId = some before ∧ before.status = .running ∧
      after.id = jobId ∧ jobs.Writes jobs' after ∧ after.status = .completed ∧
      after.resultArtifactId = some artifactId := by
  unfold complete at h
  split at h
  · cases h
  · split_ifs at h
    obtain ⟨⟨jobs', after⟩, hmark, rfl⟩ := Option.map_eq_some_iff.mp h
    obtain ⟨before, hbefore, hallowed, rfl, hid, hwrites⟩ := mark_eq_some hmark fun _ => rfl
    exact ⟨before, _, hbefore, List.mem_singleton.mp hallowed, hid, hwrites, rfl, rfl⟩

theorem generate_effect {i now : ℕ} {outcome : Outcome} (h : w.generate i now outcome = some w') :
    Effect w w' := by
  unfold generate at h
  split at h
  · next jobId current cancelRequested _ =>
    split at h
    · split_ifs at h
      cases h
      exact .quiet rfl rfl rfl rfl
    · cases h
      exact .quiet rfl rfl rfl rfl
    · next artifactId commitError =>
      split_ifs at h with hnew
      split at h
      · cases h
        exact .dropped jobId artifactId hnew rfl rfl rfl rfl
      · cases h
        exact .dropped jobId artifactId hnew rfl rfl rfl rfl
      · next jobs hcomplete =>
        cases h
        obtain ⟨before, after, hbefore, hrunning, rfl, hwrites, hcompleted, hresult⟩ :=
          complete_eq_some hcomplete
        exact .kept before after (artifactOf current artifactId) hbefore hrunning hwrites
          hcompleted hresult hnew rfl rfl rfl
  · cases h

theorem handle_effect {i now : ℕ} {raises : Bool} (h : w.handle i now raises = some w') :
    Effect w w' := by
  unfold handle at h
  split at h
  · split_ifs at h
    · cases h
      exact .quiet rfl rfl rfl rfl
    · split at h
      · cases h
        exact .quiet rfl rfl rfl rfl
      · next jobs record hmark =>
        cases h
        obtain ⟨before, hbefore, hallowed, rfl, rfl, hwrites⟩ := mark_eq_some hmark fun _ => rfl
        refine .moved before _ hbefore hwrites ?_ nofun rfl rfl rfl rfl
        rcases List.mem_pair.mp hallowed with hstatus | hstatus <;> simp [hstatus, JobStatus.next]
  · cases h

theorem resume_effect {i : ℕ} (h : w.resume i = some w') : Effect w w' := by
  unfold resume at h
  split at h
  · split at h <;> cases h <;> exact .quiet rfl rfl rfl rfl
  · cases h

theorem abandon_effect {i : ℕ} (h : w.abandon i = some w') : Effect w w' := by
  unfold abandon at h
  split at h
  · split_ifs at h
    cases h
    exact .quiet rfl rfl rfl rfl
  · cases h

end World

theorem next_effect {e : Event} (h : next cfg w e = some w') : Effect w w' := by
  cases e with
  | start now => exact World.start_effect h
  | submit jobId request targetPackageId now => exact World.submit_effect h
  | cancel jobId now => exact World.cancel_effect h
  | take i => exact World.take_effect h
  | setUp i now raises => exact World.setUp_effect h
  | load i error => exact World.load_effect h
  | generate i now outcome => exact World.generate_effect h
  | handle i now raises => exact World.handle_effect h
  | resume i => exact World.resume_effect h
  | abandon i => exact World.abandon_effect h
  | stop =>
    simp only [next, World.stop] at h
    split_ifs at h
    cases h
    exact .quiet rfl rfl rfl rfl
  | stopped =>
    simp only [next, World.stopped] at h
    split_ifs at h
    cases h
    exact .quiet rfl rfl rfl rfl
  | crash =>
    cases h
    exact .quiet rfl rfl rfl rfl

/-- What the histories and the stored artifacts have to do with the jobs. -/
structure Sound (w : World) : Prop where
  unknown : ∀ jobId, w.jobs.get jobId = none → w.historyOf jobId = []
  path : ∀ jobId job, w.jobs.get jobId = some job → w.historyOf jobId ∈ job.status.paths
  result : ∀ jobId job artifactId, w.jobs.get jobId = some job →
    job.resultArtifactId = some artifactId →
      job.status = .completed ∧ (jobId, artifactId) ∈ w.made ∧
        artifactId ∈ w.artifacts.map GeneratedArtifact.id
  completed : ∀ jobId job, w.jobs.get jobId = some job → job.status = .completed →
    job.resultArtifactId ≠ none
  visible : ∀ jobId artifactId, (jobId, artifactId) ∈ w.made →
    artifactId ∈ w.artifacts.map GeneratedArtifact.id →
      ∃ job, w.jobs.get jobId = some job ∧ job.resultArtifactId = some artifactId
  origin : ∀ artifactId ∈ w.artifacts.map GeneratedArtifact.id, artifactId ∈ w.made.map Prod.snd

theorem initial_sound : Sound .initial := by
  have hjobs : ∀ jobId, World.initial.jobs.get jobId = none := fun _ => rfl
  have hmade : World.initial.made = [] := rfl
  have hartifacts : World.initial.artifacts = [] := rfl
  have hhistory : World.initial.history = [] := rfl
  constructor <;> simp [hjobs, hmade, hartifacts, hhistory, World.historyOf]

theorem historyOf_entry {jobId other : ℕ} {status : JobStatus}
    (hhistory : w'.history = w.history ++ [(jobId, status)]) :
    w'.historyOf other =
      if jobId = other then w.historyOf other ++ [status] else w.historyOf other := by
  unfold World.historyOf
  rw [hhistory, List.filter_append, List.map_append]
  split_ifs with h <;> simp [h]

/-- The jobs that are ended at the start of the process have one more status. -/
theorem historyOf_unfinished {jobId : ℕ}
    (hhistory : w'.history = w.history ++ w.unfinished.map fun jobId => (jobId, .failed)) :
    w'.historyOf jobId = w.historyOf jobId ++
      if (w.jobs.get jobId).any fun job => job.status ∈ [JobStatus.queued, .running]
      then [JobStatus.failed] else [] := by
  have hnodup : w.unfinished.Nodup := w.jobs.keys_nodup.sublist (List.filter_sublist.map _)
  have hmem : jobId ∈ w.unfinished ↔
      (w.jobs.get jobId).any (fun job => job.status ∈ [JobStatus.queued, .running]) = true := by
    rw [Option.any_eq_true, World.unfinished, List.mem_map]
    constructor
    · rintro ⟨job, hjob, rfl⟩
      obtain ⟨hrow, hopen⟩ := List.mem_filter.mp hjob
      exact ⟨job, Table.get_of_mem hrow, hopen⟩
    · rintro ⟨job, hjob, hopen⟩
      exact ⟨job, List.mem_filter.mpr ⟨Table.mem_of_get hjob, hopen⟩, Table.key_of_get hjob⟩
  have hfilter : (w.unfinished.filter fun other => other = jobId) =
      List.replicate (w.unfinished.count jobId) jobId := List.filter_eq jobId
  have hentries : ((w.unfinished.map fun other => (other, JobStatus.failed)).filter
      fun entry => entry.1 = jobId).map Prod.snd =
        List.replicate (w.unfinished.count jobId) JobStatus.failed := by
    rw [List.filter_map, List.map_map]
    simp only [Function.comp_def]
    rw [hfilter, List.map_replicate]
  rw [World.historyOf, hhistory, List.filter_append, List.map_append, hentries, World.historyOf]
  congr 1
  split_ifs with h
  · rw [List.count_eq_one_of_mem hnodup (hmem.mpr h)]
    rfl
  · rw [List.count_eq_zero_of_not_mem fun hin => h (hmem.mp hin)]
    rfl

theorem Sound.result_eq_none (hw : Sound w) {jobId : ℕ} {job : ProcessingJobRecord}
    (hjob : w.jobs.get jobId = some job) (hopen : job.status ≠ .completed) :
    job.resultArtifactId = none := by
  cases hresult : job.resultArtifactId with
  | none => rfl
  | some artifactId => exact absurd (hw.result jobId job artifactId hjob hresult).1 hopen

section Effects

variable (hw : Sound w)
include hw

theorem sound_quiet (hjobs : w'.jobs = w.jobs) (hartifacts : w'.artifacts = w.artifacts)
    (hhistory : w'.history = w.history) (hmade : w'.made = w.made) : Sound w' := by
  have hsame : ∀ other, w'.historyOf other = w.historyOf other := by
    intro other
    rw [World.historyOf, hhistory, World.historyOf]
  constructor <;> simp only [hjobs, hartifacts, hmade, hsame]
  · exact hw.unknown
  · exact hw.path
  · exact hw.result
  · exact hw.completed
  · exact hw.visible
  · exact hw.origin

theorem sound_dropped {jobId artifactId : ℕ} (hnew : artifactId ∉ w.made.map Prod.snd)
    (hjobs : w'.jobs = w.jobs) (hartifacts : w'.artifacts = w.artifacts)
    (hhistory : w'.history = w.history) (hmade : w'.made = w.made ++ [(jobId, artifactId)]) :
    Sound w' := by
  have hsame : ∀ other, w'.historyOf other = w.historyOf other := by
    intro other
    rw [World.historyOf, hhistory, World.historyOf]
  constructor
  · intro other hother
    rw [hsame]
    exact hw.unknown other (hjobs ▸ hother)
  · intro other job hother
    rw [hsame]
    exact hw.path other job (hjobs ▸ hother)
  · intro other job result hother hresult
    rw [hmade, hartifacts]
    obtain ⟨hcompleted, hmem, hvisible⟩ := hw.result other job result (hjobs ▸ hother) hresult
    exact ⟨hcompleted, List.mem_append_left _ hmem, hvisible⟩
  · intro other job hother
    exact hw.completed other job (hjobs ▸ hother)
  · intro other artifact hmem hvisible
    rw [hmade] at hmem
    rw [hartifacts] at hvisible
    rw [hjobs]
    rcases List.mem_append.mp hmem with hmem | hmem
    · exact hw.visible other artifact hmem hvisible
    · obtain ⟨rfl, rfl⟩ := Prod.mk.inj (List.mem_singleton.mp hmem)
      exact absurd (hw.origin _ hvisible) hnew
  · intro artifact hvisible
    rw [hartifacts] at hvisible
    rw [hmade, List.map_append]
    exact List.mem_append_left _ (hw.origin artifact hvisible)

theorem sound_written {after : ProcessingJobRecord} (hjobs : w.jobs.Writes w'.jobs after)
    (hbefore : ∀ before, w.jobs.get after.id = some before → before.resultArtifactId = none)
    (hopen : after.status ≠ .completed) (hresult : after.resultArtifactId = none)
    (hpath : w.historyOf after.id ++ [after.status] ∈ after.status.paths)
    (hartifacts : w'.artifacts = w.artifacts)
    (hhistory : w'.history = w.history ++ [(after.id, after.status)])
    (hmade : w'.made = w.made) : Sound w' := by
  have hget : ∀ k, w'.jobs.get k = if k = after.id then some after else w.jobs.get k := hjobs.get
  have hothers : ∀ other, other ≠ after.id → w'.historyOf other = w.historyOf other := by
    intro other hother
    rw [historyOf_entry hhistory, if_neg (Ne.symm hother)]
  constructor
  · intro other hnone
    rw [hget] at hnone
    split_ifs at hnone with hother
    rw [hothers other hother]
    exact hw.unknown other hnone
  · intro other job hjob
    rw [hget] at hjob
    split_ifs at hjob with hother
    · cases hjob
      rw [hother, historyOf_entry hhistory, if_pos rfl]
      exact hpath
    · rw [hothers other hother]
      exact hw.path other job hjob
  · intro other job artifactId hjob hartifact
    rw [hget] at hjob
    rw [hmade, hartifacts]
    split_ifs at hjob with hother
    · cases hjob
      rw [hresult] at hartifact
      cases hartifact
    · exact hw.result other job artifactId hjob hartifact
  · intro other job hjob hcompleted
    rw [hget] at hjob
    split_ifs at hjob with hother
    · cases hjob
      exact absurd hcompleted hopen
    · exact hw.completed other job hjob hcompleted
  · intro other artifactId hmem hvisible
    rw [hmade] at hmem
    rw [hartifacts] at hvisible
    obtain ⟨job, hjob, hartifact⟩ := hw.visible other artifactId hmem hvisible
    refine ⟨job, ?_, hartifact⟩
    rw [hget, if_neg, hjob]
    rintro rfl
    rw [hbefore job hjob] at hartifact
    cases hartifact
  · rw [hartifacts, hmade]
    exact hw.origin

theorem sound_kept {before after : ProcessingJobRecord} {artifact : GeneratedArtifact}
    (hbefore : w.jobs.get after.id = some before) (hrunning : before.status = .running)
    (hjobs : w.jobs.Writes w'.jobs after) (hcompleted : after.status = .completed)
    (hresult : after.resultArtifactId = some artifact.id)
    (hnew : artifact.id ∉ w.made.map Prod.snd)
    (hartifacts : w'.artifacts = w.artifacts ++ [artifact])
    (hhistory : w'.history = w.history ++ [(after.id, .completed)])
    (hmade : w'.made = w.made ++ [(after.id, artifact.id)]) : Sound w' := by
  have hget : ∀ k, w'.jobs.get k = if k = after.id then some after else w.jobs.get k := hjobs.get
  have hothers : ∀ other, other ≠ after.id → w'.historyOf other = w.historyOf other := by
    intro other hother
    rw [historyOf_entry hhistory, if_neg (Ne.symm hother)]
  have hids : w'.artifacts.map GeneratedArtifact.id =
      w.artifacts.map GeneratedArtifact.id ++ [artifact.id] := by
    rw [hartifacts, List.map_append, List.map_singleton]
  have hpath : w.historyOf after.id ∈ JobStatus.running.paths :=
    hrunning ▸ hw.path after.id before hbefore
  constructor
  · intro other hnone
    rw [hget] at hnone
    split_ifs at hnone with hother
    rw [hothers other hother]
    exact hw.unknown other hnone
  · intro other job hjob
    rw [hget] at hjob
    split_ifs at hjob with hother
    · cases hjob
      rw [hother, historyOf_entry hhistory, if_pos rfl, hcompleted]
      exact JobStatus.paths_next hpath (by simp [JobStatus.next])
    · rw [hothers other hother]
      exact hw.path other job hjob
  · intro other job artifactId hjob hartifact
    rw [hget] at hjob
    rw [hmade, hids]
    split_ifs at hjob with hother
    · cases hjob
      obtain rfl : artifact.id = artifactId := Option.some.inj (hresult.symm.trans hartifact)
      refine ⟨hcompleted, ?_, ?_⟩
      · rw [hother]
        exact List.mem_append_right _ List.mem_cons_self
      · exact List.mem_append_right _ List.mem_cons_self
    · obtain ⟨hstatus, hmem, hvisible⟩ := hw.result other job artifactId hjob hartifact
      exact ⟨hstatus, List.mem_append_left _ hmem, List.mem_append_left _ hvisible⟩
  · intro other job hjob hstatus
    rw [hget] at hjob
    split_ifs at hjob with hother
    · cases hjob
      rw [hresult]
      exact Option.some_ne_none _
    · exact hw.completed other job hjob hstatus
  · intro other artifactId hmem hvisible
    rw [hmade] at hmem
    rw [hids] at hvisible
    rcases List.mem_append.mp hmem with hmem | hmem
    · -- an artifact made before is not the new one
      have hne : artifactId ≠ artifact.id := by
        rintro rfl
        exact hnew (List.mem_map.mpr ⟨_, hmem, rfl⟩)
      have hold : artifactId ∈ w.artifacts.map GeneratedArtifact.id := by
        rcases List.mem_append.mp hvisible with hold | hlast
        · exact hold
        · exact absurd (List.mem_singleton.mp hlast) hne
      obtain ⟨job, hjob, hartifact⟩ := hw.visible other artifactId hmem hold
      refine ⟨job, ?_, hartifact⟩
      rw [hget, if_neg, hjob]
      rintro rfl
      have hsame : before = job := Option.some.inj (hbefore.symm.trans hjob)
      have hnone := hw.result_eq_none hbefore (by rw [hrunning]; decide)
      rw [hsame, hartifact] at hnone
      cases hnone
    · obtain ⟨rfl, rfl⟩ := Prod.mk.inj (List.mem_singleton.mp hmem)
      exact ⟨after, hjobs.1, hresult⟩
  · intro artifactId hvisible
    rw [hids] at hvisible
    rw [hmade, List.map_append]
    rcases List.mem_append.mp hvisible with hold | hlast
    · exact List.mem_append_left _ (hw.origin artifactId hold)
    · rw [List.mem_singleton.mp hlast]
      exact List.mem_append_right _ List.mem_cons_self

theorem sound_recovered {now : ℕ} (hjobs : w'.jobs = recoverInterrupted w.jobs now)
    (hartifacts : w'.artifacts = w.artifacts)
    (hhistory : w'.history = w.history ++ w.unfinished.map fun jobId => (jobId, .failed))
    (hmade : w'.made = w.made) : Sound w' := by
  have hget : ∀ k, w'.jobs.get k = (w.jobs.get k).map (interrupted now) := by
    intro k
    rw [hjobs]
    exact Table.get_alter (interrupted_key now) k
  have hresult : ∀ job, (interrupted now job).resultArtifactId = job.resultArtifactId := by
    intro job
    unfold interrupted
    split_ifs <;> rfl
  constructor
  · intro jobId hnone
    rw [hget, Option.map_eq_none_iff] at hnone
    rw [historyOf_unfinished hhistory, hw.unknown jobId hnone, hnone]
    rfl
  · intro jobId job' hjob
    rw [hget] at hjob
    obtain ⟨job, hold, rfl⟩ := Option.map_eq_some_iff.mp hjob
    rw [historyOf_unfinished hhistory, hold]
    have hpath := hw.path jobId job hold
    unfold interrupted
    simp only [Option.any_some]
    split_ifs with hstatus hopen hopen
    · refine JobStatus.paths_next hpath ?_
      rcases List.mem_pair.mp hstatus with h | h <;> simp [h, JobStatus.next]
    · exact absurd (decide_eq_true hstatus) hopen
    · exact absurd (of_decide_eq_true hopen) hstatus
    · rwa [List.append_nil]
  · intro jobId job' artifactId hjob hartifact
    rw [hget] at hjob
    obtain ⟨job, hold, rfl⟩ := Option.map_eq_some_iff.mp hjob
    rw [hresult] at hartifact
    obtain ⟨hcompleted, hmem, hvisible⟩ := hw.result jobId job artifactId hold hartifact
    rw [hmade, hartifacts]
    refine ⟨?_, hmem, hvisible⟩
    rw [interrupted, if_neg, hcompleted]
    simp [hcompleted]
  · intro jobId job' hjob hcompleted
    rw [hget] at hjob
    obtain ⟨job, hold, rfl⟩ := Option.map_eq_some_iff.mp hjob
    rw [hresult]
    refine hw.completed jobId job hold ?_
    unfold interrupted at hcompleted
    split_ifs at hcompleted
    exact hcompleted
  · intro jobId artifactId hmem hvisible
    rw [hmade] at hmem
    rw [hartifacts] at hvisible
    obtain ⟨job, hjob, hartifact⟩ := hw.visible jobId artifactId hmem hvisible
    exact ⟨interrupted now job, by rw [hget, hjob, Option.map_some], (hresult job).trans hartifact⟩
  · rw [hartifacts, hmade]
    exact hw.origin

end Effects

theorem next_sound {e : Event} (hw : Sound w) (h : next cfg w e = some w') : Sound w' := by
  cases next_effect h with
  | quiet hjobs hartifacts hhistory hmade => exact sound_quiet hw hjobs hartifacts hhistory hmade
  | dropped jobId artifactId hnew hjobs hartifacts hhistory hmade =>
    exact sound_dropped hw hnew hjobs hartifacts hhistory hmade
  | created record hjobs hstatus hresult hartifacts hhistory hmade =>
    have hnone : w.jobs.get record.id = none := Table.get_none_of_insert hjobs
    apply sound_written hw (.of_insert hjobs) _ _ hresult _ hartifacts (hstatus ▸ hhistory) hmade
    · intro before hbefore
      rw [hnone] at hbefore
      cases hbefore
    · rw [hstatus]
      nofun
    · rw [hw.unknown record.id hnone, hstatus]
      exact List.mem_cons_self
  | moved before after hbefore hjobs hnext hopen hresult hartifacts hhistory hmade =>
    have hnone : before.resultArtifactId = none := by
      apply hw.result_eq_none hbefore
      intro hcompleted
      rw [hcompleted] at hnext
      cases hnext
    apply sound_written hw hjobs _ hopen (hresult.trans hnone) _ hartifacts hhistory hmade
    · intro job hjob
      obtain rfl : before = job := Option.some.inj (hbefore.symm.trans hjob)
      exact hnone
    · exact JobStatus.paths_next (hw.path after.id before hbefore) hnext
  | kept before after artifact hbefore hrunning hjobs hcompleted hresult hnew hartifacts hhistory
      hmade =>
    exact sound_kept hw hbefore hrunning hjobs hcompleted hresult hnew hartifacts hhistory hmade
  | recovered now hjobs hartifacts hhistory hmade =>
    exact sound_recovered hw hjobs hartifacts hhistory hmade

/-- The task that a worker waits for has ended with an exception. -/
def Worker.raised : Worker → Bool
  | awaiting _ .raised _ => true
  | _ => false

@[simp] theorem Worker.requestCancel_alive (jobId : ℕ) (worker : Worker) :
    (worker.requestCancel jobId).alive = worker.alive := by
  cases worker <;> rfl

@[simp] theorem Worker.requestCancel_raised (jobId : ℕ) (worker : Worker) :
    (worker.requestCancel jobId).raised = worker.raised := by
  rcases worker with _ | ⟨_, execution, _⟩ | _
  · rfl
  · cases execution <;> rfl
  · rfl

theorem Worker.stop_raised (worker : Worker) (hworker : worker.raised = false) :
    worker.stop.raised = false := by
  rcases worker with _ | ⟨_, execution, _⟩ | _
  · rfl
  · cases execution <;> first | rfl | exact hworker
  · rfl

/-- No worker has ended, unless it was told to, and no task is left with an exception. -/
structure Staffed (cfg : Config) (w : World) : Prop where
  caught : ∀ worker ∈ w.workers, worker.raised = false
  live : w.workers = [] ∨ w.stopping = true ∨
    w.workers.length = cfg.concurrency ∧ ∀ worker ∈ w.workers, worker.alive = true

theorem Staffed.of_nil (hworkers : w.workers = []) : Staffed cfg w where
  caught := by simp [hworkers]
  live := .inl hworkers

/-- One worker goes on, and lives unless the runner is about to stop. -/
theorem Staffed.setWorker (hw : Staffed cfg w) {i : ℕ} {worker : Worker}
    (hworkers : w'.workers = w.workers.set i worker) (hstopping : w'.stopping = w.stopping)
    (hcaught : worker.raised = false) (halive : w.stopping = true ∨ worker.alive = true) :
    Staffed cfg w' := by
  constructor
  · intro other hother
    rw [hworkers] at hother
    rcases List.mem_or_eq_of_mem_set hother with hother | rfl
    · exact hw.caught other hother
    · exact hcaught
  · rw [hworkers, hstopping, List.length_set]
    rcases hw.live with hempty | hstop | ⟨hlength, hlive⟩
    · left
      rw [hempty, List.set_nil]
    · exact .inr (.inl hstop)
    · rcases halive with hstop | halive
      · exact .inr (.inl hstop)
      · refine .inr (.inr ⟨hlength, fun other hother => ?_⟩)
        rcases List.mem_or_eq_of_mem_set hother with hother | rfl
        · exact hlive other hother
        · exact halive

theorem Staffed.unchanged (hw : Staffed cfg w) (hworkers : w'.workers = w.workers)
    (hstopping : w'.stopping = w.stopping) : Staffed cfg w' := by
  constructor
  · rw [hworkers]
    exact hw.caught
  · rw [hworkers, hstopping]
    exact hw.live

theorem cancel_staffed {jobId now : ℕ} (hw : Staffed cfg w) (h : w.cancel jobId now = some w') :
    Staffed cfg w' := by
  unfold World.cancel at h
  split at h
  · cases h
  · cases h
    constructor
    · intro worker hworker
      obtain ⟨old, hold, rfl⟩ := List.mem_map.mp hworker
      rw [Worker.requestCancel_raised]
      exact hw.caught old hold
    · rcases hw.live with hempty | hstop | ⟨hlength, hlive⟩
      · exact .inl (List.map_eq_nil_iff.mpr hempty)
      · exact .inr (.inl hstop)
      · refine .inr (.inr ⟨(List.length_map _).trans hlength, fun worker hworker => ?_⟩)
        obtain ⟨old, hold, rfl⟩ := List.mem_map.mp hworker
        rw [Worker.requestCancel_alive]
        exact hlive old hold

theorem resume_staffed {i : ℕ} (hw : Staffed cfg w) (h : w.resume i = some w') :
    Staffed cfg w' := by
  unfold World.resume at h
  split at h
  · next hworker =>
    split at h
    · cases h
      exact hw.setWorker rfl rfl rfl (.inr rfl)
    · cases h
      refine hw.setWorker rfl rfl ?_ ?_
      · split_ifs <;> rfl
      · by_cases hstop : w.stopping = true
        · exact .inl hstop
        · rw [if_neg hstop]
          exact .inr rfl
    · exact absurd (hw.caught _ (List.mem_of_getElem? hworker)) (by simp [Worker.raised])
    · cases h
  · cases h

/-- A step of which nothing escapes leaves the workers where they were. -/
theorem next_staffed {e : Event} (hquiet : e.escapes = false) (hw : Staffed cfg w)
    (h : next cfg w e = some w') : Staffed cfg w' := by
  cases e with
  | start now =>
    simp only [next, World.start] at h
    split_ifs at h
    cases h
    constructor
    · intro worker hworker
      rw [List.eq_of_mem_replicate hworker]
      rfl
    · refine .inr (.inr ⟨List.length_replicate, fun worker hworker => ?_⟩)
      rw [List.eq_of_mem_replicate hworker]
      rfl
  | submit jobId request targetPackageId now =>
    simp only [next, World.submit] at h
    split_ifs at h
    split at h
    · cases h
    · split at h
      · cases h
      · cases h
        exact hw.unchanged rfl rfl
  | cancel jobId now => exact cancel_staffed hw h
  | take i =>
    simp only [next, World.take] at h
    split at h
    · cases h
      exact hw.setWorker rfl rfl rfl (.inr rfl)
    · cases h
  | setUp i now raises =>
    obtain rfl : raises = false := hquiet
    simp only [next, World.setUp, Bool.false_eq_true, if_false] at h
    split at h
    · split_ifs at h
      · cases h
        exact hw.setWorker rfl rfl rfl (.inr rfl)
      · split at h <;> cases h <;> exact hw.setWorker rfl rfl rfl (.inr rfl)
    · cases h
  | load i error =>
    simp only [next, World.load] at h
    split at h
    · split at h
      · cases h
        exact hw.setWorker rfl rfl rfl (.inr rfl)
      · cases h
        exact hw.setWorker rfl rfl rfl (.inr rfl)
      · split_ifs at h <;> cases h <;> exact hw.setWorker rfl rfl rfl (.inr rfl)
    · cases h
  | generate i now outcome =>
    simp only [next, World.generate] at h
    split at h
    · split at h
      · split_ifs at h
        cases h
        exact hw.setWorker rfl rfl rfl (.inr rfl)
      · cases h
        exact hw.setWorker rfl rfl rfl (.inr rfl)
      · split_ifs at h
        split at h <;> cases h <;> exact hw.setWorker rfl rfl rfl (.inr rfl)
    · cases h
  | handle i now raises =>
    obtain rfl : raises = false := hquiet
    simp only [next, World.handle, Bool.false_eq_true, if_false] at h
    split at h
    · split at h <;> cases h <;> exact hw.setWorker rfl rfl rfl (.inr rfl)
    · cases h
  | resume i => exact resume_staffed hw h
  | abandon i =>
    simp only [next, World.abandon] at h
    split at h
    · split_ifs at h with hstop
      cases h
      exact hw.setWorker rfl rfl rfl (.inl hstop.1)
    · cases h
  | stop =>
    simp only [next, World.stop] at h
    split_ifs at h
    cases h
    constructor
    · intro worker hworker
      obtain ⟨old, hold, rfl⟩ := List.mem_map.mp hworker
      exact old.stop_raised (hw.caught old hold)
    · exact .inr (.inl rfl)
  | stopped =>
    simp only [next, World.stopped] at h
    split_ifs at h
    cases h
    exact .of_nil rfl
  | crash =>
    cases h
    exact .of_nil rfl

theorem Staffed.liveWorkers (hw : Staffed cfg w) (hstarted : w.started = true)
    (hrunning : w.stopping = false) : w.liveWorkers = cfg.concurrency := by
  rcases hw.live with hempty | hstop | ⟨hlength, hlive⟩
  · simp [World.started, hempty] at hstarted
  · rw [hrunning] at hstop
    cases hstop
  · rw [World.liveWorkers, List.countP_eq_length.mpr hlive, hlength]

/-- In every run each job goes one of the ways to its status, and the artifacts that are stored are
those of the completed jobs. As long as nothing is raised where the task of a job catches nothing, a
runner that is started and not told to stop has all its workers. -/
theorem stored_and_staffed (cfg : Config) (es : List Event) (w : World) :
    (Run (fun w e w' => next cfg w e = some w') .initial es w →
      (∀ jobId, w.jobs.get jobId = none → w.historyOf jobId = []) ∧
      (∀ jobId job, w.jobs.get jobId = some job → w.historyOf jobId ∈ job.status.paths) ∧
      (∀ artifactId ∈ w.artifacts.map GeneratedArtifact.id, ∃ jobId, (jobId, artifactId) ∈ w.made) ∧
      (∀ jobId artifactId, (jobId, artifactId) ∈ w.made →
        (artifactId ∈ w.artifacts.map GeneratedArtifact.id ↔
          ∃ job, w.jobs.get jobId = some job ∧ job.status = .completed ∧
            job.resultArtifactId = some artifactId)) ∧
      (∀ jobId job, w.jobs.get jobId = some job → .cancelled ∈ w.historyOf jobId →
        job.status = .cancelled)) ∧
    (Run (Under (fun _ e => e.escapes = false) fun w e w' => next cfg w e = some w')
        .initial es w →
      w.started = true → w.stopping = false → w.liveWorkers = cfg.concurrency) := by
  constructor
  · intro hrun
    have hsound : Sound w := hrun.invariant (fun _ _ _ hw h => next_sound hw h) initial_sound
    refine ⟨hsound.unknown, hsound.path, ?_, ?_, ?_⟩
    · intro artifactId hvisible
      obtain ⟨⟨jobId, _⟩, hmem, rfl⟩ := List.mem_map.mp (hsound.origin artifactId hvisible)
      exact ⟨jobId, hmem⟩
    · intro jobId artifactId hmade
      constructor
      · intro hvisible
        obtain ⟨job, hjob, hresult⟩ := hsound.visible jobId artifactId hmade hvisible
        exact ⟨job, hjob, (hsound.result jobId job artifactId hjob hresult).1, hresult⟩
      · rintro ⟨job, hjob, -, hresult⟩
        exact (hsound.result jobId job artifactId hjob hresult).2.2
    · intro jobId job hjob hcancelled
      exact JobStatus.eq_of_mem_path (hsound.path jobId job hjob) hcancelled
  · intro hrun hstarted hrunning
    have hstaffed : Staffed cfg w :=
      hrun.invariant (fun _ _ _ hw h => next_staffed h.1 hw h.2) (.of_nil rfl)
    exact hstaffed.liveWorkers hstarted hrunning

/-- Two workers, every package readable, and a workflow for every kind of artifacts. -/
def twoWorkers : Config where
  concurrency := 2
  concurrency_pos := by decide
  readable _ := true
  registry _ := some ⟨none, none⟩

def minutesRequest : JobRequest := ⟨5, "minutes", none, .null⟩

def quietEvents : List Event :=
  [.start 0, .submit 1 minutesRequest none 1, .submit 2 minutesRequest none 1, .take 0, .take 1,
    .setUp 0 2 false, .load 0 none, .setUp 1 2 false, .load 1 none, .cancel 2 3,
    .generate 0 4 (.produces 70 none), .generate 1 4 .cancelled, .resume 0, .resume 1]

theorem quietEvents_end :
    (follow (guarded (fun _ e => e.escapes = false) (next twoWorkers)) quietEvents .initial).any
      (fun w => w.historyOf 1 = [.queued, .running, .completed] ∧
        w.historyOf 2 = [.queued, .running, .cancelled] ∧
        w.artifacts.map GeneratedArtifact.id = [70] ∧ (w.jobs.get 2).isSome = true ∧
        w.started = true ∧ w.stopping = false) = true := by
  decide +kernel

theorem stored_and_staffed_quietEvents :
    ∃ w, Run (Under (fun _ e => e.escapes = false) fun w e w' => next twoWorkers w e = some w')
        .initial quietEvents w ∧
      w.historyOf 1 = [.queued, .running, .completed] ∧
      w.historyOf 2 = [.queued, .running, .cancelled] ∧
      w.artifacts.map GeneratedArtifact.id = [70] ∧
      (∃ job, w.jobs.get 2 = some job ∧ job.status = .cancelled) ∧
      w.liveWorkers = 2 := by
  obtain ⟨w, hw, hend⟩ := (Option.any_eq_true _ _).mp quietEvents_end
  obtain ⟨hfirst, hsecond, hartifacts, hsome, hstarted, hstopping⟩ := of_decide_eq_true hend
  have hrun := (run_of_follow hw).mono
    (under_of_guarded fun (_ : World) (e : Event) => e.escapes = false)
  refine ⟨w, hrun, hfirst, hsecond, hartifacts, ?_, ?_⟩
  · obtain ⟨_, _, _, _, hcancelled⟩ := (stored_and_staffed twoWorkers _ _).1 hrun.forget
    obtain ⟨job, hjob⟩ := Option.isSome_iff_exists.mp hsome
    exact ⟨job, hjob, hcancelled 2 job hjob (by simp [hsecond])⟩
  · exact (stored_and_staffed twoWorkers _ _).2 hrun hstarted hstopping

def oneWorker : Config := { twoWorkers with concurrency := 1, concurrency_pos := Nat.one_pos }

/-- The commit of the transaction that marks the job as running fails. -/
def lockedEvents : List Event :=
  [.start 0, .submit 1 minutesRequest none 1, .take 0, .setUp 0 2 true, .resume 0]

theorem lockedEvents_end :
    (follow (next oneWorker) lockedEvents .initial).any
      (fun w => w.started = true ∧ w.stopping = false ∧ w.liveWorkers = 0) = true := by
  decide +kernel

/-- The runner is started, and has no worker left for the job that is queued. -/
theorem lockedEvents_unstaffed :
    ¬ ∀ (cfg : Config) (es : List Event) (w : World),
      Run (fun w e w' => next cfg w e = some w') .initial es w →
        w.started = true → w.stopping = false → w.liveWorkers = cfg.concurrency := by
  intro hclaim
  obtain ⟨w, hw, hend⟩ := (Option.any_eq_true _ _).mp lockedEvents_end
  obtain ⟨hstarted, hstopping, hlive⟩ := of_decide_eq_true hend
  have hkept := hclaim oneWorker lockedEvents w (run_of_follow hw) hstarted hstopping
  rw [hlive] at hkept
  cases hkept

end Processing
end Matinier
