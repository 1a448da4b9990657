import Matinier.TaskSystem.Service

/-!
# What the tracker gave a call

Where the adapter of a call succeeds, its result refers to a task that the tracker gave when the
call asked for it. The reference of a reconciliation has the key that the task has, where the task
has one.
-/

namespace Matinier
namespace TaskSystem

open Assistant Program

variable {cfg : TaskToolConfig} {flight : Flight} {heard : Set TaskAnswer}

/-- The outcome is about a task that the tracker gave. -/
def Given (outcome : TaskServiceOutcome) (heard : Set TaskAnswer) : Prop :=
  .task outcome.task ∈ heard

/-- What a result of the adapter refers to. -/
def Refers (flight : Flight) (result : ToolResult) (heard : Set TaskAnswer) : Prop :=
  result.status = .succeeded →
    ∃ task actionKey, result.externalReference = some (taskReference task actionKey) ∧
      .task task ∈ heard ∧ (flight.phase = .reconcile → ∀ key ∈ task.actionKey, actionKey = key)

theorem Refers.mono {result : ToolResult} {heard' : Set TaskAnswer} (hsub : heard ⊆ heard')
    (h : Refers flight result heard) : Refers flight result heard' := by
  intro hstatus
  obtain ⟨task, actionKey, hreference, hgiven, hkey⟩ := h hstatus
  exact ⟨task, actionKey, hreference, hsub hgiven, hkey⟩

theorem askTask_tells (taskRef : String) :
    (askTask taskRef).Tells (fun task heard => .task task ∈ heard) heard := by
  refine tells_inquire fun answer task hread => ?_
  cases answer <;> cases hread
  exact Set.mem_insert _ _

theorem createTask_tells (request : ExecuteCandidate) (prepared : PreparedCandidate)
    (disposition : TaskDisposition) (related : List String) :
    (createTask request prepared disposition related).Tells Given heard := by
  refine (tells_true _).bind fun _ _ _ _ => (tells_true _).bind fun made _ _ _ => ?_
  refine (askTask_tells made.1.externalId).bind fun task _ _ htask => ?_
  refine (tells_true _).bind fun _ _ hsub _ => (tells_true _).bind fun _ _ hsub' _ => ?_
  exact hsub' (hsub htask)

theorem reuseTask_tells (request : ExecuteCandidate) (prepared : PreparedCandidate)
    (disposition : TaskDisposition) (found : ExternalTask) :
    (reuseTask request prepared disposition found).Tells Given heard := by
  refine (askTask_tells found.externalId).bind fun task _ _ htask => ?_
  exact (tells_true _).bind fun _ _ hsub _ => hsub htask

theorem executeCandidate_tells (request : ExecuteCandidate) :
    (executeCandidate cfg.toTaskConfig request).Tells Given heard := by
  refine (tells_true _).bind fun prepared _ _ _ => (tells_true _).bind fun exact _ _ _ => ?_
  split
  · exact reuseTask_tells request prepared _ _
  · trivial
  · refine (tells_true _).bind fun similar _ _ _ => ?_
    unfold createOrReuse
    split
    · trivial
    · exact reuseTask_tells request prepared _ _
    · exact createTask_tells request prepared _ _

theorem executeCreate_tells (hphase : flight.phase = .execute) :
    (executeCreate cfg flight.context).Tells (Refers flight) heard := by
  refine (tells_true _).bind fun request _ _ _ => ?_
  split_ifs
  · exact nofun
  · refine (tells_true _).bind fun expectedKey _ _ _ => ?_
    split_ifs
    · exact nofun
    · split
      · exact nofun
      · refine (tells_true _).bind fun trusted _ _ _ => Tells.catchFault ?_ fun e _ => ?_
        · refine (executeCandidate_tells _).bind fun outcome _ _ hgiven _ => ?_
          exact ⟨outcome.task, outcome.actionKey, rfl, hgiven, by rw [hphase]; nofun⟩
        · cases e with
          | needsInput => exact nofun
          | raised => trivial

theorem reconcileCreate_tells :
    (reconcileCreate cfg flight.context).Tells (Refers flight) heard := by
  refine (tells_true _).bind fun request _ _ _ => (tells_true _).bind fun result _ _ _ => ?_
  split
  · exact nofun
  · exact nofun
  · refine (askTask_tells _).bind fun task _ _ htask => ?_
    unfold foundKey
    split
    · rename_i key hkey
      exact fun _ => ⟨task, key, rfl, htask, fun _ => by simp [hkey]⟩
    · rename_i hnone
      refine (tells_true _).bind fun key _ hsub _ _ => ?_
      exact ⟨task, key, rfl, hsub htask, fun _ => by simp [hnone]⟩

theorem adapterProgram_tells : (adapterProgram cfg flight).Tells (Refers flight) heard := by
  unfold adapterProgram
  split
  · rename_i hphase
    exact executeCreate_tells hphase
  · exact reconcileCreate_tells

end TaskSystem
end Matinier
