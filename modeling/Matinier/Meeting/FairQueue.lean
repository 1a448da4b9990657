import Mathlib.Data.List.Sort
import Mathlib.Data.Prod.Lex
import Matinier.Assistant.Records
import Matinier.Foundation.Machine

/-!
# The queue of the projector

Sessions wait in two heaps, with priority and without. A session that is given priority keeps its
entry in the other heap, which is stale from then on and is dropped where it is met. Workers that
find nothing sleep until a put wakes one of them.
-/

namespace Matinier
namespace Meeting

open Assistant

structure QueueEntry where
  queuedAt : Instant
  sequence : ℕ
  sessionId : SessionId
  deriving DecidableEq

def QueueEntry.Before (a b : QueueEntry) : Prop :=
  toLex (a.queuedAt, a.sequence) ≤ toLex (b.queuedAt, b.sequence)

instance : DecidableRel QueueEntry.Before := fun _ _ => inferInstanceAs (Decidable (_ ≤ _))

/-- A heap as the list of its entries in order. -/
def heappush (heap : List QueueEntry) (entry : QueueEntry) : List QueueEntry :=
  heap.orderedInsert QueueEntry.Before entry

/-- The heap of the sessions with priority and that of the others, and for each session that is
scheduled whether it has priority. -/
structure FairSessionQueue where
  heaps : Bool → List QueueEntry := fun _ => []
  scheduled : SessionId → Option Bool := fun _ => none
  sequence : ℕ := 0
  priorityStreak : ℕ := 0

namespace FairSessionQueue

variable (priorityBurst : ℕ) (q : FairSessionQueue)

/-- A put that changes nothing: the session has what it is put for, or more. -/
def Settled (sessionId : SessionId) (priority : Bool) : Prop :=
  q.scheduled sessionId = some true ∨ q.scheduled sessionId = some priority

instance (sessionId : SessionId) (priority : Bool) : Decidable (q.Settled sessionId priority) :=
  inferInstanceAs (Decidable (_ ∨ _))

def put (now : Instant) (sessionId : SessionId) (priority : Bool) : FairSessionQueue :=
  if q.Settled sessionId priority then q
  else { q with
    scheduled := Function.update q.scheduled sessionId (some priority)
    heaps := Function.update q.heaps priority
      (heappush (q.heaps priority) ⟨now, q.sequence, sessionId⟩)
    sequence := q.sequence + 1 }

def usePriority : Bool :=
  q.heaps true ≠ [] ∧ ¬ (q.heaps false ≠ [] ∧ priorityBurst ≤ q.priorityStreak)

/-- The loop of a get: stale entries are dropped; nothing comes back where it has to wait. -/
def getWithin : ℕ → FairSessionQueue → Option (SessionId × Bool) × FairSessionQueue
  | rounds, q =>
    let priority := q.usePriority priorityBurst
    match rounds, q.heaps priority with
    | rounds + 1, entry :: rest =>
      let popped := { q with heaps := Function.update q.heaps priority rest }
      if q.scheduled entry.sessionId = some priority then
        (some (entry.sessionId, priority), { popped with
          scheduled := Function.update q.scheduled entry.sessionId none
          priorityStreak := if priority = true then q.priorityStreak + 1 else 0 })
      else getWithin rounds popped
    | _, _ => (none, q)

/-- Every round drops an entry, so there are no more rounds than entries. -/
def get : Option (SessionId × Bool) × FairSessionQueue :=
  getWithin priorityBurst ((q.heaps true).length + (q.heaps false).length) q

def gets : ℕ → FairSessionQueue → List SessionId
  | 0, _ => []
  | n + 1, q =>
    match q.get priorityBurst with
    | (some (sessionId, _), q') => sessionId :: gets n q'
    | (none, _) => []

end FairSessionQueue

/-- A session as it was returned, with the put that scheduled it and what was left scheduled. -/
structure ReturnedSession where
  worker : ℕ
  sessionId : SessionId
  priority : Bool
  put : ℕ
  left : SessionId → Option Bool

/-- The queue with its workers: those that sleep, and those that were woken and do not run yet. How
often each session was scheduled, and its last put that was needed, are remembered. -/
structure QueueWorld where
  queue : FairSessionQueue := {}
  clock : Instant := 0
  waiting : List ℕ := []
  woken : List ℕ := []
  lastPut : SessionId → ℕ := fun _ => 0
  schedulings : SessionId → ℕ := fun _ => 0
  returned : List ReturnedSession := []

inductive QueueAction where
  | put (after : ℕ) (sessionId : SessionId) (priority : Bool)
  | get (worker : ℕ)
  | wake (worker : ℕ)

namespace QueueWorld

variable (priorityBurst : ℕ) (w : QueueWorld)

/-- A put, with the waking of the worker that sleeps longest. -/
def put (now : Instant) (sessionId : SessionId) (priority : Bool) : QueueWorld :=
  if w.queue.Settled sessionId priority then { w with clock := now }
  else
    let times := if w.queue.scheduled sessionId = none then 1 else 0
    { w with
      queue := w.queue.put now sessionId priority
      clock := now
      waiting := w.waiting.tail
      woken := w.woken ++ w.waiting.head?.toList
      lastPut := Function.update w.lastPut sessionId w.queue.sequence
      schedulings := Function.update w.schedulings sessionId (w.schedulings sessionId + times) }

/-- A worker runs until a session is returned to it, or it sleeps. -/
def take (worker : ℕ) : QueueWorld :=
  match w.queue.get priorityBurst with
  | (some (sessionId, priority), queue) =>
    let session := ⟨worker, sessionId, priority, w.lastPut sessionId, queue.scheduled⟩
    { w with queue, returned := w.returned ++ [session] }
  | (none, queue) => { w with queue, waiting := w.waiting ++ [worker] }

def next : QueueAction → Option QueueWorld
  | .put after sessionId priority => some (w.put (w.clock + after) sessionId priority)
  | .get worker =>
    if worker ∈ w.waiting ∨ worker ∈ w.woken then none else some (w.take priorityBurst worker)
  | .wake worker =>
    if worker ∈ w.woken then
      some (take priorityBurst { w with woken := w.woken.erase worker } worker)
    else none

end QueueWorld

abbrev QueueSteps (priorityBurst : ℕ) (w : QueueWorld) (a : QueueAction) (w' : QueueWorld) : Prop :=
  w.next priorityBurst a = some w'

/-- What is asked of the queue: a session that is scheduled is returned by a later get, once, in the
order of the puts within its class, and no more than a burst with priority passes one without; and
where workers sleep enough were woken. -/
structure QueueLaws (priorityBurst : ℕ) (w : QueueWorld) : Prop where
  obtainable : ∀ s, w.queue.scheduled s ≠ none →
    ∃ n, s ∈ FairSessionQueue.gets priorityBurst n w.queue
  woken : w.waiting ≠ [] → ∀ l : List SessionId, l.Nodup →
    (∀ s ∈ l, w.queue.scheduled s ≠ none) → l.length ≤ w.woken.length
  once : ∀ s, (w.returned.countP fun r => r.sessionId = s) +
    (if w.queue.scheduled s = none then 0 else 1) = w.schedulings s
  ordered : ∀ c, (w.returned.filter fun r => r.priority = c).Pairwise fun r r' => r.put < r'.put
  burst : ∀ s l, l <:+: w.returned → (∀ r ∈ l, r.priority = true ∧ r.left s = some false) →
    l.length ≤ priorityBurst

structure Got (priorityBurst : ℕ) (q q' : FairSessionQueue) (s : SessionId) (c : Bool) : Prop where
  was : q.scheduled s = some c
  scheduled : q'.scheduled = Function.update q.scheduled s none
  sequence : q'.sequence = q.sequence
  streak : q'.priorityStreak = if c = true then q.priorityStreak + 1 else 0
  entry : ∃ e, e.sessionId = s ∧ ∀ d, ∃ skipped,
    q.heaps d = skipped ++ (if d = c then e :: q'.heaps d else q'.heaps d) ∧
    ∀ e' ∈ skipped, q.scheduled e'.sessionId ≠ some d
  burst : c = true → q'.heaps false ≠ [] → q.priorityStreak < priorityBurst

structure Slept (q q' : FairSessionQueue) : Prop where
  scheduled : q'.scheduled = q.scheduled
  sequence : q'.sequence = q.sequence
  streak : q'.priorityStreak = q.priorityStreak
  empty : ∀ d, q'.heaps d = []
  stale : ∀ d, ∀ e ∈ q.heaps d, q.scheduled e.sessionId ≠ some d

def GetSpec (priorityBurst : ℕ) (q : FairSessionQueue) :
    Option (SessionId × Bool) × FairSessionQueue → Prop
  | (some (s, c), q') => Got priorityBurst q q' s c
  | (none, q') => Slept q q'

section Get

variable {priorityBurst : ℕ} {q q' : FairSessionQueue} {s : SessionId} {c : Bool}

theorem usePriority_eq_true : q.usePriority priorityBurst = true ↔
    q.heaps true ≠ [] ∧ ¬ (q.heaps false ≠ [] ∧ priorityBurst ≤ q.priorityStreak) :=
  decide_eq_true_iff

theorem heaps_empty (h : q.heaps (q.usePriority priorityBurst) = []) (d : Bool) :
    q.heaps d = [] := by
  cases huse : q.usePriority priorityBurst with
  | true =>
    rw [huse] at h
    exact absurd h (usePriority_eq_true.mp huse).1
  | false =>
    rw [huse] at h
    cases d with
    | false => exact h
    | true =>
      by_contra htrue
      rw [usePriority_eq_true.mpr ⟨htrue, fun hother => hother.1 h⟩] at huse
      cases huse

/-- What is found once a stale entry is dropped is found with it. -/
theorem GetSpec.dropped {u : Bool} {entry : QueueEntry} {rest : List QueueEntry}
    {r : Option (SessionId × Bool) × FairSessionQueue} (hheap : q.heaps u = entry :: rest)
    (hstale : q.scheduled entry.sessionId ≠ some u)
    (h : GetSpec priorityBurst { q with heaps := Function.update q.heaps u rest } r) :
    GetSpec priorityBurst q r := by
  obtain ⟨found, q'⟩ := r
  cases found with
  | none =>
    obtain ⟨hscheduled, hsequence, hstreak, hempty, hall⟩ := h
    refine ⟨hscheduled, hsequence, hstreak, hempty, fun d e he => ?_⟩
    by_cases hd : d = u
    · subst hd
      rcases List.mem_cons.mp (hheap ▸ he) with rfl | he
      · exact hstale
      · exact hall d e (by simpa using he)
    · exact hall d e (by simpa [hd] using he)
  | some found =>
    obtain ⟨hwas, hscheduled, hsequence, hstreak, ⟨e, he, hheaps⟩, hburst⟩ := h
    refine ⟨hwas, hscheduled, hsequence, hstreak, ⟨e, he, fun d => ?_⟩, hburst⟩
    obtain ⟨skipped, hskipped, hall⟩ := hheaps d
    by_cases hd : d = u
    · subst hd
      refine ⟨entry :: skipped, ?_, List.forall_mem_cons.mpr ⟨hstale, hall⟩⟩
      rw [hheap, List.cons_append, ← hskipped]
      exact congrArg (entry :: ·) (Function.update_self d rest q.heaps).symm
    · exact ⟨skipped, by rw [← hskipped]; exact (Function.update_of_ne hd _ _).symm, hall⟩

theorem slept_of_empty (h : ∀ d, q.heaps d = []) : Slept q q :=
  ⟨rfl, rfl, rfl, h, fun d e he => by simp [h d] at he⟩

theorem got_head {entry : QueueEntry} {rest : List QueueEntry}
    (hheap : q.heaps (q.usePriority priorityBurst) = entry :: rest)
    (hlive : q.scheduled entry.sessionId = some (q.usePriority priorityBurst)) :
    Got priorityBurst q { q with
      heaps := Function.update q.heaps (q.usePriority priorityBurst) rest
      scheduled := Function.update q.scheduled entry.sessionId none
      priorityStreak := if q.usePriority priorityBurst = true then q.priorityStreak + 1 else 0 }
      entry.sessionId (q.usePriority priorityBurst) := by
  refine ⟨hlive, rfl, rfl, rfl, ⟨entry, rfl, fun d => ⟨[], ?_, by simp⟩⟩, fun huse hother => ?_⟩
  · by_cases hd : d = q.usePriority priorityBurst
    · subst hd
      simpa using hheap
    · simp [hd]
  · have hother : q.heaps false ≠ [] := by simpa [huse] using hother
    have hburst := (usePriority_eq_true.mp huse).2
    exact not_le.mp fun hle => hburst ⟨hother, hle⟩

def FairSessionQueue.size (q : FairSessionQueue) : ℕ :=
  (q.heaps true).length + (q.heaps false).length

theorem size_dropped {u : Bool} {entry : QueueEntry} {rest : List QueueEntry}
    (hheap : q.heaps u = entry :: rest) :
    FairSessionQueue.size { q with heaps := Function.update q.heaps u rest } + 1 = q.size := by
  unfold FairSessionQueue.size
  cases u <;> simp [hheap] <;> omega

theorem getWithin_spec (rounds : ℕ) : ∀ q : FairSessionQueue, q.size ≤ rounds →
    GetSpec priorityBurst q (FairSessionQueue.getWithin priorityBurst rounds q) := by
  induction rounds with
  | zero =>
    intro q hrounds
    have hempty : ∀ d, q.heaps d = [] := by
      unfold FairSessionQueue.size at hrounds
      intro d
      cases d <;> exact List.length_eq_zero_iff.mp (by omega)
    rw [FairSessionQueue.getWithin]
    · exact slept_of_empty hempty
    · simp
  | succ rounds ih =>
    intro q hrounds
    rw [FairSessionQueue.getWithin.eq_def]
    cases hheap : q.heaps (q.usePriority priorityBurst) with
    | nil =>
      simp only [hheap]
      exact slept_of_empty (heaps_empty hheap)
    | cons entry rest =>
      have hsize := size_dropped hheap
      simp only [hheap]
      by_cases hlive : q.scheduled entry.sessionId = some (q.usePriority priorityBurst)
      · rw [if_pos hlive]
        exact got_head hheap hlive
      · rw [if_neg hlive]
        exact GetSpec.dropped hheap hlive (ih _ (by omega))

theorem get_spec (priorityBurst : ℕ) (q : FairSessionQueue) :
    GetSpec priorityBurst q (q.get priorityBurst) :=
  getWithin_spec _ q le_rfl

theorem Got.mem {d : Bool} {e : QueueEntry} (h : Got priorityBurst q q' s c)
    (he : e ∈ q'.heaps d) : e ∈ q.heaps d := by
  obtain ⟨taken, -, hheaps⟩ := h.entry
  obtain ⟨skipped, hskipped, -⟩ := hheaps d
  rw [hskipped]
  split_ifs <;> simp [he]

/-- The entry of a session that is still scheduled stays. -/
theorem Got.stays {d : Bool} {e : QueueEntry} (h : Got priorityBurst q q' s c)
    (he : e ∈ q.heaps d) (hlive : q'.scheduled e.sessionId = some d) : e ∈ q'.heaps d := by
  have hother : e.sessionId ≠ s := fun heq => by simp [h.scheduled, heq] at hlive
  obtain ⟨taken, rfl, hheaps⟩ := h.entry
  obtain ⟨skipped, hskipped, hstale⟩ := hheaps d
  rw [h.scheduled, Function.update_of_ne hother] at hlive
  rw [hskipped] at he
  rcases List.mem_append.mp he with he | he
  · exact absurd hlive (hstale e he)
  · split_ifs at he
    · exact (List.mem_cons.mp he).resolve_left fun heq => hother (heq ▸ rfl)
    · exact he

theorem Got.size_lt (h : Got priorityBurst q q' s c) : q'.size < q.size := by
  obtain ⟨taken, -, hheaps⟩ := h.entry
  have hlength : ∀ d, (q'.heaps d).length + (if d = c then 1 else 0) ≤ (q.heaps d).length := by
    intro d
    obtain ⟨skipped, hskipped, -⟩ := hheaps d
    rw [hskipped, List.length_append]
    split_ifs <;> simp
  have htrue := hlength true
  have hfalse := hlength false
  unfold FairSessionQueue.size
  cases c <;> simp at htrue hfalse <;> omega

end Get

def StaleFree (w : QueueWorld) : QueueAction → Prop
  | .put _ s false => w.queue.scheduled s = none → ∀ e ∈ w.queue.heaps false, e.sessionId ≠ s
  | .put _ _ true | .get _ | .wake _ => True

instance (w : QueueWorld) : (a : QueueAction) → Decidable (StaleFree w a)
  | .put _ s false => inferInstanceAs (Decidable (w.queue.scheduled s = none →
      ∀ e ∈ w.queue.heaps false, e.sessionId ≠ s))
  | .put _ _ true | .get _ | .wake _ => inferInstanceAs (Decidable True)

namespace QueueWorld

variable {priorityBurst : ℕ} {w w' : QueueWorld} {a : QueueAction} {s : SessionId}

structure Sound (priorityBurst : ℕ) (w : QueueWorld) : Prop where
  pushed : ∀ c, ∀ e ∈ w.queue.heaps c, e.queuedAt ≤ w.clock ∧ e.sequence < w.queue.sequence
  sorted : ∀ c, (w.queue.heaps c).Pairwise fun e e' => e.sequence < e'.sequence
  entry : ∀ s c, w.queue.scheduled s = some c → ∃ e ∈ w.queue.heaps c, e.sessionId = s
  live : ∀ c, ∀ e ∈ w.queue.heaps c, w.queue.scheduled e.sessionId = some c →
    e.sequence = w.lastPut e.sessionId
  prior : ∀ e ∈ w.queue.heaps true, w.queue.scheduled e.sessionId = some true
  earlier : ∀ r ∈ w.returned, r.put < w.queue.sequence ∧
    ∀ e ∈ w.queue.heaps r.priority, r.put < e.sequence
  once : ∀ s, (w.returned.countP fun r => r.sessionId = s) +
    (if w.queue.scheduled s = none then 0 else 1) = w.schedulings s
  ordered : ∀ c, (w.returned.filter fun r => r.priority = c).Pairwise fun r r' => r.put < r'.put
  streak : ∀ l, l <:+ w.returned → (∀ r ∈ l, r.priority = true) →
    l.length ≤ w.queue.priorityStreak
  burst : ∀ s l, l <:+: w.returned → (∀ r ∈ l, r.priority = true ∧ r.left s = some false) →
    l.length ≤ priorityBurst

theorem heappush_last {heap : List QueueEntry} {now : Instant} {sequence : ℕ} {s : SessionId}
    (h : ∀ e ∈ heap, e.queuedAt ≤ now ∧ e.sequence < sequence) :
    heappush heap ⟨now, sequence, s⟩ = heap ++ [⟨now, sequence, s⟩] := by
  induction heap with
  | nil => rfl
  | cons e rest ih =>
    obtain ⟨hnow, hsequence⟩ := h e List.mem_cons_self
    have hafter : ¬ QueueEntry.Before ⟨now, sequence, s⟩ e := by
      rw [QueueEntry.Before, Prod.Lex.toLex_le_toLex]
      rintro (hlt | ⟨-, hle⟩)
      · exact absurd hnow (not_le.mpr hlt)
      · exact absurd hsequence (not_lt.mpr hle)
    have hrest := ih fun e he => h e (List.mem_cons_of_mem _ he)
    rw [heappush] at hrest ⊢
    rw [List.orderedInsert_cons, if_neg hafter, hrest, List.cons_append]

theorem Sound.put (h : w.Sound priorityBurst) {now : Instant} {p : Bool} (hnow : w.clock ≤ now)
    (hfree : p = false → w.queue.scheduled s = none →
      ∀ e ∈ w.queue.heaps false, e.sessionId ≠ s) : Sound priorityBurst (w.put now s p) := by
  unfold QueueWorld.put
  by_cases hsettled : w.queue.Settled s p
  · rw [if_pos hsettled]
    exact ⟨fun c e he => ⟨(h.pushed c e he).1.trans hnow, (h.pushed c e he).2⟩, h.sorted, h.entry,
      h.live, h.prior, h.earlier, h.once, h.ordered, h.streak, h.burst⟩
  rw [if_neg hsettled]
  have hold : ∀ e ∈ w.queue.heaps p, e.sessionId ≠ s := by
    obtain ⟨htrue, hp⟩ := not_or.mp hsettled
    intro e he heq
    cases p with
    | true => exact htrue (heq ▸ h.prior e he)
    | false =>
      cases hs : w.queue.scheduled s with
      | none => exact hfree rfl hs e he heq
      | some c => cases c <;> contradiction
  have hpush : (w.queue.put now s p) = { w.queue with
      scheduled := Function.update w.queue.scheduled s (some p)
      heaps := Function.update w.queue.heaps p
        (w.queue.heaps p ++ [⟨now, w.queue.sequence, s⟩])
      sequence := w.queue.sequence + 1 } := by
    rw [FairSessionQueue.put, if_neg hsettled, heappush_last fun e he =>
      ⟨(h.pushed p e he).1.trans hnow, (h.pushed p e he).2⟩]
  rw [hpush]
  -- an entry is the one that was pushed, or an old one
  have hcases : ∀ c, ∀ e ∈ Function.update w.queue.heaps p
      (w.queue.heaps p ++ [⟨now, w.queue.sequence, s⟩]) c,
      e ∈ w.queue.heaps c ∨ c = p ∧ e = ⟨now, w.queue.sequence, s⟩ := by
    intro c e he
    by_cases hc : c = p
    · subst hc
      simpa using he
    · exact .inl (by simpa [hc] using he)
  refine ⟨fun c e he => ?_, fun c => ?_, fun s' c hs' => ?_, fun c e he hlive => ?_,
    fun e he => ?_, fun r hr => ⟨(h.earlier r hr).1.trans (Nat.lt_succ_self _), fun e he => ?_⟩,
    fun s' => ?_, h.ordered, h.streak, h.burst⟩
  · rcases hcases c e he with he | ⟨-, rfl⟩
    · exact ⟨(h.pushed c e he).1.trans hnow, (h.pushed c e he).2.trans (Nat.lt_succ_self _)⟩
    · exact ⟨le_rfl, Nat.lt_succ_self _⟩
  · by_cases hc : c = p
    · subst hc
      simp only [Function.update_self]
      refine List.pairwise_append.mpr ⟨h.sorted c, List.pairwise_singleton _ _,
        fun e he new hnew => ?_⟩
      rw [List.mem_singleton.mp hnew]
      exact (h.pushed c e he).2
    · simpa [hc] using h.sorted c
  · by_cases heq : s' = s
    · subst heq
      obtain rfl : p = c := by simpa using hs'
      exact ⟨⟨now, w.queue.sequence, s'⟩, by simp, rfl⟩
    · obtain ⟨e, he, hsession⟩ := h.entry s' c (by simpa [heq] using hs')
      refine ⟨e, ?_, hsession⟩
      by_cases hc : c = p
      · subst hc
        simp [he]
      · simpa [hc] using he
  · rcases hcases c e he with he | ⟨rfl, rfl⟩
    · have hother : e.sessionId ≠ s := by
        intro heq
        obtain rfl : p = c := by simpa [heq] using hlive
        exact hold e he heq
      simpa [hother] using h.live c e he (by simpa [hother] using hlive)
    · simp
  · rcases hcases true e he with he | ⟨rfl, rfl⟩
    · have hother : e.sessionId ≠ s := fun heq =>
        hsettled (.inl (heq ▸ h.prior e he))
      simpa [hother] using h.prior e he
    · simp
  · rcases hcases _ e he with he | ⟨-, rfl⟩
    · exact (h.earlier r hr).2 e he
    · exact (h.earlier r hr).1
  · have honce := h.once s'
    by_cases heq : s' = s
    · subst heq
      simp only [Function.update_self, reduceCtorEq, if_false]
      split_ifs at honce ⊢ <;> omega
    · simpa [heq] using honce

section Take

variable {q' : FairSessionQueue} {c : Bool}

/-- The put that scheduled a returned session came before those of the entries left in the heap. -/
theorem Sound.before (h : w.Sound priorityBurst) (hgot : Got priorityBurst w.queue q' s c) :
    w.lastPut s < w.queue.sequence ∧ (∀ e ∈ q'.heaps c, w.lastPut s < e.sequence) ∧
      ∀ r ∈ w.returned, r.priority = c → r.put < w.lastPut s := by
  obtain ⟨taken, rfl, hheaps⟩ := hgot.entry
  obtain ⟨skipped, hskipped, -⟩ := hheaps c
  rw [if_pos rfl] at hskipped
  have hmem : taken ∈ w.queue.heaps c := by simp [hskipped]
  have hsorted := h.sorted c
  rw [hskipped] at hsorted
  rw [← h.live c taken hmem hgot.was]
  refine ⟨(h.pushed c taken hmem).2, ?_, fun r hr hc => ?_⟩
  · exact (List.pairwise_cons.mp (List.pairwise_append.mp hsorted).2.1).1
  · subst hc
    exact (h.earlier r hr).2 taken hmem

theorem Sound.got (h : w.Sound priorityBurst) (hgot : Got priorityBurst w.queue q' s c)
    (worker : ℕ) : Sound priorityBurst { w with
      queue := q', returned := w.returned ++ [⟨worker, s, c, w.lastPut s, q'.scheduled⟩] } := by
  obtain ⟨hput, hleft, hbefore⟩ := h.before hgot
  have hscheduled : ∀ {s' d}, q'.scheduled s' = some d →
      s' ≠ s ∧ w.queue.scheduled s' = some d := by
    intro s' d hs'
    rw [hgot.scheduled] at hs'
    by_cases heq : s' = s
    · simp [heq] at hs'
    · exact ⟨heq, by simpa [heq] using hs'⟩
  have hentry : ∀ s' d, q'.scheduled s' = some d → ∃ e ∈ q'.heaps d, e.sessionId = s' := by
    intro s' d hs'
    obtain ⟨e, he, rfl⟩ := h.entry s' d (hscheduled hs').2
    exact ⟨e, hgot.stays he hs', rfl⟩
  refine ⟨fun d e he => ?_, fun d => ?_, hentry, fun d e he hlive => ?_, fun e he => ?_,
    fun r hr => ?_, fun s' => ?_, fun d => ?_, fun l hl hall => ?_, fun s' l hl hall => ?_⟩
  · rw [hgot.sequence]
    exact h.pushed d e (hgot.mem he)
  · obtain ⟨taken, -, hheaps⟩ := hgot.entry
    obtain ⟨skipped, hskipped, -⟩ := hheaps d
    have hsorted := h.sorted d
    rw [hskipped] at hsorted
    have hrest := (List.pairwise_append.mp hsorted).2.1
    split_ifs at hrest
    · exact (List.pairwise_cons.mp hrest).2
    · exact hrest
  · exact h.live d e (hgot.mem he) (hscheduled hlive).2
  · have hold := h.prior e (hgot.mem he)
    have hother : e.sessionId ≠ s := by
      intro heq
      obtain rfl : true = c := Option.some.inj (hold.symm.trans (heq ▸ hgot.was))
      have hlt := hleft e he
      rw [h.live true e (hgot.mem he) hold, heq] at hlt
      exact absurd hlt (lt_irrefl _)
    change q'.scheduled e.sessionId = some true
    rw [hgot.scheduled, Function.update_of_ne hother, hold]
  · rw [hgot.sequence]
    rcases List.mem_append.mp hr with hr | hr
    · exact ⟨(h.earlier r hr).1, fun e he => (h.earlier r hr).2 e (hgot.mem he)⟩
    · obtain rfl := List.mem_singleton.mp hr
      exact ⟨hput, hleft⟩
  · have honce := h.once s'
    simp only [List.countP_append, List.countP_singleton, decide_eq_true_eq, hgot.scheduled]
    by_cases heq : s' = s
    · subst heq
      simpa [hgot.was] using honce
    · simpa [heq, Ne.symm heq] using honce
  · rw [List.filter_append]
    refine List.pairwise_append.mpr ⟨h.ordered d,
      List.Pairwise.filter _ (List.pairwise_singleton _ _), fun r hr new hnew => ?_⟩
    obtain ⟨hnew, hd⟩ := List.mem_filter.mp hnew
    obtain rfl := List.mem_singleton.mp hnew
    obtain ⟨hr, hrd⟩ := List.mem_filter.mp hr
    exact hbefore r hr ((of_decide_eq_true hrd).trans (of_decide_eq_true hd).symm)
  · rw [hgot.streak]
    rcases List.suffix_concat_iff.mp hl with rfl | ⟨l', rfl, hl'⟩
    · exact Nat.zero_le _
    · have hc : c = true := hall ⟨worker, s, c, w.lastPut s, q'.scheduled⟩ (by simp)
      rw [if_pos hc, List.length_append, List.length_singleton]
      exact Nat.succ_le_succ (h.streak l' hl' fun r hr => hall r (by simp [hr]))
  · rcases List.infix_concat_iff.mp hl with hl | hl
    · rcases List.suffix_concat_iff.mp hl with rfl | ⟨l', rfl, hl'⟩
      · exact Nat.zero_le _
      · obtain ⟨hc, hs'⟩ := hall ⟨worker, s, c, w.lastPut s, q'.scheduled⟩ (by simp)
        obtain ⟨e, he, -⟩ := hentry s' false hs'
        have hlt := hgot.burst hc (List.ne_nil_of_mem he)
        have hstreak := h.streak l' hl' fun r hr => (hall r (by simp [hr])).1
        rw [List.length_append, List.length_singleton]
        omega
    · exact h.burst s' l hl hall

/-- Where a get finds nothing, nothing is scheduled. -/
theorem Sound.unscheduled (h : w.Sound priorityBurst) (hslept : Slept w.queue q')
    (s : SessionId) : w.queue.scheduled s = none := by
  cases hs : w.queue.scheduled s with
  | none => rfl
  | some c =>
    obtain ⟨e, he, rfl⟩ := h.entry s c hs
    exact absurd hs (hslept.stale c e he)

theorem Sound.slept (h : w.Sound priorityBurst) (hslept : Slept w.queue q') (waiting : List ℕ) :
    Sound priorityBurst { w with queue := q', waiting := waiting } := by
  have hnone := h.unscheduled hslept
  refine ⟨?_, ?_, ?_, ?_, ?_, fun r hr => ⟨hslept.sequence ▸ (h.earlier r hr).1, ?_⟩, fun s => ?_,
    h.ordered, fun l hl hall => hslept.streak ▸ h.streak l hl hall, h.burst⟩
  · simp [hslept.empty]
  · simp [hslept.empty]
  · simp [hslept.scheduled, hnone]
  · simp [hslept.empty]
  · simp [hslept.empty]
  · simp [hslept.empty]
  · simpa [hslept.scheduled] using h.once s

/-- What a worker that runs leaves: a session less, or nothing that is scheduled. -/
theorem Sound.take (h : w.Sound priorityBurst) (worker : ℕ) :
    Sound priorityBurst (w.take priorityBurst worker) ∧
      ((∀ s, (w.take priorityBurst worker).queue.scheduled s = none) ∨
        (w.take priorityBurst worker).waiting = w.waiting ∧ ∃ s, w.queue.scheduled s ≠ none ∧
          (w.take priorityBurst worker).queue.scheduled =
            Function.update w.queue.scheduled s none) := by
  have hspec := get_spec priorityBurst w.queue
  unfold QueueWorld.take
  rcases hget : w.queue.get priorityBurst with ⟨found, q'⟩
  rw [hget] at hspec
  cases found with
  | none =>
    refine ⟨h.slept hspec _, .inl fun s => ?_⟩
    change q'.scheduled s = none
    rw [hspec.scheduled]
    exact h.unscheduled hspec s
  | some found =>
    refine ⟨h.got hspec worker, .inr ⟨rfl, found.1, ?_, hspec.scheduled⟩⟩
    rw [hspec.was]
    exact Option.some_ne_none _

end Take

theorem take_woken (w : QueueWorld) (worker : ℕ) :
    (w.take priorityBurst worker).woken = w.woken := by
  unfold QueueWorld.take
  split <;> rfl

/-- Where workers sleep, as many were woken as there are sessions to be returned. -/
def Woken (w : QueueWorld) : Prop :=
  w.waiting ≠ [] → ∀ l : List SessionId, l.Nodup → (∀ s ∈ l, w.queue.scheduled s ≠ none) →
    l.length ≤ w.woken.length

theorem woken_of_unscheduled (h : ∀ s, w.queue.scheduled s = none) : w.Woken := by
  intro _ l _ hall
  cases l with
  | nil => exact Nat.zero_le _
  | cons s rest => exact absurd (h s) (hall s List.mem_cons_self)

theorem Woken.put (h : w.Woken) (now : Instant) (s : SessionId) (p : Bool) :
    (w.put now s p).Woken := by
  unfold QueueWorld.put
  by_cases hsettled : w.queue.Settled s p
  · rw [if_pos hsettled]
    exact h
  · rw [if_neg hsettled]
    intro hwaiting l hnodup hall
    have hother : ∀ s' ∈ l.erase s, w.queue.scheduled s' ≠ none := by
      intro s' hs'
      obtain ⟨hne, hmem⟩ := (hnodup.mem_erase_iff).mp hs'
      have hs := hall s' hmem
      simpa [FairSessionQueue.put, hsettled, hne] using hs
    cases hw : w.waiting with
    | nil => simp [hw] at hwaiting
    | cons first rest =>
      have hle := h (by simp [hw]) (l.erase s) (hnodup.erase s) hother
      have hlength : l.length ≤ (l.erase s).length + 1 := by
        rw [List.length_erase]
        split_ifs <;> omega
      simp only [List.head?_cons, Option.toList_some, List.length_append, List.length_singleton]
      omega

/-- A worker that is woken takes a session, or there is none. -/
theorem Woken.less (h : w.Woken) {s : SessionId} (hs : w.queue.scheduled s ≠ none)
    {scheduled : SessionId → Option Bool}
    (hscheduled : scheduled = Function.update w.queue.scheduled s none) (hwaiting : w.waiting ≠ [])
    {l : List SessionId} (hnodup : l.Nodup) (hall : ∀ s' ∈ l, scheduled s' ≠ none) :
    l.length + 1 ≤ w.woken.length := by
  have hs' : s ∉ l := fun hmem => hall s hmem (by simp [hscheduled])
  refine h hwaiting (s :: l) (List.nodup_cons.mpr ⟨hs', hnodup⟩)
    (List.forall_mem_cons.mpr ⟨hs, fun s' hmem => ?_⟩)
  have hne : s' ≠ s := fun heq => hs' (heq ▸ hmem)
  simpa [hscheduled, hne] using hall s' hmem

def Standing (priorityBurst : ℕ) (w : QueueWorld) : Prop := w.Sound priorityBurst ∧ w.Woken

theorem Standing.next (h : w.Standing priorityBurst) (hfree : StaleFree w a)
    (hnext : w.next priorityBurst a = some w') : w'.Standing priorityBurst := by
  obtain ⟨hsound, hwoken⟩ := h
  cases a with
  | put after s p =>
    cases hnext
    refine ⟨hsound.put (Nat.le_add_right _ _) fun hp => ?_, hwoken.put _ _ _⟩
    subst hp
    exact hfree
  | get worker =>
    simp only [QueueWorld.next] at hnext
    split_ifs at hnext
    cases hnext
    obtain ⟨htaken, hnone | ⟨hwaiting, s, hs, hscheduled⟩⟩ := hsound.take worker
    · exact ⟨htaken, woken_of_unscheduled hnone⟩
    · refine ⟨htaken, fun hsleep l hnodup hall => ?_⟩
      have hless := hwoken.less hs hscheduled (hwaiting ▸ hsleep) hnodup hall
      rw [take_woken]
      omega
  | wake worker =>
    simp only [QueueWorld.next] at hnext
    split_ifs at hnext with hmem
    cases hnext
    have hrest : Sound priorityBurst { w with woken := w.woken.erase worker } :=
      ⟨hsound.pushed, hsound.sorted, hsound.entry, hsound.live, hsound.prior, hsound.earlier,
        hsound.once, hsound.ordered, hsound.streak, hsound.burst⟩
    obtain ⟨htaken, hnone | ⟨hwaiting, s, hs, hscheduled⟩⟩ := hrest.take worker
    · exact ⟨htaken, woken_of_unscheduled hnone⟩
    · refine ⟨htaken, fun hsleep l hnodup hall => ?_⟩
      have hless := hwoken.less hs hscheduled (hwaiting ▸ hsleep) hnodup hall
      have hlength := List.length_erase_of_mem hmem
      rw [take_woken]
      change l.length ≤ (w.woken.erase worker).length
      omega

/-- A session that is scheduled is returned after as many gets as there are entries at most. -/
theorem Sound.obtainable (n : ℕ) : ∀ w : QueueWorld, w.Sound priorityBurst → w.queue.size ≤ n →
    w.queue.scheduled s ≠ none → s ∈ FairSessionQueue.gets priorityBurst n w.queue := by
  induction n with
  | zero =>
    intro w h hsize hs
    obtain ⟨c, hc⟩ := Option.ne_none_iff_exists'.mp hs
    obtain ⟨e, he, -⟩ := h.entry s c hc
    have hpositive : 0 < (w.queue.heaps c).length := List.length_pos_of_mem he
    unfold FairSessionQueue.size at hsize
    cases c <;> omega
  | succ n ih =>
    intro w h hsize hs
    have hspec := get_spec priorityBurst w.queue
    rw [FairSessionQueue.gets]
    rcases hget : w.queue.get priorityBurst with ⟨found, q'⟩
    rw [hget] at hspec
    cases found with
    | none => exact absurd (h.unscheduled hspec s) hs
    | some found =>
      obtain ⟨t, c⟩ := found
      by_cases hst : s = t
      · simp [hst]
      · refine List.mem_cons_of_mem _ (ih _ (h.got hspec 0) ?_ ?_)
        · have hless := hspec.size_lt
          change q'.size ≤ n
          omega
        · change q'.scheduled s ≠ none
          rwa [hspec.scheduled, Function.update_of_ne hst]

theorem Standing.laws (h : w.Standing priorityBurst) : QueueLaws priorityBurst w where
  obtainable _ hs := ⟨_, h.1.obtainable _ w le_rfl hs⟩
  woken := h.2
  once := h.1.once
  ordered := h.1.ordered
  burst := h.1.burst

theorem standing_initial : Standing priorityBurst {} := by
  refine ⟨⟨?_, ?_, ?_, ?_, ?_, ?_, ?_, ?_, ?_, ?_⟩, ?_⟩ <;> simp +contextual [Woken]

/-- In every run in which no stale entry is revived the queue is as it should be. -/
theorem laws_of_run {actions : List QueueAction}
    (h : Run (Under StaleFree (QueueSteps priorityBurst)) {} actions w) :
    QueueLaws priorityBurst w :=
  (h.invariant (fun _ _ _ hs hstep => hs.next hstep.1 hstep.2) standing_initial).laws

def promotedTrace : List QueueAction :=
  [.get 7, .put 0 0 false, .put 1 0 true, .wake 7, .put 1 1 false]

theorem promoted_laws : QueueLaws 1 ((follow (guarded StaleFree (QueueWorld.next 1))
    promotedTrace {}).get (by decide +kernel)) :=
  laws_of_run (run_under_to_get StaleFree _ promotedTrace _ (by decide +kernel))

/-- A session is returned with priority, and put again while its first entry is still there. -/
def revivedTrace : List QueueAction :=
  [.put 0 0 false, .put 1 0 true, .get 7, .put 1 1 false, .put 1 0 false, .get 8, .get 9]

def revivedWorld : QueueWorld :=
  (follow (QueueWorld.next 1) revivedTrace {}).get (by decide +kernel)

/-- The first entry counts again, so the session is returned before one that was put earlier. -/
theorem revived_not_laws : Run (QueueSteps 1) {} revivedTrace revivedWorld ∧
    (revivedWorld.returned.map fun r => (r.sessionId, r.priority, r.put)) =
      [(0, true, 1), (0, false, 3), (1, false, 2)] ∧ ¬ QueueLaws 1 revivedWorld := by
  refine ⟨run_to_get _ revivedTrace _ (by decide +kernel), by decide +kernel, fun h => ?_⟩
  have hputs : (revivedWorld.returned.filter fun r => r.priority = false).map ReturnedSession.put =
      [3, 2] := by decide +kernel
  have hordered := List.pairwise_map.mpr (h.ordered false)
  rw [hputs] at hordered
  simp at hordered

end QueueWorld

end Meeting
end Matinier
