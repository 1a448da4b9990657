import Mathlib.Data.List.Basic
import Mathlib.Data.Set.Insert

/-!
# Programs

A reader reads a state that others change between its reads, each time the
latest one, and returns. A program issues commands to a state it shares with
others: an atomic command is one transaction; a question is put to the outside
and may be answered in any way; a group of tasks is run concurrently and
joined. Every command may raise instead of answering, before or after its
transaction took effect. The rules below prove what a program keeps throughout
and what holds when it returns, whatever its environment does meanwhile, and
what its result owes to the answers it was given.
-/

namespace Matinier

inductive Reader (σ α : Type)
  | pure (a : α)
  | read (next : σ → Reader σ α)

namespace Reader

variable {σ α β : Type}

def bind : Reader σ α → (α → Reader σ β) → Reader σ β
  | .pure a, f => f a
  | .read next, f => .read fun s => (next s).bind f

instance : Monad (Reader σ) where
  pure := .pure
  bind := Reader.bind

def select (f : σ → α) : Reader σ α := .read fun s => .pure (f s)

def collect {ι : Type} (f : ι → Reader σ α) : List ι → Reader σ (List α)
  | [] => .pure []
  | i :: is => do
    let a ← f i
    let rest ← collect f is
    return a :: rest

/-- What the program returns where nobody changes the state. -/
def run (s : σ) : Reader σ α → α
  | .pure a => a
  | .read next => (next s).run s

@[simp] theorem run_bind (s : σ) (p : Reader σ β) (f : β → Reader σ α) :
    (p >>= f).run s = (f (p.run s)).run s := by
  induction p with
  | pure a => rfl
  | read next ih => exact ih s

@[simp] theorem run_select (s : σ) (f : σ → α) : (select f).run s = f s := rfl

/-- The program has a read to make. -/
def Waits : Reader σ α → Prop
  | .pure _ => False
  | .read _ => True

instance : DecidablePred (@Waits σ α)
  | .pure _ => isFalse id
  | .read _ => isTrue trivial

/-- Where others change the state between two reads by steps of a relation, what the program
returns has the property at the state of its last read. -/
def Ensures (R : σ → σ → Prop) (Q : α → σ → Prop) : Reader σ α → σ → Prop
  | .pure a, s => Q a s
  | .read next, s => ∀ t, R s t → Ensures R Q (next t) t

variable {R : σ → σ → Prop} {Q : α → σ → Prop} {P : β → σ → Prop}

/-- What others do before the next read changes nothing about a property they keep. -/
theorem Ensures.of_rely {p : Reader σ α} {s t : σ} (h : p.Ensures R Q s) (hR : R s t)
    (htrans : ∀ {a b c}, R a b → R b c → R a c) (hkeep : ∀ a, Q a s → Q a t) :
    p.Ensures R Q t := by
  cases p with
  | pure a => exact hkeep a h
  | read next => exact fun u hu => h u (htrans hR hu)

theorem ensures_select {f : σ → α} {s : σ} (h : ∀ t, R s t → Q (f t) t) :
    (select f).Ensures R Q s := h

/-- Sequencing: what the first program ends with is what the second one starts from. -/
theorem ensures_bind {p : Reader σ β} {f : β → Reader σ α} {s : σ} (h : p.Ensures R P s)
    (hf : ∀ b t, P b t → (f b).Ensures R Q t) : (p >>= f).Ensures R Q s := by
  change (p.bind f).Ensures R Q s
  induction p generalizing s with
  | pure b => exact hf b s h
  | read next ih => exact fun t ht => ih t (h t ht)

theorem ensures_true (p : Reader σ β) (s : σ) : p.Ensures R (fun _ _ => True) s := by
  induction p generalizing s with
  | pure b => trivial
  | read next ih => exact fun t _ => ih t t

end Reader

/-- What the programs of a system work on and speak about. -/
structure Interface where
  State : Type
  Fault : Type
  Note : Type
  Answer : Type
  Task : Type
  Value : Type

/-- A program with a result of type `α`. A command leaves a note when it takes effect. -/
inductive Program (S : Interface) (α : Type) : Type 1
  | pure (a : α)
  | throw (e : S.Fault)
  | atomic {β : Type} (note : β → S.Note) (tx : S.State → Except S.Fault (β × S.State))
      (next : Except S.Fault β → Program S α)
  | ask (question : S.Note) (next : Except S.Fault S.Answer → Program S α)
  | gather (tasks : List S.Task) (next : Except S.Fault (List S.Value) → Program S α)

/-- A state and the notes left so far, the latest first. -/
structure Traced (S : Interface) where
  state : S.State
  notes : List S.Note

/-- What decides one command: it takes effect, it is answered, it raises before
taking effect, or it raises although it took effect. -/
inductive Choice (S : Interface)
  | commit
  | answer (r : S.Answer)
  | raise (e : S.Fault)
  | raiseAfter (e : S.Fault)

namespace Program

variable {S : Interface} {α β : Type}

def bind : Program S α → (α → Program S β) → Program S β
  | .pure a, f => f a
  | .throw e, _ => .throw e
  | .atomic note tx next, f => .atomic note tx fun r => (next r).bind f
  | .ask question next, f => .ask question fun r => (next r).bind f
  | .gather tasks next, f => .gather tasks fun r => (next r).bind f

instance : Monad (Program S) where
  pure := .pure
  bind := Program.bind

/-- Run a handler where the program raises. -/
def catchFault : Program S α → (S.Fault → Program S α) → Program S α
  | .pure a, _ => .pure a
  | .throw e, h => h e
  | .atomic note tx next, h => .atomic note tx fun r => (next r).catchFault h
  | .ask question next, h => .ask question fun r => (next r).catchFault h
  | .gather tasks next, h => .gather tasks fun r => (next r).catchFault h

def ofExcept : Except S.Fault α → Program S α
  | .ok a => .pure a
  | .error e => .throw e

def transact (note : β → S.Note) (tx : S.State → Except S.Fault (β × S.State)) : Program S β :=
  .atomic note tx ofExcept

def inquire (question : S.Note) (read : S.Answer → Except S.Fault β) : Program S β :=
  .ask question fun r => ofExcept (r >>= read)

/-- One command: the state and notes after it and the rest of the program. -/
def advance (c : Choice S) (s : Traced S) : Program S α → Option (Traced S × Program S α)
  | .pure _ | .throw _ | .gather _ _ => none
  | .atomic note tx next =>
    match c, tx s.state with
    | .commit, .ok (b, s') => some (⟨s', note b :: s.notes⟩, next (.ok b))
    | .commit, .error e => some (s, next (.error e))
    | .raise e, _ => some (s, next (.error e))
    | .raiseAfter e, .ok (b, s') => some (⟨s', note b :: s.notes⟩, next (.error e))
    | .raiseAfter _, .error _ => none
    | .answer _, _ => none
  | .ask question next =>
    match c with
    | .answer r => some (⟨s.state, question :: s.notes⟩, next (.ok r))
    | .raise e => some (⟨s.state, question :: s.notes⟩, next (.error e))
    | .commit | .raiseAfter _ => none

/-- Whatever the commands give, what the program returns has the property, in terms of the answers
it was given besides those before. -/
def Tells (Q : α → Set S.Answer → Prop) : Program S α → Set S.Answer → Prop
  | .pure a, heard => Q a heard
  | .throw _, _ => True
  | .atomic _ _ next, heard => ∀ r, (next r).Tells Q heard
  | .ask _ next, heard =>
    (∀ e, (next (.error e)).Tells Q heard) ∧ ∀ r, (next (.ok r)).Tells Q (insert r heard)
  | .gather _ next, heard => ∀ r, (next r).Tells Q heard

section Tells

variable {p : Program S α} {P : β → Set S.Answer → Prop} {Q : α → Set S.Answer → Prop}
  {heard heard' : Set S.Answer}

theorem tells_true (p : Program S α) : p.Tells (fun _ _ => True) heard := by
  induction p generalizing heard with
  | pure | throw => trivial
  | atomic note tx next ih => exact fun r => ih r
  | ask question next ih => exact ⟨fun e => ih _, fun r => ih _⟩
  | gather tasks next ih => exact fun r => ih r

/-- A property that more answers do not spoil. -/
theorem Tells.mono (h : p.Tells Q heard) (hsub : heard ⊆ heard')
    (hQ : ∀ a {H H'}, H ⊆ H' → Q a H → Q a H') : p.Tells Q heard' := by
  induction p generalizing heard heard' with
  | pure a => exact hQ a hsub h
  | throw => trivial
  | atomic note tx next ih => exact fun r => ih r (h r) hsub
  | ask question next ih =>
    exact ⟨fun e => ih _ (h.1 e) hsub, fun r => ih _ (h.2 r) (Set.insert_subset_insert hsub)⟩
  | gather tasks next ih => exact fun r => ih r (h r) hsub

theorem Tells.bind {p : Program S β} {f : β → Program S α} (h : p.Tells P heard)
    (hf : ∀ b heard', heard ⊆ heard' → P b heard' → (f b).Tells Q heard') :
    (p >>= f).Tells Q heard := by
  change (p.bind f).Tells Q heard
  induction p generalizing heard with
  | pure b => exact hf b heard Set.Subset.rfl h
  | throw => trivial
  | atomic note tx next ih => exact fun r => ih r (h r) hf
  | ask question next ih =>
    exact ⟨fun e => ih _ (h.1 e) hf, fun r => ih _ (h.2 r) fun b heard' hsub =>
      hf b heard' ((Set.subset_insert r _).trans hsub)⟩
  | gather tasks next ih => exact fun r => ih r (h r) hf

theorem Tells.catchFault {handler : S.Fault → Program S α} (h : p.Tells Q heard)
    (hh : ∀ e heard', (handler e).Tells Q heard') : (p.catchFault handler).Tells Q heard := by
  induction p generalizing heard with
  | pure => exact h
  | throw e => exact hh e heard
  | atomic note tx next ih => exact fun r => ih r (h r)
  | ask question next ih => exact ⟨fun e => ih _ (h.1 e), fun r => ih _ (h.2 r)⟩
  | gather tasks next ih => exact fun r => ih r (h r)

theorem tells_inquire {question : S.Note} {read : S.Answer → Except S.Fault β}
    (h : ∀ r b, read r = .ok b → P b (insert r heard)) : (inquire question read).Tells P heard := by
  refine ⟨fun e => trivial, fun r => ?_⟩
  change (ofExcept (read r)).Tells P _
  cases hread : read r with
  | error => trivial
  | ok b => exact h r b hread

theorem Tells.advance {q : Program S α} {c : Choice S} {s t : Traced S} (h : p.Tells Q heard)
    (hstep : p.advance c s = some (t, q)) (hsub : heard ⊆ heard')
    (hanswer : ∀ r, c = .answer r → r ∈ heard') (hQ : ∀ a {H H'}, H ⊆ H' → Q a H → Q a H') :
    q.Tells Q heard' := by
  cases p with
  | pure | throw | gather => cases hstep
  | atomic note tx next =>
    cases htx : tx s.state <;> simp only [Program.advance, htx] at hstep <;> cases c <;>
      cases hstep <;> exact (h _).mono hsub hQ
  | ask question next =>
    cases c <;> cases hstep
    · exact (h.2 _).mono (Set.insert_subset (hanswer _ rfl) hsub) hQ
    · exact (h.1 _).mono hsub hQ

end Tells

end Program

/-- What the programs of a group may rely on and must keep: what the environment of the
main program may do, what everyone may do, and the invariant. -/
structure Discipline (S : Interface) where
  run : S.Task → Program S S.Value
  env : Traced S → Traced S → Prop
  all : Traced S → Traced S → Prop
  inv : Traced S → Prop
  env_refl : ∀ s, env s s
  env_trans : ∀ {s t u}, env s t → env t u → env s u
  env_inv : ∀ {s t}, inv s → env s t → inv t
  env_all : ∀ {s t}, env s t → all s t
  all_trans : ∀ {s t u}, all s t → all t u → all s u

namespace Discipline

variable {S : Interface} (D : Discipline S)

/-- The environment cannot falsify the assertion. -/
def Stable (P : Traced S → Prop) : Prop := ∀ {s t}, D.inv s → P s → D.env s t → P t

/-- Whatever everyone else does, a task does no more than the environment may. -/
def Quiet {α : Type} : Program S α → Traced S → Prop
  | .pure _, _ => True
  | .throw _, _ => True
  | .atomic note tx next, s =>
    ∀ t, D.all s t → D.inv t →
      (∀ e, Quiet (next (.error e)) t) ∧
      ∀ b s', tx t.state = .ok (b, s') →
        D.env t ⟨s', note b :: t.notes⟩ ∧ Quiet (next (.ok b)) ⟨s', note b :: t.notes⟩ ∧
          ∀ e, Quiet (next (.error e)) ⟨s', note b :: t.notes⟩
  | .ask question next, s =>
    ∀ t, D.all s t → D.inv t → ∀ r,
      D.env t ⟨t.state, question :: t.notes⟩ ∧ Quiet (next r) ⟨t.state, question :: t.notes⟩
  | .gather _ _, _ => False

/-- From `s` the program keeps the invariant at each command, and `Q` holds when it returns. -/
def Safe {α : Type} (Q : α → Traced S → Prop) : Program S α → Traced S → Prop
  | .pure a, s => ∀ t, D.env s t → Q a t
  | .throw _, _ => True
  | .atomic note tx next, s =>
    ∀ t, D.env s t → D.inv t →
      (∀ e, Safe Q (next (.error e)) t) ∧
      ∀ b s', tx t.state = .ok (b, s') →
        (D.inv ⟨s', note b :: t.notes⟩ ∧ D.all t ⟨s', note b :: t.notes⟩) ∧
        Safe Q (next (.ok b)) ⟨s', note b :: t.notes⟩ ∧
        ∀ e, Safe Q (next (.error e)) ⟨s', note b :: t.notes⟩
  | .ask question next, s =>
    ∀ t, D.env s t → D.inv t → ∀ r,
      (D.inv ⟨t.state, question :: t.notes⟩ ∧ D.all t ⟨t.state, question :: t.notes⟩) ∧
        Safe Q (next r) ⟨t.state, question :: t.notes⟩
  | .gather tasks next, s =>
    ∀ t, D.env s t → D.inv t →
      (∀ task ∈ tasks, D.Quiet (D.run task) t) ∧ ∀ r u, D.env t u → Safe Q (next r) u

/-- Started where `P` holds, the program is safe and ends where `Q` holds. -/
def Meets {α : Type} (P : Traced S → Prop) (p : Program S α) (Q : α → Traced S → Prop) : Prop :=
  ∀ s, D.inv s → P s → D.Safe Q p s

variable {D} {α β : Type} {p : Program S α} {P : Traced S → Prop} {Q : α → Traced S → Prop}
  {s t : Traced S}

theorem stable_true : D.Stable fun _ => True := fun _ _ _ => trivial

/-- Safety survives whatever the environment does before the next command. -/
theorem Safe.of_env (h : D.Safe Q p s) (henv : D.env s t) : D.Safe Q p t := by
  cases p with
  | pure a => exact fun u hu => h u (D.env_trans henv hu)
  | throw e => trivial
  | atomic note tx next => exact fun u hu => h u (D.env_trans henv hu)
  | ask question next => exact fun u hu => h u (D.env_trans henv hu)
  | gather tasks next => exact fun u hu => h u (D.env_trans henv hu)

theorem Safe.conseq {Q' : α → Traced S → Prop} (h : D.Safe Q p s)
    (himp : ∀ a t, Q a t → Q' a t) : D.Safe Q' p s := by
  induction p generalizing s with
  | pure a => exact fun t ht => himp a t (h t ht)
  | throw e => trivial
  | atomic note tx next ih =>
    intro t ht hinv
    obtain ⟨herr, hok⟩ := h t ht hinv
    refine ⟨fun e => ih _ (herr e), fun b s' htx => ?_⟩
    obtain ⟨hi, hs, he⟩ := hok b s' htx
    exact ⟨hi, ih _ hs, fun e => ih _ (he e)⟩
  | ask question next ih =>
    intro t ht hinv r
    obtain ⟨hi, hs⟩ := h t ht hinv r
    exact ⟨hi, ih _ hs⟩
  | gather tasks next ih =>
    intro t ht hinv
    obtain ⟨hquiet, hnext⟩ := h t ht hinv
    exact ⟨hquiet, fun r u hu => ih _ (hnext r u hu)⟩

/-- What nobody falsifies, the program included, still holds where it returns. -/
theorem Safe.keep {R : Traced S → Prop} (hR : ∀ {s t}, R s → D.all s t → R t)
    (h : D.Safe Q p s) (hs : R s) : D.Safe (fun a t => Q a t ∧ R t) p s := by
  induction p generalizing s with
  | pure a => exact fun t ht => ⟨h t ht, hR hs (D.env_all ht)⟩
  | throw e => trivial
  | atomic note tx next ih =>
    intro t ht hinv
    obtain ⟨herr, hok⟩ := h t ht hinv
    have hRt := hR hs (D.env_all ht)
    refine ⟨fun e => ih _ (herr e) hRt, fun b s' htx => ?_⟩
    obtain ⟨hi, hs', he⟩ := hok b s' htx
    exact ⟨hi, ih _ hs' (hR hRt hi.2), fun e => ih _ (he e) (hR hRt hi.2)⟩
  | ask question next ih =>
    intro t ht hinv r
    obtain ⟨hi, hs'⟩ := h t ht hinv r
    exact ⟨hi, ih _ hs' (hR (hR hs (D.env_all ht)) hi.2)⟩
  | gather tasks next ih =>
    intro t ht hinv
    obtain ⟨hquiet, hnext⟩ := h t ht hinv
    exact ⟨hquiet, fun r u hu =>
      ih _ (hnext r u hu) (hR (hR hs (D.env_all ht)) (D.env_all hu))⟩

/-- What is to be shown of a program may use the invariant where the program returns, and of
its handler where it raises. -/
theorem Safe.catchFault {h : S.Fault → Program S α} (hs : D.inv s) (hp : D.Safe Q p s)
    (hh : ∀ e t, D.inv t → D.Safe Q (h e) t) : D.Safe Q (p.catchFault h) s := by
  induction p generalizing s with
  | pure a => exact hp
  | throw e => exact hh e s hs
  | atomic note tx next ih =>
    intro t ht hinv
    obtain ⟨herr, hok⟩ := hp t ht hinv
    refine ⟨fun e => ih _ hinv (herr e), fun b s' htx => ?_⟩
    obtain ⟨hi, hs', he⟩ := hok b s' htx
    exact ⟨hi, ih _ hi.1 hs', fun e => ih _ hi.1 (he e)⟩
  | ask question next ih =>
    intro t ht hinv r
    obtain ⟨hi, hs'⟩ := hp t ht hinv r
    exact ⟨hi, ih _ hi.1 hs'⟩
  | gather tasks next ih =>
    intro t ht hinv
    obtain ⟨hquiet, hnext⟩ := hp t ht hinv
    exact ⟨hquiet, fun r u hu => ih _ (D.env_inv hinv hu) (hnext r u hu)⟩

theorem Safe.bind {f : α → Program S β} {R : β → Traced S → Prop} (hs : D.inv s)
    (h : D.Safe Q p s) (hf : ∀ a t, D.inv t → Q a t → D.Safe R (f a) t) :
    D.Safe R (p.bind f) s := by
  induction p generalizing s with
  | pure a => exact hf a s hs (h s (D.env_refl s))
  | throw e => trivial
  | atomic note tx next ih =>
    intro t ht hinv
    obtain ⟨herr, hok⟩ := h t ht hinv
    refine ⟨fun e => ih _ hinv (herr e), fun b s' htx => ?_⟩
    obtain ⟨hi, hs', he⟩ := hok b s' htx
    exact ⟨hi, ih _ hi.1 hs', fun e => ih _ hi.1 (he e)⟩
  | ask question next ih =>
    intro t ht hinv r
    obtain ⟨hi, hs'⟩ := h t ht hinv r
    exact ⟨hi, ih _ hi.1 hs'⟩
  | gather tasks next ih =>
    intro t ht hinv
    obtain ⟨hquiet, hnext⟩ := h t ht hinv
    exact ⟨hquiet, fun r u hu => ih _ (D.env_inv hinv hu) (hnext r u hu)⟩

namespace Meets

theorem bind {f : α → Program S β} {R : β → Traced S → Prop} (h : D.Meets P p Q)
    (hf : ∀ a, D.Meets (Q a) (f a) R) : D.Meets P (p >>= f) R :=
  fun s hinv hP => (h s hinv hP).bind hinv fun a t => hf a t

theorem pure {a : α} (hP : D.Stable P) (h : ∀ s, P s → Q a s) : D.Meets P (Program.pure a) Q :=
  fun _ hinv hs t ht => h t (hP hinv hs ht)

theorem throw {e : S.Fault} : D.Meets P (Program.throw e) Q := fun _ _ _ => trivial

theorem conseq {P' : Traced S → Prop} {Q' : α → Traced S → Prop} (h : D.Meets P p Q)
    (hP : ∀ s, P' s → P s) (hQ : ∀ a s, Q a s → Q' a s) : D.Meets P' p Q' :=
  fun s hinv hs => (h s hinv (hP s hs)).conseq hQ

theorem keep {R : Traced S → Prop} (hR : ∀ {s t}, R s → D.all s t → R t) (h : D.Meets P p Q) :
    D.Meets (fun s => P s ∧ R s) p fun a s => Q a s ∧ R s :=
  fun s hinv hs => (h s hinv hs.1).keep hR hs.2

/-- A handler that is safe wherever the invariant holds makes a program safe. -/
theorem catchFault {h : S.Fault → Program S α} (hp : D.Meets P p Q)
    (hh : ∀ e, D.Meets (fun _ => True) (h e) Q) : D.Meets P (p.catchFault h) Q :=
  fun s hinv hs => (hp s hinv hs).catchFault hinv fun e t ht => hh e t ht trivial

theorem ofExcept {x : Except S.Fault α} (hP : D.Stable P) (h : ∀ a s, x = .ok a → P s → Q a s) :
    D.Meets P (Program.ofExcept x) Q := by
  cases x with
  | ok a => exact pure hP fun s => h a s rfl
  | error e => exact throw

/-- One transaction: what it does to a state satisfying `P` is all there is to prove. -/
theorem transact {note : β → S.Note} {tx : S.State → Except S.Fault (β × S.State)}
    {R : β → Traced S → Prop} (hP : D.Stable P) (hR : ∀ b, D.Stable (R b))
    (h : ∀ t b s', D.inv t → P t → tx t.state = .ok (b, s') →
      (D.inv ⟨s', note b :: t.notes⟩ ∧ D.all t ⟨s', note b :: t.notes⟩) ∧
        R b ⟨s', note b :: t.notes⟩) :
    D.Meets P (Program.transact note tx) R := by
  intro s hs hPs t ht hinv
  refine ⟨fun _ => trivial, fun b s' htx => ?_⟩
  obtain ⟨hi, hb⟩ := h t b s' hinv (hP hs hPs ht) htx
  exact ⟨hi, fun u hu => hR b hi.1 hb hu, fun _ => trivial⟩

theorem inquire {question : S.Note} {read : S.Answer → Except S.Fault β}
    {R : β → Traced S → Prop} (hP : D.Stable P) (hR : ∀ b, D.Stable (R b))
    (h : ∀ t, D.inv t → P t →
      (D.inv ⟨t.state, question :: t.notes⟩ ∧ D.all t ⟨t.state, question :: t.notes⟩) ∧
        ∀ r b, read r = .ok b → R b ⟨t.state, question :: t.notes⟩) :
    D.Meets P (Program.inquire question read) R := by
  intro s hs hPs t ht hinv r
  obtain ⟨hi, hb⟩ := h t hinv (hP hs hPs ht)
  refine ⟨hi, ?_⟩
  cases r with
  | error e => trivial
  | ok a =>
    change D.Safe R (Program.ofExcept (read a)) _
    cases hread : read a with
    | error e => trivial
    | ok b => exact fun u hu => hR b hi.1 (hb a b hread) hu

end Meets

theorem Safe.advance {p q : Program S α} {c : Choice S} {s t : Traced S} (hs : D.inv s)
    (h : D.Safe Q p s)
    (hstep : p.advance c s = some (t, q)) : D.inv t ∧ D.Safe Q q t ∧ (s = t ∨ D.all s t) := by
  cases p with
  | pure a => cases hstep
  | throw e => cases hstep
  | gather tasks next => cases hstep
  | atomic note tx next =>
    obtain ⟨herr, hok⟩ := h s (D.env_refl s) hs
    cases htx : tx s.state with
    | error e =>
      simp only [Program.advance, htx] at hstep
      cases c <;> cases hstep
      · exact ⟨hs, herr e, Or.inl rfl⟩
      · exact ⟨hs, herr _, Or.inl rfl⟩
    | ok result =>
      obtain ⟨b, s'⟩ := result
      obtain ⟨⟨hinv, hall⟩, hnext, hraise⟩ := hok b s' htx
      simp only [Program.advance, htx] at hstep
      cases c <;> cases hstep
      · exact ⟨hinv, hnext, Or.inr hall⟩
      · exact ⟨hs, herr _, Or.inl rfl⟩
      · exact ⟨hinv, hraise _, Or.inr hall⟩
  | ask question next =>
    cases c <;> cases hstep
    · obtain ⟨⟨hinv, hall⟩, hnext⟩ := h s (D.env_refl s) hs (.ok _)
      exact ⟨hinv, hnext, Or.inr hall⟩
    · obtain ⟨⟨hinv, hall⟩, hnext⟩ := h s (D.env_refl s) hs (.error _)
      exact ⟨hinv, hnext, Or.inr hall⟩

end Discipline

end Matinier
