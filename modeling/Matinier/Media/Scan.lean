import Matinier.Media.Rounds

/-!
# Scan passes of the media projector

A pass takes the first sessions by their creation, as many as the limit allows, and projects one
after another; an error ends the pass. The order of the sessions never changes, and neither
does whether a projection fails. So every pass reaches the same sessions: those listed before
the first one that fails. The others keep what is pending in them.
-/

namespace Matinier
namespace Media

open Assistant SessionMedia

/-- The order in which sessions were created. -/
def SessionRecord.Before (a b : SessionRecord) : Prop :=
  toLex (a.createdAt, a.id) ≤ toLex (b.createdAt, b.id)

instance (a b : SessionRecord) : Decidable (a.Before b) :=
  inferInstanceAs (Decidable (_ ≤ _))

def listSessionIds (cfg : ProjectorConfig) (db : MediaDb) : List SessionId :=
  (((db.rows.map SessionMedia.legacy).insertionSort SessionRecord.Before).take
    cfg.scanSessionLimit).map SessionRecord.id

def projectSession (cfg : ProjectorConfig) (id : SessionId) (db : MediaDb) :
    MediaDb × Except Fault MediaCatchUpResult :=
  match db.get id with
  | none => (db, .error (.lookup "Session not found"))
  | some m => (db.set (m.projectToCompletion cfg).1, (m.projectToCompletion cfg).2)

/-- Project one session after another, up to the first error. -/
def projectSessions (cfg : ProjectorConfig) : List SessionId → MediaDb → MediaDb
  | [], db => db
  | id :: rest, db =>
    match projectSession cfg id db with
    | (db, .error _) => db
    | (db, .ok _) => projectSessions cfg rest db

def scanPass (cfg : ProjectorConfig) (db : MediaDb) : MediaDb :=
  projectSessions cfg (listSessionIds cfg db) db

def SessionMedia.pendingFinals (m : SessionMedia) : List ProjectionItem :=
  m.readPendingItems.filter fun item => item.sourceTable ≠ "sessions"

/-- The session is there, and its projection does not fail. -/
def projects (cfg : ProjectorConfig) (db : MediaDb) (id : SessionId) : Bool :=
  (db.get id).any fun m => m.Projectable cfg

def reached (cfg : ProjectorConfig) (db : MediaDb) : List SessionId :=
  (listSessionIds cfg db).takeWhile (projects cfg db)

/-- After a number of passes nothing is pending in any session whose projection does not fail. -/
def Covered (cfg : ProjectorConfig) (db : MediaDb) (passes : ℕ) : Prop :=
  ∀ m ∈ db.rows, (∃ result, (m.projectToCompletion cfg).2 = .ok result) →
    ∃ m', ((scanPass cfg)^[passes] db).get m.legacy.id = some m' ∧ m'.pendingFinals = []

/-- What passes make of a session. -/
structure Passed (cfg : ProjectorConfig) (reached : Prop) (m m' : SessionMedia) : Prop where
  sound : m'.Sound
  legacy : m'.legacy = m.legacy
  projectable : m'.Projectable cfg ↔ m.Projectable cfg
  drained : m.Projectable cfg → reached → m'.readPendingItems = []
  kept : m.Projectable cfg → ¬ reached → m' = m

section Passes

variable {cfg : ProjectorConfig} {db db' : MediaDb} {id : SessionId} {m m' : SessionMedia}

theorem Passed.refl (hsound : m.Sound) {reached : Prop} (hnot : m.Projectable cfg → ¬ reached) :
    Passed cfg reached m m :=
  ⟨hsound, rfl, Iff.rfl, fun h hreached => absurd hreached (hnot h), fun _ _ => rfl⟩

theorem Passed.congr {p q : Prop} (h : Passed cfg p m m') (hiff : p ↔ q) : Passed cfg q m m' :=
  ⟨h.sound, h.legacy, h.projectable, fun hm hq => h.drained hm (hiff.mpr hq),
    fun hm hq => h.kept hm fun hp => hq (hiff.mp hp)⟩

theorem Passed.trans {m'' : SessionMedia} {p q : Prop} (h : Passed cfg p m m')
    (h' : Passed cfg q m' m'') : Passed cfg (p ∨ q) m m'' where
  sound := h'.sound
  legacy := h'.legacy.trans h.legacy
  projectable := h'.projectable.trans h.projectable
  drained hm hreached := by
    have hm' := h.projectable.mpr hm
    by_cases hq : q
    · exact h'.drained hm' hq
    · rw [h'.kept hm' hq]
      exact h.drained hm (hreached.resolve_right hq)
  kept hm hnot := by
    rw [not_or] at hnot
    exact (h'.kept (h.projectable.mpr hm) hnot.2).trans (h.kept hm hnot.1)

structure AllPassed (cfg : ProjectorConfig) (reached : SessionId → Prop) (db db' : MediaDb) :
    Prop where
  legacies : db'.rows.map SessionMedia.legacy = db.rows.map SessionMedia.legacy
  rows : ∀ id m, db.get id = some m → ∃ m', db'.get id = some m' ∧ Passed cfg (reached id) m m'
  others : ∀ id, db.get id = none → db'.get id = none

theorem AllPassed.projects {reached : SessionId → Prop} (h : AllPassed cfg reached db db') :
    projects cfg db' = projects cfg db := by
  funext id
  unfold Media.projects
  cases hdb : db.get id with
  | none => rw [h.others id hdb]
  | some m =>
    obtain ⟨m', hm', hpassed⟩ := h.rows id m hdb
    simp only [hm', Option.any_some, hpassed.projectable]

theorem AllPassed.listed {reached : SessionId → Prop} (h : AllPassed cfg reached db db') :
    listSessionIds cfg db' = listSessionIds cfg db := by
  rw [listSessionIds, listSessionIds, h.legacies]

theorem AllPassed.sound {reached : SessionId → Prop} (h : AllPassed cfg reached db db') :
    ∀ m ∈ db'.rows, m.Sound := by
  intro m' hm'
  have hget' := Table.get_of_mem hm'
  cases hget : db.get (Row.key m') with
  | none =>
    rw [h.others _ hget] at hget'
    cases hget'
  | some m =>
    obtain ⟨row, hrow, hpassed⟩ := h.rows _ m hget
    obtain rfl : row = m' := Option.some.inj (hrow.symm.trans hget')
    exact hpassed.sound

theorem AllPassed.refl {reached : SessionId → Prop} (hsound : ∀ m ∈ db.rows, m.Sound)
    (hnone : ∀ id, ¬ reached id) : AllPassed cfg reached db db :=
  ⟨rfl, fun id m hm => ⟨m, hm, .refl (hsound m (Table.mem_of_get hm)) fun _ => hnone id⟩,
    fun _ h => h⟩

theorem AllPassed.congr {p q : SessionId → Prop} (h : AllPassed cfg p db db')
    (hiff : ∀ id, p id ↔ q id) : AllPassed cfg q db db' := by
  refine ⟨h.legacies, fun id m hm => ?_, h.others⟩
  obtain ⟨m', hm', hpassed⟩ := h.rows id m hm
  exact ⟨m', hm', hpassed.congr (hiff id)⟩

theorem AllPassed.trans {db'' : MediaDb} {p q : SessionId → Prop} (h : AllPassed cfg p db db')
    (h' : AllPassed cfg q db' db'') : AllPassed cfg (fun id => p id ∨ q id) db db'' := by
  refine ⟨h'.legacies.trans h.legacies, fun id m hm => ?_, fun id hnone => ?_⟩
  · obtain ⟨m', hm', hpassed⟩ := h.rows id m hm
    obtain ⟨m'', hm'', hpassed'⟩ := h'.rows id m' hm'
    exact ⟨m'', hm'', hpassed.trans hpassed'⟩
  · exact h'.others id (h.others id hnone)

theorem projectSession_spec (cfg : ProjectorConfig) (hsound : ∀ m ∈ db.rows, m.Sound)
    (hm : db.get id = some m) :
    AllPassed cfg (fun other => other = id ∧ m.Projectable cfg) db
      (projectSession cfg id db).1 := by
  have hcompleted := projectToCompletion_spec cfg (hsound m (Table.mem_of_get hm))
  have hid : Row.key m = id := Table.key_of_get hm
  have hkey : Row.key (m.projectToCompletion cfg).1 = id :=
    (congrArg SessionRecord.id hcompleted.legacy).trans hid
  have hold : db.get (Row.key (m.projectToCompletion cfg).1) = some m := hkey ▸ hm
  have hfit : Table.Replaces (m.projectToCompletion cfg).1 m := ⟨hid.trans hkey.symm, Or.inl rfl⟩
  have hwrites := Table.Writes.of_set hold hfit
  have hresult : (projectSession cfg id db).1 = db.set (m.projectToCompletion cfg).1 := by
    simp only [projectSession, hm]
  rw [hresult]
  refine ⟨Table.map_set _ hold hcompleted.legacy, fun other row hrow => ?_, fun other hnone => ?_⟩
  · by_cases hother : other = id
    · obtain rfl : m = row := Option.some.inj (hm.symm.trans (hother ▸ hrow))
      refine ⟨_, by rw [hwrites.get, if_pos (hother.trans hkey.symm)], hcompleted.sound,
        hcompleted.legacy, hcompleted.projectable, fun h _ => hcompleted.drained h,
        fun h hnot => absurd ⟨hother, h⟩ hnot⟩
    · refine ⟨row, by rw [hwrites.get, if_neg (hkey ▸ hother), hrow],
        .refl (hsound row (Table.mem_of_get hrow)) fun _ h => hother h.1⟩
  · have hother : other ≠ id := fun heq => by
      rw [heq, hm] at hnone
      cases hnone
    rw [hwrites.get, if_neg (hkey ▸ hother), hnone]

/-- A loop over sessions reaches those before the first one that fails. -/
theorem projectSessions_spec (cfg : ProjectorConfig) (ids : List SessionId)
    (hsound : ∀ m ∈ db.rows, m.Sound) :
    AllPassed cfg (fun id => id ∈ ids.takeWhile (projects cfg db)) db
      (projectSessions cfg ids db) := by
  induction ids generalizing db with
  | nil => exact .refl hsound fun id => List.not_mem_nil
  | cons id rest ih =>
    cases hm : db.get id with
    | none =>
      have hstops : projects cfg db id = false := by simp only [projects, hm, Option.any_none]
      have hresult : projectSessions cfg (id :: rest) db = db := by
        simp only [projectSessions, projectSession, hm]
      rw [hresult, List.takeWhile_cons_of_neg (by simp [hstops])]
      exact .refl hsound fun id => List.not_mem_nil
    | some m =>
      have hfirst := projectSession_spec cfg hsound hm
      have hreturns := (projectToCompletion_spec cfg
        (hsound m (Table.mem_of_get hm))).returns
      by_cases hprojectable : m.Projectable cfg
      · obtain ⟨result, hok⟩ := hreturns.mpr hprojectable
        have hgoes : projects cfg db id = true := by
          simp only [projects, hm, Option.any_some, hprojectable, decide_true]
        have hresult : projectSessions cfg (id :: rest) db =
            projectSessions cfg rest (projectSession cfg id db).1 := by
          simp only [projectSessions, projectSession, hm, hok]
        have hrest := ih hfirst.sound
        rw [hfirst.projects] at hrest
        rw [hresult, List.takeWhile_cons_of_pos hgoes]
        refine (hfirst.trans hrest).congr fun other => ?_
        simp only [hprojectable, and_true, List.mem_cons]
      · obtain ⟨fault, herror⟩ : ∃ fault, (m.projectToCompletion cfg).2 = .error fault := by
          cases houtcome : (m.projectToCompletion cfg).2 with
          | error fault => exact ⟨fault, rfl⟩
          | ok result => exact absurd (hreturns.mp ⟨result, houtcome⟩) hprojectable
        have hstops : projects cfg db id = false := by
          simp only [projects, hm, Option.any_some, hprojectable, decide_false]
        have hresult : projectSessions cfg (id :: rest) db = (projectSession cfg id db).1 := by
          simp only [projectSessions, projectSession, hm, herror]
        rw [hresult, List.takeWhile_cons_of_neg (by simp [hstops])]
        refine hfirst.congr fun other => ?_
        simp only [hprojectable, and_false, List.not_mem_nil]

theorem passes_spec (hsound : ∀ m ∈ db.rows, m.Sound) (n : ℕ) :
    AllPassed cfg (fun id => 0 < n ∧ id ∈ reached cfg db) db ((scanPass cfg)^[n] db) := by
  induction n with
  | zero => exact .refl hsound fun id h => absurd h.1 (lt_irrefl 0)
  | succ n ih =>
    have hpass := projectSessions_spec cfg (listSessionIds cfg db) ih.sound
    rw [ih.projects] at hpass
    rw [Function.iterate_succ_apply', scanPass, ih.listed]
    refine (ih.trans hpass).congr fun id => ?_
    simp only [reached, Nat.succ_pos, true_and, or_iff_right_iff_imp, and_imp, imp_self,
      implies_true]

/-- Passes cover what the first one covers, so all that can be projected has to be reached by it
unless nothing is pending there. -/
theorem covered_iff (hsound : ∀ m ∈ db.rows, m.Sound) :
    (∃ passes, Covered cfg db passes) ↔
      ∀ m ∈ db.rows, m.Projectable cfg →
        m.pendingFinals = [] ∨ m.legacy.id ∈ reached cfg db := by
  have hreturns : ∀ m ∈ db.rows,
      ((∃ result, (m.projectToCompletion cfg).2 = .ok result) ↔ m.Projectable cfg) :=
    fun m hm => (projectToCompletion_spec cfg (hsound m hm)).returns
  constructor
  · rintro ⟨passes, hcovered⟩ m hm hprojectable
    by_contra hnot
    rw [not_or] at hnot
    obtain ⟨m', hm', hempty⟩ := hcovered m hm ((hreturns m hm).mpr hprojectable)
    obtain ⟨row, hrow, hpassed⟩ := (passes_spec hsound passes).rows _ m (Table.get_of_mem hm)
    obtain rfl : row = m' := Option.some.inj (hrow.symm.trans hm')
    rw [hpassed.kept hprojectable fun h => hnot.2 h.2] at hempty
    exact hnot.1 hempty
  · intro hcondition
    refine ⟨1, fun m hm hok => ?_⟩
    have hprojectable := (hreturns m hm).mp hok
    obtain ⟨m', hm', hpassed⟩ := (passes_spec hsound 1).rows _ m (Table.get_of_mem hm)
    refine ⟨m', hm', ?_⟩
    by_cases hreached : m.legacy.id ∈ reached cfg db
    · rw [pendingFinals, hpassed.drained hprojectable ⟨Nat.one_pos, hreached⟩]
      rfl
    · rw [hpassed.kept hprojectable fun h => hreached h.2]
      exact (hcondition m hm hprojectable).resolve_right hreached

/-- The passes cover the sessions just where every session with a pending caption that can be
projected is one of the first ones created, as many as the limit allows, and no projection of a
session before it fails. -/
theorem scan_covers_iff {w : MediaWorld} {actions : List MediaAction}
    (h : Run (MediaSteps cfg) {} actions w) :
    (∃ passes, Covered cfg w.db passes) ↔
      ∀ m ∈ w.db.rows, m.Projectable cfg →
        m.pendingFinals = [] ∨ m.legacy.id ∈ reached cfg w.db :=
  covered_iff (MediaWorld.Sound.run h).logs

end Passes

section Example

/-- A session without captions, and a later one with a caption. -/
def crowdedTrace : List MediaAction :=
  [.create { id := 0, createdAt := 0 }, .create { id := 1, createdAt := 1 },
    .caption 1 (caption "1" "hello" 1)]

def crowdedWorld : MediaWorld :=
  (follow (MediaWorld.next smallConfig) crowdedTrace {}).get (by decide)

/-- Where the limit is wide enough the caption is projected. -/
theorem crowdedWorld_covered : ∃ passes, Covered smallConfig crowdedWorld.db passes :=
  (scan_covers_iff (run_to_get _ crowdedTrace _ (by decide))).mpr (by decide)

def narrowConfig : ProjectorConfig where
  scanSessionLimit := 1
  encodedLength _ := 200
  batchSize_pos := smallConfig.batchSize_pos
  batchSize_le := smallConfig.batchSize_le
  scanSessionLimit_pos := Nat.one_pos
  scanSessionLimit_le := Nat.succ_pos _

def narrowWorld : MediaWorld :=
  (follow (MediaWorld.next narrowConfig) crowdedTrace {}).get (by decide)

theorem narrowWorld_run : Run (MediaSteps narrowConfig) {} crowdedTrace narrowWorld :=
  run_to_get _ crowdedTrace _ (by decide)

/-- Behind a session that has nothing to project the caption waits for ever. -/
theorem not_every_session_scanned :
    ¬ ∀ (cfg : ProjectorConfig) (w : MediaWorld) (actions : List MediaAction),
      Run (MediaSteps cfg) {} actions w → ∃ passes, Covered cfg w.db passes := by
  intro h
  have hcondition := (covered_iff (MediaWorld.Sound.run narrowWorld_run).logs).mp
    (h _ _ _ narrowWorld_run)
  revert hcondition
  decide

end Example

end Media
end Matinier
