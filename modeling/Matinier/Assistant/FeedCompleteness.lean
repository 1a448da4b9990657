import Matinier.Foundation.Machine
import Matinier.Assistant.EventFeed

/-!
# Completeness of the event feed

As long as no event of the session is committed where a handler is about to read the
cursor, the snapshot reflects every event up to its cursor, the client has received
exactly the events between its cursors, and a client that goes on receives every event.
Where one is committed there, the cursor moves past it.
-/

namespace Matinier
namespace Assistant

/-- The client has begun to read its snapshot or an empty rest of the feed, and has the
cursor still to read. -/
def ClientPhase.Exposed : ClientPhase → Prop
  | .reading rest seen => seen ≠ [] ∧ rest.Waits
  | .following client =>
    match client.poll with
    | some (.closing _) => True
    | _ => False
  | .fresh => False

instance ClientPhase.decidableExposed : DecidablePred ClientPhase.Exposed
  | .reading _ [] => isFalse fun h => h.1 rfl
  | .reading rest (_ :: _) =>
    decidable_of_iff rest.Waits ⟨fun h => ⟨List.cons_ne_nil _ _, h⟩, fun h => h.2⟩
  | .following client =>
    match hpoll : client.poll with
    | some (.closing _) => isTrue (by simp [Exposed, hpoll])
    | some (.listing _) | some (.checking _) | some (.answered _) | none =>
      isFalse (by simp [Exposed, hpoll])
  | .fresh => isFalse id

/-- No event of the session is committed where the client is exposed to it. -/
def FeedWorld.Unexposed (session : SessionId) (w : FeedWorld) : FeedStep → Prop
  | .commit db => w.client.Exposed → ∀ e ∈ w.committed.appended db, e.sessionId ≠ session
  | _ => True

def FeedStep.OfClient : FeedStep → Prop
  | .commit _ => False
  | _ => True

instance : DecidablePred FeedStep.OfClient
  | .commit _ => isFalse id
  | .start | .read | .follow | .poll _ | .receive => isTrue trivial

def FeedWorld.Step (session : SessionId) (w : FeedWorld) (a : FeedStep) (w' : FeedWorld) : Prop :=
  w.next session a = some w'

/-- Every event of the session up to the cursor of the snapshot was committed before
anything the snapshot shows was read. -/
def FeedClient.Reflects (session : SessionId) (feed : Log StoredEvent) (client : FeedClient) :
    Prop :=
  ∀ e ∈ feed.entries, e.value.sessionId = session → e.id ≤ client.snapshot.snapshotCursor →
    ∀ c ∈ client.seen, e ∈ c.feed.entries

/-- The snapshot reflects what lies before its cursor, and the client has received the events
of the session between the two cursors, each once and in order. -/
def FeedWorld.Complete (session : SessionId) (w : FeedWorld) : Prop :=
  ∀ client, w.client = .following client →
    client.Reflects session w.committed.feed ∧
    client.received = w.committed.feed.window (ofSession session)
      client.snapshot.snapshotCursor client.cursor

variable {session : SessionId} {c c' : Committed} {db : Db}

namespace Committed

theorem commit_eq_some (h : c.commit db = some c') :
    c'.feed = c.feed.appendAll (c.appended db) := by
  unfold commit at h
  split_ifs at h
  cases h
  rfl

theorem commit_extends (h : c.commit db = some c') : c.feed.Extends c'.feed := by
  rw [commit_eq_some h]
  exact Log.extends_appendAll _

theorem mem_commit (h : c.commit db = some c') {e : Entry StoredEvent}
    (he : e ∈ c'.feed.entries) : e ∈ c.feed.entries ∨ e.value ∈ c.appended db := by
  rw [commit_eq_some h] at he
  exact Log.value_mem_of_appendAll he

theorem hasSessionEventsAfter_eq_false {cursor : ℕ}
    (h : ¬ c.hasSessionEventsAfter session cursor = true) {e : Entry StoredEvent}
    (he : e ∈ c.feed.entries) (hsession : e.value.sessionId = session) : e.id ≤ cursor := by
  have hnone : c.feed.after (ofSession session) cursor = [] := by
    simpa [hasSessionEventsAfter] using h
  by_contra hlt
  have hmem : e ∈ c.feed.after (ofSession session) cursor :=
    Log.mem_after.mpr ⟨he, by simpa [ofSession] using hsession, Nat.not_le.mp hlt⟩
  rw [hnone] at hmem
  cases hmem

end Committed

def Committed.Grows (c c' : Committed) : Prop := c.feed.Extends c'.feed

theorem getAssistantState_ensures (session : SessionId) (c : Committed) :
    (getAssistantState session).Ensures Committed.Grows
      (fun state c => state.snapshotCursor ≤ c.feed.top) c := by
  refine Reader.ensures_bind (Reader.ensures_true _ c) fun records c _ => ?_
  refine Reader.ensures_bind (Reader.ensures_true _ c) fun approvals c _ => ?_
  refine Reader.ensures_bind (Reader.ensures_true _ c) fun summaries c _ => ?_
  exact fun t _ => Nat.le_refl _

/-- What a poll has found, with the cursor it was asked for. -/
inductive PollSound (session : SessionId) (feed : Log StoredEvent) (cursor : ℕ) :
    EventsPoll → Prop
  | listing (limit : ℕ) : PollSound session feed cursor (.listing limit)
  | checking (records : List (Entry StoredEvent))
      (window : records = feed.window (ofSession session) cursor (Log.pageEnd cursor records))
      (low : cursor ≤ Log.pageEnd cursor records) (high : Log.pageEnd cursor records ≤ feed.top) :
      PollSound session feed cursor (.checking records)
  | closing (records : List (Entry StoredEvent))
      (window : records = feed.window (ofSession session) cursor (Log.pageEnd cursor records))
      (low : cursor ≤ Log.pageEnd cursor records) (high : Log.pageEnd cursor records ≤ feed.top)
      (last : ∀ e ∈ feed.entries, e.value.sessionId = session →
        e.id ≤ Log.pageEnd cursor records) :
      PollSound session feed cursor (.closing records)
  | answered (page : AssistantEventsPage)
      (window : page.events = feed.window (ofSession session) cursor page.nextCursor)
      (low : cursor ≤ page.nextCursor) (high : page.nextCursor ≤ feed.top) :
      PollSound session feed cursor (.answered page)

theorem PollSound.commit {cursor : ℕ} {poll : EventsPoll}
    (h : PollSound session c.feed cursor poll) (hcommit : c.commit db = some c')
    (hexposed : ∀ records, poll = .closing records →
      ∀ e ∈ c.appended db, e.sessionId ≠ session) :
    PollSound session c'.feed cursor poll := by
  have hext := Committed.commit_extends hcommit
  cases h with
  | listing limit => exact .listing limit
  | checking records window low high =>
    refine .checking records ?_ low (Nat.le_trans high hext.top_le)
    rw [hext.window_eq high]
    exact window
  | closing records window low high last =>
    refine .closing records ?_ low (Nat.le_trans high hext.top_le) fun e he hsession => ?_
    · rw [hext.window_eq high]
      exact window
    · rcases Committed.mem_commit hcommit he with he | he
      · exact last e he hsession
      · exact absurd hsession (hexposed records rfl _ he)
  | answered page window low high =>
    refine .answered page ?_ low (Nat.le_trans high hext.top_le)
    rw [hext.window_eq high]
    exact window

theorem PollSound.read {cursor : ℕ} {poll poll' : EventsPoll}
    (h : PollSound session c.feed cursor poll) (hcursor : cursor ≤ c.feed.top)
    (hread : listAssistantEvents session cursor c poll = some poll') :
    PollSound session c.feed cursor poll' := by
  cases h with
  | listing limit =>
    cases hread
    have hpage : ∀ e ∈ c.listSessionEvents session cursor (min limit 100),
        e ∈ c.feed.entries ∧ ofSession session e.value = true ∧ cursor < e.id :=
      fun e he => Log.mem_after.mp (List.mem_of_mem_take he)
    exact .checking _ (Log.page_eq_window _) (Log.le_pageEnd fun e he => (hpage e he).2.2)
      (Log.pageEnd_le hcursor fun e he => Log.le_top (hpage e he).1)
  | checking records window low high =>
    simp only [listAssistantEvents] at hread
    split_ifs at hread with hmore
    · cases hread
      exact .answered _ window low high
    · cases hread
      exact .closing records window low high fun e he hsession =>
        Committed.hasSessionEventsAfter_eq_false hmore he hsession
  | closing records window low high last =>
    cases hread
    have hmax : max (Log.pageEnd cursor records) c.currentEventCursor = c.feed.top :=
      Nat.max_eq_right high
    refine .answered _ ?_ ?_ ?_
    · rw [hmax, Log.window_of_none (fun e he hp => last e he (by simpa [ofSession] using hp)) high]
      exact window
    · rw [hmax]
      exact hcursor
    · rw [hmax]
  | answered page window low high => cases hread

/-- What holds of a client that follows the feed. -/
structure FeedClient.Sound (session : SessionId) (feed : Log StoredEvent) (client : FeedClient) :
    Prop where
  reflects : client.Reflects session feed
  received : client.received =
    feed.window (ofSession session) client.snapshot.snapshotCursor client.cursor
  low : client.snapshot.snapshotCursor ≤ client.cursor
  high : client.cursor ≤ feed.top
  poll : ∀ poll, client.poll = some poll → PollSound session feed client.cursor poll

/-- What holds of a client: where it still reads its snapshot, everything of the session was
there at each of its reads; the snapshot it has read, it reflects. -/
def ClientPhase.Sound (session : SessionId) (c : Committed) : ClientPhase → Prop
  | .fresh => True
  | .reading rest seen =>
    rest.Ensures Committed.Grows (fun state c => state.snapshotCursor ≤ c.feed.top) c ∧
      ∀ e ∈ c.feed.entries, e.value.sessionId = session →
        (∀ state, rest = .pure state → e.id ≤ state.snapshotCursor) →
          ∀ c ∈ seen, e ∈ c.feed.entries
  | .following client => client.Sound session c.feed

theorem FeedClient.Sound.commit {client : FeedClient} (h : client.Sound session c.feed)
    (hcommit : c.commit db = some c')
    (hexposed : (ClientPhase.following client).Exposed →
      ∀ e ∈ c.appended db, e.sessionId ≠ session) : client.Sound session c'.feed := by
  have hext := Committed.commit_extends hcommit
  refine ⟨fun e he hsession hle => ?_, ?_, h.low, Nat.le_trans h.high hext.top_le,
    fun poll hpoll => ?_⟩
  · have hold := hext.mem_of_le he (Nat.le_trans hle (Nat.le_trans h.low h.high))
    exact h.reflects e hold hsession hle
  · rw [hext.window_eq h.high]
    exact h.received
  · refine (h.poll poll hpoll).commit hcommit fun records hrecords => hexposed ?_
    simp [ClientPhase.Exposed, hpoll, hrecords]

theorem ClientPhase.Sound.commit {client : ClientPhase} (h : client.Sound session c)
    (hcommit : c.commit db = some c')
    (hexposed : client.Exposed → ∀ e ∈ c.appended db, e.sessionId ≠ session) :
    client.Sound session c' := by
  have hext := Committed.commit_extends hcommit
  cases client with
  | fresh => trivial
  | following client => exact FeedClient.Sound.commit h hcommit hexposed
  | reading rest seen =>
    refine ⟨h.1.of_rely hext Log.Extends.trans fun state hle => Nat.le_trans hle hext.top_le,
      fun e he hsession hle s hs => ?_⟩
    have hold : e ∈ c.feed.entries := by
      cases rest with
      | pure state => exact hext.mem_of_le he (Nat.le_trans (hle state rfl) h.1)
      | read next =>
        rcases Committed.mem_commit hcommit he with he | he
        · exact he
        · exact absurd hsession (hexposed ⟨List.ne_nil_of_mem hs, trivial⟩ _ he)
    exact h.2 e hold hsession hle s hs

/-- What a step of a client does, by what the client is at. -/
inductive ClientStepped (session : SessionId) (c : Committed) :
    ClientPhase → FeedStep → ClientPhase → Prop
  | started : ClientStepped session c .fresh .start (.reading (getAssistantState session) [])
  | read (next : Committed → Reader Committed AssistantSessionState) (seen : List Committed) :
      ClientStepped session c (.reading (.read next) seen) .read (.reading (next c) (c :: seen))
  | followed (state : AssistantSessionState) (seen : List Committed) :
      ClientStepped session c (.reading (.pure state) seen) .follow
        (.following { snapshot := state, seen, cursor := state.snapshotCursor })
  | polled (client : FeedClient) (limit : ℕ) (idle : client.poll = none) :
      ClientStepped session c (.following client) (.poll limit)
        (.following { client with poll := some (.listing limit) })
  | listed (client : FeedClient) (poll poll' : EventsPoll) (now : client.poll = some poll)
      (read : listAssistantEvents session client.cursor c poll = some poll') :
      ClientStepped session c (.following client) .read
        (.following { client with poll := some poll' })
  | received (client : FeedClient) (page : AssistantEventsPage)
      (now : client.poll = some (.answered page)) :
      ClientStepped session c (.following client) .receive
        (.following { client with
          cursor := page.nextCursor
          received := client.received ++ page.events
          poll := none })

theorem clientStepped_of_next {client client' : ClientPhase} {a : FeedStep}
    (h : client.next session c a = some client') : ClientStepped session c client a client' := by
  unfold ClientPhase.next at h
  split at h
  · cases h
    exact .started
  · cases h
    exact .read _ _
  · cases h
    exact .followed _ _
  · split_ifs at h with hidle
    cases h
    exact .polled _ _ (Option.isNone_iff_eq_none.mp hidle.1)
  · obtain ⟨poll, hpoll, h⟩ := Option.bind_eq_some_iff.mp h
    obtain ⟨poll', hread, h⟩ := Option.bind_eq_some_iff.mp h
    cases h
    exact .listed _ poll poll' hpoll hread
  · split at h
    · cases h
      exact .received _ _ ‹_›
    · cases h
  · cases h

theorem ClientPhase.Sound.next {client client' : ClientPhase} {a : FeedStep}
    (h : client.Sound session c) (hstep : ClientStepped session c client a client') :
    client'.Sound session c := by
  cases hstep with
  | started => exact ⟨getAssistantState_ensures session c, fun _ _ _ _ s hs => nomatch hs⟩
  | read next seen =>
    refine ⟨h.1 c (Log.Extends.refl _), fun e he hsession _ s hs => ?_⟩
    rcases List.mem_cons.mp hs with rfl | hs
    · exact he
    · exact h.2 e he hsession (fun _ hrest => nomatch hrest) s hs
  | followed state seen =>
    refine ⟨fun e he hsession hle => h.2 e he hsession fun state' hstate => ?_,
      Log.window_self.symm, Nat.le_refl _, h.1, fun _ hpoll => nomatch hpoll⟩
    cases hstate
    exact hle
  | polled client limit idle =>
    exact ⟨h.reflects, h.received, h.low, h.high, fun poll hpoll => by
      cases hpoll
      exact .listing limit⟩
  | listed client poll poll' now read =>
    exact ⟨h.reflects, h.received, h.low, h.high, fun poll hpoll => by
      cases hpoll
      exact (h.poll _ now).read h.high read⟩
  | received client page now =>
    obtain ⟨⟩ := h.poll _ now
    rename_i window low high
    refine ⟨h.reflects, ?_, Nat.le_trans h.low low, high, fun _ hpoll => nomatch hpoll⟩
    rw [h.received, window, Log.window_join h.low low]

theorem FeedWorld.step_cases {w w' : FeedWorld} {a : FeedStep} (h : w.Step session a w') :
    (∃ db, a = .commit db ∧ w.committed.commit db = some w'.committed ∧ w'.client = w.client) ∨
    (a.OfClient ∧ w'.committed = w.committed ∧
      ClientStepped session w.committed w.client a w'.client) := by
  unfold Step FeedWorld.next at h
  split at h
  · obtain ⟨committed, hcommit, rfl⟩ := Option.map_eq_some_iff.mp h
    exact Or.inl ⟨_, rfl, hcommit, rfl⟩
  · rename_i hnot
    obtain ⟨client, hclient, rfl⟩ := Option.map_eq_some_iff.mp h
    refine Or.inr ⟨?_, rfl, clientStepped_of_next hclient⟩
    cases a with
    | commit db => exact hnot db rfl
    | _ => trivial

/-- A world stays sound under every step its client is not exposed to. -/
theorem FeedWorld.sound_step (session : SessionId) (w : FeedWorld) (a : FeedStep) (w' : FeedWorld)
    (hw : w.client.Sound session w.committed)
    (h : Under (Unexposed session) (Step session) w a w') :
    w'.client.Sound session w'.committed := by
  rcases step_cases h.2 with ⟨db, rfl, hcommit, hsame⟩ | ⟨-, hsame, hstep⟩
  · rw [hsame]
    exact hw.commit hcommit h.1
  · rw [hsame]
    exact hw.next hstep

theorem run_sound {ls : List FeedStep} {w : FeedWorld}
    (h : Run (Under (FeedWorld.Unexposed session) (FeedWorld.Step session))
      { committed := c } ls w) :
    w.client.Sound session w.committed :=
  h.invariant (I := fun w => w.client.Sound session w.committed) (FeedWorld.sound_step session)
    trivial

/-- How many more steps of its own a client takes at most before its cursor moves. -/
def pollDistance : Option EventsPoll → ℕ
  | none => 5
  | some (.listing _) => 4
  | some (.checking records) => if records = [] then 8 else 3
  | some (.closing records) => if records = [] then 8 else 2
  | some (.answered page) => if page.events = [] then 7 else 1

theorem pollDistance_le (poll : Option EventsPoll) : pollDistance poll ≤ 8 := by
  unfold pollDistance
  split <;> (try split_ifs) <;> omega

/-- How many more steps of its own a client takes at most before it has received the event. -/
def FeedClient.distance (x : Entry StoredEvent) (client : FeedClient) : ℕ :=
  10 * (x.id - client.cursor) + pollDistance client.poll

structure FeedClient.Awaits (session : SessionId) (feed : Log StoredEvent)
    (x : Entry StoredEvent) (client : FeedClient) : Prop where
  committed : x ∈ feed.entries
  session : x.value.sessionId = session
  ahead : client.cursor < x.id

variable {x : Entry StoredEvent} {client : FeedClient}

theorem FeedClient.Awaits.mem_after (h : client.Awaits session c.feed x) :
    x ∈ c.feed.after (ofSession session) client.cursor :=
  Log.mem_after.mpr ⟨h.committed, by simpa [ofSession] using h.session, h.ahead⟩

theorem pollDistance_read {poll poll' : EventsPoll} (hx : client.Awaits session c.feed x)
    (hpoll : PollSound session c.feed client.cursor poll)
    (hread : listAssistantEvents session client.cursor c poll = some poll') :
    pollDistance (some poll') < pollDistance (some poll) := by
  cases hpoll with
  | listing limit =>
    cases hread
    have hrecords : c.listSessionEvents session client.cursor (min limit 100) ≠ [] := by
      intro hnone
      rcases List.take_eq_nil_iff.mp hnone with hzero | hempty
      · omega
      · exact absurd hempty (List.ne_nil_of_mem hx.mem_after)
    simp [pollDistance, hrecords]
  | checking records window low high =>
    simp only [listAssistantEvents] at hread
    split_ifs at hread with hmore
    · cases hread
      simp only [pollDistance]
      split_ifs <;> omega
    · cases hread
      have hrecords : records ≠ [] := by
        rintro rfl
        have hle := Committed.hasSessionEventsAfter_eq_false hmore hx.committed hx.session
        exact absurd hx.ahead (Nat.not_lt.mpr hle)
      simp [pollDistance, hrecords]
  | closing records window low high last =>
    cases hread
    have hrecords : records ≠ [] := by
      rintro rfl
      exact absurd hx.ahead (Nat.not_lt.mpr (last x hx.committed hx.session))
    simp [pollDistance, hrecords]
  | answered page window low high => cases hread

/-- An answer gives the client the event, or moves its cursor towards it. -/
theorem distance_received {page : AssistantEventsPage} (hx : client.Awaits session c.feed x)
    (hpoll : PollSound session c.feed client.cursor (.answered page))
    (hnow : client.poll = some (.answered page)) :
    x ∈ page.events ∨ page.nextCursor < x.id ∧
      10 * (x.id - page.nextCursor) + 5 < client.distance x := by
  obtain ⟨⟩ := hpoll
  rename_i window low high
  by_cases hle : x.id ≤ page.nextCursor
  · left
    rw [window]
    exact Log.mem_window.mpr
      ⟨hx.committed, by simpa [ofSession] using hx.session, hx.ahead, hle⟩
  · refine Or.inr ⟨Nat.not_le.mp hle, ?_⟩
    rw [FeedClient.distance, hnow, pollDistance]
    split_ifs with hempty
    · omega
    · obtain ⟨e, he⟩ := List.exists_mem_of_ne_nil _ hempty
      rw [window] at he
      have hmoved := (Log.mem_window.mp he).2.2
      omega

/-- A step of a client that follows the feed gives it the event, or brings the event nearer. -/
theorem FeedClient.Awaits.next {client' : ClientPhase} {a : FeedStep}
    (hx : client.Awaits session c.feed x) (hsound : client.Sound session c.feed)
    (h : ClientStepped session c (.following client) a client') :
    ∃ following, client' = .following following ∧
      (x ∈ following.received ∨
        following.Awaits session c.feed x ∧ following.distance x < client.distance x) := by
  cases h with
  | polled _ limit idle =>
    refine ⟨_, rfl, Or.inr ⟨⟨hx.committed, hx.session, hx.ahead⟩, ?_⟩⟩
    simp [FeedClient.distance, idle, pollDistance]
  | listed _ poll poll' now read =>
    refine ⟨_, rfl, Or.inr ⟨⟨hx.committed, hx.session, hx.ahead⟩, ?_⟩⟩
    have := pollDistance_read hx (hsound.poll _ now) read
    simpa [FeedClient.distance, now] using this
  | received _ page now =>
    refine ⟨_, rfl, ?_⟩
    rcases distance_received hx (hsound.poll _ now) now with hmem | ⟨hahead, hlt⟩
    · exact Or.inl (List.mem_append_right _ hmem)
    · exact Or.inr ⟨⟨hx.committed, hx.session, hahead⟩, hlt⟩

def FeedWorld.Awaits (session : SessionId) (x : Entry StoredEvent) (w : FeedWorld) : Prop :=
  ∃ client, w.client = .following client ∧ client.Awaits session w.committed.feed x

def FeedWorld.Received (x : Entry StoredEvent) (w : FeedWorld) : Prop :=
  ∃ client, w.client = .following client ∧ x ∈ client.received

def FeedWorld.distance (x : Entry StoredEvent) (w : FeedWorld) : ℕ :=
  match w.client with
  | .following client => client.distance x
  | _ => 0

theorem FeedWorld.awaits_step {w w' : FeedWorld} {a : FeedStep}
    (hx : w.Awaits session x) (hsound : w.client.Sound session w.committed)
    (h : w.Step session a w') :
    w'.Received x ∨ w'.Awaits session x ∧ w'.distance x ≤ w.distance x ∧
      (a.OfClient → w'.distance x < w.distance x) := by
  obtain ⟨client, hclient, hx⟩ := hx
  rcases step_cases h with ⟨db, rfl, hcommit, hsame⟩ | ⟨-, hsame, hstep⟩
  · have hdistance : w'.distance x = w.distance x := by rw [distance, distance, hsame]
    refine Or.inr ⟨⟨client, hsame.trans hclient, ?_, hx.session, hx.ahead⟩,
      Nat.le_of_eq hdistance, fun hown => absurd hown id⟩
    exact (Committed.commit_extends hcommit).mem hx.committed
  · rw [hclient] at hstep hsound
    obtain ⟨following, hfollowing, hmem | ⟨hx', hlt⟩⟩ := hx.next hsound hstep
    · exact Or.inl ⟨following, hfollowing, hmem⟩
    · have hdistance : w'.distance x < w.distance x := by
        rw [distance, distance, hfollowing, hclient]
        exact hlt
      exact Or.inr ⟨⟨following, hfollowing, by rwa [hsame]⟩, Nat.le_of_lt hdistance,
        fun _ => hdistance⟩

theorem FeedWorld.received_step {w w' : FeedWorld} {a : FeedStep} (hx : w.Received x)
    (h : w.Step session a w') : w'.Received x := by
  obtain ⟨client, hclient, hx⟩ := hx
  rcases step_cases h with ⟨db, rfl, hcommit, hsame⟩ | ⟨-, hsame, hstep⟩
  · exact ⟨client, hsame.trans hclient, hx⟩
  · rw [hclient] at hstep
    generalize hnext : w'.client = client' at hstep
    cases hstep with
    | polled _ limit idle => exact ⟨_, hnext, hx⟩
    | listed _ poll poll' now read => exact ⟨_, hnext, hx⟩
    | received _ page now => exact ⟨_, hnext, List.mem_append_left _ hx⟩

theorem FeedWorld.can_step {w : FeedWorld} (session : SessionId)
    (h : w.client = .following client) :
    ∃ a w', a.OfClient ∧ w.Step session a w' := by
  cases hpoll : client.poll with
  | none =>
    exact ⟨.poll 1, _, trivial, by simp [Step, FeedWorld.next, ClientPhase.next, h, hpoll]; rfl⟩
  | some poll =>
    cases hread : listAssistantEvents session client.cursor w.committed poll with
    | some poll' =>
      exact ⟨.read, _, trivial,
        by simp [Step, FeedWorld.next, ClientPhase.next, h, hpoll, hread]; rfl⟩
    | none =>
      cases poll with
      | listing limit => cases hread
      | checking records =>
        simp only [listAssistantEvents] at hread
        split_ifs at hread
      | closing records => cases hread
      | answered page =>
        exact ⟨.receive, _, trivial,
          by simp [Step, FeedWorld.next, ClientPhase.next, h, hpoll]; rfl⟩

/-- Where no event of the session is committed while the client is exposed to it, the snapshot
reflects every event up to its cursor, and the client receives every later one once and in order,
within so many steps of its own. -/
theorem feed_complete {ls : List FeedStep} {w : FeedWorld}
    (h : Run (Under (FeedWorld.Unexposed session) (FeedWorld.Step session))
      { committed := c } ls w) :
    w.Complete session ∧
      ∀ client, w.client = .following client →
        (∃ a w', a.OfClient ∧ w.Step session a w') ∧
        ∀ x ∈ w.committed.feed.entries, x.value.sessionId = session →
          client.snapshot.snapshotCursor < x.id →
          ∀ ls' w', Run (Under (FeedWorld.Unexposed session) (FeedWorld.Step session)) w ls' w' →
            10 * (x.id - client.cursor) + 8 < ls'.countP (fun a => FeedStep.OfClient a) →
            w'.Received x := by
  have hsound := run_sound h
  have hclient : ∀ client, w.client = .following client →
      client.Sound session w.committed.feed := by
    intro client hclient
    rwa [hclient] at hsound
  refine ⟨fun client hw => ⟨(hclient client hw).reflects, (hclient client hw).received⟩,
    fun client hw => ⟨FeedWorld.can_step session hw,
      fun x hx hsession hlow ls' w' hrun hcount => ?_⟩⟩
  have hkeep : ∀ v a v', FeedWorld.Received x v →
      Under (FeedWorld.Unexposed session) (FeedWorld.Step session) v a v' → v'.Received x :=
    fun _ _ _ hv hstep => FeedWorld.received_step hv hstep.2
  by_cases hahead : client.cursor < x.id
  · refine hrun.reaches (A := FeedStep.OfClient)
      (P := fun v => v.client.Sound session v.committed ∧ v.Awaits session x)
      (FeedWorld.distance x) ?_ hkeep ⟨hsound, client, hw, hx, hsession, hahead⟩ ?_
    · intro v a v' hv hstep
      refine (FeedWorld.awaits_step hv.2 hv.1 hstep.2).imp_right fun hawaits => ?_
      exact ⟨⟨FeedWorld.sound_step session v a v' hv.1 hstep, hawaits.1⟩, hawaits.2⟩
    · have hle := pollDistance_le client.poll
      rw [FeedWorld.distance, hw]
      exact Nat.lt_of_le_of_lt (Nat.add_le_add_left hle _) hcount
  · refine hrun.invariant hkeep ⟨client, hw, ?_⟩
    rw [(hclient client hw).received]
    exact Log.mem_window.mpr
      ⟨hx, by simpa [ofSession] using hsession, hlow, Nat.not_lt.mp hahead⟩

def createdTurn : ExecutionRecord where
  id := 1
  sessionId := 1
  profile := .actionRun
  rootExecutionId := 1
  goal := "file the task"
  status := .queued
  createdAt := 0
  statusDeclared := by decide

def turnCreated : Db where
  executions := (Table.empty.insert createdTurn).getD .empty
  events := [{
    executionId := 1
    stateVersion := 1
    eventType := "execution.created"
    phase := .queued
    status := .queued }]

def snapshotTaken : List FeedStep := [.start, .read, .read, .follow]

def polledOnce : List FeedStep := [.poll 100, .read, .read, .read, .receive]

instance (session : SessionId) : ∀ w a, Decidable (FeedWorld.Unexposed session w a)
  | w, .commit db =>
    inferInstanceAs (Decidable (w.client.Exposed →
      ∀ e ∈ w.committed.appended db, e.sessionId ≠ session))
  | _, .start | _, .read | _, .follow | _, .poll _ | _, .receive => isTrue trivial

def turnCreatedEvent : Entry StoredEvent where
  id := 1
  value := {
    sessionId := 1
    event := {
      executionId := 1
      stateVersion := 1
      eventType := "execution.created"
      phase := .queued
      status := .queued } }

def turnAwaited : FeedWorld :=
  (follow (guarded (FeedWorld.Unexposed 1) (FeedWorld.next 1))
    (snapshotTaken ++ [.commit turnCreated]) { committed := ⟨{}, .empty⟩ }).get (by decide)

/-- After some polls the client has the event of that turn. -/
theorem turnCreated_received :
    ∃ w, Run (Under (FeedWorld.Unexposed 1) (FeedWorld.Step 1)) turnAwaited
      (polledOnce ++ polledOnce ++ polledOnce ++ polledOnce) w ∧ w.Received turnCreatedEvent := by
  have hbefore := run_under_to_get (FeedWorld.Unexposed 1) (FeedWorld.next 1)
    (snapshotTaken ++ [.commit turnCreated]) { committed := ⟨{}, .empty⟩ } (by decide)
  have hafter := run_under_to_get (FeedWorld.Unexposed 1) (FeedWorld.next 1)
    (polledOnce ++ polledOnce ++ polledOnce ++ polledOnce) turnAwaited (by decide)
  have hdelivered := ((feed_complete hbefore).2 _ rfl).2 turnCreatedEvent
    (by decide) rfl (by decide)
  exact ⟨_, hafter, hdelivered _ _ hafter (by decide)⟩

/-- The turn is created after the executions were read and before the cursor is, and not shown; or
after a poll found nothing and before it reads the cursor, and its event is never delivered. -/
theorem turnCreated_skipped :
    (∃ w, Run (FeedWorld.Step 1) { committed := ⟨{}, .empty⟩ }
      [.start, .read, .commit turnCreated, .read, .follow] w ∧ ¬ w.Complete 1) ∧
    ∃ w, Run (FeedWorld.Step 1) { committed := ⟨{}, .empty⟩ }
      (snapshotTaken ++ [.poll 100, .read, .read, .commit turnCreated, .read, .receive]) w ∧
      ¬ w.Complete 1 := by
  constructor
  · have hrun := run_to_get (FeedWorld.next 1)
      [.start, .read, .commit turnCreated, .read, .follow] { committed := ⟨{}, .empty⟩ } (by decide)
    refine ⟨_, hrun, fun hcomplete => ?_⟩
    obtain ⟨hreflects, -⟩ := hcomplete _ rfl
    have hseen := hreflects turnCreatedEvent (by decide) rfl (by decide) ⟨{}, .empty⟩
      (List.mem_cons_of_mem _ List.mem_cons_self)
    cases hseen
  · have hrun := run_to_get (FeedWorld.next 1)
      (snapshotTaken ++ [.poll 100, .read, .read, .commit turnCreated, .read, .receive])
      { committed := ⟨{}, .empty⟩ } (by decide)
    refine ⟨_, hrun, fun hcomplete => ?_⟩
    obtain ⟨-, hreceived⟩ := hcomplete _ rfl
    have hlength := congrArg List.length hreceived
    revert hlength
    decide

end Assistant
end Matinier
