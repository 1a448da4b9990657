import Matinier.Plugins.PackageInstall
import Matinier.Plugins.SignatureCoverage

/-!
# What a failed installation leaves

A confirmation that raises leaves the rows of packages, installations, permissions and health as
they were, and its ticket unconsumed. The publisher it was asked to trust stays trusted where only
a later step failed, and what was staged is gone once the ticket was read.
-/

namespace Matinier
namespace Plugins

/-- No row of a package, an installation, a permission, its health or a ticket was changed. -/
structure StoreTables.RowsKept (tables tables' : StoreTables) : Prop where
  packages : tables'.packages = tables.packages
  installations : tables'.installations = tables.installations
  permissions : tables'.permissions = tables.permissions
  health : tables'.health = tables.health
  tickets : tables'.tickets = tables.tickets

def Trusted (libraries : PackageLibraries) (config : PackageStoreConfig) (c : Confirmation)
    (w : StoreWorld) (tables : StoreTables) : Prop :=
  ∃ ticket verified publisherId row, loadLiveTicket c w = .ok ticket ∧
    revalidate libraries config c ticket w = .ok verified ∧
    trustStep config c verified w.tables = .ok (publisherId, tables) ∧
    c.trustPublisher = true ∧ c.approvedPublisherFingerprint = some row.keyFingerprint ∧
    verified.publisherFingerprint = some row.keyFingerprint ∧
    tables.publishers = w.tables.publishers ++ [row]

/-- What a confirmation has done when it waits for its image, or when it raised before. -/
structure InstallBegun (libraries : PackageLibraries) (config : PackageStoreConfig)
    (c : Confirmation)
    (w w' : StoreWorld) : Prop where
  rows : w.tables.RowsKept w'.tables
  publishers : w'.tables.publishers = w.tables.publishers ∨ Trusted libraries config c w w'.tables

variable {libraries : PackageLibraries} {config : PackageStoreConfig} {c : Confirmation}
  {w w' : StoreWorld} {ticket : StagingTicket}

theorem StoreTables.RowsKept.refl (tables : StoreTables) : tables.RowsKept tables :=
  ⟨rfl, rfl, rfl, rfl, rfl⟩

@[simp] theorem staged?_unstage (w : StoreWorld) (path : String) :
    (w.unstage path).staged? path = none := by
  rw [StoreWorld.staged?, Option.map_eq_none_iff, List.find?_eq_none]
  intro entry hentry
  have hne := (List.mem_filter.mp hentry).2
  simpa using hne

@[simp] theorem tables_unstage (w : StoreWorld) (path : String) :
    (w.unstage path).tables = w.tables := rfl

theorem StoreTables.trustPublisher_ok {tables tables' : StoreTables} {row publisher : PublisherRow}
    (h : tables.trustPublisher row = .ok (publisher, tables')) :
    tables' = tables ∨ tables' = { tables with publishers := tables.publishers ++ [row] } := by
  unfold StoreTables.trustPublisher at h
  split at h
  · simp only [bind_eq_ok, ensure_eq_ok, pure_eq_ok, Prod.mk.injEq] at h
    obtain ⟨_, _, _, _, _, rfl⟩ := h
    exact .inl rfl
  · simp only [bind_eq_ok, ensure_eq_ok, pure_eq_ok, Prod.mk.injEq] at h
    obtain ⟨_, _, _, rfl⟩ := h
    exact .inr rfl

/-- Trusting changes the publishers only, and only by the one that was approved. -/
theorem trustedPublisher_ok {verified : VerifiedPackage} {fingerprint : List Char}
    {tables tables' : StoreTables} {publisher : PublisherRow}
    (h : trustedPublisher c verified fingerprint tables = .ok (publisher, tables')) :
    tables' = tables ∨ c.trustPublisher = true ∧ ∃ row : PublisherRow,
      row.keyFingerprint = fingerprint ∧ c.approvedPublisherFingerprint = some fingerprint ∧
      tables' = { tables with publishers := tables.publishers ++ [row] } := by
  unfold trustedPublisher at h
  split at h
  · cases h
    exact .inl rfl
  · simp only [bind_eq_ok, ensure_eq_ok, require_eq_ok] at h
    obtain ⟨_, hasked, _, happroved, _, _, htrust⟩ := h
    rcases StoreTables.trustPublisher_ok htrust with hsame | hadded
    · exact .inl hsame
    · exact .inr ⟨hasked, _, rfl, happroved, hadded⟩

theorem trustStep_ok {verified : VerifiedPackage} {tables tables' : StoreTables}
    {publisherId : Option String}
    (h : trustStep config c verified tables = .ok (publisherId, tables')) :
    tables.RowsKept tables' ∧ (tables'.publishers = tables.publishers ∨
      c.trustPublisher = true ∧ ∃ row : PublisherRow,
        c.approvedPublisherFingerprint = some row.keyFingerprint ∧
        verified.publisherFingerprint = some row.keyFingerprint ∧
        tables'.publishers = tables.publishers ++ [row]) := by
  unfold trustStep at h
  split at h
  case h_1 fingerprint hfingerprint =>
    simp only [bind_eq_ok, pure_eq_ok, Prod.mk.injEq] at h
    obtain ⟨_, _, ⟨publisher, trusted⟩, htrust, _, _, _, rfl⟩ := h
    rcases trustedPublisher_ok htrust with rfl | ⟨hasked, row, rfl, happroved, rfl⟩
    · exact ⟨.refl _, .inl rfl⟩
    · exact ⟨⟨rfl, rfl, rfl, rfl, rfl⟩, .inr ⟨hasked, row, happroved, hfingerprint, rfl⟩⟩
  case h_2 =>
    simp only [bind_eq_ok, ensure_eq_ok, pure_eq_ok, Prod.mk.injEq] at h
    obtain ⟨_, _, _, rfl⟩ := h
    exact ⟨.refl _, .inl rfl⟩

theorem installBegun_of_trustStep {verified : VerifiedPackage} {publisherId : Option String}
    {tables' : StoreTables} (hload : loadLiveTicket c w = .ok ticket)
    (hvalid : revalidate libraries config c ticket w = .ok verified)
    (htrust : trustStep config c verified w.tables = .ok (publisherId, tables'))
    (htables : w'.tables = tables') : InstallBegun libraries config c w w' := by
  obtain ⟨hrows, hpublishers⟩ := trustStep_ok htrust
  rw [← htables] at hrows hpublishers htrust
  refine ⟨hrows, ?_⟩
  rcases hpublishers with hsame | ⟨hasked, row, happroved, hfingerprint, hadded⟩
  · exact .inl hsame
  · exact .inr ⟨ticket, verified, publisherId, row, hload, hvalid, htrust, hasked, happroved,
      hfingerprint, hadded⟩

/-- A confirmation that raises before the import raised at its ticket, or has unstaged it. -/
theorem beginInstall_error {error : PackageError}
    (h : beginInstall libraries config c w = (w', .error error)) :
    InstallBegun libraries config c w w' ∧
      (w' = w ∧ loadLiveTicket c w = .error error ∨
        ∃ ticket, loadLiveTicket c w = .ok ticket ∧ w'.staged? ticket.stagedPath = none) := by
  unfold beginInstall at h
  split at h
  case h_1 e hload =>
    cases h
    exact ⟨⟨.refl _, .inl rfl⟩, .inl ⟨rfl, hload⟩⟩
  case h_2 ticket hload =>
    split at h
    case h_1 e hvalid =>
      cases h
      exact ⟨⟨.refl _, .inl rfl⟩, .inr ⟨ticket, hload, staged?_unstage _ _⟩⟩
    case h_2 verified hvalid =>
      split at h
      case h_1 e htrust =>
        cases h
        exact ⟨⟨.refl _, .inl rfl⟩, .inr ⟨ticket, hload, staged?_unstage _ _⟩⟩
      case h_2 publisherId tables htrust =>
        split at h
        · cases h
          exact ⟨installBegun_of_trustStep hload hvalid htrust rfl,
            .inr ⟨ticket, hload, staged?_unstage _ _⟩⟩
        · cases h

theorem beginInstall_ok {p : PendingInstall}
    (h : beginInstall libraries config c w = (w', .ok p)) :
    InstallBegun libraries config c w w' ∧ p.confirmation = c ∧
      ∃ ticket, loadLiveTicket c w = .ok ticket ∧ p.stagedPath = ticket.stagedPath := by
  unfold beginInstall at h
  split at h
  case h_1 => cases h
  case h_2 ticket hload =>
    split at h
    case h_1 => cases h
    case h_2 verified hvalid =>
      split at h
      case h_1 => cases h
      case h_2 publisherId tables htrust =>
        split at h
        · cases h
        · cases h
          exact ⟨installBegun_of_trustStep hload hvalid htrust rfl, rfl, ticket, hload, rfl⟩

theorem beginInstall_unstaged (hload : loadLiveTicket c w = .ok ticket)
    (hgone : w.staged? ticket.stagedPath = none) :
    ∃ error, beginInstall libraries config c w =
      (w.unstage ticket.stagedPath, .error error) := by
  cases hvalid : revalidate libraries config c ticket w with
  | error error =>
    refine ⟨error, ?_⟩
    simp only [beginInstall, hload, hvalid]
  | ok verified =>
    simp only [revalidate, hgone, bind_eq_ok, require_eq_ok] at hvalid
    obtain ⟨_, _, _, _, _, hsome, _⟩ := hvalid
    cases hsome

variable {p : PendingInstall} {outcome : ImportOutcome}

theorem finishInstall_error {error : PackageError}
    (h : finishInstall p outcome w = (w', .error error)) :
    w'.tables = w.tables ∧ w'.staged? p.stagedPath = none := by
  unfold finishInstall at h
  split at h
  · cases h
    exact ⟨rfl, staged?_unstage _ _⟩
  · cases h

theorem StoreTables.recordPackage_tickets {tables tables' : StoreTables} {row package : PackageRow}
    (h : tables.recordPackage row = .ok (package, tables')) :
    tables'.tickets = tables.tickets := by
  unfold StoreTables.recordPackage at h
  split at h
  · simp only [bind_eq_ok, ensure_eq_ok, pure_eq_ok, Prod.mk.injEq] at h
    obtain ⟨_, _, _, rfl⟩ := h
    rfl
  · simp only [bind_eq_ok, ensure_eq_ok, pure_eq_ok, Prod.mk.injEq] at h
    obtain ⟨_, _, _, rfl⟩ := h
    rfl

@[simp] theorem StoreTables.ensureInstallation_tickets (tables : StoreTables)
    (row : InstallationRow) : (tables.ensureInstallation row).tickets = tables.tickets := by
  unfold StoreTables.ensureInstallation
  split_ifs <;> rfl

@[simp] theorem StoreTables.replaceBasePermissions_tickets (tables : StoreTables)
    (packageId : String) (permissions : List String) :
    (tables.replaceBasePermissions packageId permissions).tickets = tables.tickets := rfl

@[simp] theorem StoreTables.recordRuntimeStatus_tickets (tables : StoreTables)
    (packageId : String) (status : LifecycleStatus) :
    (tables.recordRuntimeStatus packageId status).tickets = tables.tickets := by
  unfold StoreTables.recordRuntimeStatus
  split_ifs <;> rfl

theorem recordInstall_ok {now : ℤ} {tables tables' : StoreTables} {package : PackageRow}
    (h : recordInstall p outcome now tables = .ok (package, tables')) :
    ∃ ticket ∈ tables.tickets, ticket.id = p.confirmation.ticketId ∧ ticket.consumedAt = none ∧
      tables'.tickets = tables.tickets.map fun ticket =>
        if ticket.id = p.confirmation.ticketId then { ticket with consumedAt := some now }
        else ticket := by
  simp only [recordInstall, StoreTables.consumeStagingTicket, StoreTables.getStagingTicket,
    bind_eq_ok, ensure_eq_ok, require_eq_ok, pure_eq_ok, Prod.mk.injEq] at h
  obtain ⟨_, _, _, _, ⟨row, recorded⟩, hrecord, _, _, _, _, _, _, _, _, consumed, hconsume, _, _,
    rfl, rfl⟩ := h
  obtain ⟨ticket, hticket, _, hlive, _, _, rfl⟩ := hconsume
  simp only [StoreTables.recordRuntimeStatus_tickets, StoreTables.replaceBasePermissions_tickets,
    StoreTables.ensureInstallation_tickets, StoreTables.recordPackage_tickets hrecord] at hticket ⊢
  exact ⟨ticket, List.mem_of_find?_eq_some hticket, by simpa using List.find?_some hticket, hlive,
    trivial⟩

/-- A store whose confirmations overlap: those that wait for their image, the tickets whose
confirmation recorded a package, and the ids that tickets have had. -/
structure StoreRun where
  world : StoreWorld
  pending : List PendingInstall := []
  recorded : List String := []
  issued : List String := []

inductive StoreLabel where
  | started
  | finished
  | elsewhere

/-- A confirmation runs until it waits and from there to its end; between this anything else may
happen in the store, but a new ticket has an id that none had. -/
inductive StoreSteps (libraries : PackageLibraries) (config : PackageStoreConfig) :
    StoreRun → StoreLabel → StoreRun → Prop
  | waits {s : StoreRun} {c : Confirmation} {w : StoreWorld} {p : PendingInstall}
      (h : beginInstall libraries config c s.world = (w, .ok p)) :
      StoreSteps libraries config s .started { s with world := w, pending := p :: s.pending }
  | refused {s : StoreRun} {c : Confirmation} {w : StoreWorld} {error : PackageError}
      (h : beginInstall libraries config c s.world = (w, .error error)) :
      StoreSteps libraries config s .started { s with world := w }
  | records {s : StoreRun} {before after : List PendingInstall} {p : PendingInstall}
      {outcome : ImportOutcome} {w : StoreWorld} {package : PackageRow}
      (hpending : s.pending = before ++ p :: after)
      (h : finishInstall p outcome s.world = (w, .ok package)) :
      StoreSteps libraries config s .finished
        { s with
          world := w
          pending := before ++ after
          recorded := p.confirmation.ticketId :: s.recorded }
  | fails {s : StoreRun} {before after : List PendingInstall} {p : PendingInstall}
      {outcome : ImportOutcome} {w : StoreWorld} {error : PackageError}
      (hpending : s.pending = before ++ p :: after)
      (h : finishInstall p outcome s.world = (w, .error error)) :
      StoreSteps libraries config s .finished { s with world := w, pending := before ++ after }
  | elsewhere {s : StoreRun} {w : StoreWorld}
      (hfresh : ∀ ticket ∈ w.tables.tickets,
        ticket ∈ s.world.tables.tickets ∨ ticket.id ∉ s.issued) :
      StoreSteps libraries config s .elsewhere
        { s with world := w, issued := w.tables.tickets.map StagingTicket.id ++ s.issued }

/-- The tickets of what was recorded are consumed, and none is there twice. -/
structure StoreRun.OncePerTicket (s : StoreRun) : Prop where
  issued : ∀ ticket ∈ s.world.tables.tickets, ticket.id ∈ s.issued
  known : ∀ id ∈ s.recorded, id ∈ s.issued
  consumed : ∀ ticket ∈ s.world.tables.tickets, ticket.id ∈ s.recorded → ticket.consumedAt ≠ none
  once : s.recorded.Nodup

namespace StoreRun

variable {s s' : StoreRun}

/-- What leaves the tickets alone leaves each of them recorded once at most. -/
theorem OncePerTicket.of_tickets (hs : s.OncePerTicket) {pending : List PendingInstall}
    (h : w.tables.tickets = s.world.tables.tickets) :
    OncePerTicket { s with world := w, pending := pending } where
  issued ticket hticket := hs.issued ticket (h ▸ hticket)
  known := hs.known
  consumed ticket hticket := hs.consumed ticket (h ▸ hticket)
  once := hs.once

theorem OncePerTicket.records (hs : s.OncePerTicket) {package : PackageRow}
    {pending : List PendingInstall} (h : finishInstall p outcome s.world = (w, .ok package)) :
    OncePerTicket
      { s with
        world := w
        pending := pending
        recorded := p.confirmation.ticketId :: s.recorded } := by
  unfold finishInstall at h
  split at h
  case h_1 => cases h
  case h_2 row tables hrecord =>
    cases h
    obtain ⟨ticket, hticket, hid, hlive, htickets⟩ := recordInstall_ok hrecord
    have hissued : p.confirmation.ticketId ∈ s.issued := hid ▸ hs.issued ticket hticket
    have hnew : p.confirmation.ticketId ∉ s.recorded := by
      intro hmem
      exact hs.consumed ticket hticket (hid ▸ hmem) hlive
    constructor
    · intro t ht
      rw [tables_unstage, htickets] at ht
      obtain ⟨t', ht', rfl⟩ := List.mem_map.mp ht
      have hold := hs.issued t' ht'
      split_ifs <;> exact hold
    · intro id hmem
      rcases List.mem_cons.mp hmem with rfl | hmem
      · exact hissued
      · exact hs.known id hmem
    · intro t ht hmem
      rw [tables_unstage, htickets] at ht
      obtain ⟨t', ht', rfl⟩ := List.mem_map.mp ht
      split_ifs at hmem ⊢ with hsame
      · exact Option.some_ne_none _
      · rcases List.mem_cons.mp hmem with heq | hmem
        · exact absurd heq hsame
        · exact hs.consumed t' ht' hmem
    · exact List.nodup_cons.mpr ⟨hnew, hs.once⟩

theorem OncePerTicket.elsewhere (hs : s.OncePerTicket)
    (hfresh : ∀ ticket ∈ w.tables.tickets,
      ticket ∈ s.world.tables.tickets ∨ ticket.id ∉ s.issued) :
    OncePerTicket
      { s with world := w, issued := w.tables.tickets.map StagingTicket.id ++ s.issued } where
  issued ticket hticket := List.mem_append_left _ (List.mem_map_of_mem hticket)
  known id hid := List.mem_append_right _ (hs.known id hid)
  consumed ticket hticket hmem := by
    rcases hfresh ticket hticket with hold | hnew
    · exact hs.consumed ticket hold hmem
    · exact absurd (hs.known _ hmem) hnew
  once := hs.once

theorem OncePerTicket.step {label : StoreLabel} (hs : s.OncePerTicket)
    (h : StoreSteps libraries config s label s') : s'.OncePerTicket := by
  cases h with
  | waits h => exact hs.of_tickets (beginInstall_ok h).1.rows.tickets
  | refused h => exact hs.of_tickets (beginInstall_error h).1.rows.tickets
  | records _ h => exact hs.records h
  | fails _ h => exact hs.of_tickets (congrArg _ (finishInstall_error h).1)
  | elsewhere hfresh => exact hs.elsewhere hfresh

def initial (w : StoreWorld) : StoreRun where
  world := w
  issued := w.tables.tickets.map StagingTicket.id

theorem run_of_installed {w'' : StoreWorld} {package : PackageRow}
    (hbegin : beginInstall libraries config c w = (w', .ok p))
    (hfinish : finishInstall p outcome w' = (w'', .ok package)) :
    ∃ s, Run (StoreSteps libraries config) (initial w) [.started, .finished] s ∧
      s.recorded = [p.confirmation.ticketId] := by
  have hwaits : StoreSteps libraries config (initial w) .started
      { initial w with world := w', pending := [p] } := .waits hbegin
  have hrecords : StoreSteps libraries config { initial w with world := w', pending := [p] }
      .finished
      { initial w with
        world := w''
        pending := []
        recorded := [p.confirmation.ticketId] } :=
    @StoreSteps.records _ _ _ [] [] _ _ _ _ rfl hfinish
  exact ⟨_, .more hwaits (.single hrecords), rfl⟩

theorem oncePerTicket_initial (w : StoreWorld) : (initial w).OncePerTicket where
  issued _ hticket := List.mem_map_of_mem hticket
  known := by simp [initial]
  consumed := by simp [initial]
  once := List.nodup_nil

end StoreRun

def notesTicket : StagingTicket where
  id := "ticket"
  pluginId := "org.example.notes"
  version := "1.0.0"
  manifestHash := "sha256:".toList ++
    "8f489392d5505665d3fdb70be9bdf9e81280e68db7cec858388d80c8ea2c18aa".toList
  contentDigest := notesArchive.hashFile
  stagedPath := "/staging/inspect-1"
  signatureStatus := .verified
  publisherFingerprint := some ("sha256:".toList ++
    "139e3940e64b5491722088d9a0d741628fc826e09475d341a780acde3c4b8070".toList)
  expiresAt := 300

def notesStore : StoreWorld where
  tables := { tickets := [notesTicket] }
  staging := [(notesTicket.stagedPath, notesArchive)]

def notesConfirmation : Confirmation where
  ticketId := "ticket"
  acceptedPermissions := []
  trustPublisher := true
  approvedPublisherFingerprint := notesTicket.publisherFingerprint

def notesBegun : StoreWorld × Except PackageError PendingInstall :=
  beginInstall notesLibraries notesConfig notesConfirmation notesStore

theorem notes_loaded : loadLiveTicket notesConfirmation notesStore = .ok notesTicket := by rfl

theorem notes_revalidated {verified : VerifiedPackage}
    (hverified : notesLibraries.verifyAndExtract notesConfig notesArchive = .ok verified)
    (hnotes : verified.IsNotes) :
    revalidate notesLibraries notesConfig notesConfirmation notesTicket notesStore =
      .ok verified := by
  have hmatch : matchTicket notesTicket verified = .ok () :=
    ensure_eq_ok.mpr ⟨hnotes.id.symm, hnotes.version.symm, hnotes.manifestHash.symm,
      (PackageLibraries.verifyAndExtract_ok hverified).contentDigest.symm,
      hnotes.signatureStatus.symm, hnotes.fingerprint.symm⟩
  simp only [revalidate, bind_eq_ok, ensure_eq_ok, require_eq_ok]
  exact ⟨(), rfl, (), rfl, notesArchive, rfl, verified, hverified, (), hmatch, (),
    hnotes.permissions.symm, rfl⟩

theorem beginInstall_waits {libraries : PackageLibraries} {config : PackageStoreConfig}
    {c : Confirmation} {w : StoreWorld} {ticket : StagingTicket} {verified : VerifiedPackage}
    {publisherId : Option String} {tables : StoreTables}
    {installed : List (Destination × PackageContents)}
    (hload : loadLiveTicket c w = .ok ticket)
    (hrevalidate : revalidate libraries config c ticket w = .ok verified)
    (htrust : trustStep config c verified w.tables = .ok (publisherId, tables))
    (hcopy : installContents libraries c verified w.installed = .ok installed) :
    beginInstall libraries config c w = ({ w with tables := tables, installed := installed },
      .ok ⟨c, verified, publisherId, ticket.stagedPath⟩) := by
  unfold beginInstall
  rw [hload]
  simp only
  rw [hrevalidate]
  simp only
  rw [htrust]
  simp only
  rw [hcopy]

/-- The publisher of the package is trusted, and its contents are copied. -/
def notesWaiting (verified : VerifiedPackage) : StoreWorld where
  tables := {
    tickets := [notesTicket]
    publishers := [{
      id := "publisher"
      name := verified.publisherName
      keyFingerprint := notesTicket.publisherFingerprint.getD []
      publicKey := notesPublicKey }] }
  staging := [(notesTicket.stagedPath, notesArchive)]
  installed := [(verified.destination, verified.contents)]

theorem notes_waits {verified : VerifiedPackage}
    (hverified : notesLibraries.verifyAndExtract notesConfig notesArchive = .ok verified)
    (hnotes : verified.IsNotes) :
    notesBegun = (notesWaiting verified,
      .ok ⟨notesConfirmation, verified, some "publisher", notesTicket.stagedPath⟩) := by
  have htrusted : trustStep notesConfig notesConfirmation verified notesStore.tables =
      .ok (some "publisher", (notesWaiting verified).tables) := by
    have hunknown : ∀ fingerprint,
        notesStore.tables.getPublisherByFingerprint fingerprint = none := fun _ => rfl
    simp only [trustStep, hnotes.fingerprint, trustedPublisher, hunknown, hnotes.publicKey,
      bind_eq_ok, ensure_eq_ok, require_eq_ok]
    exact ⟨(), rfl, _, ⟨(), rfl, (), rfl, _, rfl, rfl⟩, (), rfl, rfl⟩
  have hcopied : installContents notesLibraries notesConfirmation verified notesStore.installed =
      .ok (notesWaiting verified).installed := rfl
  exact beginInstall_waits notes_loaded (notes_revalidated hverified hnotes) htrusted hcopied

theorem notes_begun : ∃ p,
    beginInstall notesLibraries notesConfig notesConfirmation notesStore = (notesBegun.1, .ok p) ∧
      (finishInstall p (.imported none) notesBegun.1).2.toOption.isSome = true ∧
      notesBegun.1.tables.publishers ≠ [] ∧ notesBegun.1.now = 0 := by
  obtain ⟨verified, hverified, hnotes⟩ := notes_verified
  have hwaits := notes_waits hverified hnotes
  refine ⟨⟨notesConfirmation, verified, some "publisher", notesTicket.stagedPath⟩, ?_⟩
  rw [hwaits]
  exact ⟨hwaits, rfl, List.cons_ne_nil _ _, rfl⟩

theorem notes_raised (p : PendingInstall) : finishInstall p .raised notesBegun.1 =
    (notesBegun.1.unstage p.stagedPath, .error .other) := rfl

/-- A confirmation that raises changes no row but that of a publisher it was asked to trust, and
that only where a later step failed; unless its ticket could not be read, this cannot be confirmed
any more. However confirmations overlap, each ticket is recorded once at most. -/
theorem failed_install (libraries : PackageLibraries) (config : PackageStoreConfig) :
    (∀ c w w' error, beginInstall libraries config c w = (w', .error error) →
      InstallBegun libraries config c w w' ∧
        (w' = w ∧ loadLiveTicket c w = .error error ∨
          ∃ ticket, loadLiveTicket c w = .ok ticket ∧ w'.staged? ticket.stagedPath = none)) ∧
    (∀ c w w' p, beginInstall libraries config c w = (w', .ok p) →
      InstallBegun libraries config c w w' ∧ p.confirmation = c ∧
        ∃ ticket, loadLiveTicket c w = .ok ticket ∧ p.stagedPath = ticket.stagedPath) ∧
    (∀ p outcome w w' error, finishInstall p outcome w = (w', .error error) →
      w'.tables = w.tables ∧ w'.staged? p.stagedPath = none) ∧
    (∀ c ticket w, loadLiveTicket c w = .ok ticket → w.staged? ticket.stagedPath = none →
      ∃ error, beginInstall libraries config c w =
        (w.unstage ticket.stagedPath, .error error)) ∧
    ∀ w labels s, Run (StoreSteps libraries config) (StoreRun.initial w) labels s →
      s.recorded.Nodup := by
  refine ⟨?_, ?_, ?_, ?_, ?_⟩
  · intro c w w' error h
    exact beginInstall_error h
  · intro c w w' p h
    exact beginInstall_ok h
  · intro p outcome w w' error h
    exact finishInstall_error h
  · intro c ticket w hload hgone
    exact beginInstall_unstaged hload hgone
  · intro w labels s hrun
    have hinv := hrun.invariant (fun _ _ _ hs hstep => StoreRun.OncePerTicket.step hs hstep)
      (StoreRun.oncePerTicket_initial w)
    exact hinv.once

/-- If the import raises the ticket cannot be confirmed again; if it does not the package is
recorded, and this once. -/
theorem notes_installed : ∃ p, notesBegun = (notesBegun.1, .ok p) ∧
    notesStore.tables.RowsKept (notesBegun.1.unstage p.stagedPath).tables ∧
    (∃ error, beginInstall notesLibraries notesConfig notesConfirmation
      (notesBegun.1.unstage p.stagedPath) =
        ((notesBegun.1.unstage p.stagedPath).unstage notesTicket.stagedPath, .error error)) ∧
    ∃ s, Run (StoreSteps notesLibraries notesConfig) (StoreRun.initial notesStore)
      [.started, .finished] s ∧ s.recorded = ["ticket"] ∧ s.recorded.Nodup := by
  obtain ⟨p, hp, hrecorded, _, hnow⟩ := notes_begun
  obtain ⟨_, hbegin, hfinish, hretry, honce⟩ := failed_install notesLibraries notesConfig
  obtain ⟨hbegun, hconfirmation, ticket, hload, hpath⟩ := hbegin _ _ _ _ hp
  rw [notes_loaded] at hload
  cases hload
  obtain ⟨htables, hgone⟩ := hfinish _ _ _ _ _ (notes_raised p)
  refine ⟨p, hp, ?_, ?_, ?_⟩
  · rw [htables]
    exact hbegun.rows
  · apply hretry _ _ _ ?_ (hpath ▸ hgone)
    have htickets : notesBegun.1.tables.tickets = [notesTicket] := hbegun.rows.tickets
    rw [loadLiveTicket, StoreTables.getStagingTicket, tables_unstage, htickets]
    change (loadLiveTicket notesConfirmation { notesStore with now := notesBegun.1.now }) = _
    rw [hnow]
    exact notes_loaded
  · obtain ⟨package, hpackage⟩ := Option.isSome_iff_exists.mp hrecorded
    rw [toOption_eq_some] at hpackage
    have hfinished : finishInstall p (.imported none) notesBegun.1 =
        ((finishInstall p (.imported none) notesBegun.1).1, .ok package) :=
      Prod.ext_iff.mpr ⟨by rw [], hpackage⟩
    obtain ⟨s, hrun, hs⟩ := StoreRun.run_of_installed hp hfinished
    rw [hconfirmation] at hs
    exact ⟨s, hrun, hs, honce _ _ _ hrun⟩

/-- A confirmation that fails can leave a publisher trusted, and it takes what was staged away. -/
theorem import_failure_leaves_traces :
    (¬ ∀ libraries config c w w' p outcome w'' error,
      beginInstall libraries config c w = (w', .ok p) →
      finishInstall p outcome w' = (w'', .error error) →
      w''.tables.publishers = w.tables.publishers) ∧
    ¬ ∀ libraries config c w w' p outcome w'' error,
      beginInstall libraries config c w = (w', .ok p) →
      finishInstall p outcome w' = (w'', .error error) →
      w''.staged? p.stagedPath = w.staged? p.stagedPath := by
  obtain ⟨p, hp, _, htrusted, _⟩ := notes_begun
  constructor
  · intro h
    have hsame := h _ _ _ _ _ _ _ _ _ hp (notes_raised p)
    have hnone : notesStore.tables.publishers = [] := rfl
    rw [tables_unstage, hnone] at hsame
    exact htrusted hsame
  · intro h
    have hsame := h _ _ _ _ _ _ _ _ _ hp (notes_raised p)
    obtain ⟨_, _, ticket, hload, hpath⟩ := beginInstall_ok hp
    rw [notes_loaded] at hload
    cases hload
    have hstaged : notesStore.staged? notesTicket.stagedPath = some notesArchive := rfl
    rw [staged?_unstage, hpath, hstaged] at hsame
    cases hsame

end Plugins
end Matinier
