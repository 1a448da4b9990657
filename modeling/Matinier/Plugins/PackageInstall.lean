import Matinier.Plugins.PackageStore

/-!
# Confirming an installation

A package that was inspected is in a staging directory, and a ticket tells what it was found to be.
When the ticket is confirmed the package is verified again, its publisher is trusted, its contents
are copied and its image is imported; then the installation is recorded. Only the import is waited
for. The staging directory is removed on every way out.
-/

namespace Matinier
namespace Plugins

open JsonText

structure PublisherRow where
  id : String
  name : String
  keyFingerprint : List Char
  publicKey : String
  revoked : Bool := false
  deriving DecidableEq

structure PackageRow where
  id : String
  pluginId : String
  version : String
  contentDigest : List Char
  manifestHash : List Char
  imageDigest : List Char
  signatureStatus : SignatureStatus
  publisherId : Option String
  runtimeImageRef : Option String
  deriving DecidableEq

inductive InstallationStatus where
  | enabled
  | disabled
  deriving DecidableEq

structure InstallationRow where
  pluginId : String
  preferredPackageId : String
  status : InstallationStatus
  deriving DecidableEq

inductive PermissionStatus where
  | accepted
  | revoked
  deriving DecidableEq

structure PermissionRow where
  packageId : String
  permissionName : String
  status : PermissionStatus
  deriving DecidableEq

inductive LifecycleStatus where
  | installed
  | disabled
  | starting
  | ready
  | degraded
  | crashed
  | quarantined
  | incompatible
  deriving DecidableEq

structure RuntimeHealthRow where
  packageId : String
  status : LifecycleStatus
  crashCount : ℕ
  lastExitCode : Option ℤ
  quarantineReason : Option String
  deriving DecidableEq

structure StagingTicket where
  id : String
  pluginId : String
  version : String
  manifestHash : List Char
  contentDigest : List Char
  stagedPath : String
  signatureStatus : SignatureStatus
  publisherFingerprint : Option (List Char)
  expiresAt : ℤ
  consumedAt : Option ℤ := none
  deriving DecidableEq

structure StoreTables where
  publishers : List PublisherRow := []
  packages : List PackageRow := []
  installations : List InstallationRow := []
  permissions : List PermissionRow := []
  health : List RuntimeHealthRow := []
  tickets : List StagingTicket := []

/-- Where the contents of a package are copied to. -/
structure Destination where
  pluginId : String
  version : String
  contentDigest : List Char
  deriving DecidableEq

/-- The tables, the archives that are staged, the packages that were copied, and the time. -/
structure StoreWorld where
  tables : StoreTables
  staging : List (String × Archive) := []
  installed : List (Destination × PackageContents) := []
  now : ℤ := 0

namespace StoreWorld

variable (w : StoreWorld)

def staged? (path : String) : Option Archive :=
  (w.staging.find? fun entry => entry.1 = path).map Prod.snd

def unstage (path : String) : StoreWorld :=
  { w with staging := w.staging.filter fun entry => entry.1 ≠ path }

end StoreWorld

/-- Where something underneath can fail. -/
inductive InstallStage where
  | load
  | clear
  | extract
  | trust
  | trustCommit
  | copy
  | record
  | install
  | permissions
  | health
  | consume
  | commit
  deriving DecidableEq

structure InstallRequest where
  ticketId : String
  acceptedPermissions : List String
  trustPublisher : Bool := false
  approvedPublisherFingerprint : Option (List Char) := none

/-- One confirmation: what is asked for, where something fails, and the ids that rows are given. -/
structure Confirmation extends InstallRequest where
  faults : InstallStage → Bool := fun _ => false
  publisherId : String := "publisher"
  packageId : String := "package"

def Confirmation.check (c : Confirmation) (stage : InstallStage) : Except PackageError Unit :=
  ensure (c.faults stage = false) .other

namespace StoreTables

variable (tables : StoreTables)

def getStagingTicket (ticketId : String) : Option StagingTicket :=
  tables.tickets.find? fun ticket => ticket.id = ticketId

def getPublisherByFingerprint (fingerprint : List Char) : Option PublisherRow :=
  tables.publishers.find? fun row => row.keyFingerprint = fingerprint ∧ row.revoked = false

def trustPublisher (row : PublisherRow) : Except PackageError (PublisherRow × StoreTables) :=
  match tables.publishers.find? fun existing => existing.name = row.name with
  | some existing => do
    ensure (existing.keyFingerprint = row.keyFingerprint ∧ existing.publicKey = row.publicKey)
      (.value "publisher fingerprint is already pinned")
    ensure (existing.revoked = false) (.value "publisher key has been revoked")
    return (existing, tables)
  | none => do
    ensure (∀ existing ∈ tables.publishers, existing.keyFingerprint ≠ row.keyFingerprint)
      (.value "publisher fingerprint is already pinned to another name")
    return (row, { tables with publishers := tables.publishers ++ [row] })

end StoreTables

def loadLiveTicket (c : Confirmation) (w : StoreWorld) : Except PackageError StagingTicket := do
  c.check .load
  let ticket ← require (w.tables.getStagingTicket c.ticketId)
    (.inspection "staging ticket does not exist")
  ensure (ticket.consumedAt = none) (.inspection "staging ticket has already been consumed")
  ensure (w.now < ticket.expiresAt) (.inspection "staging ticket has expired")
  return ticket

def matchTicket (ticket : StagingTicket) (verified : VerifiedPackage) : Except PackageError Unit :=
  ensure (ticket.pluginId = verified.manifest.id ∧ ticket.version = verified.manifest.version ∧
      ticket.manifestHash = verified.manifestHash ∧
      ticket.contentDigest = verified.contentDigest ∧
      ticket.signatureStatus = verified.signatureStatus ∧
      ticket.publisherFingerprint = verified.publisherFingerprint)
    (.inspection "staged package no longer matches inspection ticket")

section

variable (libraries : PackageLibraries) (config : PackageStoreConfig) (c : Confirmation)

/-- The package of a ticket, verified again. -/
def revalidate (ticket : StagingTicket) (w : StoreWorld) :
    Except PackageError VerifiedPackage := do
  c.check .clear
  c.check .extract
  let archive ← require (w.staged? ticket.stagedPath) .other
  let verified ← libraries.verifyAndExtract config archive
  matchTicket ticket verified
  ensure (c.acceptedPermissions.dedup.insertionSort (· ≤ ·) = verified.manifest.permissions)
    (.inspection "accepted permissions must match the inspected permission request")
  return verified

/-- The publisher with a fingerprint, which becomes trusted if this was asked for. -/
def trustedPublisher (verified : VerifiedPackage) (fingerprint : List Char)
    (tables : StoreTables) : Except PackageError (PublisherRow × StoreTables) :=
  match tables.getPublisherByFingerprint fingerprint with
  | some publisher => .ok (publisher, tables)
  | none => do
    ensure (c.trustPublisher = true)
      (.inspection "publisher is not trusted; explicit trust is required")
    ensure (c.approvedPublisherFingerprint = some fingerprint)
      (.inspection "approved publisher fingerprint does not match")
    let publicKey ← require verified.publisherPublicKey .other
    tables.trustPublisher {
      id := c.publisherId
      name := verified.publisherName
      keyFingerprint := fingerprint
      publicKey := publicKey }

/-- Find or trust the publisher of a package, and commit this. -/
def trustStep (verified : VerifiedPackage) (tables : StoreTables) :
    Except PackageError (Option String × StoreTables) :=
  match verified.publisherFingerprint with
  | some fingerprint => do
    c.check .trust
    let (publisher, trusted) ← trustedPublisher c verified fingerprint tables
    c.check .trustCommit
    return (some publisher.id, trusted)
  | none => do
    ensure (config.allowUnsigned = true) (.inspection "unsigned plugin packages are disabled")
    return (none, tables)

def VerifiedPackage.destination (verified : VerifiedPackage) : Destination :=
  ⟨verified.manifest.id, verified.manifest.version, verified.contentDigest⟩

/-- Copy a package to where it is installed, unless it is there already. -/
def installContents (verified : VerifiedPackage)
    (installed : List (Destination × PackageContents)) :
    Except PackageError (List (Destination × PackageContents)) := do
  c.check .copy
  match installed.find? fun entry => entry.1 = verified.destination with
  | some entry => do
    let raw ← require (entry.2.file? manifestPath) .other
    let value ← require (libraries.loads raw) (.value "")
    ensure (libraries.digest (canonicalJsonBytes value) = verified.manifestHash)
      (.inspection "immutable package destination was modified")
    return installed
  | none => return installed ++ [(verified.destination, verified.contents)]

end

/-- A confirmation that waits for its image. -/
structure PendingInstall where
  confirmation : Confirmation
  verified : VerifiedPackage
  publisherId : Option String
  stagedPath : String

/-- A confirmation until it waits for the image, or until it raises. -/
def beginInstall (libraries : PackageLibraries) (config : PackageStoreConfig) (c : Confirmation)
    (w : StoreWorld) : StoreWorld × Except PackageError PendingInstall :=
  match loadLiveTicket c w with
  | .error error => (w, .error error)
  | .ok ticket =>
    match revalidate libraries config c ticket w with
    | .error error => (w.unstage ticket.stagedPath, .error error)
    | .ok verified =>
      match trustStep config c verified w.tables with
      | .error error => (w.unstage ticket.stagedPath, .error error)
      | .ok (publisherId, tables) =>
        match installContents libraries c verified w.installed with
        | .error error =>
          ({ w with tables := tables }.unstage ticket.stagedPath, .error error)
        | .ok installed =>
          ({ w with tables := tables, installed := installed },
            .ok ⟨c, verified, publisherId, ticket.stagedPath⟩)

/-- What comes of importing an image. -/
inductive ImportOutcome where
  | imported (imageRef : Option String)
  | invalidReference
  | raised

def ImportOutcome.imageRef : ImportOutcome → Except PackageError (Option String)
  | .imported imageRef => .ok imageRef
  | .invalidReference => .error (.inspection "image importer returned an invalid image reference")
  | .raised => .error .other

namespace StoreTables

variable (tables : StoreTables)

def getPackage (pluginId version : String) : Option PackageRow :=
  tables.packages.find? fun row => row.pluginId = pluginId ∧ row.version = version

def recordPackage (row : PackageRow) : Except PackageError (PackageRow × StoreTables) :=
  match tables.getPackage row.pluginId row.version with
  | some existing => do
    ensure (existing.contentDigest = row.contentDigest)
      (.value "installed plugin versions are immutable")
    return (existing, tables)
  | none => do
    ensure (∀ existing ∈ tables.packages, existing.contentDigest ≠ row.contentDigest) .other
    return (row, { tables with packages := tables.packages ++ [row] })

def ensureInstallation (row : InstallationRow) : StoreTables :=
  if ∃ existing ∈ tables.installations, existing.pluginId = row.pluginId then tables
  else { tables with installations := tables.installations ++ [row] }

def replaceBasePermissions (packageId : String) (permissions : List String) : StoreTables :=
  { tables with permissions :=
      (tables.permissions.filter fun row => row.packageId ≠ packageId) ++
        (permissions.dedup.insertionSort (· ≤ ·)).map fun name => ⟨packageId, name, .accepted⟩ }

def recordRuntimeStatus (packageId : String) (status : LifecycleStatus) : StoreTables :=
  if ∃ row ∈ tables.health, row.packageId = packageId then
    { tables with health := tables.health.map fun row =>
        if row.packageId = packageId then
          { row with status := status, lastExitCode := none, quarantineReason := none }
        else row }
  else { tables with health := tables.health ++ [⟨packageId, status, 0, none, none⟩] }

def consumeStagingTicket (ticketId : String) (now : ℤ) : Except PackageError StoreTables := do
  let ticket ← require (tables.getStagingTicket ticketId)
    (.value "staging ticket does not exist")
  ensure (ticket.consumedAt = none) (.value "staging ticket has already been consumed")
  ensure (now < ticket.expiresAt) (.value "staging ticket has expired")
  return { tables with tickets := tables.tickets.map fun ticket =>
    if ticket.id = ticketId then { ticket with consumedAt := some now } else ticket }

end StoreTables

/-- The transaction that records an installation and consumes its ticket. -/
def recordInstall (p : PendingInstall) (outcome : ImportOutcome) (now : ℤ) (tables : StoreTables) :
    Except PackageError (PackageRow × StoreTables) := do
  let imageRef ← outcome.imageRef
  let c := p.confirmation
  let manifest := p.verified.manifest
  c.check .record
  let (package, tables) ← tables.recordPackage {
    id := c.packageId
    pluginId := manifest.id
    version := manifest.version
    contentDigest := p.verified.contentDigest
    manifestHash := p.verified.manifestHash
    imageDigest := p.verified.imageDigest
    signatureStatus := p.verified.signatureStatus
    publisherId := p.publisherId
    runtimeImageRef := imageRef }
  c.check .install
  let tables := tables.ensureInstallation ⟨manifest.id, package.id, .disabled⟩
  c.check .permissions
  let tables := tables.replaceBasePermissions package.id manifest.permissions
  c.check .health
  let tables := tables.recordRuntimeStatus package.id .installed
  c.check .consume
  let tables ← tables.consumeStagingTicket c.ticketId now
  c.check .commit
  return (package, tables)

/-- A confirmation from where its image is there, or could not be imported, to its end. -/
def finishInstall (p : PendingInstall) (outcome : ImportOutcome) (w : StoreWorld) :
    StoreWorld × Except PackageError PackageRow :=
  match recordInstall p outcome w.now w.tables with
  | .error error => (w.unstage p.stagedPath, .error error)
  | .ok (package, tables) => ({ w with tables := tables }.unstage p.stagedPath, .ok package)

end Plugins
end Matinier
