import Matinier.CourseOrganizer.Events

/-!
# Course sessions

The state of a course session, what a batch of events, a window, a change of language, a final
document and a command make of it, what is stored of it, and the view that shows it.
-/

namespace Matinier
namespace CourseOrganizer

open Plugins (JsonEntries)

structure RealtimeNote where
  id : String
  noteType : String
  title : String
  body : String
  startMs : ℤ
  endMs : ℤ
  sourceSegmentIds : List String
  evidenceItemIds : List String
  confidenceStatus : String
  language : String
  relatedNoteIds : List String
  deriving DecidableEq

/-- The notes. The windows that were merged into them are kept here for the specification; the
plugin does not keep them. -/
structure CourseNotes where
  items : List RealtimeNote := []
  windows : List (List PendingEvent) := []
  deriving DecidableEq

inductive CourseStatus where
  | ready
  | processing
  | degraded
  deriving DecidableEq, Repr

inductive FinalStatus where
  | idle
  | generating
  | waitingRetry
  | ready
  deriving DecidableEq, Repr

structure HistoryEntry where
  documentId : String
  documentVersion : ℤ
  identityKey : String
  language : String
  trigger : String
  completeness : String
  contentHash : String
  label : String
  deriving DecidableEq

/-- What is stored of a session. -/
structure CourseRecord where
  lastSequence : ℤ := 0
  viewVersion : ℤ := 1
  outputLanguage : String := "zh-CN"
  status : CourseStatus := .ready
  pending : List PendingEvent := []
  notes : CourseNotes := {}
  finalDocumentMarkdown : String := ""
  history : List HistoryEntry := []
  finalStatus : FinalStatus := .idle
  finalError : Option String := none
  terminalTrigger : Option String := none
  terminalJobId : Option String := none
  terminalFinalSequence : ℤ := 0
  languageExplicit : Bool := false
  sourceLanguage : Option String := none
  translationLanguages : List String := []
  deriving DecidableEq

structure CourseState extends CourseRecord where
  stateVersion : ℕ := 0
  deriving DecidableEq

def lastItems {α : Type} (n : ℕ) (l : List α) : List α := l.drop (l.length - n)

def CourseState.toDict (s : CourseState) : CourseRecord :=
  { s.toCourseRecord with history := lastItems 50 s.history }

def CourseState.fromDict (cfg : RealtimeConfig) (stateVersion : ℕ) :
    Option CourseRecord → CourseState
  | none => { stateVersion := stateVersion }
  | some record =>
    { record with
      viewVersion := max 1 record.viewVersion
      notes := { record.notes with items := lastItems cfg.maxNotes record.notes.items }
      history := lastItems 50 record.history
      stateVersion := stateVersion }

/-- The state a session is opened with. -/
def restoredState (cfg : RealtimeConfig) (stateVersion : ℕ) (record : Option CourseRecord)
    (afterSequence : ℤ) : CourseState :=
  let s := CourseState.fromDict cfg stateVersion record
  { s with
    lastSequence := max s.lastSequence afterSequence
    status := if s.status = .processing then .degraded else s.status }

def pendingPrecedes (e e' : PendingEvent) : Prop :=
  e.startMs < e'.startMs ∨ e.startMs = e'.startMs ∧ e.streamKey ≤ e'.streamKey

instance : DecidableRel pendingPrecedes := fun _ _ => inferInstanceAs (Decidable (_ ∨ _))

/-- Have an event pending, unless its stream, of which at most one event is, has one that is not
older. -/
def mergePending (item : PendingEvent) (pending : List PendingEvent) : List PendingEvent :=
  let merged := if pending.any fun e => e.streamKey = item.streamKey then
      pending.map fun e =>
        if e.streamKey = item.streamKey ∧ e.revision < item.revision then item else e
    else pending ++ [item]
  merged.insertionSort pendingPrecedes

def CourseRecord.observeLanguage (r : CourseRecord) (item : PendingEvent) : CourseRecord :=
  if item.eventType = "transcript.final" then
    { r with
      sourceLanguage := some item.language
      outputLanguage := if ¬ r.languageExplicit ∧ r.translationLanguages = [] then item.language
        else r.outputLanguage }
  else
    let languages := if item.language ∈ r.translationLanguages then r.translationLanguages
      else r.translationLanguages ++ [item.language]
    { r with
      translationLanguages := languages
      outputLanguage := if r.languageExplicit then r.outputLanguage
        else languages.headD r.outputLanguage }

/-- What a session is run with: its media session, and how the job that ends it is named. -/
structure CourseConfig extends RealtimeConfig where
  mediaSessionId : String
  terminalJobId : String → String → ℤ → String → String

def terminalTrigger : String → Option String
  | "session.completed" => some "session_completed"
  | "session.failed" => some "session_failed"
  | "session.cancelled" => some "session_cancelled"
  | _ => none

/-- Note what ends the session, the first time. -/
def CourseRecord.noteTerminal (cfg : CourseConfig) (trigger : String) (r : CourseRecord) :
    CourseRecord :=
  if r.terminalJobId.isNone then
    { r with
      terminalTrigger := some trigger
      terminalJobId := some (cfg.terminalJobId cfg.mediaSessionId trigger r.lastSequence
        r.outputLanguage)
      terminalFinalSequence := r.lastSequence
      finalStatus := .generating
      finalError := none }
  else r

/-- Where the loop over the events of a batch is. -/
structure BatchProgress where
  record : CourseRecord
  changed : Bool := false
  scheduleTerminal : Bool := false

def takeEvent (cfg : CourseConfig) (terminalTask : Bool) (sequence : ℤ) (entries : JsonEntries)
    (b : BatchProgress) : BatchProgress × Bool :=
  if sequence ≤ b.record.lastSequence then (b, false)
  else
    let moved := { b with record := { b.record with lastSequence := sequence }, changed := true }
    match (JsonValue.lookup "event_type" entries).getD .null with
    | .str eventType =>
      if eventType = "transcript.final" ∨ eventType = "translation.final" then
        match pendingEvent entries with
        | none => (moved, true)
        | some item =>
          let merged := { moved.record with pending := mergePending item moved.record.pending }
          ({ moved with record := merged.observeLanguage item }, false)
      else match terminalTrigger eventType with
        | some trigger =>
          ({ moved with
            record := moved.record.noteTerminal cfg trigger
            scheduleTerminal := !terminalTask }, false)
        | none => (moved, false)
    | value => (moved, !hashable value)

def takeEvents (cfg : CourseConfig) (terminalTask : Bool) :
    List (ℤ × JsonEntries) → BatchProgress → BatchProgress × Bool
  | [], b => (b, false)
  | (sequence, entries) :: rest, b =>
    match takeEvent cfg terminalTask sequence entries b with
    | (b', true) => (b', true)
    | (b', false) => takeEvents cfg terminalTask rest b'

def numberedEvent : JsonValue → Option (ℤ × JsonEntries)
  | .obj entries => (eventSequence (.obj entries)).map fun sequence => (sequence, entries)
  | _ => none

def sequencePrecedes (e e' : ℤ × JsonEntries) : Prop := e.1 ≤ e'.1

instance : DecidableRel sequencePrecedes := fun e e' => inferInstanceAs (Decidable (e.1 ≤ e'.1))

/-- The events of a batch by their sequence; none if one of them has none. -/
def sortedEvents (events : List JsonValue) : Option (List (ℤ × JsonEntries)) :=
  (events.mapM numberedEvent).map (List.insertionSort sequencePrecedes)

def CourseRecord.windowReady? (cfg : CourseConfig) (r : CourseRecord) : Option Bool :=
  (preferredFragments r.pending r.outputLanguage).map (windowReady cfg.toRealtimeConfig)

/-- What a batch comes to before its state is stored: it raised, and left the state behind where it
was; there was nothing new in it; or there was, and a window or the end of the session is to be
scheduled once the state is stored. -/
inductive BatchOutcome where
  | raised (record : CourseRecord)
  | unchanged
  | changed (record : CourseRecord) (window : Option (List PendingEvent)) (terminal : Bool)
  deriving DecidableEq

/-- Take in a batch, with whether a window is under way and whether the task that ends the session
was ever made. -/
def eventBatch (cfg : CourseConfig) (background terminalTask : Bool) (events : List JsonValue)
    (r : CourseRecord) : BatchOutcome :=
  match sortedEvents events with
  | none => .raised r
  | some sorted =>
    match takeEvents cfg terminalTask sorted { record := r } with
    | (b, true) => .raised b.record
    | (b, false) =>
      if b.changed = false then .unchanged
      else if background then .changed b.record none b.scheduleTerminal
      else match b.record.windowReady? cfg with
        | none => .raised b.record
        | some isReady =>
          if isReady && !b.scheduleTerminal then
            .changed { b.record with status := .processing } (some b.record.pending)
              b.scheduleTerminal
          else .changed b.record none b.scheduleTerminal

def notePrecedes (n n' : RealtimeNote) : Prop :=
  n.startMs < n'.startMs ∨ n.startMs = n'.startMs ∧
    (n.endMs < n'.endMs ∨ n.endMs = n'.endMs ∧ n.id ≤ n'.id)

instance : DecidableRel notePrecedes := fun _ _ => inferInstanceAs (Decidable (_ ∨ _))

/-- Have a note under its identifier. -/
def putNote (notes : List RealtimeNote) (note : RealtimeNote) : List RealtimeNote :=
  if notes.any fun n => n.id = note.id then
    notes.map fun n => if n.id = note.id then note else n
  else notes ++ [note]

/-- Take a window out of what is pending and its notes in. -/
def CourseRecord.commitWindow (cfg : CourseConfig) (snapshot : List PendingEvent)
    (notes : List RealtimeNote) (status : CourseStatus) (replaceIds : List String)
    (r : CourseRecord) : CourseRecord :=
  let left := r.pending.filter fun e =>
    match snapshot.find? (fun s => s.streamKey = e.streamKey) with
    | none => true
    | some s => s.revision < e.revision
  let combined := notes.foldl putNote (r.notes.items.filter fun n => n.id ∉ replaceIds)
  { r with
    pending := left
    notes := ⟨lastItems cfg.maxNotes (combined.insertionSort notePrecedes),
      snapshot :: r.notes.windows⟩
    status := status
    viewVersion := r.viewVersion + 1 }

/-- Put the texts of a translation in the place of those of the notes. -/
def localizedNotes (language : String) (texts : List (String × String)) (notes : CourseNotes) :
    CourseNotes :=
  { notes with items := (notes.items.zip texts).map fun entry =>
      { entry.1 with title := entry.2.1, body := entry.2.2, language := language } }

def CourseRecord.writeLanguage (language : String) (localized : CourseNotes) (r : CourseRecord) :
    CourseRecord :=
  { r with
    notes := localized
    outputLanguage := language
    languageExplicit := true
    viewVersion := r.viewVersion + 1 }

def CourseRecord.recordFinalFailure (noCaptions : Bool) (r : CourseRecord) : CourseRecord :=
  { r with
    finalStatus := .waitingRetry
    finalError := some (if noCaptions then "当前课程没有可用于最终整理的字幕。"
      else "最终整理暂时失败，可稍后重试。")
    viewVersion := r.viewVersion + 1 }

def CourseRecord.recordFinalSuccess (entry : HistoryEntry) (markdown jobId : String)
    (r : CourseRecord) : CourseRecord :=
  { r with
    history := lastItems 50 (r.history ++ [entry])
    finalDocumentMarkdown := markdown
    finalStatus := .ready
    finalError := none
    terminalJobId := if r.terminalJobId = some jobId then none else r.terminalJobId
    terminalTrigger := if r.terminalJobId = some jobId then none else r.terminalTrigger
    viewVersion := r.viewVersion + 1 }

/-- A command starts to make the final document: for the end of the session once more, or now. -/
def CourseRecord.startFinal (terminalJobId : Option String) (r : CourseRecord) : CourseRecord :=
  { r with
    terminalJobId := terminalJobId.or r.terminalJobId
    finalStatus := .generating
    finalError := none
    viewVersion := r.viewVersion + 1 }

structure TimelineItem where
  id : String
  timeMs : ℤ
  title : String
  body : String
  deriving DecidableEq

structure HistoryItem where
  id : String
  primary : String
  secondary : String
  deriving DecidableEq

/-- What a view shows, without its fixed parts. -/
structure CourseView where
  languageLabel : String
  statusLabel : String
  statusTone : String
  timeline : List TimelineItem
  finalPreview : Option String
  history : List HistoryItem
  deriving DecidableEq

def CourseStatus.label : CourseStatus → String
  | .ready => "实时笔记已就绪"
  | .processing => "正在整理当前知识窗口"
  | .degraded => "模型暂不可用，已使用规则笔记并等待重试"

def CourseStatus.tone : CourseStatus → String
  | .ready => "success"
  | .processing => "info"
  | .degraded => "warning"

def timelineItem (index : ℕ) (note : RealtimeNote) : TimelineItem where
  id := truncated 128 ("timeline-" ++ toString index ++ "-" ++ note.id)
  timeMs := note.startMs
  title := truncated 500 ("[" ++ note.noteType ++ "] " ++ note.title)
  body := truncated 300 ("状态：" ++ note.confidenceStatus ++ " · " ++ note.body)

def historyItem (index : ℕ) (entry : HistoryEntry) : HistoryItem where
  id := truncated 128 ("history-" ++ toString index)
  primary := truncated 2000 entry.label
  secondary := "文档 ID：" ++ truncated 128 entry.documentId

def finalPreview (markdown : String) : Option String :=
  if markdown = "" then none
  else if 8000 < markdown.length then
    some (truncated 8000 markdown ++ "\n\n> 内容较长，请使用可信文档下载查看完整 Markdown/JSON。")
  else some markdown

/-- The view of a session, at its version. -/
def CourseRecord.view (r : CourseRecord) : CourseView where
  languageLabel := "应用语言：" ++ r.outputLanguage
  statusLabel := r.status.label
  statusTone := r.status.tone
  timeline := (lastItems 100 r.notes.items).mapIdx timelineItem
  finalPreview := finalPreview r.finalDocumentMarkdown
  history := (lastItems 50 r.history).mapIdx historyItem

/-- A view that the host has. -/
structure ViewRow where
  viewVersion : ℤ
  view : CourseView
  deriving DecidableEq

def ViewRow.accepts (row : Option ViewRow) (published : ViewRow) : Bool :=
  row.all fun row => row = published || row.viewVersion < published.viewVersion

end CourseOrganizer
end Matinier
