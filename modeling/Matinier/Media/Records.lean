import Matinier.Meeting.CandidateContent

/-!
# Media records

Every query of the media tables is about one session, and every constraint is within one. The
rows are grouped by session here: what was said and translated in it, its media session, the
events of that and the offsets up to which its sources were projected.
-/

namespace Matinier
namespace Media

open Assistant
open Meeting (CaptionStatus)

inductive SessionStatus where
  | created
  | starting
  | running
  | finalizing
  | completed
  | failed
  | cancelled
  deriving DecidableEq, Repr

namespace SessionStatus

def name : SessionStatus → String
  | .created => "created"
  | .starting => "starting"
  | .running => "running"
  | .finalizing => "finalizing"
  | .completed => "completed"
  | .failed => "failed"
  | .cancelled => "cancelled"

end SessionStatus

/-- The code of a supported language. -/
structure LanguageCode where
  value : String
  no_colon : ':' ∉ value.toList
  deriving DecidableEq

structure SessionRecord where
  id : SessionId
  sourceType : String := "room"
  status : SessionStatus := .created
  stopReason : Option String := none
  createdAt : Instant := 0
  endedAt : Option Instant := none

structure SegmentRecord where
  id : ℕ
  segmentId : String
  trackId : String
  revision : ℕ
  language : String
  displayText : String
  audioStartMs : Option ℤ := none
  audioEndMs : Option ℤ := none
  confidence : Option ℚ := none
  status : CaptionStatus := .final
  finalizedAt : Instant := 0

structure TranslationSegmentRecord where
  id : ℕ
  segmentId : String
  revision : ℕ
  sourceLanguage : String
  targetLanguage : LanguageCode
  text : String
  audioStartMs : Option ℤ := none
  audioEndMs : Option ℤ := none
  sourceSegmentIds : List String := []
  status : CaptionStatus := .final
  finalizedAt : Instant := 0

inductive EventFinality where
  | draft
  | final
  | derived
  deriving DecidableEq, Repr

inductive EventPayload where
  | transcript (text language trackId : String) (confidence : Option ℚ) (sessionId : SessionId)
      (segmentId : String) (recordId : ℕ)
  | translation (text sourceLanguage targetLanguage : String) (sourceSegmentIds : List String)
      (sessionId : SessionId) (segmentId : String) (recordId : ℕ)
  | session (sessionId : SessionId) (status : SessionStatus) (stopReason : Option String)
  deriving DecidableEq

/-- An event in the log of a media session. -/
structure MediaEventRecord where
  sequence : ℕ
  eventType : String
  mediaTimeMs : Option ℤ
  durationMs : Option ℤ
  logicalId : String
  revision : ℕ
  finality : EventFinality
  source : String
  payload : EventPayload
  createdAt : Instant

inductive MediaMode where
  | live
  | playback
  deriving DecidableEq, Repr

inductive MediaStatus where
  | active
  | completed
  | failed
  | cancelled
  deriving DecidableEq, Repr

structure MediaSessionRecord where
  mode : MediaMode := .live
  sourceKind : String
  status : MediaStatus
  nextSequence : ℕ := 1

/-- The revision of a source up to which it was projected. -/
structure MediaBridgeOffsetRecord where
  sourceTable : String
  sourceType : String
  sourceLogicalId : String
  processedRevision : ℕ

instance : Row SegmentRecord String Empty where
  key := SegmentRecord.segmentId
  unique _ := none

instance : Row TranslationSegmentRecord (LanguageCode × String) Empty where
  key t := (t.targetLanguage, t.segmentId)
  unique _ := none

instance : Row MediaEventRecord ℕ (String × String × ℕ) where
  key := MediaEventRecord.sequence
  unique e := some (e.source, e.logicalId, e.revision)

instance : Row MediaBridgeOffsetRecord (String × String × String) Empty where
  key o := (o.sourceTable, o.sourceType, o.sourceLogicalId)
  unique _ := none

/-- The rows of one session. -/
structure SessionMedia where
  legacy : SessionRecord
  segments : Table SegmentRecord := .empty
  translations : Table TranslationSegmentRecord := .empty
  bridge : Option MediaSessionRecord := none
  events : Table MediaEventRecord := .empty
  offsets : Table MediaBridgeOffsetRecord := .empty

instance : Row SessionMedia SessionId Empty where
  key m := m.legacy.id
  unique _ := none

abbrev MediaDb := Table SessionMedia

end Media
end Matinier
