import Matinier.Foundation.Blanks
import Matinier.Foundation.Text

/-!
# Descriptions of Linear issues

What stands in the description of an issue that is made for a task, and the action key that is read
back from it.
-/

namespace Matinier
namespace TaskSystem

/-- What ends a line, besides a carriage return with a line feed. -/
def isLineBreak (c : Char) : Bool :=
  let n := c.toNat
  (10 ≤ n && n ≤ 13) || (28 ≤ n && n ≤ 30) || n = 0x85 || n = 0x2028 || n = 0x2029

def splitlines : List Char → List (List Char)
  | [] => []
  | '\r' :: '\n' :: rest => [] :: splitlines rest
  | c :: rest =>
    if isLineBreak c then [] :: splitlines rest
    else match splitlines rest with
      | [] => [[c]]
      | line :: lines => (c :: line) :: lines

/-- The characters besides the capital letters whose folding has an ASCII character. -/
def foldings : List (ℕ × List ℕ) :=
  [(0xdf, [0x73, 0x73]), (0x130, [0x69, 0x307]), (0x149, [0x2bc, 0x6e]), (0x17f, [0x73]),
    (0x1f0, [0x6a, 0x30c]), (0x1e96, [0x68, 0x331]), (0x1e97, [0x74, 0x308]),
    (0x1e98, [0x77, 0x30a]), (0x1e99, [0x79, 0x30a]), (0x1e9a, [0x61, 0x2be]),
    (0x1e9e, [0x73, 0x73]), (0x212a, [0x6b]), (0xfb00, [0x66, 0x66]), (0xfb01, [0x66, 0x69]),
    (0xfb02, [0x66, 0x6c]), (0xfb03, [0x66, 0x66, 0x69]), (0xfb04, [0x66, 0x66, 0x6c]),
    (0xfb05, [0x73, 0x74]), (0xfb06, [0x73, 0x74])]

/-- How a character is folded. Where nothing of it becomes ASCII it is left, since what is folded is
compared with ASCII texts only. -/
def foldChar (c : Char) : List Char :=
  match foldings.lookup c.toNat with
  | some folded => folded.map Char.ofNat
  | none => [c.toLower]

def casefold (text : List Char) : List Char := text.flatMap foldChar

structure LinearDraft where
  description : Option String
  sourceEvidenceIds : List String

/-- A draft as it can be made. -/
def LinearDraft.Admitted (draft : LinearDraft) : Prop :=
  (∀ description ∈ draft.description, description.length ≤ 20000) ∧
    1 ≤ draft.sourceEvidenceIds.length ∧ draft.sourceEvidenceIds.length ≤ 64 ∧
    draft.sourceEvidenceIds.Nodup

def maxDescriptionChars : ℕ := 20000

def evidenceMarker : List Char := "Matinier meeting evidence:".toList

def keyMarker : List Char := "matinier-action-key:".toList

def footerMarkers : List (List Char) :=
  ["meeting evidence:".toList, "matinier meeting evidence:".toList, keyMarker]

def isFooterLine (line : List Char) : Bool :=
  footerMarkers.any fun marker => marker.isPrefixOf (casefold (strip line))

def bodyLines (description : List Char) : List (List Char) :=
  ((splitlines description).filter fun line => !isFooterLine line).map rstrip

def keyLine (actionKey : String) : List Char := keyMarker ++ ' ' :: actionKey.toList

namespace LinearDraft

variable (draft : LinearDraft) (actionKey : String)

def body : List Char := strip (joinLines (bodyLines (draft.description.getD "").toList))

def evidenceIds : List Char := (", ".toList).intercalate (draft.sourceEvidenceIds.map String.toList)

def evidenceLines : List Char := "---\n".toList ++ (evidenceMarker ++ ' ' :: draft.evidenceIds)

def footer : List Char := draft.evidenceLines ++ '\n' :: keyLine actionKey

def boundedBody : List Char :=
  rstrip (draft.body.take (maxDescriptionChars - (draft.footer actionKey).length - 2))

def renderDescription : Option String :=
  if maxDescriptionChars < (draft.footer actionKey).length + 2 then none
  else
    let bounded := draft.boundedBody actionKey
    some (String.ofList (if bounded = [] then draft.footer actionKey
      else bounded ++ '\n' :: '\n' :: draft.footer actionKey))

end LinearDraft

def isActionKey (key : String) : Bool :=
  key.length = 64 && key.toList.all fun c => c.isDigit || ('a' ≤ c && c ≤ 'f')

/-- A character is that of a pattern, where case does not matter: the two letters i without and with
a dot of their own are taken for an i as well, the Kelvin sign for a k and the long s for an s. -/
def ignoringCase (c x : Char) : Bool :=
  x.toLower = c || (c = 'i' && (x.toNat = 0x130 || x.toNat = 0x131)) ||
    (c = 'k' && x.toNat = 0x212a) || (c = 's' && x.toNat = 0x17f)

/-- What is behind a text that a pattern is read from, where case does not matter. -/
def readLiteral : List Char → List Char → Option (List Char)
  | [], text => some text
  | c :: cs, x :: xs => if ignoringCase c x then readLiteral cs xs else none
  | _ :: _, [] => none

def isHexDigit (c : Char) : Bool :=
  c.isDigit || ('a' ≤ c.toLower && c.toLower ≤ 'f')

/-- Read the digits behind the marker: there are blanks before them, and nothing but blanks behind
them to the end of the line. -/
def readDigits (rest : List Char) : Option (List Char) :=
  let digits := rest.dropWhile isSpace
  let key := digits.take 64
  if key.length = 64 ∧ key.all isHexDigit = true ∧
      ((digits.drop 64).takeWhile fun c => c ≠ '\n').all isSpace = true then some key
  else none

def readKey (text : List Char) : Option (List Char) :=
  (readLiteral keyMarker text).bind readDigits

def extractActionKey (description : String) : Option String :=
  ((lineStarts description.toList).findSome? readKey).map String.ofList

/-- An issue whose description was rendered from a draft for a key. -/
structure RenderedIssue where
  draft : LinearDraft
  actionKey : String
  description : String
  isKey : isActionKey actionKey = true
  rendered : draft.renderDescription actionKey = some description

/-- What the tracker answers: the description of an issue that is made, and the issues that it finds
by a text, as many as it is asked for. -/
structure LinearTracker where
  made : RenderedIssue → String
  found : ℕ → List Char → List RenderedIssue

/-- The tracker has these issues, in some order, as they were made; it finds the first of those
whose description contains the text. -/
structure LinearTracker.Holds (tracker : LinearTracker) (issues : List RenderedIssue) : Prop where
  made : ∀ issue, tracker.made issue = issue.description
  found : ∀ limit text, tracker.found limit text =
    (issues.filter fun issue => text <:+: issue.description.toList).take limit

namespace LinearTracker

variable (tracker : LinearTracker)

/-- Make an issue. It is the one that was made only if what is answered has its key. -/
def create (issue : RenderedIssue) : Option RenderedIssue :=
  if extractActionKey (tracker.made issue) = some issue.actionKey then some issue else none

/-- Find the issues that were made for a key. One whose key is no key raises. -/
def reconcileCreate (limit : ℕ) (actionKey : String) : Option (List RenderedIssue) :=
  let answered := tracker.found limit (keyLine actionKey)
  if answered.all fun issue => (extractActionKey issue.description).all isActionKey then
    some (answered.filter fun issue => extractActionKey issue.description = some actionKey &&
      evidenceMarker <:+: issue.description.toList)
  else none

end LinearTracker

end TaskSystem
end Matinier
