import Mathlib.Data.List.AList
import Sigil.Index.Catalog
import Sigil.Index.Columnar

namespace Sigil
namespace Index

/-!
# The columnar store

A batch of events becomes a Parquet file named after the clock and an entry of the
catalog.  A range is read from all segments whose times overlap it, from the archive when
the segment is cold and from the local file otherwise.
-/

open Sigil.Core

/-- The files of the store: the rows of each segment. -/
abbrev Files := AList fun _ : String => List Row

/-- The cold archive. -/
structure ObjectColdStore where
  keyStart : String
  objects : Files

/-- Where a segment lives inside the archive. -/
def ObjectColdStore.key (archive : ObjectColdStore) (segmentId : String) : String :=
  archive.keyStart ++ "/" ++ segmentId ++ ".parquet"

inductive IndexError where
  | openSegment (path : String)
  | objectStore (key : String)
  deriving DecidableEq, Repr

structure ColumnarStore where
  coldDir : String
  catalog : Catalog
  files : Files
  archive : Option ObjectColdStore

/-- The digits of a number in base sixteen, with leading zeros. -/
def hexDigits : (width : Nat) → Nat → List Char
  | 0, _ => []
  | width + 1, n => hexDigits width (n / 16) ++ [Json.hexDigit (n % 16)]

/-- The identifier of a segment that is written at some time. -/
def ulidLike (now : Int64) : String :=
  String.ofList ("seg-".toList ++ hexDigits 16 now.toUInt64.toNat)

/-- A file in a directory. -/
def join (dir name : String) : String :=
  if dir.isEmpty ∨ dir.toList.getLast? = some '/' then dir ++ name else dir ++ "/" ++ name

namespace ColumnarStore

/-- Open a store in an empty place. -/
def new (coldDir : String) (archive : Option ObjectColdStore) : ColumnarStore where
  coldDir := coldDir
  catalog := .open_ none
  files := ∅
  archive := archive

def segmentPath (store : ColumnarStore) (id : String) : String :=
  join store.coldDir (id ++ ".parquet")

/-- Create a segment file; an old file of the same name is truncated. -/
def createFile (store : ColumnarStore) (path : String) (rows : List Row) : ColumnarStore :=
  { store with files := store.files.insert path rows }

/-- Write a batch of events into a new segment and register it.  The clock is read for
the identifier and once more for the metadata. -/
def writeSegment (json : JsonText) (store : ColumnarStore) (events : List Event)
    (now created : Int64) :
    ColumnarStore × Option SegmentMeta :=
  if events.isEmpty then (store, none)
  else
    let id := ulidLike now
    let path := store.segmentPath id
    let written := store.createFile path (eventsToBatch json events)
    let minTs := ((events.map Event.ts).min?).getD 0
    let maxTs := ((events.map Event.ts).max?).getD 0
    let seg := segmentMeta id path minTs maxTs events.length created.toInt
    ({ written with catalog := written.catalog.add seg }, some seg)

/-- The rows of one segment, from the archive or from a local file. -/
def readRows (store : ColumnarStore) (seg : SegmentMeta) : Except IndexError (List Row) :=
  match seg.tier, store.archive with
  | .cold, some archive =>
      (archive.objects.lookup seg.path).elim (.error (.objectStore seg.path)) .ok
  | _, _ => (store.files.lookup seg.path).elim (.error (.openSegment seg.path)) .ok

/-- The events of one segment in a range. -/
def readInRange (json : JsonText) (store : ColumnarStore) (start stop : Int) (seg : SegmentMeta) :
    Except IndexError (List Event) := do
  let rows ← store.readRows seg
  return (batchIntoEvents json rows).filter fun e => start ≤ e.ts ∧ e.ts ≤ stop

/-- Every event with a time in the range. -/
def readRange (json : JsonText) (store : ColumnarStore) (start stop : Int) :
    Except IndexError (List Event) := do
  let parts ← (store.catalog.overlapping start stop).mapM (store.readInRange json start stop)
  return parts.flatten

def segmentCount (store : ColumnarStore) : Nat :=
  store.catalog.segments.length

def totalRows (store : ColumnarStore) : Nat :=
  store.catalog.totalRows

end ColumnarStore

end Index
end Sigil
