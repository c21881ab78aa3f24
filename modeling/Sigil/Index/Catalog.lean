import Sigil.Core.Event

namespace Sigil
namespace Index

/-!
# The segment catalog

The catalog keeps the metadata of every segment, in memory and in a file.  A query only
reads the segments whose times overlap its range.
-/

open Sigil.Core

/-- Storage tier of a segment. -/
inductive Tier where
  | hot
  | warm
  | cold
  deriving DecidableEq, Repr

/-- Metadata of one segment. -/
structure SegmentMeta where
  id : String
  path : String
  tier : Tier
  minTs : Int
  maxTs : Int
  rows : Nat
  createdTs : Int
  deriving DecidableEq, Repr

/-- The catalog in memory, and what its file holds. -/
structure Catalog where
  segments : List SegmentMeta
  file : Option (List SegmentMeta)
  deriving DecidableEq, Repr

namespace Catalog

/-- Open the catalog with the entries of its file. -/
def open_ (file : Option (List SegmentMeta)) : Catalog where
  segments := file.getD []
  file := file

def save (catalog : Catalog) : Catalog :=
  { catalog with file := some catalog.segments }

/-- Register a new segment and persist. -/
def add (catalog : Catalog) (seg : SegmentMeta) : Catalog :=
  save { catalog with segments := catalog.segments ++ [seg] }

def totalRows (catalog : Catalog) : Nat :=
  (catalog.segments.map SegmentMeta.rows).sum

/-- The segments that a scan of the range must read. -/
def overlapping (catalog : Catalog) (start stop : Int) : List SegmentMeta :=
  catalog.segments.filter fun s => s.minTs ≤ stop ∧ start ≤ s.maxTs

/-- The segments older than an age, by their latest event. -/
def expired (catalog : Catalog) (now maxAge : Int) : List SegmentMeta :=
  catalog.segments.filter fun s => maxAge < toI64 (now - s.maxTs)

/-- Move the first segment of an identifier to another tier and place. -/
def migrate (id : String) (tier : Tier) (path : String) : List SegmentMeta → List SegmentMeta
  | [] => []
  | seg :: rest =>
      if seg.id = id then { seg with tier := tier, path := path } :: rest
      else seg :: migrate id tier path rest

end Catalog

/-- Metadata of a freshly written segment. -/
def segmentMeta (id path : String) (minTs maxTs : Int) (rows : Nat) (created : Int) :
    SegmentMeta where
  id := id
  path := path
  tier := .warm
  minTs := minTs
  maxTs := maxTs
  rows := rows
  createdTs := created

end Index
end Sigil
