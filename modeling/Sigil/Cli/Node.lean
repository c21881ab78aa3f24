import Sigil.Api.AlertRing
import Sigil.Index.Upkeep
import Sigil.Ingest.Codec
import Sigil.Ingest.Template
import Sigil.Normalize.Normalizer
import Sigil.Sigma.Live

namespace Sigil
namespace Cli

/-!
# The loop of a node

One loop takes what comes first: a frame of an input, an event of the agent gateway, one of three
timers, the end of the inputs or the signal to stop.  Events are decoded, normalized, enriched and
given a template, then looked at by the detection path and put into the hot index and into the
buffer of the cold tier.  The buffer becomes a segment when it is full, when its timer fires and
when the node stops.

The loop is left with an error when the hot index or the cold tier cannot be written, or when a
retention call fails; a migration that fails is only logged.  A record that makes the normalizer
panic ends the process as well.
-/

open Sigil.Core Sigil.Index Sigil.Ingest Sigil.Normalize Sigil.Sigma Sigil.Api

/-- The hot tier: what has been committed, and what has been added since. -/
structure EventIndex where
  committed : List Event
  pending : List Event

namespace EventIndex

def add (index : EventIndex) (event : Event) : EventIndex :=
  { index with pending := index.pending ++ [event] }

def commit (index : EventIndex) : EventIndex where
  committed := index.committed ++ index.pending
  pending := []

def documents (index : EventIndex) : List Event :=
  index.committed ++ index.pending

@[simp] theorem documents_add (index : EventIndex) (event : Event) :
    (index.add event).documents = index.documents ++ [event] :=
  (List.append_assoc _ _ _).symm

@[simp] theorem documents_commit (index : EventIndex) :
    index.commit.documents = index.documents :=
  List.append_nil _

end EventIndex

/-- The buffer is rolled at this many events. -/
def rollMax : Nat := 2000

theorem rollMax_pos : 0 < rollMax := by
  decide

/-- A raw frame on its way from an input to the pipeline. -/
structure RawFrame where
  codecKind : String
  shouldIndex : Bool
  shouldSigma : Bool
  bytes : List UInt8

/-- What is built from the configuration and does not change while the node runs. -/
structure Parts where
  json : JsonText
  decoders : Decoders
  tables : CaseTables
  normalizer : Normalizer
  chain : Event → Event
  detectors : Event → List Alert
  fingerprint : Alert → String
  sigmaActive : Bool
  servesLong : Bool
  retention : Option Int
  warm : Option Int

/-- What one event meets: a fresh identifier, the readings of the clock, whether the hot index
takes it, and how a roll would end. -/
structure Outside where
  id : String
  now : Int
  clock : Int
  recorded : Nat → Int
  added : Bool
  rolled : Int64
  created : Int64
  faults : Faults

inductive Phase where
  | running
  | stopped
  | failed
  deriving DecidableEq, Repr

section Node

variable (lib : Libraries)

/-- The state of the loop. -/
structure Node where
  engine : SigmaEngine lib
  correlations : CorrelationEngine
  miner : TemplateMiner
  alerts : AlertStore
  emitted : List Alert
  hot : EventIndex
  machine : Machine
  buffer : List Event
  dirty : Nat
  inputsOpen : Bool
  phase : Phase

/-- How the last writes of the loop end. -/
structure LastWrites where
  committed : Bool
  rolled : Int64
  created : Int64
  faults : Faults

/-- What the loop waits for, and the calls of the API that touch what the loop uses. -/
inductive Turn where
  | frame (frame : RawFrame) (outside : Nat → Outside)
  | drained (last : LastWrites)
  | telemetry (event : Event) (outside : Outside)
  | commitTick (committed : Bool)
  | rolloverTick (rolled created : Int64) (faults : Faults)
  | retentionTick (now : Int) (dropping : Outages) (later : Int) (moving : Outages)
  | ctrlC (last : LastWrites)
  | edit (engine : SigmaEngine lib)
  | patch (fp : String) (patch : Storage.AlertPatch) (now : Int)

end Node

section Loop

variable {lib : Libraries} (parts : Parts)

/-! ## One event -/

/-- Normalize and enrich records, or panic on one of them. -/
def normalizeAll (codecKind : String) (outside : Nat → Outside) :
    Nat → List Record → Option (List Event)
  | _, [] => some []
  | n, record :: records =>
      (parts.normalizer.normalize parts.tables (outside n).id (outside n).now record codecKind).bind
        fun event => (normalizeAll codecKind outside (n + 1) records).map fun events =>
          parts.chain event :: events

/-- Decode, normalize and enrich one frame. -/
def decodeNormalize (frame : RawFrame) (outside : Nat → Outside) : Option (List Event) :=
  normalizeAll parts frame.codecKind outside 0 (decode parts.decoders frame.codecKind frame.bytes)

namespace Node

variable (node : Node lib)

/-- Give an event the template of its message. -/
def mine (event : Event) : Node lib × Event :=
  let (mined, miner) := node.miner.mine singleRatio event.message
  ({ node with miner := miner }, { event with templateId := some (.ofNat mined.templateId) })

/-- Record alerts one after another. -/
def record (recorded : Nat → Int) : Nat → AlertStore → List Alert → AlertStore
  | _, alerts, [] => alerts
  | n, alerts, alert :: rest =>
      record recorded (n + 1) (alerts.push parts.fingerprint (recorded n) alert) rest

/-- Run the rules, the correlations and the custom detectors over one event, and record and emit
the alerts. -/
def detect (event : Event) (outside : Outside) : Node lib :=
  let (correlations, detected) :=
    Sigma.detect node.engine node.correlations parts.detectors event outside.clock
  { node with
    correlations := correlations
    alerts := record parts outside.recorded 0 node.alerts detected.alerts
    emitted := node.emitted ++ detected.alerts }

/-- Flush the buffer of the cold tier into a segment. -/
def roll (rolled created : Int64) (faults : Faults) : Except (Node lib) (Node lib) :=
  match node.machine.roll faults parts.json node.buffer rolled created with
  | (machine, buffer, .ok _) => .ok { node with machine := machine, buffer := buffer }
  | (machine, buffer, .error _) =>
      .error { node with machine := machine, buffer := buffer, phase := .failed }

/-- Put an event into both tiers. -/
def store (event : Event) (outside : Outside) : Except (Node lib) (Node lib) :=
  if outside.added then
    let node := { node with
      hot := node.hot.add event
      dirty := node.dirty + 1
      buffer := node.buffer ++ [event] }
    if rollMax ≤ node.buffer.length then
      node.roll parts outside.rolled outside.created outside.faults
    else .ok node
  else .error { node with phase := .failed }

/-- Handle one event of the pipeline. -/
def handle (shouldSigma shouldIndex : Bool) (event : Event) (outside : Outside) :
    Except (Node lib) (Node lib) :=
  let (node, event) := node.mine event
  let node := if shouldSigma then node.detect parts event outside else node
  if shouldIndex then node.store parts event outside else .ok node

/-- Handle the events of a frame. -/
def handleAll (shouldSigma shouldIndex : Bool) (outside : Nat → Outside) :
    Nat → Node lib → List Event → Except (Node lib) (Node lib)
  | _, node, [] => .ok node
  | n, node, event :: events =>
      (node.handle parts shouldSigma shouldIndex event (outside n)).bind fun node =>
        handleAll shouldSigma shouldIndex outside (n + 1) node events

/-! ## One turn of the loop -/

/-- The node after a step that may fail. -/
def settle : Except (Node lib) (Node lib) → Node lib
  | .ok node => node
  | .error node => node

/-- Commit the hot index. -/
def commit (committed : Bool) : Except (Node lib) (Node lib) :=
  if committed then .ok { node with hot := node.hot.commit, dirty := 0 }
  else .error { node with phase := .failed }

/-- Commit and roll a last time after the loop. -/
def finish (last : LastWrites) : Node lib :=
  settle ((node.commit last.committed).bind fun node =>
    (node.roll parts last.rolled last.created last.faults).map fun node =>
      { node with phase := .stopped })

/-- Drop what is too old, then move what is old enough. -/
def upkeep (now : Int) (dropping : Outages) (later : Int) (moving : Outages) : Node lib :=
  let dropped : Except (Node lib) (Node lib) :=
    match parts.retention with
    | none => .ok node
    | some maxAge =>
        match node.machine.enforceRetention dropping now maxAge with
        | (machine, .ok _) => .ok { node with machine := machine }
        | (machine, .error _) => .error { node with machine := machine, phase := .failed }
  settle (dropped.map fun node =>
    match parts.warm with
    | none => node
    | some warmAge =>
        { node with machine := (node.machine.migrateWarm moving later warmAge).1 })

/-- One turn of a node that is running. -/
def advance : Turn lib → Node lib
  | .frame frame outside =>
      if node.inputsOpen then
        match decodeNormalize parts frame outside with
        | none => { node with phase := .failed }
        | some events =>
            settle (handleAll parts frame.shouldSigma frame.shouldIndex outside 0 node events)
      else node
  | .drained last =>
      let closed := { node with inputsOpen := false }
      if node.inputsOpen ∧ ¬ parts.servesLong then closed.finish parts last else closed
  | .telemetry event outside =>
      settle (node.handle parts parts.sigmaActive true event outside)
  | .commitTick committed => if 0 < node.dirty then settle (node.commit committed) else node
  | .rolloverTick rolled created faults => settle (node.roll parts rolled created faults)
  | .retentionTick now dropping later moving => node.upkeep parts now dropping later moving
  | .ctrlC last => node.finish parts last
  | .edit engine => { node with engine := engine }
  | .patch fp patch now => { node with alerts := node.alerts.patch now fp patch }

/-- A node that is not running any more does nothing. -/
def turn (turn : Turn lib) : Node lib :=
  if node.phase = .running then node.advance parts turn else node

/-- The node after some turns. -/
def run (turns : List (Turn lib)) : Node lib :=
  turns.foldl (turn parts) node

/-- A node on an empty disk. -/
def start (engine : SigmaEngine lib) (rules : List CompiledCorrelation) (simThreshold : Single)
    (cap : Nat) (coldDir : String) (archive : Option ObjectColdStore) : Node lib where
  engine := engine
  correlations := .new rules
  miner := .new simThreshold
  alerts := .fresh cap
  emitted := []
  hot := { committed := [], pending := [] }
  machine := { store := .new coldDir archive, torn := false }
  buffer := []
  dirty := 0
  inputsOpen := true
  phase := .running

end Node

end Loop

/-! ## Steps that may fail -/

section Ends

variable {lib : Libraries} {good better : Node lib → Prop}

/-- A step leads to a good node, or it leaves the loop with an error. -/
def Ends (good : Node lib → Prop) : Except (Node lib) (Node lib) → Prop
  | .ok node => good node
  | .error node => node.phase = .failed

theorem Ends.imp {result : Except (Node lib) (Node lib)} (ends : Ends good result)
    (implies : ∀ node, good node → better node) : Ends better result := by
  cases result with
  | ok node => exact implies node ends
  | error node => exact ends

theorem Ends.bind {result : Except (Node lib) (Node lib)}
    {next : Node lib → Except (Node lib) (Node lib)} (ends : Ends good result)
    (then_ : ∀ node, good node → Ends better (next node)) : Ends better (result.bind next) := by
  cases result with
  | ok node => exact then_ node ends
  | error node => exact ends

theorem Ends.map {result : Except (Node lib) (Node lib)} {change : Node lib → Node lib}
    (ends : Ends good result) (then_ : ∀ node, good node → better (change node)) :
    Ends better (result.map change) := by
  cases result with
  | ok node => exact then_ node ends
  | error node => exact ends

/-- A node that goes on after a step is good. -/
theorem Ends.settle {result : Except (Node lib) (Node lib)} (ends : Ends good result)
    (goesOn : (Node.settle result).phase ≠ .failed) : good (Node.settle result) := by
  cases result with
  | ok node => exact ends
  | error node => exact absurd ends goesOn

end Ends

end Cli
end Sigil
