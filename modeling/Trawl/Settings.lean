import Trawl.Content.Classification
import Trawl.Json.Value
import Trawl.Reassembly.Pool

/-!
# Settings

Everything about a capture that can be set, with its default. Most settings are counts; they are
listed in one table, from which they are read, checked and shown.
-/

namespace Trawl

/-- What happens to the capture when a predicate fails. -/
inductive FailurePolicy where
  /-- Capturing stops and every queue closes. -/
  | stopCapture
  /-- Only the output stops; capturing goes on. -/
  | keepCapturing
  deriving DecidableEq, Repr

/-- The settings of a capture. Times are in milliseconds. -/
structure Settings where
  /-- How many bytes of a record are kept. -/
  snapshotLength : Nat := 65536
  readTimeout : Nat := 250
  /-- How many items a queue holds. -/
  queueCapacity : Nat := 1000
  dispatchInterval : Nat := 1000
  /-- How many items are passed on at a time. -/
  dispatchBurst : Nat := 1000
  /-- How often idle flows are looked for. -/
  flushInterval : Nat := 1000
  /-- How long a flow has to be silent to be idle. -/
  idleTimeout : Nat := 5000
  /-- The ceilings on waiting pages. -/
  pages : Reassembly.Limits := ⟨500, 100000⟩
  classifier : Content.Limits := ⟨5, 50 * 1024 * 1024⟩
  onPredicateFailure : FailurePolicy := .stopCapture
  deriving DecidableEq, Repr

/-- The one thing that can be wrong with settings: a count that has to be positive is zero. -/
structure SettingsFault where
  /-- The name of the setting. -/
  setting : String
  deriving DecidableEq, Repr

/-- The wording of a fault. -/
def SettingsFault.message (f : SettingsFault) : String :=
  f.setting ++ " must be greater than zero"

/-- A count that can be set. -/
structure Count (σ : Type) where
  name : String
  get : σ → Nat
  set : Nat → σ → σ

namespace Settings

/-- The names of the policies. -/
def policyNames : List (String × FailurePolicy) :=
  [("stop_capture", .stopCapture), ("keep_capturing", .keepCapturing)]

/-- The limits of classification. -/
def classifierCounts : List (Count Content.Limits) :=
  [⟨"max_unwrap_depth", (·.unwraps), fun n l => { l with unwraps := n }⟩,
    ⟨"max_decompressed_bytes", (·.decompressed), fun n l => { l with decompressed := n }⟩]

/-- The counts, in the order in which they are listed. -/
def counts : List (Count Settings) :=
  [⟨"snapshot_length", (·.snapshotLength), fun n s => { s with snapshotLength := n }⟩,
    ⟨"read_timeout_ms", (·.readTimeout), fun n s => { s with readTimeout := n }⟩,
    ⟨"queue_capacity", (·.queueCapacity), fun n s => { s with queueCapacity := n }⟩,
    ⟨"dispatch_interval_ms", (·.dispatchInterval), fun n s => { s with dispatchInterval := n }⟩,
    ⟨"dispatch_burst", (·.dispatchBurst), fun n s => { s with dispatchBurst := n }⟩,
    ⟨"flush_interval_ms", (·.flushInterval), fun n s => { s with flushInterval := n }⟩,
    ⟨"flow_idle_timeout_ms", (·.idleTimeout), fun n s => { s with idleTimeout := n }⟩,
    ⟨"max_buffered_pages_per_flow", (·.pages.perStream),
      fun n s => { s with pages := { s.pages with perStream := n } }⟩,
    ⟨"max_buffered_pages_total", (·.pages.total),
      fun n s => { s with pages := { s.pages with total := n } }⟩]

/-- The names of the two settings that are no counts. -/
def classifierName : String := "classifier"
def policyName : String := "on_predicate_error"

/-- The counts that have to be positive, by name: all but the nesting of decompressions, which may be
forbidden. -/
def positives (s : Settings) : List (String × Nat) :=
  counts.map (fun count => (count.name, count.get s)) ++
    [(classifierName ++ ".max_decompressed_bytes", s.classifier.decompressed)]

/-- The first fault of settings. -/
def fault? (s : Settings) : Option SettingsFault :=
  (s.positives.find? (·.2 = 0)).map fun entry => ⟨entry.1⟩

/-- The name of a policy. -/
def policyText (policy : FailurePolicy) : String :=
  ((policyNames.find? (·.2 = policy)).map (·.1)).getD ""

/-- Settings as a JSON value. -/
def document (s : Settings) : Json :=
  .object (counts.map (fun count => (count.name, Json.number (count.get s))) ++
    [(classifierName, .object (classifierCounts.map fun count =>
        (count.name, .number (count.get s.classifier)))),
      (policyName, .text (policyText s.onPredicateFailure))])

end Settings

end Trawl
