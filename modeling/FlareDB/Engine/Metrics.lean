import FlareDB.Coders.Standard
import FlareDB.Lib.KeyedFold
import FlareDB.Lib.Results
import Mathlib.Data.Finset.Sort
import Mathlib.Data.Prod.Lex
import Mathlib.Data.String.Basic
import Mathlib.Data.List.Lex

/-! Metrics of a job. Each report of a bundle is folded into the entry of its
urn, type and labels, whose payload stays encoded. -/
namespace FlareDB.Metrics

open ByteDecoder KeyedStore KeyedFold

def sumInt64Type : String := "beam:metrics:sum_int64:v1"

def distributionInt64Type : String := "beam:metrics:distribution_int64:v1"

def latestInt64Type : String := "beam:metrics:latest_int64:v1"

def setStringType : String := "beam:metrics:set_string:v1"

def boundedTrieType : String := "beam:metrics:bounded_trie:v1"

structure Timestamp where
  seconds : Int
  nanos : Int
deriving DecidableEq, Repr

structure MonitoringInfo where
  urn : String
  type : String
  payload : List UInt8
  labels : Store String String
  startTime : Option Timestamp

/-- The labels are listed by their names. -/
structure MetricKey where
  urn : String
  type : String
  labels : List (String × String)
deriving DecidableEq, Repr

def sortedLabels (labels : Store String String) : List (String × String) :=
  (labels.entries.map fun label => (label.1, label.2)).mergeSort fun a b => a.1 ≤ b.1

def MetricKey.ofInfo (info : MonitoringInfo) : MetricKey where
  urn := info.urn
  type := info.type
  labels := sortedLabels info.labels

/-- Keys are compared field by field. -/
def MetricKey.rank (key : MetricKey) : String ×ₗ String ×ₗ List (String ×ₗ String) :=
  toLex (key.urn, toLex (key.type, key.labels.map toLex))

/-- How a merge fails: with an error, which is logged, or by unwinding. -/
inductive MetricFailure where
  | error (message : String)
  | panic
deriving DecidableEq, Repr

abbrev MetricResult (α : Type) := Except MetricFailure α

abbrev MetricDecoder (α : Type) := Decoder String α

def context {α : Type} (text : String) (result : MetricResult α) : MetricResult α :=
  result.mapError fun failure => match failure with
    | .error message => .error (text ++ ": " ++ message)
    | .panic => .panic

/-! Payload decoders. -/

def decodeVarintCheckedLoop (shift : Nat) (result : UInt64) : MetricDecoder UInt64
  | [] => .error "metric payload ended inside a varint"
  | byte :: rest =>
      if shift < 64 then
        let result := result ||| ((byte &&& 0x7F).toUInt64 <<< UInt64.ofNat shift)
        if byte &&& 0x80 = 0 then .ok result rest
        else decodeVarintCheckedLoop (shift + 7) result rest
      else .error "metric varint exceeds 64 bits"

def decodeVarintChecked : MetricDecoder UInt64 :=
  decodeVarintCheckedLoop 0 0

def decodeSignedVarint : MetricDecoder Int64 := do
  let value ← decodeVarintChecked
  pure value.toInt64

def decodeString : MetricDecoder String := do
  let len ← decodeVarintChecked
  let bytes ← Decoder.takeChecked "string-set payload ended before an entry" len.toNat
  match String.fromUTF8? ⟨bytes.toArray⟩ with
  | some value => pure value
  | none => Decoder.fail "string-set entry is not UTF-8"

/-- Read a whole payload. -/
def readPayload {α : Type} (decode : MetricDecoder α) (trailing : String) (payload : List UInt8) :
    MetricResult α :=
  match decode payload with
  | .ok value rest => if rest.isEmpty then .ok value else .error (.error trailing)
  | .error reason => .error (.error reason)
  | .panic => .error .panic

def decodeSingleI64 (payload : List UInt8) : MetricResult Int64 :=
  readPayload decodeSignedVarint "counter payload has trailing bytes" payload

structure Distribution where
  count : Int64
  sum : Int64
  min : Int64
  max : Int64
deriving DecidableEq, Repr

def readDistribution : MetricDecoder Distribution := do
  let count ← decodeSignedVarint
  let sum ← decodeSignedVarint
  let min ← decodeSignedVarint
  let max ← decodeSignedVarint
  pure ⟨count, sum, min, max⟩

def decodeDistribution (payload : List UInt8) : MetricResult Distribution :=
  readPayload readDistribution "distribution payload has trailing bytes" payload

structure Gauge where
  timestamp : Int64
  value : Int64
deriving DecidableEq, Repr

def readGauge : MetricDecoder Gauge := do
  let timestamp ← decodeSignedVarint
  let value ← decodeSignedVarint
  pure ⟨timestamp, value⟩

def decodeGauge (payload : List UInt8) : MetricResult Gauge :=
  readPayload readGauge "gauge payload has trailing bytes" payload

/-- Chunks of counted entries up to a zero count. Every chunk reads a byte, so
fuel for one more than the unread bytes does not run out. -/
def readChunks : Nat → MetricDecoder (Finset String)
  | 0 => Decoder.abort
  | fuel + 1 => do
      let chunkCount ← decodeVarintChecked
      if chunkCount = 0 then pure ∅
      else do
        let values ← decodeString.times chunkCount.toNat
        let rest ← readChunks fuel
        pure (values.toFinset ∪ rest)

/-- A big-endian two's complement count. -/
def signedCount (raw : List UInt8) : Int :=
  if BigEndian.toNat raw < 2 ^ 31 then BigEndian.toNat raw else BigEndian.toNat raw - 2 ^ 32

def readStringSet : MetricDecoder (Finset String) := do
  let raw ← Decoder.takeChecked "string-set payload has no count" 4
  if 0 ≤ signedCount raw then do
    let values ← decodeString.times (signedCount raw).toNat
    pure values.toFinset
  else if signedCount raw = -1 then do
    let remaining ← Decoder.remaining
    readChunks (remaining + 1)
  else Decoder.fail s!"string-set payload has invalid count {signedCount raw}"

def decodeStringSet (payload : List UInt8) : MetricResult (Finset String) :=
  readPayload readStringSet "string-set payload has trailing bytes" payload

/-! Merges of encoded payloads. -/

/-- Both payloads are decoded, the left one first, and what they make up is
encoded again. -/
def mergeWith {α : Type} (decode : List UInt8 → MetricResult α) (name : String)
    (combine : α → α → MetricResult α) (encode : α → MetricResult (List UInt8))
    (left right : List UInt8) : MetricResult (List UInt8) := do
  let left ← context ("decoding left " ++ name) (decode left)
  let right ← context ("decoding right " ++ name) (decode right)
  let merged ← combine left right
  encode merged

def addCounters (left right : Int64) : MetricResult Int64 :=
  match checkedAdd left right with
  | some sum => .ok sum
  | none => .error (.error s!"counter overflow merging {left} and {right}")

def mergeSum : List UInt8 → List UInt8 → MetricResult (List UInt8) :=
  mergeWith decodeSingleI64 "counter" addCounters fun sum => .ok (encodeSignedVarint sum)

def addDistributions (left right : Distribution) : MetricResult Distribution :=
  match checkedAdd left.count right.count with
  | none => .error (.error "distribution count overflow")
  | some count =>
      match checkedAdd left.sum right.sum with
      | none => .error (.error "distribution sum overflow")
      | some sum => .ok ⟨count, sum, min left.min right.min, max left.max right.max⟩

def encodeDistribution (distribution : Distribution) : List UInt8 :=
  encodeSignedVarint distribution.count ++ encodeSignedVarint distribution.sum ++
    encodeSignedVarint distribution.min ++ encodeSignedVarint distribution.max

def mergeDistribution : List UInt8 → List UInt8 → MetricResult (List UInt8) :=
  mergeWith decodeDistribution "distribution" addDistributions
    fun distribution => .ok (encodeDistribution distribution)

def laterGauge (left right : Gauge) : Gauge :=
  if right.timestamp ≥ left.timestamp then right else left

def encodeGauge (gauge : Gauge) : List UInt8 :=
  encodeSignedVarint gauge.timestamp ++ encodeSignedVarint gauge.value

def mergeGauge : List UInt8 → List UInt8 → MetricResult (List UInt8) :=
  mergeWith decodeGauge "gauge" (fun left right => .ok (laterGauge left right))
    fun gauge => .ok (encodeGauge gauge)

def encodeString (value : String) : List UInt8 :=
  encodeLengthDelimited (utf8Bytes value)

/-- The entries are listed in their order. -/
def encodeStringSet (values : Finset String) : MetricResult (List UInt8) :=
  if values.card ≤ i32Max then
    .ok (putI32 values.card ++ (values.sort (· ≤ ·)).flatMap encodeString)
  else .error .panic

def mergeStringSet : List UInt8 → List UInt8 → MetricResult (List UInt8) :=
  mergeWith decodeStringSet "string set" (fun left right => .ok (left ∪ right)) encodeStringSet

/-! One entry. -/

def isSupportedType (type : String) : Bool :=
  type = sumInt64Type || type = distributionInt64Type || type = latestInt64Type ||
    type = setStringType

def validatePayload (type : String) (payload : List UInt8) : MetricResult Unit :=
  if type = sumInt64Type then do
    let _ ← decodeSingleI64 payload
    pure ()
  else if type = distributionInt64Type then do
    let _ ← decodeDistribution payload
    pure ()
  else if type = latestInt64Type then do
    let _ ← decodeGauge payload
    pure ()
  else if type = setStringType then do
    let _ ← decodeStringSet payload
    pure ()
  else .error (.error ("unsupported metric type: " ++ type))

/-- Timestamps are compared by their seconds first. -/
def Timestamp.lt (a b : Timestamp) : Bool :=
  a.seconds < b.seconds || (a.seconds = b.seconds && a.nanos < b.nanos)

def mergeStartTime (current incoming : Option Timestamp) : Option Timestamp :=
  match incoming with
  | none => current
  | some incoming =>
      match current with
      | none => some incoming
      | some current => if incoming.lt current then some incoming else some current

def mergePayload (type : String) (left right : List UInt8) : MetricResult (List UInt8) :=
  if type = sumInt64Type then mergeSum left right
  else if type = distributionInt64Type then mergeDistribution left right
  else if type = latestInt64Type then mergeGauge left right
  else if type = setStringType then mergeStringSet left right
  else .error (.error ("unsupported metric type: " ++ type))

def mergeMetric (current incoming : MonitoringInfo) : MetricResult MonitoringInfo := do
  let payload ← mergePayload current.type current.payload incoming.payload
  pure { current with
    payload := payload
    startTime := mergeStartTime current.startTime incoming.startTime }

/-! The metrics of a job. A report that cannot be used is logged and skipped; a
panic leaves no metrics. -/

abbrev JobMetrics := Store MetricKey MonitoringInfo

def recordOne (metrics : JobMetrics) (info : MonitoringInfo) : Option JobMetrics :=
  if info.type = boundedTrieType then some metrics
  else if info.payload.isEmpty then some metrics
  else if ¬ isSupportedType info.type then some metrics
  else
    match metrics.lookup (MetricKey.ofInfo info) with
    | some current =>
        match mergeMetric current info with
        | .ok merged => some (metrics.insert (MetricKey.ofInfo info) merged)
        | .error (.error _) => some metrics
        | .error .panic => none
    | none =>
        match validatePayload info.type info.payload with
        | .ok _ => some (metrics.insert (MetricKey.ofInfo info) info)
        | .error (.error _) => some metrics
        | .error .panic => none

/-- One call. -/
def record (metrics : JobMetrics) (monitoringInfos : List MonitoringInfo) : Option JobMetrics :=
  if monitoringInfos.isEmpty then some metrics else monitoringInfos.foldlM recordOne metrics

def recordCalls (metrics : JobMetrics) (calls : List (List MonitoringInfo)) : Option JobMetrics :=
  calls.foldlM record metrics

/-- The entries by their keys. -/
def snapshot (metrics : JobMetrics) : List MonitoringInfo :=
  (metrics.entries.mergeSort fun a b => a.1.rank ≤ b.1.rank).map fun entry => entry.2

end FlareDB.Metrics
