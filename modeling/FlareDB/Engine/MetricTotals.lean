import FlareDB.Engine.MetricPayloads
import Mathlib.Data.Finset.Lattice.Basic
import Mathlib.Algebra.BigOperators.Group.Multiset.Basic

/-! The metrics of a job are the aggregates of its reports, in whatever order and
in whatever calls these come. -/
namespace FlareDB.Metrics

open ByteDecoder KeyedStore KeyedFold

/-! What an entry ought to be. -/

section Payloads

variable {α : Type}

/-- The values of the payloads that decode. -/
def decoded (decode : List UInt8 → MetricResult α) (payloads : Multiset (List UInt8)) : Multiset α :=
  payloads.filterMap fun payload => (decode payload).toOption

/-- The payload decodes to what the other payloads make up. -/
def AggregateOf (decode : List UInt8 → MetricResult α) (R : Multiset α → α → Prop)
    (payloads : Multiset (List UInt8)) (payload : List UInt8) : Prop :=
  ∃ value, decode payload = .ok value ∧ R (decoded decode payloads) value

end Payloads

def CounterTotal (reports : Multiset Int64) (total : Int64) : Prop :=
  total.toInt = (reports.map Int64.toInt).sum

structure DistributionTotal (reports : Multiset Distribution) (total : Distribution) : Prop where
  count : total.count.toInt = (reports.map fun report => report.count.toInt).sum
  sum : total.sum.toInt = (reports.map fun report => report.sum.toInt).sum
  min : (∃ report ∈ reports, report.min = total.min) ∧ ∀ report ∈ reports, total.min ≤ report.min
  max : (∃ report ∈ reports, report.max = total.max) ∧ ∀ report ∈ reports, report.max ≤ total.max

def LatestGauge (reports : Multiset Gauge) (latest : Gauge) : Prop :=
  latest ∈ reports ∧ ∀ report ∈ reports, report.timestamp ≤ latest.timestamp

def StringUnion (reports : Multiset (Finset String)) (union : Finset String) : Prop :=
  ∀ value, value ∈ union ↔ ∃ report ∈ reports, value ∈ report

def AggregatesTo (type : String) (payloads : Multiset (List UInt8)) (payload : List UInt8) : Prop :=
  if type = sumInt64Type then AggregateOf decodeSingleI64 CounterTotal payloads payload
  else if type = distributionInt64Type then
    AggregateOf decodeDistribution DistributionTotal payloads payload
  else if type = latestInt64Type then AggregateOf decodeGauge LatestGauge payloads payload
  else if type = setStringType then AggregateOf decodeStringSet StringUnion payloads payload
  else False

/-- The start time that comes first, if there is one. -/
def Earliest (starts : Multiset (Option Timestamp)) : Option Timestamp → Prop
  | none => ∀ start ∈ starts, start = none
  | some first => some first ∈ starts ∧ ∀ other, some other ∈ starts → other.lt first = false

structure Aggregates (reports : Multiset MonitoringInfo) (entry : MonitoringInfo) : Prop where
  identity : ∀ info ∈ reports, MetricKey.ofInfo info = MetricKey.ofInfo entry
  payload : AggregatesTo entry.type (reports.map MonitoringInfo.payload) entry.payload
  startTime : Earliest (reports.map MonitoringInfo.startTime) entry.startTime

/-- The report is of a supported type, is not empty and decodes. -/
def isUsable (info : MonitoringInfo) : Bool :=
  isSupportedType info.type && !info.payload.isEmpty &&
    (validatePayload info.type info.payload).isOk

def metricReports : Keyed MetricKey MonitoringInfo where
  accepts := isUsable
  key := MetricKey.ofInfo

/-- One entry for each identity that has a usable report, and the entry is the
aggregate of these. -/
structure Summary (reports : Multiset MonitoringInfo) (entries : List MonitoringInfo) : Prop where
  nodup : (entries.map MetricKey.ofInfo).Nodup
  identities : ∀ key, key ∈ entries.map MetricKey.ofInfo ↔ metricReports.reportsOf key reports ≠ 0
  aggregates : ∀ entry ∈ entries,
    Aggregates (metricReports.reportsOf (MetricKey.ofInfo entry) reports) entry

/-! Labels that say the same, in whatever order a map lists them, are one identity. -/

/-- The labels of a key are the entries of the map. -/
theorem mem_sortedLabels {labels : Store String String} {name value : String} :
    (name, value) ∈ sortedLabels labels ↔ labels.lookup name = some value := by
  rw [sortedLabels, List.mem_mergeSort, List.mem_map]
  constructor
  · rintro ⟨⟨found, text⟩, hMem, hSame⟩
    cases hSame
    exact AList.mem_lookup_iff.mpr hMem
  · intro hLookup
    exact ⟨⟨name, value⟩, AList.mem_lookup_iff.mp hLookup, rfl⟩

/-- Two maps give the same labels exactly if they agree at every name. -/
theorem sortedLabels_eq_iff {labels others : Store String String} :
    sortedLabels labels = sortedLabels others ↔ ∀ name, labels.lookup name = others.lookup name := by
  constructor
  · intro hSame name
    refine Option.ext fun value => ?_
    rw [← mem_sortedLabels, hSame, mem_sortedLabels]
  · intro hLookup
    have hEntries : labels.entries.Perm others.entries :=
      List.lookup_ext labels.nodupKeys others.nodupKeys fun name value => by
        rw [show labels.entries.dlookup name = others.entries.dlookup name from hLookup name]
    have hTrans : ∀ a b c : String × String, decide (a.1 ≤ b.1) = true →
        decide (b.1 ≤ c.1) = true → decide (a.1 ≤ c.1) = true := fun a b c hAB hBC =>
      decide_eq_true (le_trans (of_decide_eq_true hAB) (of_decide_eq_true hBC))
    have hTotal : ∀ a b : String × String,
        (decide (a.1 ≤ b.1) || decide (b.1 ≤ a.1)) = true := fun a b => by
      simpa using le_total a.1 b.1
    have hSorted : ∀ store : Store String String, (sortedLabels store).Pairwise
        fun a b => decide (a.1 ≤ b.1) = true := fun store =>
      List.pairwise_mergeSort hTrans hTotal _
    refine List.Perm.eq_of_pairwise ?_ (hSorted labels) (hSorted others) ?_
    · rintro ⟨name, value⟩ ⟨other, text⟩ hMem hOther hLe hGe
      obtain rfl : name = other := le_antisymm (of_decide_eq_true hLe) (of_decide_eq_true hGe)
      have hValue := mem_sortedLabels.mp hMem
      rw [hLookup name, mem_sortedLabels.mp hOther] at hValue
      rw [Option.some.inj hValue]
    · exact (List.mergeSort_perm _ _).trans ((hEntries.map _).trans (List.mergeSort_perm _ _).symm)

/-- Two reports share an entry exactly if they agree on urn, type and every label. -/
theorem ofInfo_eq_iff {info other : MonitoringInfo} :
    MetricKey.ofInfo info = MetricKey.ofInfo other ↔ info.urn = other.urn ∧
      info.type = other.type ∧ ∀ name, info.labels.lookup name = other.labels.lookup name := by
  rw [MetricKey.ofInfo, MetricKey.ofInfo, MetricKey.mk.injEq, sortedLabels_eq_iff]

/-! When no merge fails. -/

def InI64 (value : Int) : Prop :=
  -2 ^ 63 ≤ value ∧ value < 2 ^ 63

/-- The sums are within 64 bits, and the union can be counted. -/
structure Fits (type : String) (payloads : Multiset (List UInt8)) : Prop where
  sum : type = sumInt64Type → InI64 ((decoded decodeSingleI64 payloads).map Int64.toInt).sum
  distribution : type = distributionInt64Type →
    InI64 ((decoded decodeDistribution payloads).map fun report => report.count.toInt).sum ∧
      InI64 ((decoded decodeDistribution payloads).map fun report => report.sum.toInt).sum
  stringSet : type = setStringType → ∀ union : Finset String,
    StringUnion (decoded decodeStringSet payloads) union → union.card < 2 ^ 31

/-! Merging two payloads. -/

section Payloads

variable {α : Type} {decode : List UInt8 → MetricResult α} {R : Multiset α → α → Prop}
  {payloads : Multiset (List UInt8)} {left right : List UInt8} {name : String}
  {combine : α → α → MetricResult α} {encode : α → MetricResult (List UInt8)}

/-- A payload that decodes adds its value. -/
theorem decoded_cons {value : α} (h : decode right = .ok value) :
    decoded decode (right ::ₘ payloads) = value ::ₘ decoded decode payloads :=
  Multiset.filterMap_cons_some _ _ _ (by rw [h]; rfl)

/-- A single report is its own aggregate. -/
theorem aggregateOf_single {value : α} (h : decode right = .ok value) (hR : R {value} value) :
    AggregateOf decode R {right} right := by
  refine ⟨value, h, ?_⟩
  have hOne := @decoded_cons α decode 0 right value h
  rw [← Multiset.cons_zero, hOne]
  exact hR

/-- Merging one more payload into an aggregate gives the aggregate of all of them. -/
theorem mergeWith_aggregates {value : α} (hLeft : AggregateOf decode R payloads left)
    (hRight : decode right = .ok value)
    (hCombine : ∀ total, decode left = .ok total → R (decoded decode payloads) total →
      ∃ both bytes, combine total value = .ok both ∧ R (value ::ₘ decoded decode payloads) both ∧
        encode both = .ok bytes ∧ decode bytes = .ok both) :
    ∃ bytes, mergeWith decode name combine encode left right = .ok bytes ∧
      AggregateOf decode R (right ::ₘ payloads) bytes := by
  obtain ⟨total, hTotal, hR⟩ := hLeft
  obtain ⟨both, bytes, hBoth, hAll, hEncode, hBack⟩ := hCombine total hTotal hR
  refine ⟨bytes, ?_, both, hBack, ?_⟩
  · rw [mergeWith, hTotal, hRight]
    show combine total value >>= encode = .ok bytes
    rw [hBoth]
    exact hEncode
  · rw [decoded_cons hRight]
    exact hAll

/-- A payload that does not decode is reported, without a panic. -/
theorem mergeWith_rejected {message : String} (hRight : decode right = .error (.error message))
    (hLeft : decode left ≠ .error .panic) :
    ∃ reason, mergeWith decode name combine encode left right = .error (.error reason) := by
  cases hTotal : decode left with
  | ok total =>
      refine ⟨"decoding right " ++ name ++ ": " ++ message, ?_⟩
      rw [mergeWith, hTotal, hRight]
      rfl
  | error failure =>
      cases failure with
      | error other =>
          refine ⟨"decoding left " ++ name ++ ": " ++ other, ?_⟩
          rw [mergeWith, hTotal]
          rfl
      | panic => exact absurd hTotal hLeft

end Payloads

/-- Addition within 64 bits is addition of integers. -/
theorem checkedAdd_of_fits {a b : Int64} (h : InI64 (a.toInt + b.toInt)) :
    checkedAdd a b = some (a + b) ∧ (a + b).toInt = a.toInt + b.toInt :=
  ⟨if_pos h, toInt_add_of_fits h.1 h.2⟩

/-- A counter adds up to the sum of its reports. -/
theorem counterTotal_add {reports : Multiset Int64} {total value : Int64}
    (h : CounterTotal reports total) (hFits : InI64 ((value ::ₘ reports).map Int64.toInt).sum) :
    ∃ both, addCounters total value = .ok both ∧ CounterTotal (value ::ₘ reports) both := by
  unfold CounterTotal at h
  rw [Multiset.map_cons, Multiset.sum_cons, ← h, Int.add_comm] at hFits
  obtain ⟨hAdd, hSum⟩ := checkedAdd_of_fits hFits
  refine ⟨total + value, by rw [addCounters, hAdd], ?_⟩
  rw [CounterTotal, hSum, h, Multiset.map_cons, Multiset.sum_cons, Int.add_comm]

theorem min_cases (a b : Int64) : min a b = a ∧ a ≤ b ∨ min a b = b ∧ b ≤ a := by
  show (if a ≤ b then a else b) = a ∧ a ≤ b ∨ (if a ≤ b then a else b) = b ∧ b ≤ a
  split
  next h => exact .inl ⟨rfl, h⟩
  next h =>
    rw [Int64.not_le, Int64.lt_iff_toInt_lt] at h
    exact .inr ⟨rfl, Int64.le_iff_toInt_le.mpr (by omega)⟩

theorem max_cases (a b : Int64) : max a b = a ∧ b ≤ a ∨ max a b = b ∧ a ≤ b := by
  show (if a ≤ b then b else a) = a ∧ b ≤ a ∨ (if a ≤ b then b else a) = b ∧ a ≤ b
  split
  next h => exact .inr ⟨rfl, h⟩
  next h =>
    rw [Int64.not_le, Int64.lt_iff_toInt_lt] at h
    exact .inl ⟨rfl, Int64.le_iff_toInt_le.mpr (by omega)⟩

/-- The extreme of one more report is the old one or the new one. -/
theorem extreme_add {ρ : Type} {le : Int64 → Int64 → Prop} (hRefl : ∀ a, le a a)
    (hTrans : ∀ a b c, le a b → le b c → le a c) {reports : Multiset ρ} {field : ρ → Int64}
    {value : ρ} {old extreme : Int64}
    (h : (∃ report ∈ reports, field report = old) ∧ ∀ report ∈ reports, le old (field report))
    (hJoin : extreme = old ∧ le old (field value) ∨
      extreme = field value ∧ le (field value) old) :
    (∃ report ∈ value ::ₘ reports, field report = extreme) ∧
      ∀ report ∈ value ::ₘ reports, le extreme (field report) := by
  obtain ⟨⟨first, hFirst, hFirstIs⟩, hAll⟩ := h
  rcases hJoin with ⟨rfl, hLe⟩ | ⟨rfl, hLe⟩
  · refine ⟨⟨first, Multiset.mem_cons_of_mem hFirst, hFirstIs⟩, fun report hReport => ?_⟩
    rcases Multiset.mem_cons.mp hReport with rfl | hOld
    · exact hLe
    · exact hAll report hOld
  · refine ⟨⟨value, Multiset.mem_cons_self _ _, rfl⟩, fun report hReport => ?_⟩
    rcases Multiset.mem_cons.mp hReport with rfl | hOld
    · exact hRefl _
    · exact hTrans _ _ _ hLe (hAll report hOld)

/-- A distribution adds up its counts and sums and keeps the extremes. -/
theorem distributionTotal_add {reports : Multiset Distribution} {total value : Distribution}
    (h : DistributionTotal reports total)
    (hCount : InI64 ((value ::ₘ reports).map fun report => report.count.toInt).sum)
    (hSum : InI64 ((value ::ₘ reports).map fun report => report.sum.toInt).sum) :
    ∃ both, addDistributions total value = .ok both ∧
      DistributionTotal (value ::ₘ reports) both := by
  rw [Multiset.map_cons, Multiset.sum_cons, ← h.count, Int.add_comm] at hCount
  rw [Multiset.map_cons, Multiset.sum_cons, ← h.sum, Int.add_comm] at hSum
  obtain ⟨hAddCount, hCountIs⟩ := checkedAdd_of_fits hCount
  obtain ⟨hAddSum, hSumIs⟩ := checkedAdd_of_fits hSum
  refine ⟨⟨total.count + value.count, total.sum + value.sum, min total.min value.min,
    max total.max value.max⟩, by rw [addDistributions, hAddCount, hAddSum], ?_, ?_, ?_, ?_⟩
  · rw [hCountIs, h.count, Multiset.map_cons, Multiset.sum_cons, Int.add_comm]
  · rw [hSumIs, h.sum, Multiset.map_cons, Multiset.sum_cons, Int.add_comm]
  · exact extreme_add Int64.le_refl (fun a b c => Int64.le_trans) h.min
      (min_cases total.min value.min)
  · exact @extreme_add _ (fun a b => b ≤ a) Int64.le_refl
      (fun a b c hAB hBC => Int64.le_trans hBC hAB) _ _ _ _ _ h.max
      (max_cases total.max value.max)

/-- The later of two gauges is the latest of all. -/
theorem latestGauge_later {reports : Multiset Gauge} {latest value : Gauge}
    (h : LatestGauge reports latest) :
    LatestGauge (value ::ₘ reports) (laterGauge latest value) := by
  unfold laterGauge
  split
  next hLater =>
    refine ⟨Multiset.mem_cons_self _ _, fun report hReport => ?_⟩
    rcases Multiset.mem_cons.mp hReport with rfl | hOld
    · exact Int64.le_refl _
    · exact Int64.le_trans (h.2 report hOld) hLater
  next hEarlier =>
    refine ⟨Multiset.mem_cons_of_mem h.1, fun report hReport => ?_⟩
    rcases Multiset.mem_cons.mp hReport with rfl | hOld
    · rw [ge_iff_le, Int64.not_le, Int64.lt_iff_toInt_lt] at hEarlier
      exact Int64.le_iff_toInt_le.mpr (by omega)
    · exact h.2 report hOld

/-- String sets are united. -/
theorem stringUnion_union {reports : Multiset (Finset String)} {union value : Finset String}
    (h : StringUnion reports union) : StringUnion (value ::ₘ reports) (union ∪ value) := by
  intro entry
  rw [Finset.mem_union, h entry]
  constructor
  · rintro (⟨report, hReport, hMem⟩ | hMem)
    · exact ⟨report, Multiset.mem_cons_of_mem hReport, hMem⟩
    · exact ⟨value, Multiset.mem_cons_self _ _, hMem⟩
  · rintro ⟨report, hReport, hMem⟩
    rcases Multiset.mem_cons.mp hReport with rfl | hOld
    · exact .inr hMem
    · exact .inl ⟨report, hOld, hMem⟩

theorem stringUnion_single (value : Finset String) : StringUnion {value} value := by
  intro entry
  simp

theorem distributionTotal_single (value : Distribution) : DistributionTotal {value} value where
  count := by simp
  sum := by simp
  min := by simp
  max := by simp

/-! Merging payloads of one type. -/

section Types

variable {type : String} {payloads : Multiset (List UInt8)} {left right : List UInt8}

/-- Merging a counter payload keeps the total, as long as it is within 64 bits. -/
theorem mergeSum_aggregates {value : Int64}
    (hLeft : AggregateOf decodeSingleI64 CounterTotal payloads left)
    (hRight : decodeSingleI64 right = .ok value)
    (hFits : InI64 ((decoded decodeSingleI64 (right ::ₘ payloads)).map Int64.toInt).sum) :
    ∃ bytes, mergeSum left right = .ok bytes ∧
      AggregateOf decodeSingleI64 CounterTotal (right ::ₘ payloads) bytes := by
  rw [decoded_cons hRight] at hFits
  refine mergeWith_aggregates hLeft hRight fun total _ hTotal => ?_
  obtain ⟨both, hBoth, hAll⟩ := counterTotal_add hTotal hFits
  exact ⟨both, _, hBoth, hAll, rfl, readPayload_of_delimited (delimited_signedVarint both) _⟩

/-- Merging a distribution payload keeps the total, as long as its sums are within
64 bits. -/
theorem mergeDistribution_aggregates {value : Distribution}
    (hLeft : AggregateOf decodeDistribution DistributionTotal payloads left)
    (hRight : decodeDistribution right = .ok value)
    (hCount : InI64 ((decoded decodeDistribution (right ::ₘ payloads)).map
      fun report => report.count.toInt).sum)
    (hSum : InI64 ((decoded decodeDistribution (right ::ₘ payloads)).map
      fun report => report.sum.toInt).sum) :
    ∃ bytes, mergeDistribution left right = .ok bytes ∧
      AggregateOf decodeDistribution DistributionTotal (right ::ₘ payloads) bytes := by
  rw [decoded_cons hRight] at hCount hSum
  refine mergeWith_aggregates hLeft hRight fun total _ hTotal => ?_
  obtain ⟨both, hBoth, hAll⟩ := distributionTotal_add hTotal hCount hSum
  exact ⟨both, _, hBoth, hAll, rfl, readPayload_of_delimited (delimited_distribution both) _⟩

/-- Merging a gauge payload keeps the latest gauge. -/
theorem mergeGauge_aggregates {value : Gauge}
    (hLeft : AggregateOf decodeGauge LatestGauge payloads left)
    (hRight : decodeGauge right = .ok value) :
    ∃ bytes, mergeGauge left right = .ok bytes ∧
      AggregateOf decodeGauge LatestGauge (right ::ₘ payloads) bytes :=
  mergeWith_aggregates hLeft hRight fun total _ hTotal =>
    ⟨laterGauge total value, _, rfl, latestGauge_later hTotal, rfl,
      readPayload_of_delimited (delimited_gauge _) _⟩

/-- Merging a string set payload keeps the union, as long as it can be counted. -/
theorem mergeStringSet_aggregates {value : Finset String}
    (hLeft : AggregateOf decodeStringSet StringUnion payloads left)
    (hRight : decodeStringSet right = .ok value)
    (hFits : ∀ union : Finset String,
      StringUnion (decoded decodeStringSet (right ::ₘ payloads)) union → union.card < 2 ^ 31) :
    ∃ bytes, mergeStringSet left right = .ok bytes ∧
      AggregateOf decodeStringSet StringUnion (right ::ₘ payloads) bytes := by
  rw [decoded_cons hRight] at hFits
  refine mergeWith_aggregates hLeft hRight fun total hTotalRead hTotal => ?_
  have hAll : StringUnion (value ::ₘ decoded decodeStringSet payloads) (total ∪ value) :=
    stringUnion_union hTotal
  have hCard : (total ∪ value).card ≤ i32Max := Nat.le_pred_of_lt (hFits _ hAll)
  have hShort : ∀ entry ∈ total ∪ value, (utf8Bytes entry).length < 2 ^ 64 := by
    intro entry hEntry
    rcases Finset.mem_union.mp hEntry with hOld | hNew
    · exact ensures_stringSet _ _ _ (readPayload_eq_ok hTotalRead) entry hOld
    · exact ensures_stringSet _ _ _ (readPayload_eq_ok hRight) entry hNew
  exact ⟨total ∪ value, _, rfl, hAll, if_pos hCard,
    readPayload_of_delimited (delimited_stringSet hCard hShort) _⟩

theorem isOk_iff {α : Type} {result : MetricResult α} :
    result.isOk = true ↔ ∃ value, result = .ok value := by
  cases result with
  | ok value => exact ⟨fun _ => ⟨value, rfl⟩, fun _ => rfl⟩
  | error failure =>
      constructor
      · intro h
        cases h
      · rintro ⟨value, h⟩
        cases h

theorem validate_isOk {α : Type} {result : MetricResult α}
    (h : (do let _ ← result; pure () : MetricResult Unit).isOk = true) :
    ∃ value, result = .ok value := by
  obtain ⟨found, hFound⟩ := isOk_iff.mp h
  obtain ⟨value, hValue, -⟩ := Results.bind_eq_ok hFound
  exact ⟨value, hValue⟩

/-- The first payload of an identity. -/
theorem aggregatesTo_single (h : (validatePayload type right).isOk = true) :
    AggregatesTo type {right} right := by
  unfold validatePayload at h
  unfold AggregatesTo
  split at h
  next hType =>
    obtain ⟨value, hValue⟩ := validate_isOk h
    rw [if_pos hType]
    exact aggregateOf_single hValue (by simp [CounterTotal])
  next hSum =>
    rw [if_neg hSum]
    split at h
    next hType =>
      obtain ⟨value, hValue⟩ := validate_isOk h
      rw [if_pos hType]
      exact aggregateOf_single hValue (distributionTotal_single value)
    next hDistribution =>
      rw [if_neg hDistribution]
      split at h
      next hType =>
        obtain ⟨value, hValue⟩ := validate_isOk h
        rw [if_pos hType]
        exact aggregateOf_single hValue ⟨Multiset.mem_singleton_self value, by simp⟩
      next hGauge =>
        rw [if_neg hGauge]
        split at h
        next hType =>
          obtain ⟨value, hValue⟩ := validate_isOk h
          rw [if_pos hType]
          exact aggregateOf_single hValue (stringUnion_single value)
        · cases h

/-- A further payload. -/
theorem mergePayload_aggregates (hLeft : AggregatesTo type payloads left)
    (hRight : (validatePayload type right).isOk = true) (hFits : Fits type (right ::ₘ payloads)) :
    ∃ bytes, mergePayload type left right = .ok bytes ∧
      AggregatesTo type (right ::ₘ payloads) bytes := by
  unfold AggregatesTo at hLeft ⊢
  unfold validatePayload at hRight
  unfold mergePayload
  split at hRight
  next hType =>
    obtain ⟨value, hValue⟩ := validate_isOk hRight
    simp only [if_pos hType] at hLeft ⊢
    exact mergeSum_aggregates hLeft hValue (hFits.sum hType)
  next hSum =>
    simp only [if_neg hSum] at hLeft ⊢
    split at hRight
    next hType =>
      obtain ⟨value, hValue⟩ := validate_isOk hRight
      simp only [if_pos hType] at hLeft ⊢
      obtain ⟨hCount, hSums⟩ := hFits.distribution hType
      exact mergeDistribution_aggregates hLeft hValue hCount hSums
    next hDistribution =>
      simp only [if_neg hDistribution] at hLeft ⊢
      split at hRight
      next hType =>
        obtain ⟨value, hValue⟩ := validate_isOk hRight
        simp only [if_pos hType] at hLeft ⊢
        exact mergeGauge_aggregates hLeft hValue
      next hGauge =>
        simp only [if_neg hGauge] at hLeft ⊢
        split at hRight
        next hType =>
          obtain ⟨value, hValue⟩ := validate_isOk hRight
          simp only [if_pos hType] at hLeft ⊢
          exact mergeStringSet_aggregates hLeft hValue (hFits.stringSet hType)
        · cases hRight

/-- A payload that does not validate is refused with a message. -/
theorem decode_rejected {α : Type} {d : MetricDecoder α} (hQuiet : Quiet d) {trailing : String}
    (h : ¬ (do let _ ← readPayload d trailing right; pure () : MetricResult Unit).isOk = true) :
    ∃ message, readPayload d trailing right = .error (.error message) := by
  cases hRead : readPayload d trailing right with
  | ok value =>
      rw [hRead] at h
      exact absurd rfl h
  | error failure =>
      cases failure with
      | error message => exact ⟨message, rfl⟩
      | panic => exact absurd hRead (readPayload_ne_panic hQuiet trailing right)

/-- A payload that is not valid is reported by the merge, too. -/
theorem mergePayload_rejected (h : ¬ (validatePayload type right).isOk = true) :
    ∃ reason, mergePayload type left right = .error (.error reason) := by
  unfold validatePayload at h
  unfold mergePayload
  split at h
  next hType =>
    obtain ⟨message, hMessage⟩ := decode_rejected quiet_signedVarint h
    rw [if_pos hType]
    exact mergeWith_rejected hMessage (readPayload_ne_panic quiet_signedVarint _ _)
  next hSum =>
    rw [if_neg hSum]
    split at h
    next hType =>
      obtain ⟨message, hMessage⟩ := decode_rejected quiet_distribution h
      rw [if_pos hType]
      exact mergeWith_rejected hMessage (readPayload_ne_panic quiet_distribution _ _)
    next hDistribution =>
      rw [if_neg hDistribution]
      split at h
      next hType =>
        obtain ⟨message, hMessage⟩ := decode_rejected quiet_gauge h
        rw [if_pos hType]
        exact mergeWith_rejected hMessage (readPayload_ne_panic quiet_gauge _ _)
      next hGauge =>
        rw [if_neg hGauge]
        split at h
        next hType =>
          obtain ⟨message, hMessage⟩ := decode_rejected quiet_stringSet h
          rw [if_pos hType]
          exact mergeWith_rejected hMessage (readPayload_ne_panic quiet_stringSet _ _)
        next hSet =>
          rw [if_neg hSet]
          exact ⟨_, rfl⟩

end Types

/-! Start times. -/

theorem Timestamp.lt_trans {a b c : Timestamp} (hAB : a.lt b = true) (hBC : b.lt c = true) :
    a.lt c = true := by
  simp only [Timestamp.lt, Bool.or_eq_true, Bool.and_eq_true, decide_eq_true_eq] at *
  omega

theorem Timestamp.lt_irrefl (a : Timestamp) : a.lt a = false := by
  simp [Timestamp.lt]

/-- The earlier of two start times is the earliest of all. -/
theorem earliest_merge {starts : Multiset (Option Timestamp)} {current : Option Timestamp}
    (h : Earliest starts current) (incoming : Option Timestamp) :
    Earliest (incoming ::ₘ starts) (mergeStartTime current incoming) := by
  cases incoming with
  | none =>
      cases current with
      | none =>
          intro start hStart
          rcases Multiset.mem_cons.mp hStart with rfl | hOld
          · rfl
          · exact h start hOld
      | some first =>
          refine ⟨Multiset.mem_cons_of_mem h.1, fun other hOther => ?_⟩
          rcases Multiset.mem_cons.mp hOther with hSame | hOld
          · cases hSame
          · exact h.2 other hOld
  | some incoming =>
      cases current with
      | none =>
          refine ⟨Multiset.mem_cons_self _ _, fun other hOther => ?_⟩
          rcases Multiset.mem_cons.mp hOther with hSame | hOld
          · cases hSame
            exact Timestamp.lt_irrefl _
          · cases h _ hOld
      | some first =>
          rw [mergeStartTime]
          split
          next hEarlier =>
            refine ⟨Multiset.mem_cons_self _ _, fun other hOther => ?_⟩
            rcases Multiset.mem_cons.mp hOther with hSame | hOld
            · cases hSame
              exact Timestamp.lt_irrefl _
            · by_contra hBefore
              have hFirst := Timestamp.lt_trans (Bool.of_not_eq_false hBefore) hEarlier
              rw [h.2 other hOld] at hFirst
              cases hFirst
          next hLater =>
            refine ⟨Multiset.mem_cons_of_mem h.1, fun other hOther => ?_⟩
            rcases Multiset.mem_cons.mp hOther with hSame | hOld
            · cases hSame
              exact Bool.eq_false_of_not_eq_true hLater
            · exact h.2 other hOld

theorem earliest_single (start : Option Timestamp) : Earliest {start} start := by
  have hOne := @earliest_merge 0 none (fun start hStart => absurd hStart (Multiset.notMem_zero start))
    start
  cases start with
  | none => exact hOne
  | some start => exact hOne

/-! One report. -/

section Steps

variable {metrics : JobMetrics} {info : MonitoringInfo}

/-- A report is usable if its type is supported and its payload is there and valid. -/
theorem isUsable_iff : isUsable info = true ↔ isSupportedType info.type = true ∧
    info.payload.isEmpty = false ∧ (validatePayload info.type info.payload).isOk = true := by
  simp [isUsable, and_assoc]

theorem ne_boundedTrie (h : isSupportedType info.type = true) : info.type ≠ boundedTrieType := by
  intro hType
  rw [hType] at h
  exact absurd h (by decide)

/-- Every entry is under its own identity. -/
def WellKeyed (metrics : JobMetrics) : Prop :=
  ∀ key entry, metrics.lookup key = some entry → MetricKey.ofInfo entry = key

/-- A payload that is not valid is refused with a message, whatever its type. -/
theorem validatePayload_rejected {type : String} {payload : List UInt8}
    (h : ¬ (validatePayload type payload).isOk = true) :
    ∃ message, validatePayload type payload = .error (.error message) := by
  unfold validatePayload at h ⊢
  split at h
  next hType =>
    obtain ⟨message, hMessage⟩ := decode_rejected quiet_signedVarint h
    exact ⟨message, by rw [if_pos hType, decodeSingleI64, hMessage]; rfl⟩
  next hSum =>
    rw [if_neg hSum]
    split at h
    next hType =>
      obtain ⟨message, hMessage⟩ := decode_rejected quiet_distribution h
      exact ⟨message, by rw [if_pos hType, decodeDistribution, hMessage]; rfl⟩
    next hDistribution =>
      rw [if_neg hDistribution]
      split at h
      next hType =>
        obtain ⟨message, hMessage⟩ := decode_rejected quiet_gauge h
        exact ⟨message, by rw [if_pos hType, decodeGauge, hMessage]; rfl⟩
      next hGauge =>
        rw [if_neg hGauge]
        split at h
        next hType =>
          obtain ⟨message, hMessage⟩ := decode_rejected quiet_stringSet h
          exact ⟨message, by rw [if_pos hType, decodeStringSet, hMessage]; rfl⟩
        next hSet => exact ⟨_, if_neg hSet⟩

/-- A report that is not usable changes nothing. -/
theorem recordOne_skipped (h : ¬ isUsable info = true) (hKeyed : WellKeyed metrics) :
    recordOne metrics info = some metrics := by
  unfold recordOne
  split
  · rfl
  · split
    · rfl
    next hEmpty =>
      split
      · rfl
      next hSupported =>
        have hInvalid : ¬ (validatePayload info.type info.payload).isOk = true := fun hValid =>
          h (isUsable_iff.mpr ⟨not_not.mp hSupported, Bool.eq_false_of_not_eq_true hEmpty, hValid⟩)
        cases hLookup : metrics.lookup (MetricKey.ofInfo info) with
        | some current =>
            have hType : current.type = info.type :=
              congrArg MetricKey.type (hKeyed _ current hLookup)
            obtain ⟨reason, hReason⟩ := @mergePayload_rejected _ current.payload _ hInvalid
            have hMerge : mergeMetric current info = .error (.error reason) := by
              rw [mergeMetric, hType, hReason]
              rfl
            dsimp only
            rw [hMerge]
        | none =>
            obtain ⟨message, hMessage⟩ := validatePayload_rejected hInvalid
            dsimp only
            rw [hMessage]

variable {reports : Multiset MonitoringInfo}

/-- Each entry stands under its own key. -/
theorem wellKeyed_of_holds (h : metricReports.Holds Aggregates reports metrics) :
    WellKeyed metrics := by
  intro key entry hEntry
  obtain ⟨hSome, hAggregates⟩ := h.known hEntry
  obtain ⟨info, hInfo⟩ := Multiset.exists_mem_of_ne_zero hSome
  rw [← hAggregates.identity info hInfo]
  exact (Keyed.mem_reportsOf.mp hInfo).2.2

/-- The first report of an identity. -/
theorem aggregates_single (h : isUsable info = true) : Aggregates {info} info where
  identity other hOther := by rw [Multiset.mem_singleton.mp hOther]
  payload := by
    rw [Multiset.map_singleton]
    exact aggregatesTo_single (isUsable_iff.mp h).2.2
  startTime := by
    rw [Multiset.map_singleton]
    exact earliest_single info.startTime

/-- A further report of an identity. -/
theorem mergeMetric_aggregates {current : MonitoringInfo} (h : isUsable info = true)
    (hCurrent : Aggregates reports current)
    (hSame : MetricKey.ofInfo current = MetricKey.ofInfo info)
    (hFits : Fits info.type ((info ::ₘ reports).map MonitoringInfo.payload)) :
    ∃ merged, mergeMetric current info = .ok merged ∧ Aggregates (info ::ₘ reports) merged := by
  have hType : current.type = info.type := congrArg MetricKey.type hSame
  rw [Multiset.map_cons] at hFits
  obtain ⟨bytes, hBytes, hAll⟩ := mergePayload_aggregates
    (by rw [← hType]; exact hCurrent.payload) (isUsable_iff.mp h).2.2 hFits
  refine ⟨{ current with
    payload := bytes
    startTime := mergeStartTime current.startTime info.startTime }, ?_, ?_, ?_, ?_⟩
  · rw [mergeMetric, hType, hBytes]
    rfl
  · intro other hOther
    rcases Multiset.mem_cons.mp hOther with rfl | hOld
    · exact hSame.symm
    · exact hCurrent.identity other hOld
  · rw [Multiset.map_cons]
    dsimp only
    rw [hType]
    exact hAll
  · rw [Multiset.map_cons]
    exact earliest_merge hCurrent.startTime info.startTime

/-- The first report of an identity is its entry. -/
theorem recordOne_first (h : isUsable info = true)
    (hNone : metrics.lookup (MetricKey.ofInfo info) = none) :
    recordOne metrics info = some (metrics.insert (MetricKey.ofInfo info) info) := by
  obtain ⟨hSupported, hSome, hValid⟩ := isUsable_iff.mp h
  obtain ⟨valid, hOk⟩ := isOk_iff.mp hValid
  rw [recordOne, if_neg (ne_boundedTrie hSupported), hSome, if_neg Bool.false_ne_true,
    if_neg (not_not.mpr hSupported), hNone]
  dsimp only
  rw [hOk]

/-- A later report is merged into the entry. -/
theorem recordOne_merged {current merged : MonitoringInfo} (h : isUsable info = true)
    (hCurrent : metrics.lookup (MetricKey.ofInfo info) = some current)
    (hMerged : mergeMetric current info = .ok merged) :
    recordOne metrics info = some (metrics.insert (MetricKey.ofInfo info) merged) := by
  obtain ⟨hSupported, hSome, -⟩ := isUsable_iff.mp h
  rw [recordOne, if_neg (ne_boundedTrie hSupported), hSome, if_neg Bool.false_ne_true,
    if_neg (not_not.mpr hSupported), hCurrent]
  dsimp only
  rw [hMerged]

/-- One report joins the entry of its identity. -/
theorem recordOne_holds (h : metricReports.Holds Aggregates reports metrics)
    (hFits : isUsable info = true → Fits info.type
      ((metricReports.reportsOf (MetricKey.ofInfo info) (info ::ₘ reports)).map
        MonitoringInfo.payload)) :
    ∃ next, recordOne metrics info = some next ∧
      metricReports.Holds Aggregates (info ::ₘ reports) next := by
  by_cases hUsable : isUsable info = true
  · have hAccepted : metricReports.accepts info = true := hUsable
    have hJoined := Keyed.reportsOf_accepted hAccepted reports
    have hHere := hFits hUsable
    cases hLookup : metrics.lookup (MetricKey.ofInfo info) with
    | none =>
        refine ⟨_, recordOne_first hUsable hLookup, h.insert hAccepted ?_⟩
        have hNone : metricReports.reportsOf (metricReports.key info) reports = 0 := h.fresh hLookup
        rw [hNone]
        exact aggregates_single hUsable
    | some current =>
        obtain ⟨-, hCurrent⟩ := h.known hLookup
        rw [show MetricKey.ofInfo info = metricReports.key info from rfl, hJoined] at hHere
        obtain ⟨merged, hMerged, hAll⟩ := mergeMetric_aggregates hUsable hCurrent
          (wellKeyed_of_holds h _ current hLookup) hHere
        exact ⟨_, recordOne_merged hUsable hLookup hMerged, h.insert hAccepted hAll⟩
  · exact ⟨metrics, recordOne_skipped hUsable (wellKeyed_of_holds h), h.skip hUsable⟩

end Steps

/-! All calls. -/

/-- How the reports are split into calls does not matter. -/
theorem recordCalls_eq (metrics : JobMetrics) (calls : List (List MonitoringInfo)) :
    recordCalls metrics calls = calls.flatten.foldlM recordOne metrics := by
  induction calls generalizing metrics with
  | nil => rfl
  | cons infos calls ih =>
      have hCall : record metrics infos = infos.foldlM recordOne metrics := by
        cases infos with
        | nil => rfl
        | cons info infos => rfl
      rw [recordCalls, List.foldlM_cons, hCall, List.flatten_cons, List.foldlM_append]
      exact Option.bind_congr fun middle _ => ih middle

/-- The snapshot lists the entries of the store. -/
theorem mem_snapshot {metrics : JobMetrics} {entry : MonitoringInfo} (hKeyed : WellKeyed metrics) :
    entry ∈ snapshot metrics ↔ metrics.lookup (MetricKey.ofInfo entry) = some entry := by
  rw [snapshot, List.mem_map]
  constructor
  · rintro ⟨⟨key, found⟩, hMem, rfl⟩
    have hLookup : metrics.lookup key = some found :=
      AList.mem_lookup_iff.mpr (List.mem_mergeSort.mp hMem)
    rw [hKeyed key found hLookup]
    exact hLookup
  · intro hLookup
    exact ⟨⟨_, entry⟩, List.mem_mergeSort.mpr (AList.mem_lookup_iff.mp hLookup), rfl⟩

/-- The snapshot has one entry for each key. -/
theorem map_snapshot_perm {metrics : JobMetrics} (hKeyed : WellKeyed metrics) :
    ((snapshot metrics).map MetricKey.ofInfo).Perm metrics.keys := by
  have hKeys : (snapshot metrics).map MetricKey.ofInfo =
      (metrics.entries.mergeSort fun a b => a.1.rank ≤ b.1.rank).map Sigma.fst := by
    rw [snapshot, List.map_map]
    refine List.map_congr_left fun entry hMem => ?_
    exact hKeyed entry.1 entry.2 (AList.mem_lookup_iff.mpr (List.mem_mergeSort.mp hMem))
  rw [hKeys]
  exact (List.mergeSort_perm _ _).map _

/-- A store whose entries are aggregates has a summary as its snapshot. -/
theorem summary_of_holds {reports : Multiset MonitoringInfo} {metrics : JobMetrics}
    (h : metricReports.Holds Aggregates reports metrics) : Summary reports (snapshot metrics) where
  nodup := (map_snapshot_perm (wellKeyed_of_holds h)).nodup_iff.mpr metrics.nodupKeys
  identities key := by
    rw [(map_snapshot_perm (wellKeyed_of_holds h)).mem_iff]
    cases hLookup : metrics.lookup key with
    | none =>
        have hAbsent : key ∉ metrics.keys := AList.lookup_eq_none.mp hLookup
        exact iff_of_false hAbsent (not_not.mpr (h.fresh hLookup))
    | some entry =>
        have hPresent : key ∈ metrics.keys := AList.lookup_isSome.mp (by rw [hLookup]; rfl)
        exact iff_of_true hPresent (h.known hLookup).1
  aggregates entry hEntry := (h.known ((mem_snapshot (wellKeyed_of_holds h)).mp hEntry)).2

/-- Whatever the order of the reports and however they are batched, the snapshot
has the aggregate of each identity. A report that is not usable changes nothing. -/
theorem snapshot_aggregates (reports : Multiset MonitoringInfo)
    (calls : List (List MonitoringInfo)) (hOrder : (calls.flatten : Multiset MonitoringInfo) = reports)
    (hFits : ∀ front : List MonitoringInfo, front <+: calls.flatten → ∀ key, Fits key.type
      ((metricReports.reportsOf key front).map MonitoringInfo.payload)) :
    ∃ metrics, recordCalls ∅ calls = some metrics ∧ Summary reports (snapshot metrics) ∧
      ∀ info, ¬ isUsable info = true → record metrics [info] = some metrics := by
  have hRun := Keyed.holds_run calls.flatten fun front info metrics hPrefix hHolds =>
    recordOne_holds hHolds fun _ => by
      have hHere := hFits _ hPrefix (MetricKey.ofInfo info)
      have hReports : ((front ++ [info] : List MonitoringInfo) : Multiset MonitoringInfo) =
          info ::ₘ (front : Multiset MonitoringInfo) :=
        Multiset.coe_eq_coe.mpr (List.perm_append_singleton info front)
      rw [hReports] at hHere
      exact hHere
  obtain ⟨metrics, hMetrics, hHolds⟩ := hRun
  rw [hOrder] at hHolds
  refine ⟨metrics, (recordCalls_eq ∅ calls).trans hMetrics, summary_of_holds hHolds,
    fun info hInfo => ?_⟩
  rw [record, if_neg (by simp), List.foldlM_cons, recordOne_skipped hInfo (wellKeyed_of_holds hHolds)]
  rfl

/-- The sum over a few reports of bounded values is bounded. -/
theorem natAbs_sum_decoded_le {α : Type} {decode : List UInt8 → MetricResult α} {read : α → Int}
    {bound : Nat} {payloads : Multiset (List UInt8)}
    (hSmall : ∀ payload ∈ payloads, ∀ value, decode payload = .ok value →
      (read value).natAbs ≤ bound) :
    ((decoded decode payloads).map read).sum.natAbs ≤ payloads.card * bound := by
  induction payloads using Multiset.induction with
  | empty => simp [decoded]
  | cons payload rest ih =>
      have hRest := ih fun other hOther => hSmall other (Multiset.mem_cons_of_mem hOther)
      rw [Multiset.card_cons, Nat.add_one_mul]
      cases hDecoded : decode payload with
      | error reason =>
          rw [decoded, Multiset.filterMap_cons_none _ _ (by rw [hDecoded]; rfl)]
          exact hRest.trans (Nat.le_add_right _ _)
      | ok value =>
          have hHere := hSmall payload (Multiset.mem_cons_self _ _) value hDecoded
          rw [decoded_cons hDecoded, Multiset.map_cons, Multiset.sum_cons, add_comm]
          exact (Int.natAbs_add_le _ _).trans (Nat.add_le_add hRest hHere)

/-- Counters and distributions of which there are few, with bounded values, fit. -/
theorem fits_of_bounded {type : String} {payloads : Multiset (List UInt8)} {bound : Nat}
    (hRoom : payloads.card * bound < 2 ^ 63)
    (hCounters : ∀ payload ∈ payloads, ∀ value, decodeSingleI64 payload = .ok value →
      value.toInt.natAbs ≤ bound)
    (hDistributions : ∀ payload ∈ payloads, ∀ report, decodeDistribution payload = .ok report →
      report.count.toInt.natAbs ≤ bound ∧ report.sum.toInt.natAbs ≤ bound)
    (hSets : type = setStringType → payloads = 0) : Fits type payloads where
  sum _ := by
    have hSum := natAbs_sum_decoded_le hCounters
    exact ⟨by omega, by omega⟩
  distribution _ := by
    have hCount := natAbs_sum_decoded_le fun payload hPayload report hReport =>
      (hDistributions payload hPayload report hReport).1
    have hSum := natAbs_sum_decoded_le fun payload hPayload report hReport =>
      (hDistributions payload hPayload report hReport).2
    exact ⟨⟨by omega, by omega⟩, by omega, by omega⟩
  stringSet hType union hUnion := by
    have hEmpty : union = ∅ := by
      refine Finset.eq_empty_of_forall_notMem fun value hValue => ?_
      obtain ⟨report, hReport, -⟩ := (hUnion value).mp hValue
      rw [hSets hType] at hReport
      exact Multiset.notMem_zero report hReport
    rw [hEmpty]
    decide

/-- A report without labels. -/
def userInfo (type : String) (payload : List UInt8) : MonitoringInfo where
  urn := "beam:metric:user:test:v1"
  type := type
  payload := payload
  labels := ∅
  startTime := none

/-- A counter of minus two and one of five, and two distributions. -/
def mixedCalls : List (List MonitoringInfo) :=
  [[userInfo sumInt64Type [0xFE, 0xFF, 0xFF, 0xFF, 0xFF, 0xFF, 0xFF, 0xFF, 0xFF, 0x01],
      userInfo distributionInt64Type [1, 9, 9, 9]],
    [userInfo sumInt64Type [5], userInfo distributionInt64Type [2, 7, 3, 4]]]

/-- Two calls with a counter and a distribution each, summed up in the other order. -/
theorem snapshot_aggregates_mixed :
    ∃ metrics, recordCalls ∅ mixedCalls = some metrics ∧
      Summary ↑mixedCalls.flatten.reverse (snapshot metrics) ∧
      ∀ info, ¬ isUsable info = true → record metrics [info] = some metrics := by
  refine snapshot_aggregates _ mixedCalls
    (Multiset.coe_eq_coe.mpr (List.reverse_perm _).symm) fun front hFront key => ?_
  have hMem : ∀ payload ∈ (metricReports.reportsOf key front).map MonitoringInfo.payload,
      ∃ info ∈ mixedCalls.flatten, info.payload = payload := by
    intro payload hPayload
    obtain ⟨info, hInfo, rfl⟩ := Multiset.mem_map.mp hPayload
    exact ⟨info, hFront.subset (Keyed.mem_reportsOf.mp hInfo).1, rfl⟩
  have hCounters : mixedCalls.flatten.all (fun info => (decodeSingleI64 info.payload).toOption.all
      fun value => decide (value.toInt.natAbs ≤ 9)) = true := by decide +kernel
  have hDistributions : mixedCalls.flatten.all (fun info =>
      (decodeDistribution info.payload).toOption.all fun report =>
        decide (report.count.toInt.natAbs ≤ 9 ∧ report.sum.toInt.natAbs ≤ 9)) = true := by
    decide +kernel
  have hTypes : ∀ info ∈ mixedCalls.flatten, info.type ≠ setStringType := by decide +kernel
  have hRoom : ((metricReports.reportsOf key front).map MonitoringInfo.payload).card * 9 < 2 ^ 63 := by
    have hLength := hFront.length_le
    have hKept : (metricReports.reportsOf key front).card ≤ front.length :=
      Multiset.card_le_card (Multiset.filter_le _ (front : Multiset MonitoringInfo))
    rw [Multiset.card_map]
    simp only [mixedCalls, List.flatten_cons, List.flatten_nil, List.length_append, List.length_cons,
      List.length_nil] at hLength
    omega
  refine fits_of_bounded hRoom ?_ ?_ fun hType => ?_
  · intro payload hPayload value hValue
    obtain ⟨info, hInfo, rfl⟩ := hMem payload hPayload
    have hHere := List.all_eq_true.mp hCounters info hInfo
    rw [hValue] at hHere
    exact of_decide_eq_true hHere
  · intro payload hPayload report hReport
    obtain ⟨info, hInfo, rfl⟩ := hMem payload hPayload
    have hHere := List.all_eq_true.mp hDistributions info hInfo
    rw [hReport] at hHere
    exact of_decide_eq_true hHere
  · refine Multiset.map_eq_zero.mpr (Multiset.eq_zero_iff_forall_notMem.mpr fun info hInfo => ?_)
    obtain ⟨hFound, _, hKey⟩ := Keyed.mem_reportsOf.mp hInfo
    exact hTypes info (hFront.subset hFound) ((congrArg MetricKey.type hKey).trans hType)

end FlareDB.Metrics
