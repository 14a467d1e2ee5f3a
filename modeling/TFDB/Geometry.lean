import TFDB.System
import TFDB.RoundTrip

/-!
# Volume geometry

`Geometry` is what `format` establishes about a volume, over natural numbers: the regions of a
partition follow each other, slots are disjoint and inside the volume, and a block of maximal
size fits into an empty partition.

* `formatHeader_geometry` — every header `format` writes has it;
* `validateVolumeGeometry_ok` — `open` accepts such a volume on a backend that is large enough,
  and `geometry_of_validate` — no other;
* `acceptPartitionHeader_encode` — a partition header written for the volume is accepted.
-/

set_option autoImplicit false

namespace TFDB

open ByteLib

/-- A volume whose regions are in order. -/
structure Geometry (env : Env) : Prop where
  id : env.volume.volumeIdHigh ≠ 0 ∨ env.volume.volumeIdLow ≠ 0
  count : 2 ≤ env.partitionCount
  power : isPowerOfTwo env.volume.persistenceQuantum = true
  quantum_pos : 0 < env.quantum
  quantum_le : env.quantum ≤ partitionHeaderRegionSize
  prefix_aligned : volumePrefixSize % env.quantum = 0
  header_aligned : partitionHeaderRegionSize % env.quantum = 0
  partition_aligned : env.partitionSize % env.quantum = 0
  index_aligned : env.indexRegionSize % env.quantum = 0
  index_min : indexEntryEncodedSize ≤ env.indexRegionSize
  payload_pos : 0 < env.maxBlockPayload
  room : partitionHeaderRegionSize + partitionFooterRegionSize + env.indexRegionSize + env.quantum ≤
    env.partitionSize
  span : ∃ m, alignUp (blockHeaderEncodedSize + env.maxBlockPayload) env.quantum = some m ∧
    m ≤ env.partitionSize -
      (partitionHeaderRegionSize + partitionFooterRegionSize + env.indexRegionSize)
  inside : volumePrefixSize + env.partitionCount * env.partitionSize ≤ env.volume.volumeSize.toNat

/-! ## Alignment -/

theorem alignUp_spec {v q m : Nat} (h : alignUp v q = some m) :
    0 < q ∧ v ≤ m ∧ m < v + q ∧ m % q = 0 := by
  unfold alignUp at h
  split at h
  · cases h
  · rename_i hq
    have hq' : 0 < q := Nat.pos_of_ne_zero hq
    split at h
    · rename_i h0
      cases h
      exact ⟨hq', Nat.le_refl _, by omega, h0⟩
    · rename_i h0
      split at h
      · cases h
      · cases h
        have hlt := Nat.mod_lt v hq'
        refine ⟨hq', by omega, by omega, ?_⟩
        have hv : v + (q - v % q) = (v / q + 1) * q := by
          have := Nat.div_add_mod v q
          rw [Nat.add_mul, Nat.one_mul, Nat.mul_comm (v / q) q]
          omega
        rw [hv, Nat.mul_mod_left]

theorem alignUp_mono {a b q x y : Nat} (hab : a ≤ b) (hx : alignUp a q = some x)
    (hy : alignUp b q = some y) : x ≤ y := by
  obtain ⟨hq, h1, h2, h3⟩ := alignUp_spec hx
  obtain ⟨-, h4, h5, h6⟩ := alignUp_spec hy
  by_contra hlt
  obtain ⟨i, rfl⟩ := Nat.dvd_of_mod_eq_zero h3
  obtain ⟨j, rfl⟩ := Nat.dvd_of_mod_eq_zero h6
  have hij : j < i := by
    by_contra hc
    exact hlt (Nat.mul_le_mul_left q (by omega))
  have : q * j + q ≤ q * i := by
    rw [← Nat.mul_succ]
    exact Nat.mul_le_mul_left q hij
  omega

/-- Alignment of a value below another one that can be aligned succeeds. -/
theorem alignUp_isSome_of_le {a b q y : Nat} (hab : a ≤ b) (hy : alignUp b q = some y) (hb : y < 2 ^ 64) :
    ∃ x, alignUp a q = some x := by
  obtain ⟨hq, h4, h5, h6⟩ := alignUp_spec hy
  unfold alignUp
  rw [if_neg (by omega)]
  split
  · exact ⟨_, rfl⟩
  · rename_i h0
    rw [if_neg]
    · exact ⟨_, rfl⟩
    · have hlt := Nat.mod_lt a hq
      have hv : a + (q - a % q) = (a / q + 1) * q := by
        have := Nat.div_add_mod a q
        rw [Nat.add_mul, Nat.one_mul, Nat.mul_comm (a / q) q]
        omega
      obtain ⟨j, rfl⟩ := Nat.dvd_of_mod_eq_zero h6
      have hdiv : a / q + 1 ≤ j := by
        by_contra hc
        have h1 : j ≤ a / q := by omega
        have h2 : q * j ≤ q * (a / q) := Nat.mul_le_mul_left q h1
        have := Nat.div_add_mod a q
        omega
      have : (a / q + 1) * q ≤ q * j := by
        rw [Nat.mul_comm q j]
        exact Nat.mul_le_mul_right q hdiv
      omega

/-! ## Consequences -/

namespace Geometry
variable {env : Env} (g : Geometry env)
include g

theorem indexBegin_add : env.indexBegin + env.indexRegionSize + partitionFooterRegionSize =
    env.partitionSize := by
  have := g.room
  simp only [Env.indexBegin, partitionHeaderRegionSize, partitionFooterRegionSize] at *
  omega

theorem footerOffset_eq : env.footerOffset = env.indexBegin + env.indexRegionSize := by
  have := g.indexBegin_add
  simp only [Env.footerOffset, partitionFooterRegionSize] at *
  omega

theorem header_lt_indexBegin : partitionHeaderRegionSize < env.indexBegin := by
  have := g.room
  have := g.quantum_pos
  simp only [Env.indexBegin, partitionHeaderRegionSize, partitionFooterRegionSize] at *
  omega

omit g in
theorem partitionSize_lt (env : Env) : env.partitionSize < 2 ^ 64 := env.volume.partitionSize.toNat_lt

/-- A slot ends where the next begins, inside the volume. -/
theorem slot_end {slot : UInt32} (h : slot < env.volume.partitionCount) :
    env.partitionBase slot + env.partitionSize ≤ env.volume.volumeSize.toNat := by
  have hs : slot.toNat + 1 ≤ env.partitionCount := UInt32.lt_iff_toNat_lt.mp h
  have hm := Nat.mul_le_mul_right env.partitionSize hs
  have := g.inside
  simp only [Env.partitionBase]
  rw [Nat.add_mul, Nat.one_mul] at hm
  omega

omit g in
/-- Different slots do not overlap. -/
theorem slots_disjoint (env : Env) {a b : UInt32} (h : a ≠ b) :
    env.partitionBase a + env.partitionSize ≤ env.partitionBase b ∨
      env.partitionBase b + env.partitionSize ≤ env.partitionBase a := by
  have hne : a.toNat ≠ b.toNat := fun hn => h (UInt32.toNat_inj.mp hn)
  simp only [Env.partitionBase]
  rcases Nat.lt_or_gt_of_ne hne with hlt | hlt
  · left
    have := Nat.mul_le_mul_right env.partitionSize hlt
    rw [Nat.succ_mul] at this
    omega
  · right
    have := Nat.mul_le_mul_right env.partitionSize hlt
    rw [Nat.succ_mul] at this
    omega

omit g in
theorem partitionBase_inj {env : Env} (hp : 0 < env.partitionSize) {a b : UInt32}
    (h : env.partitionBase a = env.partitionBase b) : a = b := by
  by_contra hne
  rcases slots_disjoint env hne with hd | hd
  · omega
  · omega

theorem partitionSize_pos : 0 < env.partitionSize := by
  have := g.room
  simp only [partitionHeaderRegionSize] at this
  omega

end Geometry

/-! ## Format and open agree -/

theorem formatHeader_geometry {size : Nat} {o : VolumeOptions}
    {random : Except Status (UInt64 × UInt64)} {env : Env} (hs : size < 2 ^ 64)
    (hid : env.volume.volumeIdHigh ≠ 0 ∨ env.volume.volumeIdLow ≠ 0)
    (h : formatHeader size o random = .ok env.volume) :
    Geometry env ∧ env.volume.volumeSize.toNat = size := by
  unfold formatHeader at h
  simp only at h
  split at h
  · simp at h
  rename_i hgeo
  simp only [not_or, not_lt, ne_eq, not_not] at hgeo
  obtain ⟨h1, h2, h3, h4, h5, h6, h7, h8, h9, h10, h11⟩ := hgeo
  split at h
  · simp at h
  rename_i hcount
  simp only [not_or, not_lt] at hcount
  split at h
  · simp at h
  rename_i m hm
  split at h
  · simp at h
  rename_i hspan
  cases hch : chooseId o.volumeIdHigh o.volumeIdLow o.allowExplicitVolumeIdForTesting
    "explicit volume ID is restricted to tests/golden vectors" random with
  | error e => rw [hch] at h; cases h
  | ok id =>
    rw [hch] at h
    have hv : env.volume = _ := (Except.ok.inj h).symm
    have hq0 : o.persistenceQuantum ≠ 0 := by
      intro h0
      simp [isPowerOfTwo, h0] at h3
    have hqpos : 0 < o.persistenceQuantum.toNat := by
      have : o.persistenceQuantum.toNat ≠ 0 := fun hn => hq0 (UInt32.toNat_inj.mp hn)
      omega
    have hcnt : (UInt32.ofNat ((size - volumePrefixSize) / o.partitionSize.toNat)).toNat =
        (size - volumePrefixSize) / o.partitionSize.toNat := by
      rw [UInt32.toNat_ofNat']
      omega
    have hsz : (UInt64.ofNat size).toNat = size := by
      rw [UInt64.toNat_ofNat']
      omega
    have hmul := Nat.div_mul_le_self (size - volumePrefixSize) o.partitionSize.toNat
    refine ⟨⟨hid, ?_, ?_, ?_, ?_, ?_, ?_, ?_, ?_, ?_, ?_, ?_, ?_, ?_⟩, ?_⟩ <;>
      simp only [Env.partitionCount, Env.quantum, Env.partitionSize, Env.indexRegionSize,
        Env.maxBlockPayload, hv]
    · rw [hcnt]; omega
    · simpa using h3
    · exact hqpos
    · exact h4
    · exact h7
    · exact h8
    · exact h9
    · exact h10
    · exact h6
    · have : o.maxBlockPayload.toNat ≠ 0 := fun hn => h5 (UInt32.toNat_inj.mp hn)
      omega
    · exact h11
    · exact ⟨m, hm, by omega⟩
    · rw [hcnt, hsz]; omega
    · exact hsz

theorem validateVolumeGeometry_ok {env : Env} (g : Geometry env) {size : Nat}
    (hs : env.volume.volumeSize.toNat ≤ size) : validateVolumeGeometry env.volume size = .ok () := by
  obtain ⟨m, hm, hfit⟩ := g.span
  have hroom := g.room
  have hin := g.inside
  have hq := g.quantum_pos
  have hcount : env.volume.partitionCount.toNat ≤
      (env.volume.volumeSize.toNat - volumePrefixSize) / env.volume.partitionSize.toNat := by
    refine (Nat.le_div_iff_mul_le g.partitionSize_pos).mpr ?_
    exact Nat.le_sub_of_add_le (by rw [Nat.add_comm]; exact hin)
  unfold validateVolumeGeometry
  simp only
  rw [if_neg, if_neg, if_neg]
  · have hm' : alignUp (blockHeaderEncodedSize + env.volume.maxBlockPayload.toNat)
        env.volume.persistenceQuantum.toNat = some m := hm
    rw [hm']
    simp only
    rw [if_neg]
    exact Nat.not_lt.mpr hfit
  · simp only [Env.quantum, Env.partitionSize, Env.indexRegionSize, partitionHeaderRegionSize,
      partitionFooterRegionSize] at hroom hq hcount ⊢
    omega
  · have h2 := g.count
    have h3 := g.power
    have h4 := g.quantum_le
    have h5 := g.payload_pos
    have h6 := g.index_min
    have h7 := g.prefix_aligned
    have h8 := g.header_aligned
    have h9 := g.partition_aligned
    have h10 := g.index_aligned
    have hp := g.partitionSize_pos
    simp only [Env.quantum, Env.partitionSize, Env.indexRegionSize, Env.partitionCount,
      Env.maxBlockPayload] at *
    have hc2 : ¬ env.volume.partitionCount < 2 := by
      rw [UInt32.lt_iff_toNat_lt]
      show ¬ (_ < 2)
      omega
    have hps : ¬ env.volume.partitionSize = 0 := by
      intro h0
      rw [h0] at hp
      exact absurd hp (by decide)
    have hmp : ¬ env.volume.maxBlockPayload = 0 := by
      intro h0
      rw [h0] at h5
      exact absurd h5 (by decide)
    simp only [hc2, hps, hmp, h3, h7, h8, h9, h10, not_true_eq_false, ne_eq, false_or, or_false]
    omega
  · rintro ⟨ha, hb⟩
    rcases g.id with h | h
    · exact h ha
    · exact h hb

theorem geometry_of_validate {env : Env} {size : Nat}
    (h : validateVolumeGeometry env.volume size = .ok ()) :
    Geometry env ∧ env.volume.volumeSize.toNat ≤ size := by
  unfold validateVolumeGeometry at h
  simp only at h
  split at h
  · simp at h
  rename_i hid
  split at h
  · simp at h
  rename_i hgeo
  simp only [not_or, not_lt, ne_eq, not_not] at hgeo
  obtain ⟨h1, h2, h3, h4, h5, h6, h7, h8, h9, h10, h11, h12⟩ := hgeo
  split at h
  · simp at h
  rename_i hfix
  simp only [not_or, not_lt, not_le] at hfix
  obtain ⟨f1, f2, f3⟩ := hfix
  split at h
  · simp at h
  rename_i m hm
  split at h
  · simp at h
  rename_i hspan
  have hq0 : env.volume.persistenceQuantum ≠ 0 := by
    intro h0
    simp [isPowerOfTwo, h0] at h5
  have hqpos : 0 < env.volume.persistenceQuantum.toNat := by
    have : env.volume.persistenceQuantum.toNat ≠ 0 := fun hn => hq0 (UInt32.toNat_inj.mp hn)
    omega
  have hmul := Nat.div_mul_le_self (env.volume.volumeSize.toNat - volumePrefixSize)
    env.volume.partitionSize.toNat
  have hcount := Nat.mul_le_mul_right env.volume.partitionSize.toNat f3
  refine ⟨⟨?_, ?_, h5, hqpos, h6, h9, h10, h11, h12, h8, ?_, ?_, ⟨m, hm, ?_⟩, ?_⟩, h1⟩
  · by_contra hno
    simp only [not_or, ne_eq, not_not] at hno
    exact hid hno
  · exact Nat.not_lt.mp fun hlt => h3 (UInt32.lt_iff_toNat_lt.mpr hlt)
  · have : env.volume.maxBlockPayload.toNat ≠ 0 := fun hn => h7 (UInt32.toNat_inj.mp hn)
    show 0 < env.volume.maxBlockPayload.toNat
    omega
  · simp only [Env.indexRegionSize, Env.quantum, Env.partitionSize]
    omega
  · simp only [Env.indexRegionSize, Env.partitionSize]
    omega
  · simp only [Env.partitionCount, Env.partitionSize]
    omega

/-! ## Partition headers of the volume -/

/-- A header as `create_partition` fills it in. -/
structure HeaderOk (env : Env) (h : PartitionHeader) : Prop where
  high : h.volumeIdHigh = env.volume.volumeIdHigh
  low : h.volumeIdLow = env.volume.volumeIdLow
  payload : h.maxBlockPayload = env.volume.maxBlockPayload
  quantum : h.persistenceQuantum = env.volume.persistenceQuantum
  options : env.validatePartitionOptions h.options = .ok ()
  version : h.options.compressionVersion ≠ 0

theorem validatePartitionOptions_ok {env : Env} {o : PartitionOptions}
    (h : env.validatePartitionOptions o = .ok ()) :
    (∃ c, env.codecFor o.compression o.compressionVersion = some c) ∧ o.timeDomainId ≠ 0 ∧
      (o.recordFormatId = 0 ↔ o.recordFormatVersion = 0) := by
  unfold Env.validatePartitionOptions at h
  split at h
  · simp at h
  rename_i hc
  split at h
  · simp at h
  rename_i ht
  split at h
  · simp at h
  rename_i hr
  refine ⟨?_, ht, by simpa using hr⟩
  cases hcf : env.codecFor o.compression o.compressionVersion with
  | none => simp [hcf] at hc
  | some c => exact ⟨c, rfl⟩

theorem checkFeatures_writer {env : Env} (g : Geometry env) (o : PartitionOptions) :
    checkFeatures env (writerFeatures o env.volume.partitionSize env.volume.indexRegionSize) =
      .ok () := by
  have hidx : (env.volume.partitionSize - 4096 - env.volume.indexRegionSize.toUInt64).toNat =
      env.indexBegin := by
    have := g.room
    have := env.volume.partitionSize.toNat_lt
    simp only [Env.indexBegin, Env.partitionSize, Env.indexRegionSize, partitionHeaderRegionSize,
      partitionFooterRegionSize] at *
    rw [UInt64.toNat_sub_of_le, UInt64.toNat_sub_of_le]
    · simp
    · rw [UInt64.le_iff_toNat_le]
      show 4096 ≤ _
      omega
    · rw [UInt64.le_iff_toNat_le, UInt64.toNat_sub_of_le]
      · simp
        omega
      · rw [UInt64.le_iff_toNat_le]
        show 4096 ≤ _
        omega
  have hlen : env.volume.indexRegionSize.toUInt64.toNat = env.indexRegionSize := by
    simp [Env.indexRegionSize]
  have hsum := g.indexBegin_add
  simp only [checkFeatures, writerFeatures, compressionDescriptor, timeIndexDescriptor,
    recordProfileDescriptor, integrityDescriptor, hidx, hlen]
  simp [featureTimeIndex, featureCompression, featureRecordProfile, featureIntegrity,
    partitionFooterRegionSize] at *
  omega

theorem acceptPartitionHeader_of_decode {env : Env} {slot : UInt32} {bs : Bytes}
    {h : PartitionHeader} (hd : decodePartitionHeader bs = .ok h)
    (h1 : h.volumeIdHigh = env.volume.volumeIdHigh) (h2 : h.volumeIdLow = env.volume.volumeIdLow)
    (h3 : h.slot = slot) (h4 : h.maxBlockPayload = env.volume.maxBlockPayload)
    (h5 : h.persistenceQuantum = env.volume.persistenceQuantum)
    (h6 : env.validatePartitionOptions h.options = .ok ())
    (h7 : checkFeatures env h.features = .ok ()) : acceptPartitionHeader env slot bs = .ok h := by
  simp only [acceptPartitionHeader, hd, bind, Except.bind, h1, h2, h3, h4, h5, h6, h7, ne_eq,
    not_true_eq_false, or_self, if_false]

/-- A header written for a slot of the volume is accepted there. -/
theorem acceptPartitionHeader_encode {env : Env} (g : Geometry env) {h : PartitionHeader}
    (hh : HeaderOk env h) :
    acceptPartitionHeader env h.slot (Item.bytes env (.header h)) =
      .ok { h with
        features := writerFeatures h.options env.volume.partitionSize env.volume.indexRegionSize } := by
  obtain ⟨-, -, hr⟩ := validatePartitionOptions_ok hh.options
  have hi : env.volume.indexRegionSize ≠ 0 := by
    intro h0
    have := g.index_min
    simp [Env.indexRegionSize, h0, indexEntryEncodedSize] at this
  exact acceptPartitionHeader_of_decode (decodePartitionHeader_encode hh.version hi hr) hh.high
    hh.low rfl hh.payload hh.quantum hh.options (checkFeatures_writer g h.options)

/-- The sizes of the parts of a slot. -/
theorem slot_parts {env : Env} (g : Geometry env) :
    partitionHeaderRegionSize = 4096 ∧ partitionHeaderEncodedSize = 1024 ∧
    partitionFooterEncodedSize = 256 ∧ blockHeaderEncodedSize = 128 ∧
    volumeHeaderEncodedSize = 256 ∧ volumeHeaderCopySize = 4096 ∧ volumePrefixSize = 8192 ∧
    4096 < env.indexBegin ∧ env.footerOffset = env.indexBegin + env.indexRegionSize ∧
    env.footerOffset + 4096 = env.partitionSize := by
  have h1 := g.header_lt_indexBegin
  have h2 := g.footerOffset_eq
  have h3 := g.indexBegin_add
  refine ⟨rfl, rfl, rfl, rfl, rfl, rfl, rfl, h1, h2, ?_⟩
  simp only [partitionFooterRegionSize] at h3
  omega

/-! ## Lengths of written items -/

@[simp] theorem Item.bytes_header_length (env : Env) (h : PartitionHeader) :
    (Item.bytes env (.header h)).length = 1024 := encodePartitionHeader_length ..

@[simp] theorem Item.bytes_frame_length (env : Env) (b : BlockHeader) (payload raw : Bytes) :
    (Item.bytes env (.frame b payload raw)).length = 128 + payload.length := by
  simp [Item.bytes]

@[simp] theorem Item.bytes_footer_length (env : Env) (f : PartitionFooter) (es : List IndexEntry) :
    (Item.bytes env (.footer f es)).length = 256 := encodePartitionFooter_length f

@[simp] theorem Item.bytes_volume_length (env : Env) (v : VolumeHeader) :
    (Item.bytes env (.volume v)).length = 256 := encodeVolumeHeader_length v

@[simp] theorem Item.bytes_index_length (env : Env) (es : List IndexEntry) :
    (Item.bytes env (.index es)).length = es.length * 48 := encodeIndex_length es

end TFDB
