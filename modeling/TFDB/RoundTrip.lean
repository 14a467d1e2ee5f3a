import TFDB.Reader

/-!
# Encoded structures decode to themselves

For each structure: the length of its encoding, the fields read back from it, and the
decoder's answer.

* `decodeVolumeHeader_encode`, `decodeBlockHeader_encode`, `decodePartitionFooter_encode`,
  `decodeIndex_encode`
* `decodePartitionHeader_encode` — up to the feature directory, which the encoder fills in;
  `acceptPartitionHeader_encode` adds the checks against the volume.
-/

set_option autoImplicit false

namespace TFDB

open ByteLib

/-! ## Checksummed structures -/

theorem finishCrc_length {bs : Bytes} {c : Nat} (h : c + 4 ≤ bs.length) :
    (finishCrc bs c).length = bs.length := by
  have h1 : (put bs c (put32 0)).length = bs.length := put_length (by simpa using h)
  simp only [finishCrc]
  rw [put_length (by simp [h1]; omega), h1]

theorem slice_finishCrc {bs : Bytes} {c o n : Nat} (h : c + 4 ≤ bs.length)
    (hd : o + n ≤ c ∨ c + 4 ≤ o) : slice (finishCrc bs c) o n = slice bs o n := by
  have h1 : (put bs c (put32 0)).length = bs.length := put_length (by simpa using h)
  simp only [finishCrc]
  rcases hd with hd | hd
  · rw [slice_put_before (by simp [h1]; omega) hd, slice_put_before (by simpa using h) hd]
  · rw [slice_put_after (by simp [h1]; omega) (by simpa using hd),
      slice_put_after (by simpa using h) (by simpa using hd)]

theorem get32_finishCrc {bs : Bytes} {c : Nat} (h : c + 4 ≤ bs.length) :
    get32 (finishCrc bs c) c = crc32c (put bs c (zeros 4)) := by
  have h1 : (put bs c (put32 0)).length = bs.length := put_length (by simpa using h)
  refine get32_of_slice ?_
  simp only [finishCrc]
  rw [slice_put_same (by simp [h1]; omega) (by simp)]
  rfl

theorem put_put {bs x y : Bytes} {o : Nat} (h : o + x.length ≤ bs.length) (hl : x.length = y.length) :
    put (put bs o x) o y = put bs o y := by
  have ht : (bs.take o).length = o := by simp; omega
  simp only [put, List.append_assoc]
  rw [List.take_append_of_le_length (by omega), List.take_take, Nat.min_self,
    List.drop_append, List.drop_of_length_le (by omega), ht, List.nil_append, List.drop_append,
    List.drop_of_length_le (by omega), List.nil_append, List.drop_drop]
  congr 3
  omega

theorem crc32cWithZeroedField_finishCrc {bs : Bytes} {c : Nat} (h : c + 4 ≤ bs.length) :
    crc32cWithZeroedField (finishCrc bs c) c = crc32c (put bs c (zeros 4)) := by
  have h1 : (put bs c (put32 0)).length = bs.length := put_length (by simpa using h)
  rw [crc32cWithZeroedField_eq]
  simp only [finishCrc]
  rw [put_put (by simp [h1]; omega) (by simp), put_put (by simpa using h) (by simp)]

/-! ## Records: a field table closed by a checksum -/

section Record
variable {n c o k : Nat} {fs : List (Nat × Bytes)} {x : Bytes}

theorem record_length (hp : Placed n 0 fs) (hc : c + 4 ≤ n) :
    (finishCrc (layout n 0 fs) c).length = n := by
  have hl := layout_length hp
  rw [finishCrc_length (by omega), hl, Nat.sub_zero]

/-- A field of a record, the checksum apart. -/
theorem slice_record (hp : Placed n 0 fs) (hc : c + 4 ≤ n) (hm : (o, x) ∈ fs) (hk : k = x.length)
    (hd : o + k ≤ c ∨ c + 4 ≤ o) : slice (finishCrc (layout n 0 fs) c) o k = x := by
  have hl := layout_length hp
  rw [slice_finishCrc (by omega) hd]
  exact slice_layout hp hm hk

theorem get16_record {v : UInt16} (hp : Placed n 0 fs) (hc : c + 4 ≤ n) (hm : (o, put16 v) ∈ fs)
    (hd : o + 2 ≤ c ∨ c + 4 ≤ o) : get16 (finishCrc (layout n 0 fs) c) o = v :=
  get16_of_slice (slice_record hp hc hm (put16_length v).symm hd)

theorem get32_record {v : UInt32} (hp : Placed n 0 fs) (hc : c + 4 ≤ n) (hm : (o, put32 v) ∈ fs)
    (hd : o + 4 ≤ c ∨ c + 4 ≤ o) : get32 (finishCrc (layout n 0 fs) c) o = v :=
  get32_of_slice (slice_record hp hc hm (put32_length v).symm hd)

theorem get64_record {v : UInt64} (hp : Placed n 0 fs) (hc : c + 4 ≤ n) (hm : (o, put64 v) ∈ fs)
    (hd : o + 8 ≤ c ∨ c + 4 ≤ o) : get64 (finishCrc (layout n 0 fs) c) o = v :=
  get64_of_slice (slice_record hp hc hm (put64_length v).symm hd)

theorem geti64_record {v : Int64} (hp : Placed n 0 fs) (hc : c + 4 ≤ n) (hm : (o, puti64 v) ∈ fs)
    (hd : o + 8 ≤ c ∨ c + 4 ≤ o) : geti64 (finishCrc (layout n 0 fs) c) o = v :=
  geti64_of_slice (slice_record hp hc hm (puti64_length v).symm hd)

/-- Reserved bytes of a record. -/
theorem allZero_record (hp : Placed n 0 fs) (hc : c + 4 ≤ n) (hk : o + k ≤ n)
    (hd : o + k ≤ c ∨ c + 4 ≤ o) (hg : ∀ f ∈ fs, o + k ≤ f.1 ∨ f.1 + f.2.length ≤ o) :
    allZero (finishCrc (layout n 0 fs) c) o k = true := by
  have hl := layout_length hp
  refine allZero_of_slice ?_
  rw [slice_finishCrc (by omega) hd]
  exact slice_layout_gap hp hk hg

/-- The common check accepts a record. -/
theorem commonCheck_record {magic : Bytes} {rest : List (Nat × Bytes)}
    (hp : Placed n 0 (commonFields magic n ++ rest)) (hm : magic.length = 8) (hc : c + 4 ≤ n)
    (hc16 : 16 ≤ c) (hn : n < 2 ^ 32) :
    commonCheck (finishCrc (layout n 0 (commonFields magic n ++ rest)) c) magic n c = .ok () := by
  have hl := layout_length hp
  have hlen := record_length hp hc
  have e1 := slice_record (o := 0) (k := 8) (x := magic) hp hc
    (by simp [commonFields]) hm.symm (by omega)
  have e2 := get16_of_slice (slice_record (o := 8) (k := 2) (x := put16 formatMajor) hp hc
    (by simp [commonFields]) rfl (by omega))
  have e3 := get16_of_slice (slice_record (o := 10) (k := 2) (x := put16 formatMinor) hp hc
    (by simp [commonFields]) rfl (by omega))
  have e4 := slice_record (o := 12) (k := 4) (x := leBytes 4 n) hp hc
    (by simp [commonFields]) (by simp) (by omega)
  have e5 : crc32cWithZeroedField (finishCrc (layout n 0 (commonFields magic n ++ rest)) c) c =
      get32 (finishCrc (layout n 0 (commonFields magic n ++ rest)) c) c := by
    rw [crc32cWithZeroedField_finishCrc (by omega), get32_finishCrc (by omega)]
  generalize finishCrc (layout n 0 (commonFields magic n ++ rest)) c = bs at *
  have e6 : (get32 bs 12).toNat = n := by
    rw [get32, e4, leNat_leBytes, UInt32.toNat_ofNat']
    omega
  have e7 : magicIs bs magic = true := by simp [magicIs, e1]; omega
  unfold commonCheck
  rw [if_neg (by omega), if_neg (by simp [e7]), if_neg (by simp [e2]), if_neg (by simp [e3])]
  simp only [e6]
  rw [if_neg (by omega), if_neg (by omega), List.take_of_length_le (by omega), if_neg (by simp [e5])]

end Record

/-! ## Volume header -/

theorem volumeHeaderFields_placed (h : VolumeHeader) :
    Placed volumeHeaderEncodedSize 0 (volumeHeaderFields h) := by
  simp [Placed, volumeHeaderFields, commonFields, volumeHeaderEncodedSize, volumeMagic]

@[simp] theorem encodeVolumeHeader_length (h : VolumeHeader) :
    (encodeVolumeHeader h).length = 256 :=
  record_length (volumeHeaderFields_placed h) (by decide)

theorem decodeVolumeHeader_of_fields {bs : Bytes} {h : VolumeHeader}
    (hc : commonCheck bs volumeMagic volumeHeaderEncodedSize 72 = .ok ())
    (hz : allZero bs 76 (volumeHeaderEncodedSize - 76) = true)
    (e16 : get64 bs 16 = h.volumeIdHigh)
    (e24 : get64 bs 24 = h.volumeIdLow)
    (e32 : get64 bs 32 = h.volumeSize)
    (e40 : get64 bs 40 = h.partitionSize)
    (e48 : get32 bs 48 = h.partitionCount)
    (e52 : get32 bs 52 = h.indexRegionSize)
    (e56 : get32 bs 56 = h.maxBlockPayload)
    (e60 : get32 bs 60 = h.persistenceQuantum)
    (e64 : geti64 bs 64 = h.createdTimeNs)
    (h1 : ¬ h.partitionCount < 2) (h2 : h.partitionSize ≠ 0) (h3 : h.maxBlockPayload ≠ 0)
    (h4 : h.persistenceQuantum ≠ 0) : decodeVolumeHeader bs = .ok h := by
  simp only [decodeVolumeHeader, hc, hz, bind, Except.bind,
    e16, e24, e32, e40, e48, e52, e56, e60, e64, h1, h2, h3, h4, not_true_eq_false, or_self,
    if_false]

theorem decodeVolumeHeader_encode {h : VolumeHeader} (h1 : ¬ h.partitionCount < 2)
    (h2 : h.partitionSize ≠ 0) (h3 : h.maxBlockPayload ≠ 0) (h4 : h.persistenceQuantum ≠ 0) :
    decodeVolumeHeader (encodeVolumeHeader h) = .ok h := by
  have hp := volumeHeaderFields_placed h
  exact decodeVolumeHeader_of_fields
    (commonCheck_record hp rfl (by decide) (by decide) (by decide))
    (allZero_record hp (by decide) (by decide) (by decide)
      (by simp [volumeHeaderFields, commonFields, volumeMagic]))
    (get64_record hp (by decide) (by simp [volumeHeaderFields]) (by decide))
    (get64_record hp (by decide) (by simp [volumeHeaderFields]) (by decide))
    (get64_record hp (by decide) (by simp [volumeHeaderFields]) (by decide))
    (get64_record hp (by decide) (by simp [volumeHeaderFields]) (by decide))
    (get32_record hp (by decide) (by simp [volumeHeaderFields]) (by decide))
    (get32_record hp (by decide) (by simp [volumeHeaderFields]) (by decide))
    (get32_record hp (by decide) (by simp [volumeHeaderFields]) (by decide))
    (get32_record hp (by decide) (by simp [volumeHeaderFields]) (by decide))
    (geti64_record hp (by decide) (by simp [volumeHeaderFields]) (by decide))
    h1 h2 h3 h4

/-! ## Block header -/

theorem blockHeaderFields_placed (b : BlockHeader) :
    Placed blockHeaderEncodedSize 0 (blockHeaderFields b) := by
  simp [Placed, blockHeaderFields, commonFields, blockHeaderEncodedSize, blockMagic]

@[simp] theorem encodeBlockHeader_length (b : BlockHeader) : (encodeBlockHeader b).length = 128 :=
  record_length (blockHeaderFields_placed b) (by decide)

theorem commonCheck_encodeBlockHeader (b : BlockHeader) :
    commonCheck (encodeBlockHeader b) blockMagic blockHeaderEncodedSize 72 = .ok () :=
  commonCheck_record (blockHeaderFields_placed b) rfl (by decide) (by decide) (by decide)

theorem decodeBlockHeader_of_fields {bs : Bytes} {b : BlockHeader}
    (hc : commonCheck bs blockMagic blockHeaderEncodedSize 72 = .ok ())
    (e16 : get64 bs 16 = b.generation)
    (e24 : get32 bs 24 = b.sequence)
    (e28 : get32 bs 28 = b.flags)
    (e32 : get32 bs 32 = b.recordCount)
    (e36 : get32 bs 36 = b.storedSize)
    (e40 : get32 bs 40 = b.rawSize)
    (e44 : get32 bs 44 = b.frameSpan)
    (e48 : geti64 bs 48 = b.minTimeNs)
    (e56 : geti64 bs 56 = b.maxTimeNs)
    (e64 : get16 bs 64 = b.compression.value)
    (e66 : get16 bs 66 = b.compressionVersion)
    (e68 : get32 bs 68 = b.payloadCrc)
    (e76 : get32 bs 76 = b.slot)
    (e80 : get64 bs 80 = b.volumeIdLow)
    (e88 : get64 bs 88 = b.volumeIdHigh)
    (e96 : get64 bs 96 = b.writerIdHigh)
    (e104 : get64 bs 104 = b.writerIdLow)
    (e112 : get64 bs 112 = b.previousWriterIdHigh)
    (e120 : get64 bs 120 = b.previousWriterIdLow)
    (hb : b.inBounds = true) : decodeBlockHeader bs = .ok b := by
  simp only [decodeBlockHeader, hc, bind, Except.bind,
    e16, e24, e28, e32, e36, e40, e44, e48, e56, e64, e66, e68, e76, e80, e88, e96, e104, e112,
    e120, hb, not_true_eq_false, if_false]

theorem decodeBlockHeader_encode {b : BlockHeader} (hb : b.inBounds = true) :
    decodeBlockHeader (encodeBlockHeader b) = .ok b := by
  have hp := blockHeaderFields_placed b
  exact decodeBlockHeader_of_fields (commonCheck_encodeBlockHeader b)
    (get64_record hp (by decide) (by simp [blockHeaderFields]) (by decide))
    (get32_record hp (by decide) (by simp [blockHeaderFields]) (by decide))
    (get32_record hp (by decide) (by simp [blockHeaderFields]) (by decide))
    (get32_record hp (by decide) (by simp [blockHeaderFields]) (by decide))
    (get32_record hp (by decide) (by simp [blockHeaderFields]) (by decide))
    (get32_record hp (by decide) (by simp [blockHeaderFields]) (by decide))
    (get32_record hp (by decide) (by simp [blockHeaderFields]) (by decide))
    (geti64_record hp (by decide) (by simp [blockHeaderFields]) (by decide))
    (geti64_record hp (by decide) (by simp [blockHeaderFields]) (by decide))
    (get16_record hp (by decide) (by simp [blockHeaderFields]) (by decide))
    (get16_record hp (by decide) (by simp [blockHeaderFields]) (by decide))
    (get32_record hp (by decide) (by simp [blockHeaderFields]) (by decide))
    (get32_record hp (by decide) (by simp [blockHeaderFields]) (by decide))
    (get64_record hp (by decide) (by simp [blockHeaderFields]) (by decide))
    (get64_record hp (by decide) (by simp [blockHeaderFields]) (by decide))
    (get64_record hp (by decide) (by simp [blockHeaderFields]) (by decide))
    (get64_record hp (by decide) (by simp [blockHeaderFields]) (by decide))
    (get64_record hp (by decide) (by simp [blockHeaderFields]) (by decide))
    (get64_record hp (by decide) (by simp [blockHeaderFields]) (by decide))
    hb

/-! ## Partition footer -/

theorem partitionFooterFields_placed (f : PartitionFooter) :
    Placed partitionFooterEncodedSize 0 (partitionFooterFields f) := by
  simp [Placed, partitionFooterFields, commonFields, partitionFooterEncodedSize, footerMagic]

@[simp] theorem encodePartitionFooter_length (f : PartitionFooter) :
    (encodePartitionFooter f).length = 256 :=
  record_length (partitionFooterFields_placed f) (by decide)

theorem commonCheck_encodePartitionFooter (f : PartitionFooter) :
    commonCheck (encodePartitionFooter f) footerMagic partitionFooterEncodedSize 100 = .ok () :=
  commonCheck_record (partitionFooterFields_placed f) rfl (by decide) (by decide) (by decide)

theorem decodePartitionFooter_of_fields {bs : Bytes} {f : PartitionFooter}
    (hc : commonCheck bs footerMagic partitionFooterEncodedSize 100 = .ok ())
    (hz1 : allZero bs 68 4 = true)
    (hz2 : allZero bs 104 (partitionFooterEncodedSize - 104) = true)
    (e52 : get32 bs 52 = 48)
    (e16 : get64 bs 16 = f.volumeIdHigh)
    (e24 : get64 bs 24 = f.volumeIdLow)
    (e32 : get64 bs 32 = f.generation)
    (e40 : get32 bs 40 = f.slot)
    (e44 : get32 bs 44 = f.flags)
    (e48 : get32 bs 48 = f.blockCount)
    (e56 : get64 bs 56 = f.indexOffset)
    (e64 : get32 bs 64 = f.indexSize)
    (e72 : get64 bs 72 = f.dataEnd)
    (e80 : geti64 bs 80 = f.minTimeNs)
    (e88 : geti64 bs 88 = f.maxTimeNs)
    (e96 : get32 bs 96 = f.indexCrc)
    (h1 : f.indexSize.toNat = f.blockCount.toNat * indexEntryEncodedSize)
    (h2 : f.blockCount ≠ 0 → f.minTimeNs ≤ f.maxTimeNs) : decodePartitionFooter bs = .ok f := by
  have hb : ¬ (f.indexSize.toNat ≠ f.blockCount.toNat * indexEntryEncodedSize ∨
      f.blockCount ≠ 0 ∧ f.minTimeNs > f.maxTimeNs) := by
    rintro (h | ⟨h, h'⟩)
    · exact h h1
    · exact absurd (h2 h) (Int64.not_le.mpr h')
  simp only [decodePartitionFooter, hc, hz1, hz2, bind, Except.bind,
    e52, e16, e24, e32, e40, e44, e48, e56, e64, e72, e80, e88, e96, hb, ne_eq, not_true_eq_false,
    or_self, if_false]

theorem decodePartitionFooter_encode {f : PartitionFooter}
    (h1 : f.indexSize.toNat = f.blockCount.toNat * indexEntryEncodedSize)
    (h2 : f.blockCount ≠ 0 → f.minTimeNs ≤ f.maxTimeNs) :
    decodePartitionFooter (encodePartitionFooter f) = .ok f := by
  have hp := partitionFooterFields_placed f
  have gap : ∀ o k, o = 68 ∧ k = 4 ∨ o = 104 ∧ k = 152 →
      ∀ x ∈ partitionFooterFields f, o + k ≤ x.1 ∨ x.1 + x.2.length ≤ o := by
    rintro o k (⟨rfl, rfl⟩ | ⟨rfl, rfl⟩) <;> simp [partitionFooterFields, commonFields, footerMagic]
  exact decodePartitionFooter_of_fields (commonCheck_encodePartitionFooter f)
    (allZero_record hp (by decide) (by decide) (by decide) (gap 68 4 (by decide)))
    (allZero_record hp (by decide) (by decide) (by decide) (gap 104 152 (by decide)))
    (get32_record hp (by decide) (by simp [partitionFooterFields]) (by decide))
    (get64_record hp (by decide) (by simp [partitionFooterFields]) (by decide))
    (get64_record hp (by decide) (by simp [partitionFooterFields]) (by decide))
    (get64_record hp (by decide) (by simp [partitionFooterFields]) (by decide))
    (get32_record hp (by decide) (by simp [partitionFooterFields]) (by decide))
    (get32_record hp (by decide) (by simp [partitionFooterFields]) (by decide))
    (get32_record hp (by decide) (by simp [partitionFooterFields]) (by decide))
    (get64_record hp (by decide) (by simp [partitionFooterFields]) (by decide))
    (get32_record hp (by decide) (by simp [partitionFooterFields]) (by decide))
    (get64_record hp (by decide) (by simp [partitionFooterFields]) (by decide))
    (geti64_record hp (by decide) (by simp [partitionFooterFields]) (by decide))
    (geti64_record hp (by decide) (by simp [partitionFooterFields]) (by decide))
    (get32_record hp (by decide) (by simp [partitionFooterFields]) (by decide))
    h1 h2

/-! ## Index -/

theorem indexEntryFields_placed (e : IndexEntry) :
    Placed indexEntryEncodedSize 0 (indexEntryFields e) := by
  simp [Placed, indexEntryFields, indexEntryEncodedSize]

@[simp] theorem encodeIndexEntry_length (e : IndexEntry) : (encodeIndexEntry e).length = 48 :=
  layout_length (indexEntryFields_placed e)

/-- What a serialized entry keeps: everything but the writer ID. -/
def IndexEntry.stored (e : IndexEntry) : IndexEntry := { e with writerIdHigh := 0, writerIdLow := 0 }

theorem decodeIndexEntry_encode {e : IndexEntry} (he : e.inBounds = true) :
    decodeIndexEntry (encodeIndexEntry e) = .ok e.stored := by
  have field {o k : Nat} {x : Bytes} (hm : (o, x) ∈ indexEntryFields e) (hk : k = x.length) :
      slice (encodeIndexEntry e) o k = x :=
    slice_layout (indexEntryFields_placed e) hm hk
  have hs : e.stored.inBounds = true := he
  unfold decodeIndexEntry
  rw [if_neg (by simp [indexEntryEncodedSize])]
  rw [get64_of_slice (field (o := 0) (x := put64 e.offset) (by simp [indexEntryFields]) (by simp)),
    get32_of_slice (field (o := 8) (x := put32 e.frameSize) (by simp [indexEntryFields]) (by simp)),
    get32_of_slice (field (o := 12) (x := put32 e.frameSpan) (by simp [indexEntryFields]) (by simp)),
    get32_of_slice (field (o := 16) (x := put32 e.sequence) (by simp [indexEntryFields]) (by simp)),
    get32_of_slice (field (o := 20) (x := put32 e.recordCount) (by simp [indexEntryFields]) (by simp)),
    geti64_of_slice (field (o := 24) (x := puti64 e.minTimeNs) (by simp [indexEntryFields]) (by simp)),
    geti64_of_slice (field (o := 32) (x := puti64 e.maxTimeNs) (by simp [indexEntryFields]) (by simp)),
    get32_of_slice (field (o := 40) (x := put32 e.flags) (by simp [indexEntryFields]) (by simp)),
    get32_of_slice (field (o := 44) (x := put32 e.rawSize) (by simp [indexEntryFields]) (by simp))]
  simp only [IndexEntry.stored] at hs ⊢
  simp [hs]

@[simp] theorem encodeIndex_length (es : List IndexEntry) :
    (encodeIndex es).length = es.length * 48 := by
  induction es with
  | nil => rfl
  | cons e es ih =>
    simp only [encodeIndex, List.flatMap_cons, List.length_append, encodeIndexEntry_length,
      List.length_cons] at ih ⊢
    omega

theorem decodeEntries_encode : ∀ {es : List IndexEntry}, (∀ e ∈ es, e.inBounds = true) →
    decodeEntries es.length (encodeIndex es) = .ok (es.map IndexEntry.stored)
  | [], _ => rfl
  | e :: es, h => by
    have he := decodeIndexEntry_encode (h e (List.mem_cons_self ..))
    have ih := decodeEntries_encode fun e' he' => h e' (List.mem_cons_of_mem _ he')
    have ht : (encodeIndex (e :: es)).take indexEntryEncodedSize = encodeIndexEntry e := by
      simp [encodeIndex, indexEntryEncodedSize]
    have hd : (encodeIndex (e :: es)).drop indexEntryEncodedSize = encodeIndex es := by
      simp [encodeIndex, indexEntryEncodedSize]
    simp only [List.length_cons, decodeEntries, ht, hd, he, ih, bind, Except.bind, List.map_cons]

theorem decodeIndex_encode {es : List IndexEntry} (h : ∀ e ∈ es, e.inBounds = true) :
    decodeIndex (encodeIndex es) = .ok (es.map IndexEntry.stored) := by
  have hm : es.length * 48 % indexEntryEncodedSize = 0 := Nat.mul_mod_left ..
  have hd : es.length * 48 / indexEntryEncodedSize = es.length := Nat.mul_div_left _ (by decide)
  rw [decodeIndex, encodeIndex_length, hm, hd]
  exact decodeEntries_encode h

/-! ## Partition header -/

section Header
variable {h : PartitionHeader} {partitionSize : UInt64} {indexRegionSize : UInt32}

theorem partitionHeaderFields_placed (h : PartitionHeader) (partitionSize : UInt64)
    (indexRegionSize : UInt32) : Placed partitionHeaderEncodedSize 0
      (partitionHeaderFields h (writerFeatures h.options partitionSize indexRegionSize)) := by
  simp [Placed, partitionHeaderFields, writerFeatures, descriptorFields, commonFields,
    partitionHeaderEncodedSize, partitionMagic, featureDescriptorSize]

@[simp] theorem encodePartitionHeader_length (h : PartitionHeader) (partitionSize : UInt64)
    (indexRegionSize : UInt32) :
    (encodePartitionHeader h partitionSize indexRegionSize).length = 1024 :=
  record_length (partitionHeaderFields_placed h partitionSize indexRegionSize) (by decide)

theorem commonCheck_encodePartitionHeader (h : PartitionHeader) (partitionSize : UInt64)
    (indexRegionSize : UInt32) :
    commonCheck (encodePartitionHeader h partitionSize indexRegionSize) partitionMagic
      partitionHeaderEncodedSize 104 = .ok () := by
  have hp := partitionHeaderFields_placed h partitionSize indexRegionSize
  simp only [partitionHeaderFields, List.append_assoc] at hp
  have := commonCheck_record (c := 104) hp rfl (by decide) (by decide) (by decide)
  simpa only [encodePartitionHeader, partitionHeaderFields, List.append_assoc] using this

/-- A field of an encoded partition header. -/
theorem slice_encodePartitionHeader {o k : Nat} {x : Bytes}
    (hm : (o, x) ∈ partitionHeaderFields h (writerFeatures h.options partitionSize indexRegionSize))
    (hk : k = x.length) (hd : o + k ≤ 104 ∨ 108 ≤ o) :
    slice (encodePartitionHeader h partitionSize indexRegionSize) o k = x :=
  slice_record (partitionHeaderFields_placed h partitionSize indexRegionSize) (by decide) hm hk hd

theorem decodeDescriptor_encode {i : Nat} {d : FeatureDescriptor}
    (hd : (d, i) ∈ (writerFeatures h.options partitionSize indexRegionSize).zipIdx) :
    decodeDescriptor (encodePartitionHeader h partitionSize indexRegionSize)
      (128 + i * featureDescriptorSize) = d := by
  have field {o k : Nat} {x : Bytes} (hx : (o, x) ∈ descriptorFields (128 + i * featureDescriptorSize) d)
      (hk : k = x.length) (ho : 108 ≤ o) :
      slice (encodePartitionHeader h partitionSize indexRegionSize) o k = x := by
    refine slice_encodePartitionHeader ?_ hk (Or.inr ho)
    simp only [partitionHeaderFields, List.mem_append, List.mem_flatMap]
    exact Or.inl (Or.inr ⟨(d, i), hd, hx⟩)
  unfold decodeDescriptor
  rw [get16_of_slice (field (x := put16 d.kind) (by simp [descriptorFields]) (by simp) (by omega)),
    get16_of_slice (field (x := put16 d.flags) (by simp [descriptorFields]) (by simp) (by omega)),
    get32_of_slice (field (x := put32 d.algorithm) (by simp [descriptorFields]) (by simp) (by omega)),
    get16_of_slice (field (x := put16 d.version) (by simp [descriptorFields]) (by simp) (by omega)),
    get32_of_slice (field (x := put32 d.configOffset) (by simp [descriptorFields]) (by simp) (by omega)),
    get32_of_slice (field (x := put32 d.configLength) (by simp [descriptorFields]) (by simp) (by omega)),
    get64_of_slice (field (x := put64 d.regionOffset) (by simp [descriptorFields]) (by simp) (by omega)),
    get64_of_slice (field (x := put64 d.regionLength) (by simp [descriptorFields]) (by simp) (by omega))]

/-- Where the fields of a partition header lie. -/
def partitionHeaderExtents : List (Nat × Nat) :=
  [(0, 8), (8, 2), (10, 2), (12, 4), (16, 8), (24, 8), (32, 8), (40, 4), (48, 8), (56, 4), (60, 4),
   (64, 8), (72, 8), (80, 8), (88, 2), (90, 2), (92, 4), (96, 4), (100, 4)] ++
  ([128, 168, 208, 248].flatMap fun d =>
    [(d, 2), (d + 2, 2), (d + 4, 4), (d + 8, 2), (d + 12, 4), (d + 16, 4), (d + 24, 8), (d + 32, 8)]) ++
  [(512, 8)]

theorem partitionHeaderFields_extents (h : PartitionHeader) (partitionSize : UInt64)
    (indexRegionSize : UInt32) :
    (partitionHeaderFields h (writerFeatures h.options partitionSize indexRegionSize)).map
      (fun f => (f.1, f.2.length)) = partitionHeaderExtents := by
  simp [partitionHeaderFields, writerFeatures, descriptorFields, commonFields, partitionMagic,
    featureDescriptorSize, partitionHeaderExtents]

theorem allZero_encodePartitionHeader {o k : Nat} (hk : o + k ≤ 1024)
    (hd : o + k ≤ 104 ∨ 108 ≤ o)
    (hg : ∀ f ∈ partitionHeaderExtents, o + k ≤ f.1 ∨ f.1 + f.2 ≤ o) :
    allZero (encodePartitionHeader h partitionSize indexRegionSize) o k = true := by
  refine allZero_record (partitionHeaderFields_placed h partitionSize indexRegionSize)
    (by decide) hk hd fun f hf => ?_
  have := List.mem_map_of_mem (f := fun f : Nat × Bytes => (f.1, f.2.length)) hf
  rw [partitionHeaderFields_extents] at this
  exact hg _ this

/-- One turn of the directory loop, when the reserved bytes of the descriptor are zero. -/
theorem decodeFeature_eq {bs : Bytes} (acc : FeatureScan) {i : Nat} {d : FeatureDescriptor}
    (hd : decodeDescriptor bs (128 + i * featureDescriptorSize) = d)
    (hf : d.flags &&& ~~~featureRequired = 0)
    (h1 : allZero bs (128 + i * featureDescriptorSize + 10) 2 = true)
    (h2 : allZero bs (128 + i * featureDescriptorSize + 20) 4 = true) :
    decodeFeature bs acc i = (checkConfigRange d acc.configRanges).bind fun ranges =>
      (decodeFeatureKind bs d { acc with configRanges := ranges }).bind fun acc =>
        .ok { acc with features := acc.features ++ [d] } := by
  simp only [decodeFeature, hd, hf, h1, h2, ne_eq, not_true_eq_false, or_self, if_false]
  rfl

theorem decodeFeature_compression {bs : Bytes} {acc : FeatureScan} {o : PartitionOptions}
    (hv : o.compressionVersion ≠ 0) (hacc : acc.compression = false) :
    decodeFeatureKind bs (compressionDescriptor o) acc = .ok { acc with
      compression := true
      options := { acc.options with
        compression := o.compression, compressionVersion := o.compressionVersion } } := by
  have halg : ¬ (o.compression.value.toUInt32 > 0xffff) := by
    have := o.compression.value.toNat_lt
    simp only [gt_iff_lt, UInt32.lt_iff_toNat_lt, UInt16.toNat_toUInt32]
    show ¬ (65535 < _)
    omega
  simp [decodeFeatureKind, compressionDescriptor, hacc, featureRequired, hv, halg]

theorem decodeFeature_timeIndex {bs : Bytes} {acc : FeatureScan} {partitionSize : UInt64}
    {indexRegionSize : UInt32} (hi : indexRegionSize ≠ 0) (hacc : acc.timeIndex = false) :
    decodeFeatureKind bs (timeIndexDescriptor partitionSize indexRegionSize) acc =
      .ok { acc with timeIndex := true } := by
  have hreg : ¬ indexRegionSize.toUInt64 = 0 := by
    intro h0
    apply hi
    apply UInt32.toNat_inj.mp
    have := congrArg UInt64.toNat h0
    simpa using this
  simp [decodeFeatureKind, timeIndexDescriptor, featureTimeIndex, featureCompression, hacc,
    featureRequired, hreg]

theorem decodeFeature_recordProfile {bs : Bytes} {acc : FeatureScan} {o : PartitionOptions}
    (hacc : acc.recordProfile = false) :
    decodeFeatureKind bs (recordProfileDescriptor o) acc = .ok { acc with
      recordProfile := true
      options := { acc.options with
        recordFormatVersion := o.recordFormatVersion, recordFormatId := get64 bs 512 } } := by
  simp [decodeFeatureKind, recordProfileDescriptor, featureTimeIndex, featureCompression,
    featureRecordProfile, hacc]

theorem decodeFeature_integrity {bs : Bytes} {acc : FeatureScan} (hacc : acc.integrity = false) :
    decodeFeatureKind bs integrityDescriptor acc = .ok { acc with integrity := true } := by
  simp [decodeFeatureKind, integrityDescriptor, featureTimeIndex, featureCompression,
    featureRecordProfile, featureIntegrity, featureRequired, hacc]

/-- The loop over the directory of an encoded header. -/
theorem foldlM_decodeFeature_encode (hv : h.options.compressionVersion ≠ 0)
    (hi : indexRegionSize ≠ 0) (o : PartitionOptions) :
    (List.range 4).foldlM (decodeFeature (encodePartitionHeader h partitionSize indexRegionSize))
      { options := o } = .ok
        { options := { o with
            compression := h.options.compression
            compressionVersion := h.options.compressionVersion
            recordFormatVersion := h.options.recordFormatVersion
            recordFormatId := h.options.recordFormatId }
          features := writerFeatures h.options partitionSize indexRegionSize
          configRanges := [(512, 520)]
          compression := true, timeIndex := true, recordProfile := true, integrity := true } := by
  have hid : get64 (encodePartitionHeader h partitionSize indexRegionSize) 512 =
      h.options.recordFormatId :=
    get64_of_slice (slice_encodePartitionHeader
      (List.mem_append_right _ (List.mem_singleton_self _)) rfl (by decide))
  have step (i : Nat) (d : FeatureDescriptor) (acc : FeatureScan)
      (hm : (writerFeatures h.options partitionSize indexRegionSize)[i]? = some d)
      (hf : d.flags &&& ~~~featureRequired = 0) (hi : i < 4) :=
    decodeFeature_eq acc
      (decodeDescriptor_encode (List.mem_zipIdx_iff_getElem?.mpr hm)) hf
      (allZero_encodePartitionHeader (by simp only [featureDescriptorSize]; omega)
        (by simp only [featureDescriptorSize]; omega)
        (by
          have h4 : i = 0 ∨ i = 1 ∨ i = 2 ∨ i = 3 := by omega
          rcases h4 with rfl | rfl | rfl | rfl <;> decide))
      (allZero_encodePartitionHeader (by simp only [featureDescriptorSize]; omega)
        (by simp only [featureDescriptorSize]; omega)
        (by
          have h4 : i = 0 ∨ i = 1 ∨ i = 2 ∨ i = 3 := by omega
          rcases h4 with rfl | rfl | rfl | rfl <;> decide))
  have c0 : checkConfigRange (compressionDescriptor h.options) [] = .ok [] := rfl
  have c1 : checkConfigRange (timeIndexDescriptor partitionSize indexRegionSize) [] = .ok [] := rfl
  have c2 : checkConfigRange (recordProfileDescriptor h.options) [] = .ok [(512, 520)] := by
    simp [checkConfigRange, recordProfileDescriptor]
  have c3 : checkConfigRange integrityDescriptor [(512, 520)] = .ok [(512, 520)] := rfl
  show ([0, 1, 2, 3] : List Nat).foldlM _ _ = _
  simp only [List.foldlM_cons, List.foldlM_nil, bind]
  rw [step 0 _ _ rfl (by simp [compressionDescriptor, featureRequired]) (by decide), c0]
  simp only [Except.bind, decodeFeature_compression hv]
  rw [step 1 _ _ rfl (by simp [timeIndexDescriptor, featureRequired]) (by decide), c1]
  simp only [Except.bind, decodeFeature_timeIndex hi]
  rw [step 2 _ _ rfl (by simp [recordProfileDescriptor, featureRequired]) (by decide), c2]
  simp only [Except.bind, decodeFeature_recordProfile, hid]
  rw [step 3 _ _ rfl (by simp [integrityDescriptor, featureRequired]) (by decide), c3]
  simp only [Except.bind, decodeFeature_integrity]
  rfl

theorem decodePartitionHeader_of_fields {bs : Bytes} {features : List FeatureDescriptor}
    {ranges : List (UInt32 × UInt32)}
    (hc : commonCheck bs partitionMagic partitionHeaderEncodedSize 104 = .ok ())
    (hz1 : allZero bs 44 4 = true) (hz2 : allZero bs 108 20 = true)
    (e16 : get64 bs 16 = h.volumeIdHigh)
    (e24 : get64 bs 24 = h.volumeIdLow)
    (e32 : get64 bs 32 = h.generation)
    (e40 : get32 bs 40 = h.slot)
    (e48 : geti64 bs 48 = h.createdTimeNs)
    (e56 : get32 bs 56 = h.maxBlockPayload)
    (e60 : get32 bs 60 = h.persistenceQuantum)
    (e64 : geti64 bs 64 = h.options.allowedBackwardSkewNs)
    (e72 : geti64 bs 72 = h.options.allowedForwardStepNs)
    (e80 : get64 bs 80 = h.options.timeDomainId)
    (e88 : get16 bs 88 = 4)
    (e90 : get16 bs 90 = 40)
    (e92 : get32 bs 92 = 128)
    (e96 : get32 bs 96 = 512)
    (e100 : get32 bs 100 = 16)
    (hf : ∀ o, (List.range 4).foldlM (decodeFeature bs) { options := o } = .ok
      { options := { o with
          compression := h.options.compression
          compressionVersion := h.options.compressionVersion
          recordFormatVersion := h.options.recordFormatVersion
          recordFormatId := h.options.recordFormatId }
        features := features
        configRanges := ranges
        compression := true, timeIndex := true, recordProfile := true, integrity := true })
    (hr : h.options.recordFormatId = 0 ↔ h.options.recordFormatVersion = 0) :
    decodePartitionHeader bs = .ok { h with features := features } := by
  have hdir : ¬ ((4 : UInt16).toNat > 8 ∨ (40 : UInt16).toNat ≠ featureDescriptorSize ∨
      (128 : UInt32) ≠ 128 ∨ (512 : UInt32) ≠ 512 ∨ (16 : UInt32) ≠ 16 ∨
      (4 : UInt16).toNat * (40 : UInt16).toNat >
        partitionHeaderEncodedSize - (128 : UInt32).toNat) := by decide
  have hr' : ¬ ((h.options.recordFormatId = 0) ≠ (h.options.recordFormatVersion = 0)) := by
    simpa using hr
  simp only [decodePartitionHeader, hc, hz1, hz2, bind, Except.bind,
    e16, e24, e32, e40, e48, e56, e60, e64, e72, e80, e88, e90, e92, e96, e100, not_true_eq_false,
    or_self, if_false, hdir]
  rw [show (4 : UInt16).toNat = 4 from rfl, hf]
  simp only [hr', if_false, not_true_eq_false, or_self]

/-- An encoded header decodes to itself with the directory filled in. -/
theorem decodePartitionHeader_encode (hv : h.options.compressionVersion ≠ 0)
    (hi : indexRegionSize ≠ 0)
    (hr : h.options.recordFormatId = 0 ↔ h.options.recordFormatVersion = 0) :
    decodePartitionHeader (encodePartitionHeader h partitionSize indexRegionSize) =
      .ok { h with features := writerFeatures h.options partitionSize indexRegionSize } := by
  have hp := partitionHeaderFields_placed h partitionSize indexRegionSize
  exact decodePartitionHeader_of_fields
    (commonCheck_encodePartitionHeader h partitionSize indexRegionSize)
    (allZero_encodePartitionHeader (by decide) (by decide) (by decide))
    (allZero_encodePartitionHeader (by decide) (by decide) (by decide))
    (get64_record hp (by decide) (by simp [partitionHeaderFields]) (by decide))
    (get64_record hp (by decide) (by simp [partitionHeaderFields]) (by decide))
    (get64_record hp (by decide) (by simp [partitionHeaderFields]) (by decide))
    (get32_record hp (by decide) (by simp [partitionHeaderFields]) (by decide))
    (geti64_record hp (by decide) (by simp [partitionHeaderFields]) (by decide))
    (get32_record hp (by decide) (by simp [partitionHeaderFields]) (by decide))
    (get32_record hp (by decide) (by simp [partitionHeaderFields]) (by decide))
    (geti64_record hp (by decide) (by simp [partitionHeaderFields]) (by decide))
    (geti64_record hp (by decide) (by simp [partitionHeaderFields]) (by decide))
    (get64_record hp (by decide) (by simp [partitionHeaderFields]) (by decide))
    (get16_record hp (by decide) (by simp [partitionHeaderFields]) (by decide))
    (get16_record hp (by decide) (by simp [partitionHeaderFields]) (by decide))
    (get32_record hp (by decide) (by simp [partitionHeaderFields]) (by decide))
    (get32_record hp (by decide) (by simp [partitionHeaderFields]) (by decide))
    (get32_record hp (by decide) (by simp [partitionHeaderFields]) (by decide))
    (foldlM_decodeFeature_encode hv hi) hr

theorem decodePartitionHeader_directory {bs : Bytes} {h' : PartitionHeader}
    (hd : decodePartitionHeader bs = .ok h') :
    ∃ start scan : FeatureScan, start.compression = false ∧ start.configRanges = [] ∧
      (List.range (get16 bs 88).toNat).foldlM (decodeFeature bs) start = .ok scan := by
  unfold decodePartitionHeader at hd
  cases hc : commonCheck bs partitionMagic partitionHeaderEncodedSize 104 with
  | error e => rw [hc] at hd; cases hd
  | ok u =>
    rw [hc] at hd
    simp only [bind, Except.bind] at hd
    split at hd
    · simp at hd
    split at hd
    · simp at hd
    split at hd
    · cases hd
    · rename_i scan hscan
      exact ⟨_, scan, rfl, rfl, hscan⟩

/-- The decoder rejects a header whose codec has version zero. -/
theorem decodePartitionHeader_version {h' : PartitionHeader}
    (hd : decodePartitionHeader (encodePartitionHeader h partitionSize indexRegionSize) = .ok h') :
    h.options.compressionVersion ≠ 0 := by
  intro hv
  obtain ⟨start, scan, h1, h2, hfold⟩ := decodePartitionHeader_directory hd
  have hp := partitionHeaderFields_placed h partitionSize indexRegionSize
  have hcount : get16 (encodePartitionHeader h partitionSize indexRegionSize) 88 = 4 :=
    get16_record hp (by decide) (by simp [partitionHeaderFields]) (by decide)
  have hfirst : decodeDescriptor (encodePartitionHeader h partitionSize indexRegionSize)
      (128 + 0 * featureDescriptorSize) = compressionDescriptor h.options :=
    decodeDescriptor_encode (List.mem_zipIdx_iff_getElem?.mpr rfl)
  have hstep := decodeFeature_eq start hfirst
    (by simp [compressionDescriptor, featureRequired])
    (allZero_encodePartitionHeader (by decide) (by decide) (by decide))
    (allZero_encodePartitionHeader (by decide) (by decide) (by decide))
  have hfail : decodeFeature (encodePartitionHeader h partitionSize indexRegionSize) start 0 =
      failWith .corrupt "invalid compression feature descriptor" := by
    rw [hstep, h2]
    simp [checkConfigRange, compressionDescriptor, decodeFeatureKind, h1, hv, Except.bind, failWith]
  rw [hcount, show (4 : UInt16).toNat = 4 from rfl] at hfold
  change ([0, 1, 2, 3] : List Nat).foldlM _ _ = _ at hfold
  rw [List.foldlM_cons, hfail] at hfold
  cases hfold

end Header

end TFDB
