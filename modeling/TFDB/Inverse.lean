import TFDB.RoundTrip

/-!
# Encodings are exact inverses

The other half of the round trip: a byte string of the exact length that a decoder accepts is the
encoding of what it decodes to.  The reserved bytes have to be zero, the versions and the size are
fixed, and the checksum is the one the encoder stores.

* `encode_of_fields` — a checked structure with the fields of a table is the record of the table;
* `encodeVolumeHeader_decode`, `encodeBlockHeader_decode`, `encodePartitionFooter_decode`,
  `encodeIndex_decode`;
* `encodings_exact` — both halves, for all structures.
-/

set_option autoImplicit false

namespace TFDB

open ByteLib

/-! ## Fields of a byte string -/

section
variable {bs : Bytes} {o : Nat}

/-- A number of the full width has the bytes it was read from. -/
theorem leBytes_slice {k : Nat} (h : o + k ≤ bs.length) : leBytes k (leNat (slice bs o k)) = slice bs o k := by
  have hl := slice_length h
  have hb := leBytes_leNat (slice bs o k)
  rw [hl] at hb
  exact hb

theorem leNat_slice_lt {k : Nat} (h : o + k ≤ bs.length) : leNat (slice bs o k) < 256 ^ k := by
  have hlt := leNat_lt (slice bs o k)
  rw [slice_length h] at hlt
  exact hlt

theorem put16_get16 (h : o + 2 ≤ bs.length) : put16 (get16 bs o) = slice bs o 2 := by
  have hlt := leNat_slice_lt h
  rw [put16, get16, UInt16.toNat_ofNat', Nat.mod_eq_of_lt (by omega), leBytes_slice h]

theorem put32_get32 (h : o + 4 ≤ bs.length) : put32 (get32 bs o) = slice bs o 4 := by
  have hlt := leNat_slice_lt h
  rw [put32, get32, UInt32.toNat_ofNat', Nat.mod_eq_of_lt (by omega), leBytes_slice h]

theorem put64_get64 (h : o + 8 ≤ bs.length) : put64 (get64 bs o) = slice bs o 8 := by
  have hlt := leNat_slice_lt h
  rw [put64, get64, UInt64.toNat_ofNat', Nat.mod_eq_of_lt (by omega), leBytes_slice h]

theorem puti64_geti64 (h : o + 8 ≤ bs.length) : puti64 (geti64 bs o) = slice bs o 8 := by
  rw [← put64_get64 h, geti64_eq, puti64]
  rfl

theorem slice_of_allZero {k : Nat} (h : o + k ≤ bs.length) (hz : allZero bs o k = true) :
    slice bs o k = zeros k := by
  rw [zeros]
  refine List.eq_replicate_iff.mpr ⟨slice_length h, fun b hb => ?_⟩
  simpa using List.all_eq_true.mp hz b hb

end

/-! ## Checked structures -/

/-- What the common check says about a structure of the exact size. -/
structure Checked (bs magic : Bytes) (n c : Nat) : Prop where
  magic : slice bs 0 8 = magic
  major : get16 bs 8 = formatMajor
  minor : get16 bs 10 = formatMinor
  size : (get32 bs 12).toNat = n
  field : c + 4 ≤ n
  crc : crc32cWithZeroedField bs c = get32 bs c

theorem commonCheck_inv {bs magic : Bytes} {n c : Nat} (hl : bs.length = n)
    (h : commonCheck bs magic n c = .ok ()) : Checked bs magic n c := by
  unfold commonCheck at h
  split at h
  · cases h
  split at h
  · cases h
  split at h
  · cases h
  split at h
  · cases h
  simp only at h
  split at h
  · cases h
  split at h
  · cases h
  split at h
  · cases h
  rename_i hmagic hmajor hminor hsize hfield hcrc
  rw [not_not] at hmagic hmajor hcrc
  push Not at hsize
  rw [hsize.1, ← hl, List.take_length] at hcrc
  have hmagic : 8 ≤ bs.length ∧ slice bs 0 8 = magic := by simpa [magicIs] using hmagic
  refine ⟨hmagic.2, hmajor, ?_, hsize.1, by omega, hcrc⟩
  exact UInt16.le_antisymm (UInt16.not_lt.mp hminor) (UInt16.not_lt.mp (by simp [formatMinor]))

/-- A checked structure that has the fields of a table, and zeros between them, is the record of the
table. -/
theorem encode_of_fields {n c : Nat} {fs : List (Nat × Bytes)} {bs : Bytes} (hp : Placed n 0 fs)
    (hl : bs.length = n) (hc : c + 4 ≤ n) (hcrc : crc32cWithZeroedField bs c = get32 bs c)
    (hf : ∀ f ∈ fs, slice bs f.1 f.2.length = f.2 ∧ (f.1 + f.2.length ≤ c ∨ c + 4 ≤ f.1))
    (hz : ∀ i < n, (∀ f ∈ fs, i + 1 ≤ f.1 ∨ f.1 + f.2.length ≤ i) →
      (c ≤ i ∧ i < c + 4) ∨ slice bs i 1 = zeros 1) : finishCrc (layout n 0 fs) c = bs := by
  have hlen : c + (zeros 4).length ≤ bs.length := by
    rw [zeros_length]
    omega
  -- the table says nothing about the checksum
  have hcleared : layout n 0 fs = put bs c (zeros 4) := by
    refine layout_eq_of_slices hp (by rw [put_length hlen]; exact hl) (fun f hm => ?_) fun i hi hgap => ?_
    · obtain ⟨h1, h2⟩ := hf f hm
      rcases h2 with h2 | h2
      · rw [slice_put_before hlen h2]
        exact h1
      · rw [slice_put_after hlen (by rw [zeros_length]; exact h2)]
        exact h1
    · by_cases hin : c ≤ i ∧ i < c + 4
      · exact slice_one_zero (slice_put_same hlen (by rw [zeros_length])) hin.1 hin.2
      · have hzero := (hz i hi hgap).resolve_left hin
        rcases Nat.lt_or_ge i c with h | h
        · rw [slice_put_before hlen (by omega)]
          exact hzero
        · rw [slice_put_after hlen (by rw [zeros_length]; omega)]
          exact hzero
  have hput : put (put bs c (zeros 4)) c (put32 0) = put bs c (zeros 4) := put_put hlen rfl
  have hsum : crc32c (put bs c (zeros 4)) = get32 bs c := by
    rw [← hcrc, crc32cWithZeroedField_eq]
  have hlen' : c + 4 ≤ bs.length := by omega
  rw [finishCrc, hcleared]
  rw [hput, hsum, put32_get32 hlen', put_put hlen (by rw [slice_length hlen', zeros_length])]
  have hcut := eq_take_slice_drop bs c 4
  rw [put, slice_length hlen', List.append_assoc]
  exact hcut.symm

section
variable {bs : Bytes} {n c o : Nat}

/-- The table entry of a field that is read and stored again. -/
abbrev FieldKept (bs : Bytes) (c o : Nat) (x : Bytes) : Prop :=
  slice bs o x.length = x ∧ (o + x.length ≤ c ∨ c + 4 ≤ o)

theorem kept16 (h : o + 2 ≤ bs.length) (hd : o + 2 ≤ c ∨ c + 4 ≤ o) :
    FieldKept bs c o (put16 (get16 bs o)) := by
  rw [FieldKept, put16_length, put16_get16 h]
  exact ⟨rfl, hd⟩

theorem kept32 (h : o + 4 ≤ bs.length) (hd : o + 4 ≤ c ∨ c + 4 ≤ o) :
    FieldKept bs c o (put32 (get32 bs o)) := by
  rw [FieldKept, put32_length, put32_get32 h]
  exact ⟨rfl, hd⟩

theorem kept64 (h : o + 8 ≤ bs.length) (hd : o + 8 ≤ c ∨ c + 4 ≤ o) :
    FieldKept bs c o (put64 (get64 bs o)) := by
  rw [FieldKept, put64_length, put64_get64 h]
  exact ⟨rfl, hd⟩

theorem kepti64 (h : o + 8 ≤ bs.length) (hd : o + 8 ≤ c ∨ c + 4 ≤ o) :
    FieldKept bs c o (puti64 (geti64 bs o)) := by
  rw [FieldKept, puti64_length, puti64_geti64 h]
  exact ⟨rfl, hd⟩

/-- The common fields of a checked structure. -/
theorem Checked.fields {magic : Bytes} (h : Checked bs magic n c) (hl : bs.length = n) (hc : 16 ≤ c)
    (hm : magic.length = 8) : ∀ f ∈ commonFields magic n, FieldKept bs c f.1 f.2 := by
  have hfield := h.field
  have hmajor := @kept16 bs c 8 (by omega) (by omega)
  have hminor := @kept16 bs c 10 (by omega) (by omega)
  have hsize := @kept32 bs c 12 (by omega) (by omega)
  rw [h.major] at hmajor
  rw [h.minor] at hminor
  rw [put32, h.size] at hsize
  simp only [commonFields, List.forall_mem_cons]
  refine ⟨⟨by rw [hm]; exact h.magic, by omega⟩, hmajor, hminor, hsize, fun f hf => by cases hf⟩

end

/-! ## The structures -/

theorem encodeVolumeHeader_decode {bs : Bytes} {h : VolumeHeader}
    (hl : bs.length = volumeHeaderEncodedSize) (hd : decodeVolumeHeader bs = .ok h) :
    encodeVolumeHeader h = bs := by
  unfold decodeVolumeHeader at hd
  obtain ⟨_, hck, hd⟩ := bind_ok_inv hd
  have hk := commonCheck_inv hl hck
  split at hd
  · cases hd
  rename_i hzero
  rw [not_not] at hzero
  simp only at hd
  split at hd
  · cases hd
  obtain rfl := Except.ok.inj hd
  have hlen : bs.length = 256 := hl
  refine encode_of_fields (volumeHeaderFields_placed _) hl hk.field hk.crc ?_ ?_
  · refine List.forall_mem_append.mpr ⟨hk.fields hl (by omega) rfl, ?_⟩
    simp only [List.forall_mem_cons]
    refine ⟨kept64 ?_ ?_, kept64 ?_ ?_, kept64 ?_ ?_, kept64 ?_ ?_, kept32 ?_ ?_, kept32 ?_ ?_,
      kept32 ?_ ?_, kept32 ?_ ?_, kepti64 ?_ ?_, fun f hf => by cases hf⟩
    all_goals omega
  · intro i hi hgap
    simp only [volumeHeaderFields, commonFields, List.cons_append, List.nil_append,
      List.forall_mem_cons, put16_length, put32_length, put64_length, puti64_length,
      leBytes_length] at hgap
    have hmagic : volumeMagic.length = 8 := rfl
    by_cases hlow : i < 76
    · left
      omega
    · right
      exact slice_one_zero (slice_of_allZero (by omega) hzero) (by omega)
        (by simp only [volumeHeaderEncodedSize] at *; omega)

theorem encodeBlockHeader_decode {bs : Bytes} {b : BlockHeader}
    (hl : bs.length = blockHeaderEncodedSize) (hd : decodeBlockHeader bs = .ok b) :
    encodeBlockHeader b = bs := by
  unfold decodeBlockHeader at hd
  obtain ⟨_, hck, hd⟩ := bind_ok_inv hd
  have hk := commonCheck_inv hl hck
  simp only at hd
  split at hd
  · cases hd
  obtain rfl := Except.ok.inj hd
  have hlen : bs.length = 128 := hl
  refine encode_of_fields (blockHeaderFields_placed _) hl hk.field hk.crc ?_ ?_
  · refine List.forall_mem_append.mpr ⟨hk.fields hl (by omega) rfl, ?_⟩
    simp only [List.forall_mem_cons]
    refine ⟨kept64 ?_ ?_, kept32 ?_ ?_, kept32 ?_ ?_, kept32 ?_ ?_, kept32 ?_ ?_, kept32 ?_ ?_,
      kept32 ?_ ?_, kepti64 ?_ ?_, kepti64 ?_ ?_, kept16 ?_ ?_, kept16 ?_ ?_, kept32 ?_ ?_,
      kept32 ?_ ?_, kept64 ?_ ?_, kept64 ?_ ?_, kept64 ?_ ?_, kept64 ?_ ?_, kept64 ?_ ?_,
      kept64 ?_ ?_, fun f hf => by cases hf⟩
    all_goals omega
  · -- the fields leave no room but the checksum's
    intro i hi hgap
    simp only [blockHeaderFields, commonFields, List.cons_append, List.nil_append,
      List.forall_mem_cons, put16_length, put32_length, put64_length, puti64_length,
      leBytes_length] at hgap
    have hmagic : blockMagic.length = 8 := rfl
    have hi : i < 128 := hi
    left
    omega

theorem encodePartitionFooter_decode {bs : Bytes} {f : PartitionFooter}
    (hl : bs.length = partitionFooterEncodedSize) (hd : decodePartitionFooter bs = .ok f) :
    encodePartitionFooter f = bs := by
  unfold decodePartitionFooter at hd
  obtain ⟨_, hck, hd⟩ := bind_ok_inv hd
  have hk := commonCheck_inv hl hck
  split at hd
  · cases hd
  rename_i hzero
  push Not at hzero
  split at hd
  · cases hd
  rename_i hentry
  rw [not_not] at hentry
  simp only at hd
  split at hd
  · cases hd
  obtain rfl := Except.ok.inj hd
  have hlen : bs.length = 256 := hl
  refine encode_of_fields (partitionFooterFields_placed _) hl hk.field hk.crc ?_ ?_
  · refine List.forall_mem_append.mpr ⟨hk.fields hl (by omega) rfl, ?_⟩
    have hsize := @kept32 bs 100 52 (by omega) (by omega)
    rw [hentry] at hsize
    simp only [List.forall_mem_cons]
    refine ⟨kept64 ?_ ?_, kept64 ?_ ?_, kept64 ?_ ?_, kept32 ?_ ?_, kept32 ?_ ?_, kept32 ?_ ?_,
      hsize, kept64 ?_ ?_, kept32 ?_ ?_, kept64 ?_ ?_, kepti64 ?_ ?_, kepti64 ?_ ?_,
      kept32 ?_ ?_, fun f hf => by cases hf⟩
    all_goals omega
  · intro i hi hgap
    simp only [partitionFooterFields, commonFields, List.cons_append, List.nil_append,
      List.forall_mem_cons, put16_length, put32_length, put64_length, puti64_length,
      leBytes_length] at hgap
    have hmagic : footerMagic.length = 8 := rfl
    have hi : i < 256 := hi
    by_cases hhigh : 104 ≤ i
    · right
      exact slice_one_zero (slice_of_allZero (by simp only [partitionFooterEncodedSize]; omega)
        hzero.2) hhigh (by simp only [partitionFooterEncodedSize]; omega)
    · by_cases hlow : 68 ≤ i ∧ i < 72
      · right
        exact slice_one_zero (slice_of_allZero (by omega) hzero.1) hlow.1 (by omega)
      · left
        omega

theorem encodeIndexEntry_decode {bs : Bytes} {e : IndexEntry}
    (hl : bs.length = indexEntryEncodedSize) (hd : decodeIndexEntry bs = .ok e) :
    encodeIndexEntry e = bs := by
  unfold decodeIndexEntry at hd
  split at hd
  · cases hd
  simp only at hd
  split at hd
  · cases hd
  obtain rfl := Except.ok.inj hd
  have hlen : bs.length = 48 := hl
  refine layout_eq_of_slices (indexEntryFields_placed _) hl ?_ ?_
  · simp only [indexEntryFields, List.forall_mem_cons]
    refine ⟨(kept64 (c := 48) ?_ ?_).1, (kept32 (c := 48) ?_ ?_).1, (kept32 (c := 48) ?_ ?_).1,
      (kept32 (c := 48) ?_ ?_).1, (kept32 (c := 48) ?_ ?_).1, (kepti64 (c := 48) ?_ ?_).1,
      (kepti64 (c := 48) ?_ ?_).1, (kept32 (c := 48) ?_ ?_).1, (kept32 (c := 48) ?_ ?_).1,
      fun f hf => by cases hf⟩
    all_goals omega
  · intro i hi hgap
    exfalso
    simp only [indexEntryFields, List.forall_mem_cons, put32_length, put64_length,
      puti64_length] at hgap
    have hi : i < 48 := hi
    omega

theorem encodeIndex_decodeEntries {n : Nat} {bs : Bytes} {es : List IndexEntry}
    (hl : bs.length = n * indexEntryEncodedSize) (hd : decodeEntries n bs = .ok es) :
    encodeIndex es = bs := by
  induction n generalizing bs es with
  | zero =>
    obtain rfl := Except.ok.inj hd
    exact (List.length_eq_zero_iff.mp (by omega)).symm
  | succ n ih =>
    rw [decodeEntries] at hd
    obtain ⟨e, he, hd⟩ := bind_ok_inv hd
    obtain ⟨rest, hrest, hd⟩ := bind_ok_inv hd
    obtain rfl := Except.ok.inj hd
    simp only [indexEntryEncodedSize] at hl
    have hfirst := encodeIndexEntry_decode (by
      rw [List.length_take]
      simp only [indexEntryEncodedSize]
      omega) he
    have htail := ih (by
      rw [List.length_drop]
      simp only [indexEntryEncodedSize]
      omega) hrest
    rw [encodeIndex, List.flatMap_cons, hfirst]
    rw [encodeIndex] at htail
    rw [htail, List.take_append_drop]

theorem encodeIndex_decode {bs : Bytes} {es : List IndexEntry} (hd : decodeIndex bs = .ok es) :
    encodeIndex es = bs := by
  unfold decodeIndex at hd
  split at hd
  · cases hd
  rename_i hmod
  rw [not_not] at hmod
  refine encodeIndex_decodeEntries ?_ hd
  simp only [indexEntryEncodedSize] at hmod ⊢
  omega

/-! ## Both halves -/

/-- The checks of the volume decoder behind the checksum. -/
def VolumeHeader.inBounds (h : VolumeHeader) : Prop :=
  ¬ h.partitionCount < 2 ∧ h.partitionSize ≠ 0 ∧ h.maxBlockPayload ≠ 0 ∧ h.persistenceQuantum ≠ 0

/-- The checks of the footer decoder behind the checksum. -/
def PartitionFooter.inBounds (f : PartitionFooter) : Prop :=
  f.indexSize.toNat = f.blockCount.toNat * indexEntryEncodedSize ∧
    (f.blockCount ≠ 0 → f.minTimeNs ≤ f.maxTimeNs)

/-- **Encoding and decoding are exact inverses.**  A value that meets its decoder's checks is read
back as it was stored: a header with the directory filled in, an index without the writers, which are
not stored.  Bytes of the exact length that a decoder accepts are the encoding of what it returns. -/
theorem encodings_exact :
    (∀ h : VolumeHeader, h.inBounds → decodeVolumeHeader (encodeVolumeHeader h) = .ok h) ∧
    (∀ b : BlockHeader, b.inBounds = true → decodeBlockHeader (encodeBlockHeader b) = .ok b) ∧
    (∀ f : PartitionFooter, f.inBounds → decodePartitionFooter (encodePartitionFooter f) = .ok f) ∧
    (∀ es : List IndexEntry, (∀ e ∈ es, e.inBounds = true) →
      decodeIndex (encodeIndex es) = .ok (es.map IndexEntry.stored)) ∧
    (∀ (h : PartitionHeader) (partitionSize : UInt64) (indexRegionSize : UInt32),
      h.options.compressionVersion ≠ 0 → indexRegionSize ≠ 0 →
      (h.options.recordFormatId = 0 ↔ h.options.recordFormatVersion = 0) →
      decodePartitionHeader (encodePartitionHeader h partitionSize indexRegionSize) =
        .ok { h with features := writerFeatures h.options partitionSize indexRegionSize }) ∧
    (∀ bs h, bs.length = volumeHeaderEncodedSize → decodeVolumeHeader bs = .ok h →
      encodeVolumeHeader h = bs) ∧
    (∀ bs b, bs.length = blockHeaderEncodedSize → decodeBlockHeader bs = .ok b →
      encodeBlockHeader b = bs) ∧
    (∀ bs f, bs.length = partitionFooterEncodedSize → decodePartitionFooter bs = .ok f →
      encodePartitionFooter f = bs) ∧
    ∀ bs es, decodeIndex bs = .ok es → encodeIndex es = bs := by
  refine ⟨?_, ?_, ?_, ?_, ?_, ?_, ?_, ?_, ?_⟩
  · rintro h ⟨h1, h2, h3, h4⟩
    exact decodeVolumeHeader_encode h1 h2 h3 h4
  · exact fun b hb => decodeBlockHeader_encode hb
  · rintro f ⟨h1, h2⟩
    exact decodePartitionFooter_encode h1 h2
  · exact fun es hes => decodeIndex_encode hes
  · exact fun h partitionSize indexRegionSize hv hi hr => decodePartitionHeader_encode hv hi hr
  · exact fun bs h hl hd => encodeVolumeHeader_decode hl hd
  · exact fun bs b hl hd => encodeBlockHeader_decode hl hd
  · exact fun bs f hl hd => encodePartitionFooter_decode hl hd
  · exact fun bs es hd => encodeIndex_decode hd

/-- A footer with extreme field values reads back. -/
theorem extreme_footer_exact :
    decodePartitionFooter (encodePartitionFooter
      { generation := 0xffffffffffffffff, slot := 0xffffffff, blockCount := 1, indexSize := 48
        minTimeNs := Int64.minValue, maxTimeNs := Int64.maxValue }) =
    .ok { generation := 0xffffffffffffffff, slot := 0xffffffff, blockCount := 1, indexSize := 48
          minTimeNs := Int64.minValue, maxTimeNs := Int64.maxValue } :=
  encodings_exact.2.2.1 _ ⟨by decide, by decide⟩

/-- The writer of a block is not part of the stored index. -/
theorem index_writer_not_stored :
    ∃ es : List IndexEntry, (∀ e ∈ es, e.inBounds = true) ∧ decodeIndex (encodeIndex es) ≠ .ok es := by
  refine ⟨[{ offset := 4096, frameSize := 129, frameSpan := 256, recordCount := 1, writerIdHigh := 1 }],
    by decide, ?_⟩
  rw [decodeIndex_encode (by decide)]
  intro h
  have hwriter := congrArg (List.map IndexEntry.writerIdHigh) (Except.ok.inj h)
  exact absurd hwriter (by decide)

end TFDB
