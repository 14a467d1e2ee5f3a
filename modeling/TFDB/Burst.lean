import TFDB.Framing

/-!
# Short bursts of damage

An alteration of at most four consecutive bytes, beside the checksum or inside it, is detected by
every decoder.

* `crcTable_injective` — a step of the remainder loses nothing;
* `crc32cUpdate_word` — up to four bytes enter the remainder as one little-endian word;
* `crc32c_put` — so a changed word changes the checksum, whatever stands around it;
* `Burst.detected` — also when the checksum is stored in the middle and read as zero;
* `short_bursts_detected` — every structure, and every frame of a record.
-/

set_option autoImplicit false

namespace TFDB

open ByteLib

/-! ## The remainder -/

theorem crcBit_eq_zero {v : UInt32} (h : crcBit v = 0) : v = 0 := by
  have hhalf : (v >>> 1).toNat = v.toNat / 2 := by
    rw [UInt32.toNat_shiftRight]
    show v.toNat >>> 1 = _
    rw [Nat.shiftRight_eq_div_pow]
  have hlt := v.toNat_lt
  have hbit := toNat_and_one v
  unfold crcBit at h
  rcases and_one_cases v with h0 | h1
  · rw [h0] at h hbit
    rw [if_neg (fun hx => hx rfl), UInt32.xor_zero] at h
    rw [h] at hhalf
    have hz : (0 : UInt32).toNat = 0 := rfl
    apply UInt32.toNat_inj.mp
    omega
  · -- the polynomial has its top bit set, the shifted remainder has not
    rw [h1, if_pos (by decide)] at h
    have hp := congrArg UInt32.toNat (UInt32.xor_eq_zero_iff.mp h)
    have hz : (0x82f63b78 : UInt32).toNat = 0x82f63b78 := rfl
    omega

theorem crcBit_injective : Function.Injective crcBit := by
  intro a b h
  apply UInt32.xor_eq_zero_iff.mp
  apply crcBit_eq_zero
  rw [crcBit_xor, h, UInt32.xor_self]

theorem crcTable_injective : Function.Injective crcTable := by
  intro a b h
  have hbit := crcBit_injective
  exact hbit (hbit (hbit (hbit (hbit (hbit (hbit (hbit h)))))))

theorem crcStep_eq_table (state : UInt32) (b : UInt8) :
    crcStep state b = crcTable (state ^^^ b.toUInt32) := crcStep_eq state b

theorem crc32cUpdate_injective (bs : Bytes) : Function.Injective fun state => crc32cUpdate state bs := by
  induction bs with
  | nil => exact fun _ _ h => h
  | cons b bs ih =>
    intro s t h
    have hstep : crcStep s b = crcStep t b := ih h
    rw [crcStep_eq_table, crcStep_eq_table] at hstep
    exact (UInt32.xor_left_inj _).mp (crcTable_injective hstep)

theorem leNat_lt_of_length {bs : Bytes} {n : Nat} (h : bs.length ≤ n) : leNat bs < 256 ^ n :=
  Nat.lt_of_lt_of_le (leNat_lt bs) (Nat.pow_le_pow_right (by omega) h)

/-- The little-endian word of up to four bytes. -/
def leWord (bs : Bytes) : UInt32 := UInt32.ofNat (leNat bs)

theorem leWord_cons (b : UInt8) (bs : Bytes) (h : bs.length ≤ 3) :
    leWord (b :: bs) = b.toUInt32 ^^^ UInt32.ofNat (256 * leNat bs) := by
  have hlt := leNat_lt_of_length h
  have hb := b.toNat_lt
  have hword : (leWord (b :: bs)).toNat = b.toNat + 256 * leNat bs := by
    rw [leWord, leNat, UInt32.toNat_ofNat', Nat.mod_eq_of_lt (by omega)]
  have hlow : leWord (b :: bs) &&& (0xff : UInt32) = b.toUInt32 := by
    apply UInt32.toNat_inj.mp
    rw [UInt32.toNat_and, hword, UInt8.toNat_toUInt32]
    show (b.toNat + 256 * leNat bs) &&& (2 ^ 8 - 1) = b.toNat
    rw [Nat.and_two_pow_sub_one_eq_mod]
    omega
  have hhigh : (leWord (b :: bs) >>> 8) <<< 8 = UInt32.ofNat (256 * leNat bs) := by
    apply UInt32.toNat_inj.mp
    rw [UInt32.toNat_shiftLeft, UInt32.toNat_shiftRight, hword, UInt32.toNat_ofNat']
    show ((b.toNat + 256 * leNat bs) >>> 8) <<< 8 % 2 ^ 32 = _
    rw [Nat.shiftRight_eq_div_pow, Nat.shiftLeft_eq]
    omega
  rw [← hlow, ← hhigh]
  exact split_low _

/-- Up to four bytes enter the remainder as one word. -/
theorem crc32cUpdate_word (bs : Bytes) (h : bs.length ≤ 4) (state : UInt32) :
    crc32cUpdate state bs = crcTable^[bs.length] (state ^^^ leWord bs) := by
  induction bs generalizing state with
  | nil =>
    show state = state ^^^ 0
    rw [UInt32.xor_zero]
  | cons b bs ih =>
    rw [List.length_cons] at h
    have hlt := leNat_lt_of_length (show bs.length ≤ 3 by omega)
    have hhigh : crcTable (UInt32.ofNat (256 * leNat bs)) = leWord bs := by
      apply UInt32.toNat_inj.mp
      rw [leWord, UInt32.toNat_ofNat', Nat.mod_eq_of_lt (by omega)]
      apply crcTable_high
      rw [UInt32.toNat_ofNat', Nat.mod_eq_of_lt (by omega)]
    calc crc32cUpdate state (b :: bs) = crc32cUpdate (crcStep state b) bs := rfl
      _ = crcTable^[bs.length] (crcTable (state ^^^ b.toUInt32) ^^^ leWord bs) := by
        rw [ih (by omega), crcStep_eq_table]
      _ = crcTable^[bs.length] (crcTable (state ^^^ leWord (b :: bs))) := by
        rw [← hhigh, ← crcTable_xor, UInt32.xor_assoc, ← leWord_cons b bs (by omega)]
      _ = crcTable^[(b :: bs).length] (state ^^^ leWord (b :: bs)) := rfl

/-- A changed word changes the remainder. -/
theorem crc32cUpdate_inj {x y : Bytes} (hl : x.length = y.length) (h4 : y.length ≤ 4) {state : UInt32}
    (h : crc32cUpdate state x = crc32cUpdate state y) : x = y := by
  rw [crc32cUpdate_word x (by omega), crc32cUpdate_word y h4, hl] at h
  have hword := (UInt32.xor_right_inj _).mp (crcTable_injective.iterate y.length h)
  have hx := leNat_lt_of_length (show x.length ≤ 4 by omega)
  have hy := leNat_lt_of_length h4
  have hn := congrArg UInt32.toNat hword
  rw [leWord, leWord, UInt32.toNat_ofNat', UInt32.toNat_ofNat', Nat.mod_eq_of_lt (by omega),
    Nat.mod_eq_of_lt (by omega)] at hn
  exact leNat_inj hl hn

/-- **A changed word changes the checksum**, whatever stands around it. -/
theorem crc32c_put {bs y : Bytes} {o : Nat} (h4 : y.length ≤ 4) (hin : o + y.length ≤ bs.length)
    (h : crc32c (put bs o y) = crc32c bs) : slice bs o y.length = y := by
  have hlen : (slice bs o y.length).length = y.length := slice_length hin
  have hold : crc32cUpdate crc32cInit bs = crc32cUpdate (crc32cUpdate (crc32cUpdate crc32cInit
      (bs.take o)) (slice bs o y.length)) (bs.drop (o + y.length)) := by
    rw [← crc32cUpdate_append, ← crc32cUpdate_append, ← eq_take_slice_drop]
  have hnew : crc32cUpdate crc32cInit (put bs o y) = crc32cUpdate (crc32cUpdate (crc32cUpdate
      crc32cInit (bs.take o)) y) (bs.drop (o + y.length)) := by
    rw [← crc32cUpdate_append, ← crc32cUpdate_append, put, List.append_assoc]
  have hstate : crc32cUpdate crc32cInit (put bs o y) = crc32cUpdate crc32cInit bs :=
    (UInt32.xor_left_inj _).mp h
  rw [hold, hnew] at hstate
  exact (crc32cUpdate_inj hlen.symm (by omega) (crc32cUpdate_injective _ hstate)).symm

/-! ## Bursts -/

/-- At most four bytes are replaced, beside the checksum at `c` or inside it, and the string
changes. -/
structure Burst (bs : Bytes) (c o : Nat) (y : Bytes) : Prop where
  short : y.length ≤ 4
  inside : o + y.length ≤ bs.length
  apart : o + y.length ≤ c ∨ c + 4 ≤ o ∨ (c ≤ o ∧ o + y.length ≤ c + 4)
  changes : put bs o y ≠ bs

namespace Burst
variable {bs y : Bytes} {c o : Nat}

/-- **A burst breaks the checksum.** -/
theorem detected (h : Burst bs c o y) (hc : c + 4 ≤ bs.length)
    (hcrc : crc32cWithZeroedField bs c = get32 bs c) :
    crc32cWithZeroedField (put bs o y) c ≠ get32 (put bs o y) c := by
  have hput := put_length h.inside
  have hz : c + (zeros 4).length ≤ bs.length := by rwa [zeros_length]
  intro hnew
  rw [crc32cWithZeroedField_eq] at hcrc hnew
  have hcases : (o + y.length ≤ c ∨ c + 4 ≤ o) ∨ (c ≤ o ∧ o + y.length ≤ c + 4) := by
    have := h.apart
    omega
  rcases hcases with hout | hin
  · -- beside the checksum: the stored one is the old one, and the bytes it covers changed
    have hstored : get32 (put bs o y) c = get32 bs c := by
      rcases hout with ho | ho
      · rw [get32, slice_put_after h.inside ho, get32]
      · rw [get32, slice_put_before h.inside ho, get32]
    rw [hstored, ← hcrc, put_comm hz h.inside (by rw [zeros_length]; exact hout)] at hnew
    have hsame := crc32c_put h.short (by rw [put_length hz]; exact h.inside) hnew
    have hkept : slice (put bs c (zeros 4)) o y.length = slice bs o y.length := by
      rcases hout with ho | ho
      · exact slice_put_before hz ho
      · exact slice_put_after hz (by rw [zeros_length]; exact ho)
    refine h.changes ?_
    rw [hkept] at hsame
    calc put bs o y = put bs o (slice bs o y.length) := by rw [hsame]
      _ = bs := put_slice h.inside
  · -- inside: the covered bytes are the old ones, and the stored checksum changed
    obtain ⟨ho, hy⟩ := hin
    rw [put_put_inside hz ho (by rw [zeros_length]; exact hy), hcrc] at hnew
    have hfield : slice (put bs o y) c 4 = slice bs c 4 := by
      rw [← put32_get32 (by omega), ← hnew, put32_get32 hc]
    have hlen : (slice bs c 4).length = 4 := slice_length hc
    refine h.changes ?_
    calc put bs o y = put (put bs o y) c (slice (put bs o y) c 4) := (put_slice (by omega)).symm
      _ = put bs c (slice bs c 4) := by
        rw [hfield, put_put_inside (by omega) ho (by omega)]
      _ = bs := put_slice hc

end Burst

/-! ## Structures -/

/-- A record with its checksum. -/
theorem record_sealed {n c : Nat} {fs : List (Nat × Bytes)} (hp : Placed n 0 fs) (hc : c + 4 ≤ n) :
    crc32cWithZeroedField (finishCrc (layout n 0 fs) c) c = get32 (finishCrc (layout n 0 fs) c) c := by
  have hl := layout_length hp
  rw [crc32cWithZeroedField_finishCrc (by omega), get32_finishCrc (by omega)]

/-- A burst in a record does not pass the common check. -/
theorem Burst.commonCheck_error {n c o : Nat} {fs : List (Nat × Bytes)} {y : Bytes}
    (hb : Burst (finishCrc (layout n 0 fs) c) c o y) (hp : Placed n 0 fs) (hc : c + 4 ≤ n)
    (magic : Bytes) :
    ∃ e, commonCheck (put (finishCrc (layout n 0 fs) c) o y) magic n c = .error e := by
  have hl := record_length hp hc
  cases h : commonCheck (put (finishCrc (layout n 0 fs) c) o y) magic n c with
  | error e => exact ⟨e, rfl⟩
  | ok u =>
    have hchecked := commonCheck_inv (by rw [put_length hb.inside]; exact hl) h
    exact absurd hchecked.crc (hb.detected (by omega) (record_sealed hp hc))

/-! ## Frames -/

/-- A frame with two equal sizes in its header.  A burst reaches at most one of them. -/
theorem FramedRecord.sizes {r : FramedRecord} (h : r.Fits) (rest : Bytes) :
    (get32 (r.frame ++ rest) 0).toNat = 32 + r.payload.length ∧
      (get32 (r.frame ++ rest) 24).toNat = r.payload.length := by
  unfold FramedRecord.Fits at h
  have h0 : get32 (r.frame ++ rest) 0 = UInt32.ofNat (32 + r.payload.length) :=
    get32_of_slice (r.slice_frame rest (by simp [FramedRecord.fields]) rfl (by omega) (by omega))
  have h24 : get32 (r.frame ++ rest) 24 = UInt32.ofNat r.payload.length :=
    get32_of_slice (r.slice_frame rest (by simp [FramedRecord.fields]) rfl (by omega) (by omega))
  rw [h0, h24, UInt32.toNat_ofNat', UInt32.toNat_ofNat', Nat.mod_eq_of_lt (by omega),
    Nat.mod_eq_of_lt (by omega)]
  exact ⟨rfl, rfl⟩

/-- **A burst in a frame** is not decoded. -/
theorem Burst.decodeRecord_error {r : FramedRecord} (hr : r.Fits) {o : Nat} {y : Bytes}
    (hb : Burst r.frame 28 o y) :
    ∃ e, FramedRecordV1.decodeRecord (put r.frame o y) = .error e := by
  have hlen := r.frame_length
  have hin := hb.inside
  have hshort := hb.short
  have hput := put_length hin
  cases h : FramedRecordV1.decodeRecord (put r.frame o y) with
  | error e => exact ⟨e, rfl⟩
  | ok v =>
    obtain ⟨hfits, hv, hdata⟩ := FramedRecordV1.decodeRecord_inv h
    have hencoded : v.encoded = (FramedRecord.ofView v).frame := congrArg RecordView.encoded hv
    generalize FramedRecord.ofView v = r' at hfits hencoded
    generalize (put r.frame o y).drop v.encoded.length = rest at hdata
    rw [hencoded] at hdata
    obtain ⟨hold0, hold24⟩ := FramedRecord.sizes hr []
    rw [List.append_nil] at hold0 hold24
    obtain ⟨hnew0, hnew24⟩ := FramedRecord.sizes hfits rest
    rw [← hdata] at hnew0 hnew24
    -- one of the two sizes is the old one, and so is the other
    have hsame : r'.payload.length = r.payload.length := by
      rcases Nat.lt_or_ge o 4 with ho | ho
      · rw [get32, slice_put_after hin (by omega), ← get32, hold24] at hnew24
        exact hnew24.symm
      · rw [get32, slice_put_before hin (by omega), ← get32, hold0] at hnew0
        omega
    have hrest : rest = [] := by
      have hl := congrArg List.length hdata
      rw [List.length_append, hput, hlen, FramedRecord.frame_length, hsame] at hl
      exact List.length_eq_zero_iff.mp (by omega)
    rw [hrest, List.append_nil] at hdata
    have hcrc := record_sealed r'.fields_placed (show 28 + 4 ≤ _ by omega)
    rw [show finishCrc (layout (32 + r'.payload.length) 0 r'.fields) 28 = r'.frame from rfl,
      ← hdata] at hcrc
    exact absurd hcrc (hb.detected (by omega)
      (record_sealed r.fields_placed (by omega)))

/-! ## All structures -/

/-- **Every short burst of damage is detected.**  In every structure an encoder produces and in every
frame of a record, a change of at most four consecutive bytes, beside the checksum or inside it,
makes the decoder fail. -/
theorem short_bursts_detected :
    (∀ (h : VolumeHeader) (o : Nat) (y : Bytes), Burst (encodeVolumeHeader h) 72 o y →
      ∃ e, decodeVolumeHeader (put (encodeVolumeHeader h) o y) = .error e) ∧
    (∀ (h : PartitionHeader) (partitionSize : UInt64) (indexRegionSize : UInt32) (o : Nat) (y : Bytes),
      Burst (encodePartitionHeader h partitionSize indexRegionSize) 104 o y →
      ∃ e, decodePartitionHeader
        (put (encodePartitionHeader h partitionSize indexRegionSize) o y) = .error e) ∧
    (∀ (b : BlockHeader) (o : Nat) (y : Bytes), Burst (encodeBlockHeader b) 72 o y →
      ∃ e, decodeBlockHeader (put (encodeBlockHeader b) o y) = .error e) ∧
    (∀ (f : PartitionFooter) (o : Nat) (y : Bytes), Burst (encodePartitionFooter f) 100 o y →
      ∃ e, decodePartitionFooter (put (encodePartitionFooter f) o y) = .error e) ∧
    ∀ (r : FramedRecord) (frame : Bytes), r.encode = .ok frame → ∀ (o : Nat) (y : Bytes),
      Burst frame 28 o y → ∀ {σ : Type} (visit : σ → RecordView → σ × Bool) (state : σ),
      ∃ e, FramedRecordV1.decodeBlock visit (put frame o y) state = (state, e) ∧ ¬ e.isOk := by
  refine ⟨?_, ?_, ?_, ?_, ?_⟩
  · intro h o y hb
    obtain ⟨e, he⟩ := hb.commonCheck_error (volumeHeaderFields_placed h) (by decide) volumeMagic
    rw [encodeVolumeHeader, decodeVolumeHeader, he]
    exact ⟨e, rfl⟩
  · intro h partitionSize indexRegionSize o y hb
    obtain ⟨e, he⟩ := hb.commonCheck_error
      (partitionHeaderFields_placed h partitionSize indexRegionSize) (by decide) partitionMagic
    rw [encodePartitionHeader, decodePartitionHeader, he]
    exact ⟨e, rfl⟩
  · intro b o y hb
    obtain ⟨e, he⟩ := hb.commonCheck_error (blockHeaderFields_placed b) (by decide) blockMagic
    rw [encodeBlockHeader, decodeBlockHeader, he]
    exact ⟨e, rfl⟩
  · intro f o y hb
    obtain ⟨e, he⟩ := hb.commonCheck_error (partitionFooterFields_placed f) (by decide) footerMagic
    rw [encodePartitionFooter, decodePartitionFooter, he]
    exact ⟨e, rfl⟩
  · intro r frame hr o y hb σ visit state
    obtain ⟨hfits, rfl⟩ := FramedRecord.encode_inv hr
    obtain ⟨e, he⟩ := hb.decodeRecord_error hfits
    refine ⟨e, ?_, ?_⟩
    · have hlen : (put r.frame o y).length = r.payload.length + 31 + 1 := by
        rw [put_length hb.inside, r.frame_length]
        omega
      rw [FramedRecordV1.decodeBlock, hlen, FramedRecordV1.decodeLoop, if_neg, he]
      intro hnil
      rw [hnil] at hlen
      cases hlen
    · rw [Status.isOk, FramedRecordV1.decodeRecord_error he]
      decide

/-- The bytes of a checksum, each one more than it is. -/
def spoiled (bs : Bytes) (c : Nat) : Bytes := (slice bs c 4).map (· + 1)

theorem Burst.spoiled {bs : Bytes} {c : Nat} (h : c + 4 ≤ bs.length) :
    Burst bs c c (spoiled bs c) := by
  have hslice : (slice bs c 4).length = 4 := slice_length h
  have hlen : (TFDB.spoiled bs c).length = 4 := by rw [TFDB.spoiled, List.length_map, hslice]
  refine ⟨Nat.le_of_eq hlen, by rw [hlen]; exact h, .inr (.inr ⟨Nat.le_refl _, by rw [hlen]⟩), ?_⟩
  intro hput
  have hsame : slice (put bs c (TFDB.spoiled bs c)) c 4 = TFDB.spoiled bs c :=
    slice_put_same (by rw [hlen]; exact h) hlen.symm
  rw [hput, TFDB.spoiled] at hsame
  cases hbytes : slice bs c 4 with
  | nil => simp [hbytes] at hslice
  | cons b rest =>
    rw [hbytes, List.map_cons] at hsame
    have hb : b + 0 = b + 1 := by rw [UInt8.add_zero]; exact (List.cons.inj hsame).1
    exact absurd ((UInt8.add_right_inj b).mp hb) (by decide)

/-- A spoiled checksum is detected in each structure and in a framed record. -/
theorem spoiled_checksums_detected :
    (∃ e, decodeVolumeHeader
      (put (encodeVolumeHeader {}) 72 (spoiled (encodeVolumeHeader {}) 72)) = .error e) ∧
    (∃ e, decodePartitionHeader (put (encodePartitionHeader {} 8832 128) 104
      (spoiled (encodePartitionHeader {} 8832 128) 104)) = .error e) ∧
    (∃ e, decodeBlockHeader
      (put (encodeBlockHeader {}) 72 (spoiled (encodeBlockHeader {}) 72)) = .error e) ∧
    (∃ e, decodePartitionFooter
      (put (encodePartitionFooter {}) 100 (spoiled (encodePartitionFooter {}) 100)) = .error e) ∧
    ∃ e, FramedRecordV1.decodeBlock (fun (n : Nat) _ => (n + 1, true))
      (put (FramedRecord.frame ⟨1, 2, 3, [7]⟩) 28 (spoiled (FramedRecord.frame ⟨1, 2, 3, [7]⟩) 28)) 0 =
        (0, e) ∧ ¬ e.isOk := by
  obtain ⟨hvolume, hheader, hblock, hfooter, hrecord⟩ := short_bursts_detected
  refine ⟨hvolume _ _ _ (.spoiled ?_), hheader _ _ _ _ _ (.spoiled ?_), hblock _ _ _ (.spoiled ?_),
    hfooter _ _ _ (.spoiled ?_), ?_⟩
  · rw [encodeVolumeHeader_length]
    decide
  · rw [encodePartitionHeader_length]
    decide
  · rw [encodeBlockHeader_length]
    decide
  · rw [encodePartitionFooter_length]
    decide
  · have hfits : FramedRecord.Fits ⟨1, 2, 3, [7]⟩ := by
      unfold FramedRecord.Fits
      decide
    refine hrecord _ _ (FramedRecord.frame_eq hfits) _ _ (.spoiled ?_) _ 0
    rw [FramedRecord.frame_length]
    decide

end TFDB
