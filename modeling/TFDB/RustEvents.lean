import TFDB.RustAgree

/-!
# The events of two readers

On a catalog that both readers have, the C++ store and the Rust reader deliver the same events,
unless one of the differences of `Alike` shows.

* `InPlace.sameRead` — an entry of an index is the same block for both, or none;
* `acquire_same` — both acquire the same index, and doubt it alike;
* `visitPartition_same`, `visitBlocks_same` — the events of a partition and of a call.
-/

set_option autoImplicit false

namespace TFDB

open ByteLib

/-! ## One block -/

/-- Both readers have the same result, or failures that are no overwrites. -/
def SameRead {α : Type} (x : Except Status α) (y : Except Rust.Error α) : Prop :=
  (∃ a, x = .ok a ∧ y = .ok a) ∨
    ∃ e e', x = .error e ∧ y = .error e' ∧ e.code ≠ .overwritten ∧ e'.kind ≠ .overwritten

theorem SameRead.ok {α : Type} (a : α) : SameRead (.ok a) (.ok a) := .inl ⟨a, rfl, rfl⟩

theorem SameRead.error {α : Type} {e : Status} {e' : Rust.Error} (h : e.code ≠ .overwritten)
    (h' : e'.kind ≠ .overwritten) : SameRead (α := α) (.error e) (.error e') :=
  .inr ⟨e, e', rfl, rfl, h, h'⟩

/-- A decompressor of either language, behind the check of its output. -/
theorem SameOutcome.sameRead {c : Except Status Bytes} {r : Option (Except Rust.Error Bytes)} {n : Nat}
    (h : SameOutcome c r) (hlen : ∀ d, c = .ok d → d.length = n) :
    SameRead (c.bind fun decoded => if decoded.length ≠ n then
        failWith .corrupt "compression codec returned wrong output size" else .ok decoded)
      (Rust.Reader.unwrap r) := by
  obtain ⟨d, hc, hr⟩ | ⟨e, e', hc, hr, he, he'⟩ := h
  · rw [hc, hr, Rd.bind_ok, if_neg (not_not.mpr (hlen d hc))]
    exact .ok d
  · rw [hc, hr, Rd.bind_error]
    refine .error ?_ ?_
    · rw [he]
      decide
    · rw [he']
      decide

theorem packbits_length {stored d : Bytes} {n : Nat} (h : PackBits.decompress stored n = .ok d) :
    d.length = n := by
  obtain ⟨d', -, h⟩ := bind_ok_inv h
  split at h
  · cases h
  · rename_i hlen
    cases h
    exact not_not.mp hlen

/-- The payload of a block, decompressed by both readers. -/
theorem sameRead_payload {env : Env} (hc : env.codecs = []) (b : BlockHeader) {stored : Bytes}
    (hlen : stored.length = b.storedSize.toNat) :
    SameRead (decodePayload env b stored)
      (Rust.Reader.unwrap (Rust.Reader.decodeStored b stored)) := by
  have hstored : stored.length < 2 ^ 64 := by
    have := b.storedSize.toNat_lt
    omega
  have hraw : b.rawSize.toNat ≤ vectorMaxSize := by
    have := b.rawSize.toNat_lt
    unfold vectorMaxSize
    omega
  have hword : b.rawSize.toNat < 2 ^ 64 := by
    have := b.rawSize.toNat_lt
    omega
  have hbuiltin := codecFor_builtin hc b.compression b.compressionVersion
  unfold decodePayload Rust.Reader.decodeStored
  by_cases hknown : (b.compression.value = 0 ∨ b.compression.value = 1 ∨ b.compression.value = 2) ∧
      b.compressionVersion = 1
  · obtain ⟨hid, hv⟩ := hknown
    rw [hv]
    rcases hid with hid | hid | hid
    · have hcodec : env.codecFor b.compression 1 = some noCompressionCodec := by
        rw [show b.compression = .none from congrArg CompressionId.mk hid]
        rfl
      have hsizes : b.storedSize ≠ b.rawSize ↔ stored.length ≠ b.rawSize.toNat := by
        rw [hlen, ne_eq, ne_eq, UInt32.toNat_inj]
      rw [hcodec, if_pos hid]
      simp only [noCompressionCodec, NoneCodec.decompress, ne_eq, not_true_eq_false, false_or, bind]
      by_cases heq : b.storedSize = b.rawSize
      · have heq' : stored.length = b.rawSize.toNat := by rw [hlen, heq]
        simp only [heq, heq', not_true_eq_false, if_false, Rd.bind_ok]
        exact .ok stored
      · rw [if_pos (hsizes.mp heq), if_pos heq]
        refine .error ?_ ?_ <;> decide
    · have hcodec : env.codecFor b.compression 1 = some packbitsCodec := by
        rw [show b.compression = .packbits from congrArg CompressionId.mk hid]
        rfl
      rw [hcodec, hid, if_neg (by decide), if_pos ⟨rfl, rfl⟩]
      have hsame := (Rust.decompressPackbits_same hstored hword).returned hraw
        (PackBitsCodec.decompress_ample stored hraw)
      exact hsame.sameRead fun d => packbits_length
    · have hcodec : env.codecFor b.compression 1 = some lz4BlockCodec := by
        rw [show b.compression = .lz4Block from congrArg CompressionId.mk hid]
        rfl
      rw [hcodec, hid, if_neg (by decide), if_neg (by decide), if_pos ⟨rfl, rfl⟩]
      have hsame := (Rust.decompressLz4Block_same hstored hword).returned
        (Nat.le_trans (Lz4.outputReserve_le ..) hraw) (Lz4BlockCodec.decompress_ample stored hraw)
      exact hsame.sameRead fun d h => (Lz4.decompress_ok h).2
  · rw [Option.isNone_iff_eq_none.mp (hbuiltin.mpr hknown)]
    by_cases h0 : b.compression.value = 0
    · have hv : b.compressionVersion ≠ 1 := fun hv => hknown ⟨.inl h0, hv⟩
      rw [if_pos h0, if_pos (.inl hv)]
      refine .error ?_ ?_ <;> decide
    · rw [if_neg h0, if_neg fun h => hknown ⟨.inr (.inl h.1), h.2⟩,
        if_neg fun h => hknown ⟨.inr (.inr h.1), h.2⟩]
      refine .error ?_ ?_ <;> decide

theorem decodeBlockHeader_bounds {bytes : Bytes} {b : BlockHeader}
    (h : decodeBlockHeader bytes = .ok b) : b.recordCount ≠ 0 ∧ b.minTimeNs ≤ b.maxTimeNs := by
  obtain ⟨-, -, hin⟩ := decodeBlockHeader_fields h
  simp only [BlockHeader.inBounds, Bool.not_eq_true', Bool.or_eq_false_iff, beq_eq_false_iff_ne,
    decide_eq_false_iff_not] at hin
  exact ⟨hin.1.1.1.2, Int64.not_lt.mp hin.1.2⟩

theorem Rust.validate_error {volume : VolumeHeader} {h' : Rust.PartitionHeader} {b : BlockHeader}
    {e : IndexEntry} {e' : Rust.Error}
    (h : Rust.validateBlockAgainstEntry volume h' b e = .error e') : e'.kind = .corrupt := by
  unfold Rust.validateBlockAgainstEntry at h
  simp only at h
  split at h
  · cases h
    rfl
  · cases h

theorem fileOf_error {m : Image} {off n : Nat} {e : Rust.Error}
    (h : Rust.fileOf m off n = .error e) : e.kind = .io := by
  unfold Rust.fileOf at h
  split at h
  · cases h
    rfl
  · cases h

theorem SameRead.map {α β : Type} {x : Except Status α} {y : Except Rust.Error α} (h : SameRead x y)
    (f : α → β) : SameRead (x.map f) (y >>= fun a => .ok (f a)) := by
  obtain ⟨a, rfl, rfl⟩ | ⟨e, e', rfl, rfl, he, he'⟩ := h
  · exact .ok (f a)
  · exact .error he he'

theorem Rust.corrupt_unless_iff {a b c : Prop} [Decidable a] [Decidable b] [Decidable c] {s : String} :
    (if ¬ a ∨ ¬ b ∨ ¬ c then Rust.Error.corrupt s else .ok () : Except Rust.Error Unit) = .ok () ↔
      a ∧ b ∧ c := by
  constructor
  · intro h
    split at h
    · cases h
    · rename_i hall
      push Not at hall
      exact hall
  · rintro ⟨ha, hb, hc⟩
    exact if_neg (by tauto)

/-- The Rust reader asks for the compression of the partition, or for sizes that agree. -/
theorem Rust.validate_compression {volume : VolumeHeader} {h' : Rust.PartitionHeader} {b : BlockHeader}
    {e : IndexEntry} (h : Rust.validateBlockAgainstEntry volume h' b e = .ok ()) :
    (b.compression.value = 0 ∧ b.compressionVersion = 1 ∧ b.storedSize = b.rawSize) ∨
      (b.compression.value = h'.compressionId ∧ b.compressionVersion = h'.compressionVersion) := by
  unfold Rust.validateBlockAgainstEntry at h
  simp only [Rust.corrupt_unless_iff, Bool.and_eq_true, Bool.or_eq_true, beq_iff_eq] at h
  obtain ⟨-, ⟨-, hcomp⟩, -⟩ := h
  rw [and_assoc] at hcomp
  exact hcomp

/-- Where only the compression is wrong, the payload is refused. -/
theorem decodeStored_disagrees {h : PartitionHeader} {h' : Rust.PartitionHeader}
    (hh : SameHeader h h') {b : BlockHeader}
    (hcomp : (b.compression.value = 0 ∧ b.compressionVersion = 1 ∧ b.storedSize = b.rawSize) ∨
      (b.compression.value = h'.compressionId ∧ b.compressionVersion = h'.compressionVersion))
    (hbad : ¬ compressionAgrees h.options b = true) (stored : Bytes) :
    Rust.Reader.decodeStored b stored =
      some (Rust.Error.corrupt "invalid uncompressed block sizes/version") := by
  subst hh
  have hnone : b.compression = .none ↔ b.compression.value = 0 := by
    cases b.compression
    simp [CompressionId.none]
  unfold compressionAgrees at hbad
  unfold Rust.Reader.decodeStored
  by_cases h0 : b.compression.value = 0
  · rw [if_pos (hnone.mpr h0)] at hbad
    rw [if_pos h0, if_pos]
    simp only [Bool.and_eq_true, beq_iff_eq] at hbad
    tauto
  · rw [if_neg (fun h => h0 (hnone.mp h))] at hbad
    rcases hcomp with hcomp | hcomp
    · exact absurd hcomp.1 h0
    · simp only [Bool.and_eq_true, beq_iff_eq] at hbad
      exact absurd ⟨congrArg CompressionId.mk hcomp.1, hcomp.2⟩ hbad

/-- A block that disagrees with its entry is unreadable, and not overwritten. -/
theorem blockOutcome_refused {env : Env} {m : Image} {p : PartitionState} {e : IndexEntry}
    {b : BlockHeader} (hb : blockHeaderAt env m p e = .ok b)
    (hbad : ¬ (identityAgrees env p e b = true ∧ metadataAgrees env p e b = true ∧
      alignUp (blockHeaderEncodedSize + b.storedSize.toNat) env.quantum = some b.frameSpan.toNat)) :
    ∃ st, blockOutcome env m p e = .error st ∧ st.code ≠ .overwritten := by
  have hnot {b' : BlockHeader} (hat : BlockAt env m p e b') : False := by
    obtain rfl : b' = b := Except.ok.inj (hat.header.symm.trans hb)
    exact hbad ⟨hat.identity, hat.metadata, hat.span⟩
  cases ho : blockOutcome env m p e with
  | ok v =>
    obtain ⟨b', hat, -⟩ := blockOutcome_ok ho
    exact (hnot hat).elim
  | error st =>
    refine ⟨st, rfl, ?_⟩
    rcases blockOutcome_error ho with hcode | ⟨b', hat, -⟩
    · exact hcode.2.2
    · exact (hnot hat).elim

/-- One partition in the two catalogs. -/
structure SameState (p : PartitionState) (p' : Rust.PartitionState) : Prop where
  header : SameHeader p.header p'.header
  footer : p'.footer = if p.isSealed then some p.footer else none
  entries : p.isSealed = false → p'.activeEntries = p.activeIndex
  dataEnd : p'.dataEnd = p.dataEnd

/-- A partition that both readers find in its slot. -/
structure InPlace (env : Env) (m : Image) (p : PartitionState) (r : Rust.Reader)
    (p' : Rust.PartitionState) : Prop where
  file : r.file = Rust.fileOf m
  volume : r.volume = env.volume
  slot : p.header.slot < env.volume.partitionCount
  current : slotHeader env m p.header.slot = .ok p.header
  header : SameHeader p.header p'.header
  again : r.readCurrentPartitionHeader p.header.slot = .ok p'.header

section
variable {env : Env} (g : Geometry env) {m : Image} (hm : env.volume.volumeSize.toNat ≤ m.size)
  {p : PartitionState} {r : Rust.Reader} {p' : Rust.PartitionState} (hp : InPlace env m p r p')
include hp

theorem InPlace.slot_eq : p'.header.slot = p.header.slot := by rw [hp.header]

/-- A failure behind a header that is in place is no overwrite. -/
theorem InPlace.classify {α : Type} (fallback : Rust.Error) :
    r.classifySnapshotFailure (α := α) p' fallback = .error fallback := by
  unfold Rust.Reader.classifySnapshotFailure
  rw [hp.slot_eq, hp.again]
  simp

theorem InPlace.metadata (e : IndexEntry) (b : BlockHeader) :
    Rust.Reader.metadataOf p' (env.partitionBase p.header.slot + e.offset.toNat) b =
      blockMetadata env p e b := by
  unfold Rust.Reader.metadataOf blockMetadata
  rw [hp.header]

/-- What the Rust reader checks of a block behind its header, and what both readers check. -/
theorem InPlace.validate {e : IndexEntry} {b : BlockHeader} :
    Rust.validateBlockAgainstEntry r.volume p'.header b e = .ok () ∧
        compressionAgrees p.header.options b = true ∧ b.recordCount ≠ 0 ∧ b.minTimeNs ≤ b.maxTimeNs ↔
      identityAgrees env p e b = true ∧ metadataAgrees env p e b = true ∧
        alignUp (blockHeaderEncodedSize + b.storedSize.toNat) env.quantum = some b.frameSpan.toNat := by
  have hcomp : compressionAgrees p.header.options b = true →
      (b.compression.value = 0 ∧ b.compressionVersion = 1 ∧ b.storedSize = b.rawSize) ∨
        (b.compression.value = p.header.options.compression.value ∧
          b.compressionVersion = p.header.options.compressionVersion) := by
    unfold compressionAgrees
    split
    · rename_i h
      intro hb
      simp only [Bool.and_eq_true, beq_iff_eq] at hb
      exact .inl ⟨by rw [h]; rfl, hb.2, hb.1⟩
    · intro hb
      simp only [Bool.and_eq_true, beq_iff_eq] at hb
      exact .inr ⟨by rw [hb.1], hb.2⟩
  have hsum : 128 + b.storedSize = e.frameSize ↔ b.storedSize + 128 = e.frameSize := by
    rw [UInt32.add_comm]
  unfold Rust.validateBlockAgainstEntry identityAgrees metadataAgrees
  rw [hp.header, hp.volume]
  simp only [Bool.and_eq_true, Bool.or_eq_true, beq_iff_eq, bne_iff_ne,
    decide_eq_true_eq, alignUp_same, hsum]
  rw [Rust.corrupt_unless_iff]
  constructor
  · rintro ⟨⟨⟨⟨⟨⟨⟨i1, i2⟩, i3⟩, i4⟩, i5⟩, i6⟩, ⟨⟨⟨⟨⟨⟨⟨⟨⟨m1, m2⟩, m3⟩, m4⟩, m5⟩, m6⟩, m7⟩, m8⟩, m9⟩, -⟩,
      hspan⟩, hc, hr, ht⟩
    exact ⟨⟨⟨⟨⟨⟨i1, i2⟩, i5⟩, i4⟩, i3⟩, i6⟩,
      ⟨⟨⟨⟨⟨⟨⟨⟨⟨⟨⟨m1, m2⟩, m3⟩, m4⟩, hr⟩, ht⟩, m5⟩, m6⟩, m7⟩, m8⟩, m9⟩, hc⟩, hspan⟩
  · rintro ⟨⟨⟨⟨⟨⟨i1, i2⟩, i5⟩, i4⟩, i3⟩, i6⟩,
      ⟨⟨⟨⟨⟨⟨⟨⟨⟨⟨⟨m1, m2⟩, m3⟩, m4⟩, hr⟩, ht⟩, m5⟩, m6⟩, m7⟩, m8⟩, m9⟩, hc⟩, hspan⟩
    refine ⟨⟨⟨⟨⟨⟨⟨i1, i2⟩, i3⟩, i4⟩, i5⟩, i6⟩, ⟨⟨⟨⟨⟨⟨⟨⟨⟨m1, m2⟩, m3⟩, m4⟩, m5⟩, m6⟩, m7⟩, m8⟩, m9⟩, ?_⟩,
      hspan⟩, hc, hr, ht⟩
    rcases hcomp hc with ⟨c1, c2, c3⟩ | h
    · exact .inl ⟨⟨c1, c2⟩, c3⟩
    · exact .inr h

include g hm

/-- **An entry of an index is the same block for both readers, or for neither.** -/
theorem InPlace.sameRead (hc : env.codecs = []) {e : IndexEntry} (hin : EntryIn env e) :
    SameRead (blockOutcome env m p e) (r.readBlock p' e) := by
  have hsum := g.indexBegin_add
  have hend := g.slot_end hp.slot
  have hvol := env.volume.volumeSize.toNat_lt
  have hup := hin.upper
  have hsp := hin.span
  have hread := slot_file g hm hp.slot (o := e.offset.toNat) (n := blockHeaderEncodedSize) (by omega)
  unfold Rust.Reader.readBlock
  rw [hp.slot_eq, hp.again]
  simp only [ne_eq, not_true_eq_false, if_false]
  rw [hp.volume, partitionBase_same g hp.slot, Rust.ok_bind, Rust.checked, if_pos (by omega), Rust.ok_bind,
    hp.file, hread, Rust.ok_bind]
  have hat : blockHeaderAt env m p e = decodeBlockHeader (m.window
      (env.partitionBase p.header.slot + e.offset.toNat) blockHeaderEncodedSize) := by
    rw [blockHeaderAt]
  obtain ⟨b, hb, hb'⟩ | ⟨e', he', hkind, hcase⟩ := decodeBlockHeader_cases
    (Image.window_length m (env.partitionBase p.header.slot + e.offset.toNat) blockHeaderEncodedSize)
  · have hbounds := decodeBlockHeader_bounds hb
    have hvalid := hp.validate (e := e) (b := b)
    rw [hp.volume] at hvalid
    rw [hb']
    simp only
    by_cases hgood : identityAgrees env p e b = true ∧ metadataAgrees env p e b = true ∧
        alignUp (blockHeaderEncodedSize + b.storedSize.toNat) env.quantum = some b.frameSpan.toNat
    · rw [(hvalid.mpr hgood).1]
      have hmeta := hgood.2.1
      simp only [metadataAgrees, Bool.and_eq_true, beq_iff_eq] at hmeta
      have hspan : b.frameSpan = e.frameSpan := by tauto
      obtain ⟨-, h1, -, -⟩ := alignUp_spec hgood.2.2
      rw [hspan] at h1
      have hpayload := slot_file g hm hp.slot (o := e.offset.toNat + blockHeaderEncodedSize)
        (n := b.storedSize.toNat) (by omega)
      rw [← Nat.add_assoc] at hpayload
      have hwindow : m.window (env.partitionBase p.header.slot + e.offset.toNat + blockHeaderEncodedSize)
          b.storedSize.toNat = payloadAt env m p e b := rfl
      rw [hwindow] at hpayload
      simp only
      rw [Rust.checked, if_pos (by omega), Rust.ok_bind, hpayload, Rust.ok_bind, Rust.crc32c_eq]
      unfold blockOutcome
      rw [hat, hb]
      simp only [hgood.1, hgood.2.1, hgood.2.2, not_true_eq_false, if_false, ne_eq]
      by_cases hcrc : crc32c (payloadAt env m p e b) = b.payloadCrc
      · rw [if_neg (not_not.mpr hcrc), if_neg (not_not.mpr hcrc), hp.metadata]
        exact (sameRead_payload hc b (Image.window_length ..)).map _
      · rw [if_pos hcrc, if_pos hcrc, hp.classify]
        refine .error ?_ ?_ <;> decide
    · obtain ⟨st, hout, hcode⟩ := blockOutcome_refused (hat.trans hb) hgood
      rw [hout]
      cases hval : Rust.validateBlockAgainstEntry env.volume p'.header b e with
      | error e' =>
        simp only [hp.classify]
        exact .error hcode (by rw [Rust.validate_error hval]; decide)
      | ok u =>
        -- only the compression is wrong, which the Rust reader sees when it decompresses
        have hcomp : ¬ compressionAgrees p.header.options b = true :=
          fun h => hgood (hvalid.mp ⟨hval, h, hbounds⟩)
        have hstored := decodeStored_disagrees hp.header (Rust.validate_compression hval) hcomp
        simp only
        unfold Rust.checked
        split
        · rw [Rust.ok_bind]
          cases hfile : Rust.fileOf m (env.partitionBase p.header.slot + e.offset.toNat +
              blockHeaderEncodedSize) b.storedSize.toNat with
          | error e' => exact .error hcode (by rw [fileOf_error hfile]; decide)
          | ok stored =>
            rw [Rust.ok_bind, hp.classify, hstored]
            split
            · exact .error hcode (by decide)
            · exact .error hcode (by decide)
        · exact .error hcode (by decide)
  · -- refused by the Rust decoder
    rw [he']
    simp only [hp.classify]
    obtain ⟨st, hst⟩ | ⟨b, hb, hwrap⟩ := hcase
    · have hcode := codes_decodeBlockHeader _ _ hst
      unfold blockOutcome
      rw [hat, hst]
      exact .error hcode.2.2 hkind
    · obtain ⟨st, hout, hcode⟩ := blockOutcome_refused (hat.trans hb) fun h => by
        obtain ⟨-, h1, -, -⟩ := alignUp_spec h.2.2
        have := b.frameSpan.toNat_lt
        omega
      rw [hout]
      exact .error hcode hkind

end

/-! ## The differences -/

/-- None of the known differences shows in the image: every slot's header has four descriptors or no
unsupported one, and names a generation and a time domain; no header of a first block wraps; the
footers tell what their indexes tell; and the blocks of a partition can be numbered. -/
structure Alike (env : Env) (m : Image) : Prop where
  short : ∀ slot < env.volume.partitionCount,
    ¬ ShortUnsupported (m.window (env.partitionBase slot) partitionHeaderEncodedSize)
  named : ∀ slot < env.volume.partitionCount, ∀ h,
    decodePartitionHeader (m.window (env.partitionBase slot) partitionHeaderEncodedSize) = .ok h →
    h.volumeIdHigh = env.volume.volumeIdHigh → h.volumeIdLow = env.volume.volumeIdLow →
    h.generation ≠ 0 ∧ h.options.timeDomainId ≠ 0
  unwrapped : ∀ slot < env.volume.partitionCount,
    ¬ WrappedFrame (m.window (env.partitionBase slot + partitionHeaderRegionSize)
      blockHeaderEncodedSize)
  summary : ∀ p ∈ slotStates env m, p.isSealed = true →
    ∀ es, Rd.run (imageSource m) (loadIndex env p) = .ok es → es ≠ [] →
      Rust.summarize es = (p.footer.flags, p.footer.minTimeNs, p.footer.maxTimeNs)
  room : ∀ p ∈ slotStates env m, ∀ limit scan,
    Rd.run (imageSource m) (scanPartition env p.header limit) = .ok scan →
      scan.entries.length < 2 ^ 32

/-- One event of the two readers; the texts of gaps may differ. -/
def SameEvent (ev : BlockEvent) : Rust.Event → Prop
  | .data metadata data => ev = { metadata := metadata, data := data }
  | .gap gap => gap.kind = .corrupt ∧ ev.kind = .corruptGap ∧
      ev.metadata.partitionSlot = gap.partitionSlot ∧
      ev.metadata.partitionGeneration = gap.partitionGeneration ∧
      ∀ n ∈ gap.blockSequence, ev.metadata.blockSequence = n

section
variable {env : Env} (g : Geometry env) {m : Image} (hm : env.volume.volumeSize.toNat ≤ m.size)
  (ha : Alike env m) {p q : PartitionState} {r : Rust.Reader} {p' : Rust.PartitionState}
  (hq : q ∈ slotStates env m) (hpq : p = q ∨ p = q.cleared) (hs : SameState q p')
  (hfile : r.file = Rust.fileOf m) (hvolume : r.volume = env.volume)
include g hm ha hq hpq hs hfile hvolume

/-- **Both readers acquire the same index**, and doubt it alike. -/
theorem acquire_same :
    ∃ a gap, Rd.run (imageSource m) (acquireIndex env p) = .ok a ∧ (∀ e ∈ a.entries, EntryIn env e) ∧
      r.acquireEntries p' = .ok (a.entries, gap) ∧ gap.isSome = a.invalidPrefix p ∧
      ∀ x ∈ gap, SameEvent (prefixGap p) (.gap x) := by
  have hfeat := indexBegin_same g
  obtain ⟨hslot, hstate⟩ := mem_slotStates.mp hq
  cases hsealed : q.isSealed with
  | false =>
    obtain ⟨fs, st, hopen, hch, hstuck⟩ := slotState_open g hm hslot hstate hsealed
    obtain ⟨a, hrun, hent, hvalid⟩ := footerless_acquired g hm hsealed hopen rfl hch hslot hpq
    have hfooter : p'.footer = none := by
      rw [hs.footer, hsealed]
      rfl
    have hact : p'.activeEntries = a.entries := by
      rw [hs.entries hsealed, hent]
      conv_lhs => rw [hopen]
      exact openState_activeIndex _ _
    have hlt : (chainEntries partitionHeaderRegionSize fs).length < 2 ^ 32 := by
      obtain ⟨fs', st', corrupt, hscan, hch', hstuck'⟩ := scanPartition_run g hm hslot 0
        env.indexBegin (if_pos rfl) (Nat.le_of_lt g.header_lt_indexBegin) (Nat.le_refl _)
      obtain ⟨rfl, rfl⟩ := hch.eq_of_stuck hstuck hch' hstuck'
      have := ha.room q hq 0 _ hscan
      rwa [ScanState.stop, hch.entries] at this
    refine ⟨a, none, hrun, ?_, ?_, ?_, ?_⟩
    · rw [hent]
      exact hch.entriesIn g (Nat.le_refl _) (Nat.le_refl _)
    · unfold Rust.Reader.acquireEntries
      rw [hfooter, hact]
    · rw [hvalid hlt]
      rfl
    · intro x hx
      cases hx
  | true =>
    have hpq : p = q := by
      rcases hpq with rfl | rfl
      · rfl
      · rw [PartitionState.cleared, if_pos hsealed]
    subst hpq
    obtain ⟨f, hf, hpf⟩ := slotState_sealed hstate hsealed
    unfold slotFooter at hf
    obtain ⟨hoff, hsize, hlow, hup⟩ := acceptFooter_regions hf
    have hcount := acceptFooter_indexSize hf
    subst hpf
    have hfooter : p'.footer = some p.footer := by
      rw [hs.footer, if_pos hsealed]
    unfold Rust.Reader.acquireEntries
    rw [hfooter, hfile, hvolume]
    obtain ⟨es, es', hes, hes', rfl⟩ | ⟨e, e', he, he', hclass⟩ := (agree_loadIndex g hm hslot
      hs.header hfeat hsealed hoff hsize hcount (ha.summary p hq hsealed)).elim
    · obtain ⟨hin, hlen, -⟩ := loadIndex_spec g hcount hes
      refine ⟨{ entries := es }, none, ?_, hin, ?_, ?_, fun x hx => (by cases hx)⟩
      · simp only [acquireIndex, hsealed, if_true, Rd.run_bind, Rd.run_attempt, hes, Rd.bind_ok]
        rfl
      · simp only [hes']
      · simp [Acquired.invalidPrefix, hlen]
    · -- both rescan the partition up to the end its footer names
      have hcode := loadIndex_corrupt g hm hslot hsealed hoff hsize he
      have hkind : e'.kind = .corrupt := by
        rcases hclass with h | h
        · exact h.2
        · rw [hcode] at h
          cases h.1
      have h0 : p.footer.dataEnd.toNat ≠ 0 := by
        simp only [partitionHeaderRegionSize] at hlow
        omega
      obtain ⟨fs, su, corrupt, hrun, hch, -⟩ := scanPartition_run g hm hslot
        p.footer.dataEnd.toNat p.footer.dataEnd.toNat (if_neg h0) hlow hup
      have hscan := scan_same g hm hslot hs.header hfeat p.footer.dataEnd.toNat _ (if_neg h0) hlow hup
        hrun (ha.room p hq _ _ hrun)
      have hent := hch.entries
      simp only [he', hkind, if_true, hscan, Rust.ok_bind]
      refine ⟨⟨su.entries, corrupt, true, false, su.cursor⟩, _, ?_, ?_, rfl, ?_, ?_⟩
      · simp only [acquireIndex, hsealed, if_true, Rd.run_bind, Rd.run_attempt, he, Rd.bind_ok,
          rescanAfter, hcode, ne_eq, not_true_eq_false, if_false, hrun, ScanState.stop]
        rfl
      · rw [hent]
        exact hch.entriesIn g hup (Nat.le_refl _)
      · simp [Acquired.invalidPrefix, hsealed]
      · intro x hx
        cases hx
        refine ⟨rfl, rfl, ?_, ?_, fun n hn => (by cases hn)⟩
        · rw [hs.header]
          rfl
        · rw [hs.header]
          rfl

end

/-! ## Events -/

/-- The two calls have delivered the same events, and both go on or both end well. -/
def SameAnswer (x : QueryState × Option Status)
    (y : List Rust.Event × Option (Except Rust.Error Unit)) : Prop :=
  List.Forall₂ SameEvent x.1.events y.1 ∧
    ((x.2 = none ∧ y.2 = none) ∨ (x.2 = some {} ∧ y.2 = some (.ok ())))

/-- Visitors that decide alike. -/
def SameVisitor (visitor : List BlockEvent → Bool) (visitor' : List Rust.Event → Bool) : Prop :=
  ∀ evs evs', List.Forall₂ SameEvent evs evs' → visitor evs = visitor' evs'

section
variable {q : Query} {visitor' : List Rust.Event → Bool} (hgaps : q.continueOnGap = true)
  (hvisit : SameVisitor q.visitor visitor')
include hgaps hvisit

theorem emit_same {qs : QueryState} {events : List Rust.Event}
    (hqs : List.Forall₂ SameEvent qs.events events) {ev : BlockEvent} {ev' : Rust.Event}
    (hev : SameEvent ev ev') : SameAnswer (q.emit qs ev) (Rust.Reader.visit visitor' events ev') := by
  have hall : List.Forall₂ SameEvent (qs.deliver ev).events (events ++ [ev']) :=
    List.rel_append hqs (.cons hev .nil)
  have hsame := hvisit _ _ hall
  unfold Query.emit Rust.Reader.visit
  simp only [hsame]
  cases visitor' (events ++ [ev']) with
  | false => exact ⟨hall, .inr ⟨rfl, rfl⟩⟩
  | true =>
    have hgo : ¬ (ev.kind ≠ .data ∧ ¬ q.continueOnGap) := fun h => h.2 hgaps
    simp only [not_true_eq_false, if_false, if_neg hgo, if_true]
    exact ⟨hall, .inl ⟨rfl, rfl⟩⟩

/-- An event and what follows it. -/
theorem emitAll_same {qs : QueryState} {events : List Rust.Event}
    (hqs : List.Forall₂ SameEvent qs.events events) {ev : BlockEvent} {evs : List BlockEvent}
    {ev' : Rust.Event} (hev : SameEvent ev ev')
    {y : List Rust.Event × Option (Except Rust.Error Unit)}
    (hdone : ∀ es res, Rust.Reader.visit visitor' events ev' = (es, some res) → y = (es, some res))
    (hgo : ∀ qs es, Rust.Reader.visit visitor' events ev' = (es, none) →
      List.Forall₂ SameEvent qs.events es → SameAnswer (q.emitAll qs evs) y) :
    SameAnswer (q.emitAll qs (ev :: evs)) y := by
  obtain ⟨hevents, ⟨hq, hv⟩ | ⟨hq, hv⟩⟩ := emit_same hgaps hvisit hqs hev
  · unfold Query.emitAll
    rw [if_pos hq]
    exact hgo _ _ (Prod.ext rfl hv) hevents
  · unfold Query.emitAll
    rw [if_neg (by rw [hq]; simp), hdone _ _ (Prod.ext rfl hv)]
    exact ⟨hevents, .inr ⟨hq, rfl⟩⟩

omit hgaps hvisit in
theorem skipsEntry_same (e : IndexEntry) :
    Rust.Reader.skipsEntry q.range e = ! q.selectsEntry e := by
  unfold Rust.Reader.skipsEntry Query.selectsEntry
  cases q.range <;> rfl

/-- The events of the entries of one partition. -/
theorem visitEntries_same {env : Env} {m : Image} {p : PartitionState} {r : Rust.Reader}
    {p' : Rust.PartitionState} (hh : SameHeader p.header p'.header) {es : List IndexEntry}
    (hes : ∀ e ∈ es, SameRead (blockOutcome env m p e) (r.readBlock p' e)) {qs : QueryState}
    {events : List Rust.Event} (hqs : List.Forall₂ SameEvent qs.events events) :
    SameAnswer (q.emitAll qs ((es.filter q.selectsEntry).map (entryEvent env m p)))
      (r.visitEntries q.range visitor' p' es events) := by
  induction es generalizing qs events with
  | nil => exact ⟨hqs, .inl ⟨rfl, rfl⟩⟩
  | cons e es ih =>
    have hrest : ∀ e ∈ es, SameRead (blockOutcome env m p e) (r.readBlock p' e) :=
      fun e he => hes e (List.mem_cons_of_mem _ he)
    unfold Rust.Reader.visitEntries
    rw [skipsEntry_same]
    cases hsel : q.selectsEntry e with
    | false =>
      rw [List.filter_cons_of_neg (by rw [hsel]; simp)]
      exact ih hrest hqs
    | true =>
      rw [List.filter_cons_of_pos hsel, List.map_cons]
      simp only [Bool.not_true, Bool.false_eq_true, if_false]
      obtain ⟨v, hv, hv'⟩ | ⟨st, e', hst, he', hcode, hkind⟩ := hes e (List.mem_cons_self ..)
      · obtain ⟨metadata, data⟩ := v
        have hev : SameEvent (entryEvent env m p e) (.data metadata data) := by
          unfold entryEvent
          rw [hv]
          rfl
        rw [hv']
        refine emitAll_same hgaps hvisit hqs hev ?_ ?_
        · intro es res h
          simp only [h]
        · intro qs es h hqs
          simp only [h]
          exact ih hrest hqs
      · have hev : SameEvent (entryEvent env m p e) (.gap (Rust.Reader.blockGap p' e e')) := by
          unfold entryEvent
          rw [hst]
          refine ⟨if_neg hkind, rfl, ?_, ?_, fun n hn => Option.some.inj hn⟩
          · show p.header.slot = p'.header.slot
            rw [hh]
          · show p.header.generation = p'.header.generation
            rw [hh]
        rw [he']
        refine emitAll_same hgaps hvisit hqs hev ?_ ?_
        · intro es res h
          simp only [h]
        · intro qs es h hqs
          simp only [h, if_neg hkind]
          exact ih hrest hqs

omit hgaps hvisit in
theorem skipsPartition_same (hv : q.Valid) {p : PartitionState} {p' : Rust.PartitionState}
    (hh : SameHeader p.header p'.header) :
    Rust.Reader.skipsPartition q.range p' = ! q.selectsPartition p := by
  unfold Rust.Reader.skipsPartition Query.selectsPartition
  cases hrange : q.range with
  | none => rfl
  | some range =>
    have hdomain := (hv range hrange).2
    have htime : p'.header.timeDomainId = p.header.options.timeDomainId := by rw [hh]
    simp only [htime, bne, beq_false_of_ne hdomain, Bool.false_or]

/-- The gaps of damaged headers. -/
theorem visitGaps_same {slots : List UInt32} {gaps : List Rust.Gap}
    (h : List.Forall₂ (fun slot gap => SameEvent (slotGap slot) (.gap gap)) slots gaps)
    {qs : QueryState} {events : List Rust.Event} (hqs : List.Forall₂ SameEvent qs.events events) :
    SameAnswer (q.emitAll qs (slots.map slotGap)) (Rust.Reader.visitGaps visitor' gaps events) := by
  induction h generalizing qs events with
  | nil => exact ⟨hqs, .inl ⟨rfl, rfl⟩⟩
  | cons hev _ ih =>
    unfold Rust.Reader.visitGaps
    refine emitAll_same hgaps hvisit hqs hev ?_ ?_
    · intro es res h
      simp only [h]
    · intro qs es h hqs
      simp only [h]
      exact ih hqs

end

/-! ## Partitions -/

/-- A partition of the catalog, and what the Rust reader has of it. -/
def Catalogued (env : Env) (m : Image) (p : PartitionState) (p' : Rust.PartitionState) : Prop :=
  ∃ q ∈ slotStates env m, (p = q ∨ p = q.cleared) ∧ SameState q p'

section
variable {env : Env} (g : Geometry env) {m : Image} (hm : env.volume.volumeSize.toNat ≤ m.size)
  (ha : Alike env m) (hc : env.codecs = []) {r : Rust.Reader} (hfile : r.file = Rust.fileOf m)
  (hvolume : r.volume = env.volume)
include g hm ha hc hfile hvolume

theorem readCurrent_same {slot : UInt32} (hs : slot < env.volume.partitionCount) :
    Agree SameHeader (slotHeader env m slot) (r.readCurrentPartitionHeader slot) := by
  have hin := (slot_regions g slot).2.2.1
  have hread := slot_file g hm hs (o := 0) (n := partitionHeaderEncodedSize) (by omega)
  have hshort := ha.short slot hs
  have hnamed := ha.named slot hs
  have hlen := Image.window_length m (env.partitionBase slot) partitionHeaderEncodedSize
  rw [Nat.add_zero] at hread
  unfold slotHeader
  generalize m.window (env.partitionBase slot) partitionHeaderEncodedSize = bytes at *
  have hcurrent : r.readCurrentPartitionHeader slot = Rust.acceptHeader env.volume slot bytes := by
    unfold Rust.Reader.readCurrentPartitionHeader Rust.acceptHeader
    rw [hfile, hvolume, partitionBase_same g hs, Rust.ok_bind, hread, Rust.ok_bind]
  rw [hcurrent]
  exact agree_header hc (indexBegin_same g) hlen hshort hnamed

/-- A partition of the catalog is in its slot. -/
theorem Catalogued.inPlace {p : PartitionState} {p' : Rust.PartitionState}
    (h : Catalogued env m p p') : InPlace env m p r p' := by
  obtain ⟨q, hq, hpq, hs⟩ := h
  obtain ⟨hslot, hstate⟩ := mem_slotStates.mp hq
  have hhead : p.header = q.header := by
    rcases hpq with rfl | rfl
    · rfl
    · simp
  have hcur := slotState_header hstate
  have hread := readCurrent_same g hm ha hc hfile hvolume hslot
  rw [hcur] at hread
  refine ⟨hfile, hvolume, hhead ▸ hslot, by rw [hhead]; exact hcur, hhead ▸ hs.header, ?_⟩
  rw [hhead]
  cases hagain : r.readCurrentPartitionHeader q.header.slot with
  | error e =>
    rw [hagain] at hread
    cases hread
  | ok h' =>
    rw [hagain] at hread
    have h1 : h' = _ := hread
    have h2 : p'.header = _ := hs.header
    rw [h1, h2]

theorem Catalogued.readable {p : PartitionState} {p' : Rust.PartitionState}
    (h : Catalogued env m p p') : Readable env m p := by
  have hin := h.inPlace g hm ha hc hfile hvolume
  obtain ⟨q, hq, hpq, hs⟩ := h
  obtain ⟨a, gap, hrun, hent, -⟩ := acquire_same g hm ha hq hpq hs hfile hvolume
  refine ⟨hin.slot, ⟨p.header, hin.current, rfl⟩, ⟨a, hrun⟩, ?_⟩
  rw [acquired_of_run hrun]
  intro e he
  refine ⟨hent e he, fun st hst => ?_⟩
  obtain ⟨v, hv, -⟩ | ⟨st', e', hst', -, hcode, -⟩ := hin.sameRead g hm hc (hent e he)
  · rw [hst] at hv
    cases hv
  · rw [hst] at hst'
    cases hst'
    exact hcode

section
variable {q : Query} {visitor' : List Rust.Event → Bool} (hgaps : q.continueOnGap = true)
  (hvisit : SameVisitor q.visitor visitor') (hv : q.Valid)
include hgaps hvisit hv

/-- **The events of one partition.** -/
theorem visitPartition_same {p : PartitionState} {p' : Rust.PartitionState}
    (h : Catalogued env m p p') {qs : QueryState} {events : List Rust.Event}
    (hqs : List.Forall₂ SameEvent qs.events events) :
    SameAnswer (q.emitAll qs (partitionEvents env m q p))
      (r.visitPartition q.range visitor' p' events) := by
  have hin := h.inPlace g hm ha hc hfile hvolume
  have hskip := skipsPartition_same hv hin.header
  unfold partitionEvents Rust.Reader.visitPartition
  rw [hskip]
  cases hsel : q.selectsPartition p with
  | false =>
    rw [if_neg (by simp)]
    exact ⟨hqs, .inl ⟨rfl, rfl⟩⟩
  | true =>
    obtain ⟨s, hs, hps, hstate⟩ := h
    obtain ⟨a, gap, hrun, hent, hacq, hsome, hgap⟩ :=
      acquire_same g hm ha hs hps hstate hfile hvolume
    have hread : ∀ e ∈ a.entries, SameRead (blockOutcome env m p e) (r.readBlock p' e) :=
      fun e he => hin.sameRead g hm hc (hent e he)
    have hentries {qs : QueryState} {events : List Rust.Event}
        (hqs : List.Forall₂ SameEvent qs.events events) :
        SameAnswer (q.emitAll qs ((a.entries.filter q.selectsEntry).map (entryEvent env m p)))
          (r.visitEntries q.range visitor' p' a.entries events) :=
      visitEntries_same hgaps hvisit hin.header hread hqs
    rw [acquired_of_run hrun, if_pos rfl, hacq, ← hsome]
    cases gap with
    | none => exact hentries hqs
    | some gap =>
      have hev := hgap gap rfl
      rw [Option.isSome_some, if_pos rfl, List.singleton_append]
      refine emitAll_same hgaps hvisit hqs hev ?_ ?_
      · intro es res h
        simp only [Bool.not_true, Bool.false_eq_true, if_false, h]
      · intro qs es h hqs
        simp only [Bool.not_true, Bool.false_eq_true, if_false, h]
        exact hentries hqs

/-- The events of the catalog. -/
theorem visitPartitions_same {ps : List PartitionState} {ps' : List Rust.PartitionState}
    (h : List.Forall₂ (Catalogued env m) ps ps') {qs : QueryState} {events : List Rust.Event}
    (hqs : List.Forall₂ SameEvent qs.events events) :
    List.Forall₂ SameEvent (q.emitAll qs (ps.flatMap (partitionEvents env m q))).1.events
        (r.visitPartitions q.range visitor' ps' events).1 ∧
      (q.emitAll qs (ps.flatMap (partitionEvents env m q))).2.getD {} = {} ∧
      (r.visitPartitions q.range visitor' ps' events).2 = .ok () := by
  induction h generalizing qs events with
  | nil => exact ⟨hqs, rfl, rfl⟩
  | cons hp _ ih =>
    unfold Rust.Reader.visitPartitions
    rw [List.flatMap_cons, Query.emitAll_append]
    obtain ⟨hevents, ⟨hx, hy⟩ | ⟨hx, hy⟩⟩ :=
      visitPartition_same g hm ha hc hfile hvolume hgaps hvisit hv hp hqs
    · rw [if_pos hx]
      split
      · rename_i heq
        rw [heq] at hy
        cases hy
      · rename_i heq
        rw [heq] at hevents
        exact ih hevents
    · rw [if_neg (by rw [hx]; simp), hx]
      split
      · rename_i heq
        rw [heq] at hevents hy
        cases hy
        exact ⟨hevents, rfl, rfl⟩
      · rename_i heq
        rw [heq] at hy
        cases hy

/-- **The events of a call.** -/
theorem visitBlocks_same {ps : List PartitionState} {slots : List UInt32}
    (h : List.Forall₂ (Catalogued env m) (sortPartitions ps) r.partitions)
    (hslots : List.Forall₂ (fun slot gap => SameEvent (slotGap slot) (.gap gap)) slots r.headerGaps) :
    List.Forall₂ SameEvent (q.answer (queryEvents env m q ps slots)).1.events
        (r.visitBlocks q.range visitor').1 ∧
      (q.answer (queryEvents env m q ps slots)).2 = {} ∧
      (r.visitBlocks q.range visitor').2 = .ok () := by
  unfold Query.answer queryEvents Rust.Reader.visitBlocks
  rw [Query.emitAll_append]
  have hslots' : SameAnswer (q.emitAll {} (slots.map slotGap))
      (Rust.Reader.visitGaps visitor' r.headerGaps []) :=
    visitGaps_same hgaps hvisit hslots .nil
  obtain ⟨hevents, ⟨hx, hy⟩ | ⟨hx, hy⟩⟩ := hslots'
  · rw [if_pos hx]
    split
    · rename_i heq
      rw [heq] at hy
      cases hy
    · rename_i heq
      rw [heq] at hevents
      exact visitPartitions_same g hm ha hc hfile hvolume hgaps hvisit hv h hevents
  · rw [if_neg (by rw [hx]; simp), hx]
    split
    · rename_i heq
      rw [heq] at hevents hy
      cases hy
      exact ⟨hevents, rfl, rfl⟩
    · rename_i heq
      rw [heq] at hy
      cases hy

end

end

end TFDB
