import TFDB.Interop

/-!
# Altered images

Bytes of an image are altered, and every structure or payload they belong to fails its checksum.

* `Altered` — what passes a checksum in the new image stands there as it stood in the old one;
* `Altered.collisionFree` — so nothing in it passes a checksum that was not written;
* `OthersWritten` — what writers of other volumes left in the storage is written whole;
* `altered_images_agree` — of an altered cut of a run both readers make the same.
-/

set_option autoImplicit false

namespace TFDB

open ByteLib Writer

/-! ## Altered bytes -/

/-- `m'` is `m` with some bytes altered: whatever passes its checksum, at a position where the format
keeps it, is unaltered. -/
structure Altered (env : Env) (issued : List (Nat × Item)) (m m' : Image) : Prop where
  size : m'.size = m.size
  volume : ∀ off, off = 0 ∨ off = volumeHeaderCopySize →
    Checks (m'.window off volumeHeaderEncodedSize) volumeMagic volumeHeaderEncodedSize 72 →
      m'.window off volumeHeaderEncodedSize = m.window off volumeHeaderEncodedSize
  header : ∀ slot : UInt32, slot < env.volume.partitionCount →
    Checks (m'.window (env.partitionBase slot) partitionHeaderEncodedSize) partitionMagic
      partitionHeaderEncodedSize 104 →
      m'.window (env.partitionBase slot) partitionHeaderEncodedSize =
        m.window (env.partitionBase slot) partitionHeaderEncodedSize
  footer : ∀ slot : UInt32, slot < env.volume.partitionCount →
    let off := env.partitionBase slot + env.footerOffset
    Checks (m'.window off partitionFooterEncodedSize) footerMagic partitionFooterEncodedSize 100 →
      m'.window off partitionFooterEncodedSize = m.window off partitionFooterEncodedSize
  block : ∀ slot : UInt32, slot < env.volume.partitionCount → ∀ o,
    partitionHeaderRegionSize ≤ o → o + blockHeaderEncodedSize ≤ env.indexBegin →
    o % env.quantum = 0 →
    let off := env.partitionBase slot + o
    Checks (m'.window off blockHeaderEncodedSize) blockMagic blockHeaderEncodedSize 72 →
      m'.window off blockHeaderEncodedSize = m.window off blockHeaderEncodedSize
  payload : ∀ slot : UInt32, slot < env.volume.partitionCount → ∀ o,
    partitionHeaderRegionSize ≤ o → o + blockHeaderEncodedSize ≤ env.indexBegin →
    o % env.quantum = 0 → ∀ b,
    let off := env.partitionBase slot + o
    decodeBlockHeader (m'.window off blockHeaderEncodedSize) = .ok b →
    crc32c (m'.window (off + blockHeaderEncodedSize) b.storedSize.toNat) = b.payloadCrc →
      m'.window (off + blockHeaderEncodedSize) b.storedSize.toNat =
        m.window (off + blockHeaderEncodedSize) b.storedSize.toNat
  index : ∀ slot : UInt32, slot < env.volume.partitionCount → ∀ f es,
    (env.partitionBase slot + env.footerOffset, .footer f es) ∈ issued →
    let off := env.partitionBase slot + env.indexBegin
    crc32c (m'.window off f.indexSize.toNat) = f.indexCrc →
      m'.window off f.indexSize.toNat = m.window off f.indexSize.toNat

section
variable {env : Env} {issued : List (Nat × Item)} {m m' : Image}

theorem decodeVolumeHeader_checks {bs : Bytes} {v : VolumeHeader} (h : decodeVolumeHeader bs = .ok v) :
    Checks bs volumeMagic volumeHeaderEncodedSize 72 := by
  unfold decodeVolumeHeader at h
  obtain ⟨u, hc, -⟩ := bind_ok_inv h
  exact hc

/-- **What passes a checksum behind an alteration was written.** -/
theorem Altered.collisionFree (h : Altered env issued m m') (hc : CollisionFree env issued m) :
    CollisionFree env issued m' where
  volume off hoff v hv := by
    rw [h.volume off hoff (decodeVolumeHeader_checks hv)] at hv
    exact hc.volume off hoff v hv
  header slot hs := by
    intro bytes hcheck hhigh hlow
    have hsame : bytes = _ := h.header slot hs hcheck
    rw [hsame] at hcheck hhigh hlow ⊢
    exact hc.header slot hs hcheck hhigh hlow
  footer slot hs := by
    intro off bytes hcheck hhigh hlow
    have hsame : bytes = _ := h.footer slot hs hcheck
    rw [hsame] at hcheck hhigh hlow ⊢
    exact hc.footer slot hs hcheck hhigh hlow
  frame slot hs o h1 h2 h3 b hb hhigh hlow := by
    intro payload hcrc
    have hsame : payload = _ := h.payload slot hs o h1 h2 h3 b hb hcrc
    rw [h.block slot hs o h1 h2 h3 (decodeBlockHeader_fields hb).1] at hb
    rw [hsame] at hcrc ⊢
    exact hc.frame slot hs o h1 h2 h3 b hb hhigh hlow hcrc
  index slot hs f es hissued := by
    intro bytes hcrc
    have hsame : bytes = _ := h.index slot hs f es hissued hcrc
    rw [hsame] at hcrc ⊢
    exact hc.index slot hs f es hissued hcrc

theorem Altered.genuine {writers : List (UInt64 × UInt64)} (h : Altered env issued m m')
    (hg : Genuine env issued writers m) : Genuine env issued writers m' where
  size := by
    rw [h.size]
    exact hg.size
  items := hg.items
  free := h.collisionFree hg.free

end

/-! ## Two readers -/

/-- What this run did not write, a writer of another volume did: its partition headers have four
descriptors or more, and its frames a length of 32 bits. -/
structure OthersWritten (env : Env) (issued : List (Nat × Item)) (m : Image) : Prop where
  header : ∀ slot : UInt32, slot < env.volume.partitionCount →
    let bytes := m.window (env.partitionBase slot) partitionHeaderEncodedSize
    Checks bytes partitionMagic partitionHeaderEncodedSize 104 →
      get64 bytes 16 ≠ env.volume.volumeIdHigh ∨ get64 bytes 24 ≠ env.volume.volumeIdLow →
      4 ≤ (get16 bytes 88).toNat
  block : ∀ slot : UInt32, slot < env.volume.partitionCount → ∀ b,
    let off := env.partitionBase slot + partitionHeaderRegionSize
    decodeBlockHeader (m.window off blockHeaderEncodedSize) = .ok b →
      (∀ payload raw, (off, .frame b payload raw) ∉ issued) →
      blockHeaderEncodedSize + b.storedSize.toNat < 2 ^ 32

section
variable {env : Env} {issued : List (Nat × Item)} {writers : List (UInt64 × UInt64)} {m m' : Image}

theorem Altered.short (ha : Altered env issued m m') (hc : CollisionFree env issued m)
    (hw : OthersWritten env issued m) {slot : UInt32} (hs : slot < env.volume.partitionCount) :
    ¬ ShortUnsupported (m'.window (env.partitionBase slot) partitionHeaderEncodedSize) := by
  intro hshort
  rw [ha.header slot hs hshort.1] at hshort
  by_cases hours : get64 (m.window (env.partitionBase slot) partitionHeaderEncodedSize) 16 =
      env.volume.volumeIdHigh ∧
    get64 (m.window (env.partitionBase slot) partitionHeaderEncodedSize) 24 = env.volume.volumeIdLow
  · obtain ⟨h, -, hbytes⟩ := hc.header slot hs hshort.1 hours.1 hours.2
    rw [hbytes] at hshort
    exact encodePartitionHeader_long _ _ _ hshort
  · have hmany := hw.header slot hs hshort.1 (not_and_or.mp hours)
    exact absurd hshort.2.2.2.2.1 (Nat.not_lt.mpr hmany)

theorem Altered.unwrapped (g : Geometry env)
    (hitems : ∀ w ∈ issued, ItemOk env issued writers w.1 w.2)
    (ha : Altered env issued m m') (hw : OthersWritten env issued m) {slot : UInt32}
    (hs : slot < env.volume.partitionCount) :
    ¬ WrappedFrame (m'.window (env.partitionBase slot + partitionHeaderRegionSize)
      blockHeaderEncodedSize) := by
  intro hwrap
  rw [ha.block slot hs _ (Nat.le_refl _) g.first_block g.header_aligned hwrap.1] at hwrap
  by_cases hours : ∃ payload raw, (env.partitionBase slot + partitionHeaderRegionSize,
    Item.frame (blockFields (m.window (env.partitionBase slot + partitionHeaderRegionSize)
      blockHeaderEncodedSize)) payload raw) ∈ issued
  · obtain ⟨payload, raw, hissued⟩ := hours
    have hmade : FrameMade env issued writers _ _ payload raw := hitems _ hissued
    exact absurd hwrap.2.2 (Nat.not_le.mpr hmade.length_lt)
  · have hlt := hw.block slot hs _ hwrap.decodes fun payload raw hmem => hours ⟨payload, raw, hmem⟩
    exact absurd hwrap.2.2 (Nat.not_le.mpr hlt)

end

section
variable {env : Env} {x : Sys} {m m' : Image}

/-- **The two readers agree on every altered image of a run**, and on every query of it. -/
theorem altered_images_agree (h : Remains env x m) (hc : env.codecs = [])
    (hw : OthersWritten env x.disk.issued m) (ha : Altered env x.disk.issued m m') :
    Agree (SameReader m') (openReadOnly env.codecs m')
      (Rust.Reader.fromFileWithSize (Rust.fileOf m') m'.size) := by
  obtain ⟨g, hg⟩ := h.genuine
  obtain ⟨φ, hpr, -⟩ := reach_simulated (fun _ _ h => h) (fun _ h => h) h.reach
  have hg' := ha.genuine hg
  have halike : ∀ v, Rd.run (imageSource m') readVolumeHeader = .ok v →
      Alike { volume := v, codecs := [] } m' := by
    intro v hv
    obtain rfl := readVolumeHeader_eq hpr.volumes hg'.free hv
    have henv : ({ volume := env.volume, codecs := [] } : Env) = env := by rw [← hc]
    rw [henv]
    refine hg'.alike g (fun off f es hmem => ?_) (fun slot hs => ha.short h.free hw hs)
      fun slot hs => ha.unwrapped g hg.items hw hs
    obtain ⟨hd, fs, hseal, -⟩ := hpr.footers (fun _ _ h => h) (fun _ h => h) off f es hmem
    exact ⟨hd, fs, hseal⟩
  rw [hc]
  exact (agree_open (hg'.copies g hpr.volumes) halike).mono fun _ _ => CommonCatalog.sameReader

end

/-! ## A spoiled footer -/

section
variable {env : Env} {issued : List (Nat × Item)} {m : Image}

theorem Plain.othersWritten (g : Geometry env) (hp : Plain env issued m) :
    OthersWritten env issued m where
  header slot hs := by
    intro bytes hcheck _
    obtain ⟨h, -, hbytes⟩ := (hp.header slot hs).resolve_left (not_not_intro hcheck)
    have hbytes : bytes = encodePartitionHeader h env.volume.partitionSize env.volume.indexRegionSize :=
      hbytes
    rw [hbytes, encodePartitionHeader_count]
    decide
  block slot hs b := by
    intro off hdecode hnone
    obtain ⟨b', payload, raw, hissued, hbounds, -, -, hwindow⟩ :=
      (hp.frame slot hs _ (Nat.le_refl _) g.first_block g.header_aligned).resolve_left
        fun hnone => hnone _ hdecode
    rw [(window_frame hwindow).1, decodeBlockHeader_encode hbounds] at hdecode
    obtain rfl : b' = b := Except.ok.inj hdecode
    exact absurd hissued (hnone payload raw)

/-- A footer is overwritten by bytes that fail its checksum. -/
theorem Plain.spoiled (g : Geometry env) (hp : Plain env issued m) {slot : UInt32} {bs : Bytes}
    (hbs : bs.length ≤ partitionFooterEncodedSize)
    (hfail : ¬ Checks ((m.write (env.partitionBase slot + env.footerOffset) bs).window
      (env.partitionBase slot + env.footerOffset) partitionFooterEncodedSize) footerMagic
      partitionFooterEncodedSize 100) :
    Altered env issued m (m.write (env.partitionBase slot + env.footerOffset) bs) := by
  obtain ⟨e1, e2, e3, e4, e5, e6, e7, e8, e9, e10⟩ := slot_parts g
  have hout {t : UInt32} {o n : Nat} (ho : o + n ≤ env.footerOffset) :
      (m.write (env.partitionBase slot + env.footerOffset) bs).window (env.partitionBase t + o) n =
        m.window (env.partitionBase t + o) n := by
    refine Image.window_write_out (apart_slots (by omega) (by omega) fun _ => ?_)
    unfold Apart
    omega
  refine ⟨Image.write_size .., fun off hoff _ => ?_, fun t _ _ => hout (o := 0) (by omega), fun t _ => ?_,
    fun t _ o _ ho _ => ?_, fun t ht o h1 ho h3 b => ?_, fun t ht f es hissued => ?_⟩
  · refine Image.window_write_out (apart_front ?_).2
    omega
  · intro off hcheck
    by_cases hst : t = slot
    · subst hst
      exact absurd hcheck hfail
    · refine Image.window_write_out (apart_slots (by omega) (by omega) fun h => absurd h.symm hst)
  · intro off hcheck
    exact hout (by omega)
  · intro off hdecode _
    have hhead : decodeBlockHeader (m.window (env.partitionBase t + o) blockHeaderEncodedSize) = .ok b := by
      rw [← hout (by omega)]
      exact hdecode
    obtain ⟨b', payload, raw, -, hbounds, hst, hle, hwindow⟩ :=
      (hp.frame t ht o h1 ho h3).resolve_left fun hnone => hnone _ hhead
    rw [(window_frame hwindow).1, decodeBlockHeader_encode hbounds] at hhead
    obtain rfl : b' = b := Except.ok.inj hhead
    rw [hst]
    exact (congrArg (fun a => Image.window _ a _) (Nat.add_assoc ..)).trans
      ((hout (by omega)).trans (congrArg (fun a => Image.window _ a _) (Nat.add_assoc ..).symm))
  · intro off _
    obtain ⟨hsize, -⟩ := hp.index t ht f es hissued
    exact hout (by omega)

end

namespace Sample

theorem lost_inOrder : InOrder lostDisk := by
  refine rotated_inOrder.frame 1 4096 _ rfl (Or.inl rfl) rfl rfl fun o' b' payload' raw' h => ?_
  simp [rotated, sealedDisk, framed, created, formatted, write, disk, Disk.flush, Disk.issue] at h
  have hbase : env.partitionBase 1 = 17024 := rfl
  omega

/-- The sample volume, with the footer of the first partition without the first byte of its magic. -/
def footerSpoiled : Image :=
  (lostDisk.volatile (Item.bytes env)).write (env.partitionBase 0 + env.footerOffset) [0]

theorem footerSpoiled_byte :
    footerSpoiled.byte (env.partitionBase 0 + env.footerOffset) ≠ magicByte := by
  unfold footerSpoiled
  generalize env.partitionBase 0 + env.footerOffset = off
  rw [Image.write_byte_in (Nat.le_refl _) (Nat.lt_succ_self _), Nat.sub_self]
  exact blank_byte

theorem footerSpoiled_altered :
    Altered env lostDisk.issued (lostDisk.volatile (Item.bytes env)) footerSpoiled :=
  Plain.spoiled geometry lost_inOrder (show ([0] : Bytes).length ≤ _ by decide)
    (foreign_window footerSpoiled_byte).not_footer

end Sample

/-- Both readers make the same of the sample volume behind a spoiled footer. -/
theorem sample_altered_images_agree :
    Agree (SameReader Sample.footerSpoiled) (openReadOnly Sample.env.codecs Sample.footerSpoiled)
      (Rust.Reader.fromFileWithSize (Rust.fileOf Sample.footerSpoiled) Sample.footerSpoiled.size) := by
  have hremains : Remains Sample.env Sample.lostSys (Sample.lostDisk.volatile (Item.bytes Sample.env)) :=
    ⟨Sample.lost_remains.reach, Disk.volatile_mixCut _ _, Sample.lost_inOrder.collisionFree⟩
  have haltered := Sample.footerSpoiled_altered
  have hothers : OthersWritten Sample.env Sample.lostDisk.issued
      (Sample.lostDisk.volatile (Item.bytes Sample.env)) :=
    Plain.othersWritten Sample.geometry Sample.lost_inOrder
  generalize Sample.footerSpoiled = m at *
  generalize Sample.lostDisk.volatile (Item.bytes Sample.env) = n at *
  exact altered_images_agree hremains rfl hothers haltered

end TFDB
