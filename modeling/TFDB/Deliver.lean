import TFDB.Reopen

/-!
# What a query delivers

A query on a volume whose medium holds a ring delivers the blocks of the ring: each partition's
blocks in order, with the metadata of the block and the partition and the bytes the writer packed.

* `RingPartition.events` — the data events of a partition;
* `OnMedia.loadIndex` — the sealed index of a partition loads, and is the index of its blocks;
* `ring_query` — the events and the status of every query that does not stop early.
-/

set_option autoImplicit false

namespace TFDB

open ByteLib Writer

/-! ## The events of the ring -/

/-- The data event of a block at an offset of its partition. -/
def blockEvent (env : Env) (h : PartitionHeader) (offset : Nat) (k : RingBlock) : BlockEvent where
  metadata :=
    { partitionSlot := h.slot
      partitionGeneration := h.generation
      blockSequence := k.header.sequence
      recordCount := k.header.recordCount
      minTimeNs := k.header.minTimeNs
      maxTimeNs := k.header.maxTimeNs
      flags := k.header.flags
      compression := k.header.compression
      storedSize := k.header.storedSize
      rawSize := k.header.rawSize
      physicalOffset := env.partitionBase h.slot + offset
      recordFormatId := h.options.recordFormatId
      recordFormatVersion := h.options.recordFormatVersion
      timeDomainId := h.options.timeDomainId }
  data := k.raw

def blockEvents (env : Env) (h : PartitionHeader) : Nat → List RingBlock → List BlockEvent
  | _, [] => []
  | offset, k :: ks =>
    blockEvent env h offset k :: blockEvents env h (offset + k.header.frameSpan.toNat) ks

theorem mem_blockEvents {env : Env} {h : PartitionHeader} {off : Nat} {ks : List RingBlock}
    {ev : BlockEvent} (hev : ev ∈ blockEvents env h off ks) :
    ∃ o, ∃ k ∈ ks, ev = blockEvent env h o k := by
  induction ks generalizing off with
  | nil => cases hev
  | cons k ks ih =>
    rcases List.mem_cons.mp hev with rfl | hev
    · exact ⟨off, k, List.mem_cons_self .., rfl⟩
    · obtain ⟨o, k', hk, rfl⟩ := ih hev
      exact ⟨o, k', List.mem_cons_of_mem _ hk, rfl⟩

/-- The data events of a partition. -/
def RingPartition.events (env : Env) (q : RingPartition) : List BlockEvent :=
  blockEvents env q.header partitionHeaderRegionSize q.blocks

/-- Does the query ask for this event? -/
def Query.selectsEvent (q : Query) (ev : BlockEvent) : Bool :=
  match q.range with
  | none => true
  | some r => (r.timeDomainId == 0 || ev.metadata.timeDomainId == r.timeDomainId) &&
      rangesIntersect ev.metadata.minTimeNs ev.metadata.maxTimeNs r

/-- The events a query asks for, oldest partition first. -/
def ringEvents (env : Env) (qy : Query) (qs : List RingPartition) : List BlockEvent :=
  (qs.flatMap (RingPartition.events env)).filter qy.selectsEvent

theorem Env.SpanFits.payload {env : Env} (h : env.SpanFits) : 128 + env.maxBlockPayload < 2 ^ 32 := by
  obtain ⟨span, hspan, hlt⟩ := h
  obtain ⟨-, hle, -, -⟩ := alignUp_spec hspan
  simp only [blockHeaderEncodedSize] at hle
  omega

/-! ## Entries -/

section
variable {env : Env} {m : Image} {p : PartitionState} {limit : Nat} {st st' : ScanState}
  {b : BlockHeader} {x : Bytes}

/-- The entry of a block without its writer still names the block. -/
theorem BlockAt.stored {e : IndexEntry} (h : BlockAt env m p e b) : BlockAt env m p e.stored b := by
  refine ⟨?_, ?_, h.metadata, h.span, h.crc⟩
  · have hh := h.header
    unfold blockHeaderAt at hh ⊢
    exact hh
  · have hi := h.identity
    simp only [identityAgrees, Bool.and_eq_true] at hi ⊢
    exact ⟨hi.1, rfl⟩

theorem BlockAt.entryEvent {e : IndexEntry} (h : BlockAt env m p e b) {raw : Bytes}
    (hraw : decodePayload env b (payloadAt env m p e b) = .ok raw) :
    entryEvent env m p e = { metadata := blockMetadata env p e b, data := raw } := by
  unfold TFDB.entryEvent
  rw [blockOutcome_blockAt h, hraw]
  rfl

/-- The event of the entry of a frame. -/
theorem FrameAt.entryEvent (hf : FrameAt env m p.header limit st b x) (hlt : st.cursor < 2 ^ 64)
    {raw : Bytes} (hraw : decodePayload env b x = .ok raw) :
    entryEvent env m p (blockEntry st.cursor b) = blockEvent env p.header st.cursor ⟨b, x, raw⟩ ∧
      entryEvent env m p (blockEntry st.cursor b).stored =
        blockEvent env p.header st.cursor ⟨b, x, raw⟩ := by
  obtain ⟨hb, hpay⟩ := hf.blockAt hlt
  have hoff : (blockEntry st.cursor b).offset.toNat = st.cursor := UInt64.toNat_ofNat_of_lt' hlt
  have hev : ({ metadata := blockMetadata env p (blockEntry st.cursor b) b, data := raw } : BlockEvent) =
      blockEvent env p.header st.cursor ⟨b, x, raw⟩ := by
    unfold blockMetadata
    rw [hoff]
    rfl
  constructor
  · rw [hb.entryEvent (by rw [hpay]; exact hraw)]
    exact hev
  · have hpay' : payloadAt env m p (blockEntry st.cursor b).stored b = x := hpay
    rw [hb.stored.entryEvent (by rw [hpay']; exact hraw)]
    exact hev

/-- The events of the entries of a chain, with or without the writers. -/
theorem Chain.entryEvents (g : Geometry env) (hl : limit ≤ env.indexBegin) {ks : List RingBlock}
    (hc : Chain env m p.header limit st (ks.map RingBlock.frame) st')
    (hdec : ∀ k ∈ ks, decodePayload env k.header k.payload = .ok k.raw) (qy : Query)
    (hsel : qy.selectsPartition p = true) :
    ((chainEntries st.cursor (ks.map RingBlock.frame)).filter qy.selectsEntry).map
        (entryEvent env m p) = (blockEvents env p.header st.cursor ks).filter qy.selectsEvent ∧
      (((chainEntries st.cursor (ks.map RingBlock.frame)).map IndexEntry.stored).filter
        qy.selectsEntry).map (entryEvent env m p) =
          (blockEvents env p.header st.cursor ks).filter qy.selectsEvent := by
  induction ks generalizing st with
  | nil => exact ⟨rfl, rfl⟩
  | cons k ks ih =>
    cases hc with
    | cons hf hc =>
      have hsize := Geometry.partitionSize_lt env
      have hindex := g.indexBegin_add
      have hin := hf.inside
      obtain ⟨h1, h2⟩ := hf.entryEvent (by omega) (hdec k (List.mem_cons_self ..))
      obtain ⟨i1, i2⟩ := ih hc fun k' hk => hdec k' (List.mem_cons_of_mem _ hk)
      have hpick : qy.selectsEvent (blockEvent env p.header st.cursor k) =
          qy.selectsEntry (blockEntry st.cursor k.header) := by
        unfold Query.selectsPartition at hsel
        unfold Query.selectsEvent Query.selectsEntry
        cases hq : qy.range with
        | none => rfl
        | some r =>
          rw [hq] at hsel
          have hdomain : (r.timeDomainId == 0 ||
            p.header.options.timeDomainId == r.timeDomainId) = true := hsel
          simp only [blockEvent, blockEntry]
          rw [hdomain, Bool.true_and]
      have hpick' : qy.selectsEntry (blockEntry st.cursor k.header).stored =
          qy.selectsEntry (blockEntry st.cursor k.header) := rfl
      simp only [List.map_cons, RingBlock.frame, chainEntries, blockEvents, List.filter_cons, hpick,
        hpick']
      cases qy.selectsEntry (blockEntry st.cursor k.header) with
      | false => exact ⟨i1, i2⟩
      | true =>
        simp only [if_true, List.map_cons]
        exact ⟨congrArg₂ _ h1 i1, congrArg₂ _ h2 i2⟩

end

/-! ## The sealed index -/

section
variable {env : Env} {m : Image} {h : PartitionHeader} {limit : Nat} {st st' : ScanState}
  {fs : List (BlockHeader × Bytes)}

/-- The size of a frame has 32 bits. -/
theorem FrameAt.frameSize {b : BlockHeader} {x : Bytes} (hf : FrameAt env m h limit st b x) :
    (128 + b.storedSize).toNat = 128 + b.storedSize.toNat ∧
      128 + b.storedSize.toNat ≤ b.frameSpan.toNat := by
  have hle := hf.bounds.2
  have hlt := b.frameSpan.toNat_lt
  simp only [blockHeaderEncodedSize] at hle
  refine ⟨?_, hle⟩
  rw [UInt32.toNat_add]
  show (128 + b.storedSize.toNat) % 2 ^ 32 = _
  omega

theorem Chain.entries_inBounds (hc : Chain env m h limit st fs st') :
    ∀ e ∈ chainEntries st.cursor fs, e.inBounds = true := by
  induction hc with
  | nil st => exact fun e he => by cases he
  | @cons st st' b x fs hf hc ih =>
    intro e he
    rcases List.mem_cons.mp he with rfl | he
    · obtain ⟨hsize, hspan⟩ := hf.frameSize
      have h1 : ¬ (128 + b.storedSize < 128) := by
        rw [UInt32.lt_iff_toNat_lt, hsize]
        show ¬ (128 + b.storedSize.toNat < 128)
        omega
      have h2 : ¬ (128 + b.storedSize > b.frameSpan) := by
        show ¬ (b.frameSpan < 128 + b.storedSize)
        rw [UInt32.lt_iff_toNat_lt, hsize]
        omega
      have h3 := hf.accepted.records
      have h4 : ¬ (b.minTimeNs > b.maxTimeNs) := Int64.not_lt.mpr hf.accepted.times
      simp [IndexEntry.inBounds, blockEntry, h1, h2, h3, h4]
    · exact ih e he

/-- The checks on a loaded index pass for the entries of a chain. -/
theorem Chain.checkEntries (g : Geometry env) (hfits : 128 + env.maxBlockPayload < 2 ^ 32) {i : Nat}
    (hc : Chain env m h env.indexBegin st fs st') (hi : i + fs.length < 2 ^ 32)
    (hseq : st.expectedSequence = UInt32.ofNat i) :
    checkEntries env i st.cursor ((chainEntries st.cursor fs).map IndexEntry.stored) =
      .ok st'.cursor := by
  induction fs generalizing st i with
  | nil =>
    cases hc
    rfl
  | cons f fs ih =>
    cases hc with
    | @cons _ _ b x _ hf hc =>
      have hsize := Geometry.partitionSize_lt env
      have hindex := g.indexBegin_add
      have hin := hf.inside
      have ha := hf.accepted
      obtain ⟨hframe, hspan⟩ := hf.frameSize
      simp only [List.length_cons] at hi
      have hoff : (blockEntry st.cursor b).stored.offset.toNat = st.cursor :=
        UInt64.toNat_ofNat_of_lt' (show st.cursor < 2 ^ 64 by omega)
      have hnum : b.sequence.toNat = i := by
        rw [ha.sequence, hseq]
        exact toNat_ofNat32 (by omega)
      have hmax : (128 + env.volume.maxBlockPayload).toNat = 128 + env.volume.maxBlockPayload.toNat := by
        rw [UInt32.toNat_add]
        show (128 + env.volume.maxBlockPayload.toNat) % 2 ^ 32 = _
        simp only [Env.maxBlockPayload] at hfits
        omega
      have h1 : ¬ (128 + b.storedSize < 128) := by
        rw [UInt32.lt_iff_toNat_lt, hframe]
        show ¬ (128 + b.storedSize.toNat < 128)
        omega
      have h2 : ¬ (128 + b.storedSize > 128 + env.volume.maxBlockPayload) := by
        have hst := UInt32.le_iff_toNat_le.mp ha.stored_le
        show ¬ (128 + env.volume.maxBlockPayload < 128 + b.storedSize)
        rw [UInt32.lt_iff_toNat_lt, hframe, hmax]
        omega
      have h3 : ¬ (b.rawSize > env.volume.maxBlockPayload) := UInt32.not_lt.mpr ha.raw_le
      have h4 : ¬ (b.minTimeNs > b.maxTimeNs) := Int64.not_lt.mpr ha.times
      have h5 := ha.span_le
      rw [chainEntries, List.map_cons, TFDB.checkEntries, if_neg, if_neg]
      · have hnext : (st.next b).expectedSequence = UInt32.ofNat (i + 1) := by
          show st.expectedSequence + 1 = _
          rw [hseq, UInt32.ofNat_add]
          rfl
        exact ih hc (by omega) hnext
      · rw [not_not]
        show alignUp (128 + b.storedSize).toNat env.quantum = some b.frameSpan.toNat
        rw [hframe]
        exact ha.span
      · rintro (hx | hx | hx | hx | hx | hx | hx | hx | hx)
        · exact hx hnum
        · exact hx hoff
        · exact ha.records hx
        · exact h4 hx
        · exact h1 hx
        · exact h2 hx
        · exact h3 hx
        · exact hx ha.span_aligned
        · rw [hoff] at hx
          have hx : b.frameSpan.toNat > env.indexBegin - st.cursor := hx
          omega

end

section
variable {env : Env} {m : Image} (g : Geometry env) (hm : env.volume.volumeSize.toNat ≤ m.size)
  {q : RingPartition} {p : PartitionState}
include g hm

/-- The index of a sealed partition loads. -/
theorem OnMedia.loadIndex (hfits : 128 + env.maxBlockPayload < 2 ^ 32) (h : OnMedia env m q)
    (hsound : q.Sound env) (hp : StateOf env q p) (hs : q.isSealed = true) :
    Rd.run (imageSource m) (loadIndex env p) = .ok (q.entries.map IndexEntry.stored) := by
  obtain ⟨st, hc⟩ := h.chain
  have hseal := h.sealedBy hsound
  have hlt := hsound.made.slotOf.lt g
  have hsize := hseal.indexSize
  obtain ⟨hde, -⟩ := hseal.dataEnd g
  have hcount := hseal.blockCount
  have hfoot := hp.closed hs
  have hn := hseal.length_lt
  have hir : env.indexRegionSize < 2 ^ 32 := env.volume.indexRegionSize.toNat_lt
  have hoff : (q.footer env).indexOffset.toNat = env.indexBegin := by
    have hsum := g.indexBegin_add
    have hsz := Geometry.partitionSize_lt env
    exact UInt64.toNat_ofNat_of_lt' (show env.indexBegin < 2 ^ 64 by omega)
  have hsealed : ¬ ¬ p.isSealed = true := by
    rw [hp.isSealed, hs]
    exact fun h => h rfl
  rw [TFDB.loadIndex, if_neg hsealed, hfoot]
  split
  · -- an empty index is not stored
    rename_i h0
    rw [h0] at hsize
    have hnil : q.frames = [] := by
      have : q.frames.length * indexEntryEncodedSize = 0 := hsize.symm
      simp only [indexEntryEncodedSize] at this
      exact List.length_eq_zero_iff.mp (by omega)
    rw [RingPartition.entries, hnil]
    rfl
  · have hlen : (q.footer env).indexSize.toNat = (encodeIndex q.entries).length := by
      rw [hsize, encodeIndex_length, RingPartition.entries, chainEntries_length]
      rfl
    have hread : imageSource m (env.partitionBase p.header.slot + (q.footer env).indexOffset.toNat)
        (q.footer env).indexSize.toNat = .ok (encodeIndex q.entries) := by
      rw [hoff, hp.slot, slot_read g hm hlt, hlen, h.index hs]
      have hsum := g.indexBegin_add
      simp only [indexEntryEncodedSize] at hsize
      omega
    rw [Rd.run_bind, Rd.run_readExact, hread, Rd.bind_ok, Rd.run_lift]
    have hcheck : checkEntries env 0 partitionHeaderRegionSize (q.entries.map IndexEntry.stored) =
        .ok st.cursor := hc.checkEntries g hfits (by omega) rfl
    have hcur : st.cursor = (q.footer env).dataEnd.toNat := by
      rw [hde]
      exact hc.cursor_eq
    have hdecode : decodeIndex (encodeIndex q.entries) = .ok (q.entries.map IndexEntry.stored) :=
      decodeIndex_encode hc.entries_inBounds
    have hcrc : crc32c (encodeIndex q.entries) = (q.footer env).indexCrc := by
      rw [RingPartition.footer, sealFooter, openState_activeIndex]
      rfl
    unfold acceptIndex
    rw [if_neg (not_not.mpr hcrc), hdecode]
    show (if (q.entries.map IndexEntry.stored).length ≠ (q.footer env).blockCount.toNat then _
      else _) = _
    rw [if_neg, hcheck]
    · exact if_neg (not_not.mpr hcur)
    · rw [not_not, List.length_map, hcount, RingPartition.entries, chainEntries_length]

end

/-! ## One partition -/

theorem blockEvents_congr (env : Env) {h h' : PartitionHeader} (h1 : h'.slot = h.slot)
    (h2 : h'.generation = h.generation) (h3 : h'.options = h.options) (off : Nat)
    (ks : List RingBlock) : blockEvents env h' off ks = blockEvents env h off ks := by
  induction ks generalizing off with
  | nil => rfl
  | cons k ks ih =>
    rw [blockEvents, blockEvents, ih]
    simp only [blockEvent, h1, h2, h3]

/-- A block that can be read through its entry can be read through the stored entry. -/
theorem blockOutcome_stored {env : Env} {m : Image} {p : PartitionState} {e : IndexEntry}
    {metadata : BlockMetadata} {decoded : Bytes}
    (h : blockOutcome env m p e = .ok (metadata, decoded)) :
    blockOutcome env m p e.stored = .ok (metadata, decoded) := by
  obtain ⟨b, hb, hdec, rfl⟩ := blockOutcome_ok h
  have hdec' : decodePayload env b (payloadAt env m p e.stored b) = .ok decoded := hdec
  rw [blockOutcome_blockAt hb.stored, hdec']
  rfl

/-- The entries a query goes through. -/
def RingPartition.listed (q : RingPartition) : List IndexEntry :=
  if q.isSealed then q.entries.map IndexEntry.stored else q.entries

section
variable {env : Env} {m : Image} (g : Geometry env) (hm : env.volume.volumeSize.toNat ≤ m.size)
  {q : RingPartition} {p : PartitionState} (h : OnMedia env m q) (hsound : q.Sound env)
  (hp : StateOf env q p)
include g hm h hsound hp

theorem OnMedia.acquire (hfits : 128 + env.maxBlockPayload < 2 ^ 32) :
    ∃ a, Rd.run (imageSource m) (acquireIndex env p) = .ok a ∧ a.entries = q.listed ∧
      a.invalidPrefix p = false := by
  cases hs : q.isSealed with
  | true =>
    have hp1 : p.isSealed = true := by rw [hp.isSealed, hs]
    refine ⟨{ entries := q.entries.map IndexEntry.stored }, ?_, ?_, ?_⟩
    · rw [acquireIndex, if_pos hp1, Rd.run_bind, Rd.run_attempt,
        h.loadIndex g hm hfits hsound hp hs]
      rfl
    · rw [RingPartition.listed, if_pos hs]
    · have hcount := (h.sealedBy hsound).blockCount
      have hlen : (q.entries.map IndexEntry.stored).length = p.footer.blockCount.toNat := by
        rw [hp.closed hs, hcount, List.length_map, RingPartition.entries, chainEntries_length]
      unfold Acquired.invalidPrefix
      rw [hp1, hlen]
      simp
  | false =>
    have hp1 : ¬ p.isSealed = true := by
      rw [hp.isSealed, hs]
      exact Bool.false_ne_true
    refine ⟨{ entries := p.activeIndex }, ?_, ?_, ?_⟩
    · have hidx : p.activeIndex ≠ [] ∨ p.dataEnd = partitionHeaderRegionSize := by
        rw [hp.activeIndex hs, hp.dataEnd hs, RingPartition.entries, RingPartition.dataEnd]
        cases q.frames with
        | nil => exact Or.inr rfl
        | cons f fs => exact Or.inl (List.cons_ne_nil _ _)
      rw [acquireIndex, if_neg hp1, if_pos hidx]
      rfl
    · rw [RingPartition.listed, hs, if_neg Bool.false_ne_true]
      exact hp.activeIndex hs
    · unfold Acquired.invalidPrefix
      rw [Bool.not_eq_true _ |>.mp hp1]
      rfl

omit hm in
/-- Every block of a partition can be read. -/
theorem OnMedia.listed_reads (hl : env.Lawful) :
    (∀ e ∈ q.listed, EntryIn env e) ∧ AllRead env m p q.listed := by
  obtain ⟨st, hc⟩ := h.chain
  have hc := hc.header_congr hp.slot hp.generation hp.options
  have hin := hc.entriesIn g (Nat.le_refl _) (Nat.le_refl _)
  have hread := hc.reads g (Nat.le_refl _) (by
    intro f hf
    obtain ⟨k, hk, rfl⟩ := List.mem_map.mp hf
    exact ⟨k.raw, hsound.decodes hl k hk⟩)
  unfold RingPartition.listed
  split
  · constructor
    · intro e he
      obtain ⟨e', he', rfl⟩ := List.mem_map.mp he
      obtain ⟨i1, i2, i3, i4⟩ := hin e' he'
      exact ⟨i1, i2, i3, i4⟩
    · intro e he
      obtain ⟨e', he', rfl⟩ := List.mem_map.mp he
      obtain ⟨metadata, decoded, ho⟩ := hread e' he'
      exact ⟨metadata, decoded, blockOutcome_stored ho⟩
  · exact ⟨hin, hread⟩

/-- A query delivers the blocks of the partition it asks for. -/
theorem OnMedia.partitionEvents (hfits : 128 + env.maxBlockPayload < 2 ^ 32) (hl : env.Lawful)
    (qy : Query) :
    TFDB.partitionEvents env m qy p = (q.events env).filter qy.selectsEvent := by
  obtain ⟨a, hrun, hent, hinv⟩ := h.acquire g hm hsound hp hfits
  obtain ⟨st, hc⟩ := h.chain
  have hc := hc.header_congr hp.slot hp.generation hp.options
  have hev : q.events env = blockEvents env p.header partitionHeaderRegionSize q.blocks :=
    (blockEvents_congr env hp.slot hp.generation hp.options _ _).symm
  unfold TFDB.partitionEvents
  rw [acquired_of_run hrun, hinv, hev]
  split
  · rename_i hsel
    obtain ⟨e1, e2⟩ := hc.entryEvents g (Nat.le_refl _) (hsound.decodes hl) qy hsel
    rw [if_neg Bool.false_ne_true, List.nil_append, hent, RingPartition.listed]
    split
    · exact e2
    · exact e1
  · rename_i hsel
    symm
    refine List.filter_eq_nil_iff.mpr fun ev hev hpick => hsel ?_
    obtain ⟨off, k, -, rfl⟩ := mem_blockEvents hev
    unfold Query.selectsEvent at hpick
    unfold Query.selectsPartition
    cases hq : qy.range with
    | none => rfl
    | some r =>
      rw [hq] at hpick
      exact (Bool.and_eq_true _ _ |>.mp hpick).1

/-- A partition of the ring can be read. -/
theorem OnMedia.readable (hfits : 128 + env.maxBlockPayload < 2 ^ 32) (hl : env.Lawful)
    (hv : q.header.options.compressionVersion ≠ 0) : Readable env m p := by
  obtain ⟨a, hrun, hent, -⟩ := h.acquire g hm hsound hp hfits
  obtain ⟨hin, hread⟩ := h.listed_reads g hsound hp hl
  refine ⟨?_, ⟨q.header.written env, ?_, hp.generation.symm⟩, ⟨a, hrun⟩, ?_⟩
  · rw [hp.slot]
    exact hsound.made.slotOf.lt g
  · rw [hp.slot]
    exact hsound.made.slotHeader g hv h.window
  · rw [acquired_of_run hrun, hent]
    intro e he
    obtain ⟨metadata, decoded, ho⟩ := hread e he
    refine ⟨hin e he, fun st hst => ?_⟩
    rw [ho] at hst
    cases hst

end

/-! ## The ring -/

section
variable {env : Env} {m : Image} (g : Geometry env) (hm : env.volume.volumeSize.toNat ≤ m.size)
  {qs : List RingPartition} (hmedia : ∀ q ∈ qs, OnMedia env m q) (hsound : ∀ q ∈ qs, q.Sound env)
  (hfits : env.SpanFits) (hl : env.Lawful) {ps : List PartitionState}
  (hps : List.Forall₂ (StateOf env) qs ps)
include g hm hmedia hsound hfits hl hps

/-- The partitions of a ring can be read. -/
theorem ring_readable (hv : ∀ q ∈ qs, q.header.options.compressionVersion ≠ 0) :
    ∀ p ∈ ps, Readable env m p := by
  intro p hp
  obtain ⟨q, hq, hqp⟩ := forall₂_mem_right hps hp
  exact (hmedia q hq).readable g hm (hsound q hq) hqp hfits.payload hl (hv q hq)

/-- The events of their blocks. -/
theorem ring_events (qy : Query) : ps.flatMap (partitionEvents env m qy) = ringEvents env qy qs := by
  rw [ringEvents, List.filter_flatMap]
  induction hps with
  | nil => rfl
  | @cons q p qs ps hqp hps ih =>
    rw [List.flatMap_cons, List.flatMap_cons]
    congr 1
    · exact (hmedia q (List.mem_cons_self ..)).partitionEvents g hm (hsound q (List.mem_cons_self ..))
        hqp hfits.payload hl qy
    · exact ih (fun r hr => hmedia r (List.mem_cons_of_mem _ hr))
        (fun r hr => hsound r (List.mem_cons_of_mem _ hr))

/-- A query on a volume that holds a ring delivers the blocks of the ring, and nothing else. -/
theorem ring_query (horder : Ordered qs) (hv : ∀ q ∈ qs, q.header.options.compressionVersion ≠ 0)
    {qy : Query} (hq : qy.Total) (hvalid : qy.Valid) :
    ReadProg.run (imageSource m) (query env qy ps []) =
      (({} : QueryState).deliverAll (ringEvents env qy qs), {}) := by
  rw [run_query g hm hq hvalid [] (ring_readable g hm hmedia hsound hfits hl hps hv), queryEvents,
    sortPartitions_states hps horder, List.map_nil, List.nil_append,
    ring_events g hm hmedia hsound hfits hl hps]

end

end TFDB
