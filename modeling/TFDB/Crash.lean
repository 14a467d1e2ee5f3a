import TFDB.Discipline
import TFDB.Isolation

/-!
# What a power cut leaves to a reader

An image in which every structure that passes its checksum was written is read without an error,
whatever else it holds.

* `Genuine` — such an image of a volume; every cut of a run is one, if it is free of collisions;
* `Genuine.readable` — every partition of its catalog can be read;
* `crash_integrity` — every data event of every query is a block that was written;
* `crash_durability` — every flushed block of a current generation is delivered.
-/

set_option autoImplicit false

namespace TFDB

open ByteLib Writer

/-! ## Images with genuine structures -/

/-- Every structure of the image that passes its checksum was written by the code. -/
structure Genuine (env : Env) (issued : List (Nat × Item)) (writers : List (UInt64 × UInt64))
    (m : Image) : Prop where
  size : env.volume.volumeSize.toNat ≤ m.size
  items : ∀ w ∈ issued, ItemOk env issued writers w.1 w.2
  free : CollisionFree env issued m

/-- The event of a block that was written, behind a header that was written for its partition. -/
def Emitted (env : Env) (issued : List (Nat × Item)) (ev : BlockEvent) : Prop :=
  ∃ h o k, (env.partitionBase h.slot, Item.header h) ∈ issued ∧
    (env.partitionBase h.slot + o, Item.frame k.header k.payload k.raw) ∈ issued ∧
    k.header.slot = h.slot ∧ k.header.generation = h.generation ∧ ev = blockEvent env h o k

theorem codes_checkEntries {env : Env} (es : List IndexEntry) (i off : Nat) :
    Codes (· = .corrupt) (checkEntries env i off es) := by
  induction es generalizing i off with
  | nil => exact Codes.ok _
  | cons e es ih => exact Codes.ite (Codes.failWith rfl) (Codes.ite (Codes.failWith rfl) (ih _ _))

theorem codes_decodeEntries (n : Nat) (bytes : Bytes) :
    Codes (· = .corrupt) (decodeEntries n bytes) := by
  induction n generalizing bytes with
  | zero => exact Codes.ok _
  | succ n ih =>
    refine Codes.bind ?_ fun e => Codes.bind (ih _) fun es => Codes.ok _
    exact Codes.ite (Codes.failWith rfl) (Codes.ite (Codes.failWith rfl) (Codes.ok _))

/-- An index that is refused is corrupt. -/
theorem codes_acceptIndex {env : Env} (f : PartitionFooter) (bytes : Bytes) :
    Codes (· = .corrupt) (acceptIndex env f bytes) := by
  refine Codes.ite (Codes.failWith rfl) (Codes.bind ?_ fun es => ?_)
  · exact Codes.ite (Codes.failWith rfl) (codes_decodeEntries _ _)
  · refine Codes.ite (Codes.failWith rfl) (Codes.bind (codes_checkEntries _ _ _) fun stop => ?_)
    exact Codes.ite (Codes.failWith rfl) (Codes.ok _)

theorem acceptFooter_regions {env : Env} {h : PartitionHeader} {bs : Bytes} {f : PartitionFooter}
    (hf : acceptFooter env h bs = .ok f) :
    f.indexOffset.toNat = env.indexBegin ∧ f.indexSize.toNat ≤ env.indexRegionSize ∧
      partitionHeaderRegionSize ≤ f.dataEnd.toNat ∧ f.dataEnd.toNat ≤ env.indexBegin := by
  unfold acceptFooter at hf
  obtain ⟨f', -, hf⟩ := bind_ok_inv hf
  split at hf
  · cases hf
  · rename_i hc
    cases hf
    push Not at hc
    exact ⟨hc.2.2.2.2.1, hc.2.2.2.2.2.1, hc.2.2.2.2.2.2.1, hc.2.2.2.2.2.2.2.1⟩

/-! ## The index of a sealed partition -/

section
variable {env : Env} {m : Image} (g : Geometry env)
include g

/-- An index inside its region that is refused is corrupt. -/
theorem loadIndex_corrupt (hm : env.volume.volumeSize.toNat ≤ m.size) {p : PartitionState}
    (hs : p.header.slot < env.volume.partitionCount) (hc : p.isSealed = true)
    (hoff : p.footer.indexOffset.toNat = env.indexBegin)
    (hsize : p.footer.indexSize.toNat ≤ env.indexRegionSize) {st : Status}
    (hload : Rd.run (imageSource m) (loadIndex env p) = .error st) : st.code = .corrupt := by
  have hread : imageSource m (env.partitionBase p.header.slot + p.footer.indexOffset.toNat)
      p.footer.indexSize.toNat = .ok (m.window
        (env.partitionBase p.header.slot + p.footer.indexOffset.toNat) p.footer.indexSize.toNat) := by
    have hsum := g.footerOffset_eq
    have hsum' := g.indexBegin_add
    exact slot_read g hm hs (by omega)
  unfold loadIndex at hload
  rw [if_neg (by simp [hc])] at hload
  split at hload
  · cases hload
  · simp only [Rd.run_bind, Rd.run_readExact, hread, Rd.bind_ok, Rd.run_lift] at hload
    exact codes_acceptIndex _ _ _ hload

/-- The index of a sealed partition is the one that was stored, or a scan up to the end that its
footer names. -/
theorem sealed_acquires (hm : env.volume.volumeSize.toNat ≤ m.size) {p : PartitionState}
    (hp : p ∈ slotStates env m) (hc : p.isSealed = true) :
    ∃ a, Rd.run (imageSource m) (acquireIndex env p) = .ok a ∧ (∀ e ∈ a.entries, EntryIn env e) ∧
      (Rd.run (imageSource m) (loadIndex env p) = .ok a.entries ∨
        ∃ fs st, Chain env m p.header p.footer.dataEnd.toNat {} fs st ∧
          Stuck env m p.header p.footer.dataEnd.toNat st ∧
          a.entries = chainEntries partitionHeaderRegionSize fs) := by
  obtain ⟨hs, hstate⟩ := mem_slotStates.mp hp
  obtain ⟨f, hf, hpf⟩ := slotState_sealed hstate hc
  unfold slotFooter at hf
  obtain ⟨hoff, hsize, hlow, hup⟩ := acceptFooter_regions hf
  have hcount := acceptFooter_indexSize hf
  subst hpf
  cases hload : Rd.run (imageSource m) (loadIndex env p) with
  | ok es =>
    refine ⟨{ entries := es }, ?_, (loadIndex_spec g hcount hload).1, Or.inl rfl⟩
    simp only [acquireIndex, hc, if_true, Rd.run_bind, Rd.run_attempt, hload, Rd.bind_ok]
    rfl
  | error st =>
    -- a refused index is corrupt, so the partition is scanned up to the end its footer names
    have hcode := loadIndex_corrupt g hm hs hc hoff hsize hload
    have h0 : p.footer.dataEnd.toNat ≠ 0 := by
      simp only [partitionHeaderRegionSize] at hlow
      omega
    obtain ⟨fs, su, corrupt, hrun, hch, hstuck⟩ := scanPartition_run g hm hs
      p.footer.dataEnd.toNat p.footer.dataEnd.toNat (if_neg h0) hlow hup
    have hent := hch.entries
    refine ⟨⟨su.entries, corrupt, true, false, su.cursor⟩, ?_, ?_, Or.inr ⟨fs, su, hch, hstuck, hent⟩⟩
    · simp only [acquireIndex, hc, if_true, Rd.run_bind, Rd.run_attempt, hload, Rd.bind_ok,
        rescanAfter, hcode, ne_eq, not_true_eq_false, if_false, hrun, ScanState.stop]
      rfl
    · rw [hent]
      exact hch.entriesIn g hup (Nat.le_refl _)

end

namespace Genuine

section
variable {env : Env} {issued : List (Nat × Item)} {writers : List (UInt64 × UInt64)} {m : Image}
  (hg : Genuine env issued writers m) {p : PartitionState} {e : IndexEntry}
include hg

/-! ## One block -/

/-- A block a reader accepts was written. -/
theorem block (hs : p.header.slot < env.volume.partitionCount) (hin : EntryIn env e) {b : BlockHeader}
    (hb : BlockAt env m p e b) :
    ∃ raw, (env.partitionBase p.header.slot + e.offset.toNat,
        Item.frame b (payloadAt env m p e b) raw) ∈ issued ∧
      (env.Lawful → decodePayload env b (payloadAt env m p e b) = .ok raw) := by
  have hid := hb.identity
  simp only [identityAgrees, Bool.and_eq_true, beq_iff_eq] at hid
  have hheader := hb.header
  unfold blockHeaderAt at hheader
  have hsp := hin.span
  have hup := hin.upper
  obtain ⟨raw, hraw⟩ := hg.free.frame p.header.slot hs e.offset.toNat hin.lower (by omega) hin.aligned b
    hheader hid.1.2 hid.1.1.2 hb.crc
  obtain ⟨c, q, hq, -⟩ : ∃ c q, FrameOk env c q b (payloadAt env m p e b) raw ∧ _ :=
    FrameMade.made (hg.items _ hraw)
  exact ⟨raw, hraw, hq.decodes⟩

/-- The event of an entry is that of a written block, or a gap. -/
theorem entry (hl : env.Lawful) (hs : p.header.slot < env.volume.partitionCount)
    (hin : EntryIn env e) {h : PartitionHeader}
    (hh : (env.partitionBase h.slot, Item.header h) ∈ issued) (hp : p.header = h.written env) :
    NotOverwritten env m p e ∧ ((entryEvent env m p e).kind = .corruptGap ∨
      Emitted env issued (entryEvent env m p e)) := by
  have hdecode {b : BlockHeader} (hb : BlockAt env m p e b) : ∃ raw,
      (env.partitionBase p.header.slot + e.offset.toNat,
        Item.frame b (payloadAt env m p e b) raw) ∈ issued ∧
      decodePayload env b (payloadAt env m p e b) = .ok raw := by
    obtain ⟨raw, hraw, hdec⟩ := hg.block hs hin hb
    exact ⟨raw, hraw, hdec hl⟩
  constructor
  · intro st hst
    rcases blockOutcome_error hst with hcode | ⟨b, hb, hdec⟩
    · exact hcode.2.2
    · obtain ⟨raw, -, hraw⟩ := hdecode hb
      rw [hraw] at hdec
      cases hdec
  · cases ho : blockOutcome env m p e with
    | error st =>
      left
      rw [entryEvent, ho]
      rfl
    | ok r =>
      right
      obtain ⟨metadata, decoded⟩ := r
      obtain ⟨b, hb, hdec, rfl⟩ := blockOutcome_ok ho
      obtain ⟨raw, hraw, hdec'⟩ := hdecode hb
      obtain rfl : decoded = raw := Except.ok.inj (hdec.symm.trans hdec')
      have hid := hb.identity
      simp only [identityAgrees, Bool.and_eq_true, beq_iff_eq] at hid
      rw [hp] at hraw hid
      refine ⟨h, e.offset.toNat, ⟨b, payloadAt env m p e b, decoded⟩, hh, hraw, hid.1.1.1.1.2,
        hid.1.1.1.1.1, ?_⟩
      rw [entryEvent, ho]
      unfold blockMetadata
      rw [hp]
      rfl

end

/-! ## The catalog -/

section
variable {env : Env} (g : Geometry env) {issued : List (Nat × Item)}
  {writers : List (UInt64 × UInt64)} {m : Image} (hg : Genuine env issued writers m)
include g hg

/-- A partition without a footer is its longest chain, and its blocks can be read. -/
theorem footerless (hl : env.Lawful) {p : PartitionState} (hp : p ∈ slotStates env m)
    (ho : p.isSealed = false) : ∃ fs st, p = openState p.header fs ∧
      Chain env m p.header env.indexBegin {} fs st ∧ Stuck env m p.header env.indexBegin st ∧
      VerifiedIndex env m p (chainEntries partitionHeaderRegionSize fs) := by
  obtain ⟨hs, hstate⟩ := mem_slotStates.mp hp
  obtain ⟨fs, st, hopen, hch, hstuck⟩ := slotState_open g hg.size hs hstate ho
  have hin := hch.entriesIn g (Nat.le_refl _) (Nat.le_refl _)
  have hissued := hch.frames_issued hg.free hs (Nat.le_refl _) (Nat.le_refl _)
  refine ⟨fs, st, hopen, hch, hstuck, hin, hch.reads g (Nat.le_refl _) fun f hf => ?_, ?_,
    fun h => (by rw [ho] at h; cases h), fun _ => ⟨fs, st, hopen, rfl, hch⟩⟩
  · obtain ⟨off, raw, -, hmade⟩ := FramesIssued.made hg.items hissued hf
    obtain ⟨c, q, hq, -⟩ := hmade.made
    exact ⟨raw, hq.decodes hl⟩
  · have hseq := hch.sequences (n := 0) rfl
    simp only [Nat.zero_add] at hseq
    rw [hseq, chainEntries_length]

/-- The index of every partition of the catalog is acquired. -/
theorem acquires (hl : env.Lawful) {p : PartitionState} (hp : p ∈ catalogOf env m) :
    ∃ a, Rd.run (imageSource m) (acquireIndex env p) = .ok a ∧ ∀ e ∈ a.entries, EntryIn env e := by
  obtain ⟨q, hq, hpq⟩ := catalogOf_mem hp
  cases ho : q.isSealed with
  | false =>
    obtain ⟨fs, st, -, hch, -, hver⟩ := hg.footerless g hl hq ho
    obtain ⟨a, ha, hent, -⟩ := hver.acquired g hg.size (mem_slotStates.mp hq).1 hpq
    refine ⟨a, ha, ?_⟩
    rw [hent]
    exact hver.entries
  | true =>
    obtain ⟨a, ha, hin, -⟩ := sealed_acquires g hg.size hq ho
    refine ⟨a, ?_, hin⟩
    rcases hpq with rfl | rfl
    · exact ha
    · rw [PartitionState.cleared, if_pos ho]
      exact ha

/-- **Every partition of the catalog can be read.** -/
theorem readable (hl : env.Lawful) {p : PartitionState} (hp : p ∈ catalogOf env m) :
    Readable env m p ∧ ∀ e ∈ (acquired env m p).entries,
      (entryEvent env m p e).kind = .corruptGap ∨ Emitted env issued (entryEvent env m p e) := by
  obtain ⟨q, hq, hpq⟩ := catalogOf_mem hp
  obtain ⟨hs, hstate⟩ := mem_slotStates.mp hq
  have hhead : p.header = q.header := by
    rcases hpq with rfl | rfl
    · rfl
    · simp
  obtain ⟨h, hmade, hslot, hissued, heq, -, -⟩ := slotHeader_issued g hg.items hg.free hs
    (slotState_header hstate)
  have hs' : p.header.slot < env.volume.partitionCount := hhead ▸ hs
  obtain ⟨a, ha, hin⟩ := hg.acquires g hl hp
  have hent (e : IndexEntry) (he : e ∈ a.entries) := hg.entry hl hs' (hin e he) (hslot ▸ hissued)
    (hhead.trans heq)
  rw [acquired_of_run ha]
  refine ⟨⟨hs', ⟨q.header, ?_, by rw [hhead]⟩, ⟨a, ha⟩, ?_⟩, fun e he => (hent e he).2⟩
  · rw [hhead]
    exact slotState_header hstate
  · rw [acquired_of_run ha]
    exact fun e he => ⟨hin e he, (hent e he).1⟩

/-- The events of a partition are its written blocks, and gaps. -/
theorem partition (hl : env.Lawful) {p : PartitionState} (hp : p ∈ catalogOf env m) (q : Query) :
    ∀ ev ∈ partitionEvents env m q p, ev.kind = .corruptGap ∨ Emitted env issued ev := by
  intro ev hev
  unfold partitionEvents at hev
  split at hev
  · rcases List.mem_append.mp hev with hev | hev
    · split at hev
      · rw [List.mem_singleton.mp hev]
        exact Or.inl rfl
      · cases hev
    · obtain ⟨e, he, rfl⟩ := List.mem_map.mp hev
      exact (hg.readable g hl hp).2 e (List.mem_filter.mp he).1
  · cases hev

/-- What a query on the catalog of such an image answers. -/
theorem answers (hl : env.Lawful) {q : Query} (hv : q.Valid) (o : OpenOptions) (id : UInt64 × UInt64) :
    ReadProg.run (imageSource m) ((openedStore env m o id).query q) =
      q.answer (queryEvents env m q (catalogOf env m)
        ((slotList env).filter (slotDamaged env m))) :=
  run_query_answer g hg.size hv _ fun _ hp => (hg.readable g hl hp).1

/-- Its events are written blocks, and gaps. -/
theorem events (hl : env.Lawful) (q : Query) : ∀ ev ∈ queryEvents env m q (catalogOf env m)
    ((slotList env).filter (slotDamaged env m)), ev.kind = .corruptGap ∨ Emitted env issued ev := by
  intro ev hev
  rcases List.mem_append.mp hev with hev | hev
  · obtain ⟨slot, -, rfl⟩ := List.mem_map.mp hev
    exact Or.inl rfl
  · obtain ⟨p, hp, hev⟩ := List.mem_flatMap.mp hev
    exact hg.partition g hl (mem_sortPartitions.mp hp) q ev hev

end

end Genuine

/-! ## Blocks that are found -/

/-- The index of the partition names the block, and the block can be read. -/
def Retrieves (env : Env) (m : Image) (p : PartitionState) (h : PartitionHeader) (o : Nat)
    (k : RingBlock) : Prop :=
  ∃ e ∈ (acquired env m p).entries, entryEvent env m p e = blockEvent env h o k ∧
    e.minTimeNs = k.header.minTimeNs ∧ e.maxTimeNs = k.header.maxTimeNs

/-- The entries of a chain that goes on behind a block list the block. -/
theorem mem_chainEntries_front {fs rest : List (BlockHeader × Bytes)} {b : BlockHeader} {x : Bytes} :
    blockEntry (chainEnd partitionHeaderRegionSize fs) b ∈
      chainEntries partitionHeaderRegionSize (fs ++ [(b, x)] ++ rest) := by
  rw [List.append_assoc, chainEntries_append]
  exact List.mem_append_right _ (List.mem_cons_self ..)

section
variable {env : Env} (g : Geometry env) {issued : List (Nat × Item)}
  {writers : List (UInt64 × UInt64)} {m : Image} (hg : Genuine env issued writers m)
include g

/-- The entry of the last frame of a chain has the event of its block. -/
theorem Chain.lastEvent {p : PartitionState} {h : PartitionHeader} (hp : p.header = h.written env)
    {fs : List (BlockHeader × Bytes)} {b : BlockHeader} {payload raw : Bytes} {st : ScanState}
    (hch : Chain env m h env.indexBegin {} (fs ++ [(b, payload)]) st)
    (hraw : decodePayload env b payload = .ok raw) {e : IndexEntry}
    (he : e = blockEntry (chainEnd partitionHeaderRegionSize fs) b ∨
      e = (blockEntry (chainEnd partitionHeaderRegionSize fs) b).stored) :
    entryEvent env m p e =
      blockEvent env h (chainEnd partitionHeaderRegionSize fs) ⟨b, payload, raw⟩ := by
  obtain ⟨sm, hfront, hlast⟩ := hch.split
  have hcur : sm.cursor = chainEnd partitionHeaderRegionSize fs := hfront.cursor_eq
  cases hlast with
  | cons hf _ =>
    have hf' : FrameAt env m p.header env.indexBegin sm b payload := by
      rw [hp]
      exact hf.header_congr rfl rfl rfl
    have hin := hf.inside
    have hsum := g.indexBegin_add
    have hsize := Geometry.partitionSize_lt env
    obtain ⟨h1, h2⟩ := hf'.entryEvent (by omega) hraw
    rw [hcur] at h1 h2
    have hev : blockEvent env p.header (chainEnd partitionHeaderRegionSize fs) ⟨b, payload, raw⟩ =
        blockEvent env h (chainEnd partitionHeaderRegionSize fs) ⟨b, payload, raw⟩ := by
      rw [hp]
      rfl
    rw [← hev]
    rcases he with rfl | rfl
    · exact h1
    · exact h2

include hg

/-- What a sealed index loads as. -/
theorem Genuine.loadIndex {p : PartitionState} {es entries : List IndexEntry} {h : PartitionHeader}
    {fs : List (BlockHeader × Bytes)} (hs : p.header.slot < env.volume.partitionCount)
    (hseal : SealedBy env p.footer es h fs)
    (hmem : (env.partitionBase p.header.slot + env.footerOffset, Item.footer p.footer es) ∈ issued)
    (hload : Rd.run (imageSource m) (loadIndex env p) = .ok entries) :
    entries = (chainEntries partitionHeaderRegionSize fs).map IndexEntry.stored := by
  have hsize := hseal.indexSize
  have hoff : p.footer.indexOffset.toNat = env.indexBegin := by
    have hsum := g.indexBegin_add
    have hsz := Geometry.partitionSize_lt env
    rw [hseal.footer]
    exact UInt64.toNat_ofNat_of_lt' (by show _ < 2 ^ 64; omega)
  unfold TFDB.loadIndex at hload
  split at hload
  · cases hload
  split at hload
  · rename_i h0
    cases hload
    rw [h0] at hsize
    have hnil : fs = [] := by
      rw [← List.length_eq_zero_iff]
      simp only [indexEntryEncodedSize] at hsize
      have : (0 : UInt32).toNat = 0 := rfl
      omega
    rw [hnil]
    rfl
  · simp only [Rd.run_bind, Rd.run_readExact, Rd.run_lift, hoff] at hload
    obtain ⟨bytes, hread, hload⟩ := bind_ok_inv hload
    obtain rfl := imageSource_inv hread
    unfold acceptIndex at hload
    split at hload
    · cases hload
    rename_i hcrc
    have hbytes := hg.free.index p.header.slot hs p.footer es hmem (not_not.mp hcrc)
    obtain ⟨m', st, hch⟩ := hseal.chain
    rw [hbytes, hseal.entries, decodeIndex_encode hch.entries_inBounds] at hload
    obtain ⟨decoded, hdec, hload⟩ := bind_ok_inv hload
    cases hdec
    split at hload
    · cases hload
    obtain ⟨stop, -, hload⟩ := bind_ok_inv hload
    split at hload
    · cases hload
    · exact (Except.ok.inj hload).symm

/-- A chain that ends in a block is found through every index of its partition; a footer has to
cover the block. -/
theorem Genuine.retrieves (hl : env.Lawful) {p p' : PartitionState} (hp : p ∈ slotStates env m)
    (hpp : p' = p ∨ p' = p.cleared) {h : PartitionHeader} (hh : p.header = h.written env)
    {fs : List (BlockHeader × Bytes)} {b : BlockHeader} {payload raw : Bytes} {st : ScanState}
    (hch : Chain env m h env.indexBegin {} (fs ++ [(b, payload)]) st)
    (hraw : decodePayload env b payload = .ok raw)
    (hfoot : p.isSealed = true → ∃ es h' fs', SealedBy env p.footer es h' fs' ∧
      (env.partitionBase p.header.slot + env.footerOffset, Item.footer p.footer es) ∈ issued ∧
      h'.slot = h.slot ∧ (env.partitionBase h.slot + chainEnd partitionHeaderRegionSize fs, b, payload) ∈
        chainFrames (env.partitionBase h.slot) partitionHeaderRegionSize fs') :
    Retrieves env m p' h (chainEnd partitionHeaderRegionSize fs) ⟨b, payload, raw⟩ := by
  obtain ⟨hs, hstate⟩ := mem_slotStates.mp hp
  have hch' : Chain env m p.header env.indexBegin {} (fs ++ [(b, payload)]) st := by
    rw [hh]
    exact hch.header_congr rfl rfl rfl
  have hhead : p'.header = h.written env := by
    rcases hpp with rfl | rfl
    · exact hh
    · rw [PartitionState.cleared_header]
      exact hh
  have hevent {e : IndexEntry} (he : e = blockEntry (chainEnd partitionHeaderRegionSize fs) b ∨
      e = (blockEntry (chainEnd partitionHeaderRegionSize fs) b).stored) :
      entryEvent env m p' e =
        blockEvent env h (chainEnd partitionHeaderRegionSize fs) ⟨b, payload, raw⟩ ∧
      e.minTimeNs = b.minTimeNs ∧ e.maxTimeNs = b.maxTimeNs := by
    refine ⟨Chain.lastEvent g hhead hch hraw he, ?_⟩
    rcases he with rfl | rfl <;> exact ⟨rfl, rfl⟩
  cases ho : p.isSealed with
  | false =>
    obtain ⟨fs', st', -, hall, hstuck, hver⟩ := hg.footerless g hl hp ho
    obtain ⟨rest, hrest, -⟩ := hch'.prefix hall hstuck
    obtain ⟨a, ha, hent, -⟩ := hver.acquired g hg.size hs hpp
    refine ⟨_, ?_, hevent (Or.inl rfl)⟩
    rw [acquired_of_run ha, hent, hrest]
    exact mem_chainEntries_front
  | true =>
    have hpe : p' = p := by
      rcases hpp with rfl | rfl
      · rfl
      · rw [PartitionState.cleared, if_pos ho]
    subst hpe
    obtain ⟨es, h', fs', hseal, hmem, hslot, hframe⟩ := hfoot ho
    obtain ⟨a, ha, -, hload | ⟨fs'', su, hall, hstuck, hent⟩⟩ := sealed_acquires g hg.size hp ho
    · -- the stored index loads: it is that of the sealed chain
      have hentries := hg.loadIndex g hs hseal hmem hload
      obtain ⟨front, back, hfs, hoff⟩ := mem_chainFrames_split hframe
      have hfs : fs' = front ++ (b, payload) :: back := hfs
      have hoff : chainEnd partitionHeaderRegionSize front =
          chainEnd partitionHeaderRegionSize fs := (Nat.add_left_cancel hoff).symm
      refine ⟨_, ?_, hevent (Or.inr rfl)⟩
      rw [acquired_of_run ha, hentries, hfs, ← hoff, List.append_cons]
      exact List.mem_map_of_mem mem_chainEntries_front
    · -- the partition is scanned up to the end its footer names, which lies behind the block
      rw [← hslot] at hframe
      have hcover := (hseal.covers g hframe).2
      have hend := hch'.cursor_eq
      rw [chainEnd_append] at hend
      have hend : st.cursor = chainEnd partitionHeaderRegionSize fs + b.frameSpan.toNat := hend
      have hle : st.cursor ≤ p'.footer.dataEnd.toNat := by omega
      have hnarrow := hch'.narrow hle
      obtain ⟨rest, hrest, -⟩ := hnarrow.prefix hall hstuck
      refine ⟨_, ?_, hevent (Or.inl rfl)⟩
      rw [acquired_of_run ha, hent, hrest]
      exact mem_chainEntries_front

end

/-! ## Cuts of a run -/

/-- An image that a power cut may leave of a run, with nothing in it that passes a checksum by
accident.  What the machine sees is one, too. -/
structure Remains (env : Env) (x : Sys) (m : Image) : Prop where
  reach : Reach env (fun d m => d.MixCut (Item.bytes env) m) (CollisionFreeNow env) x
  cut : x.disk.MixCut (Item.bytes env) m
  free : CollisionFree env x.disk.issued m

/-- The events a query delivers are some of those it was to emit. -/
theorem Query.emitAll_subset (q : Query) (evs : List BlockEvent) (qs : QueryState) :
    ∀ ev ∈ (q.emitAll qs evs).1.events, ev ∈ qs.events ∨ ev ∈ evs := by
  induction evs generalizing qs with
  | nil => exact fun ev hev => Or.inl hev
  | cons e evs ih =>
    have hdeliver : (q.emit qs e).1.events = qs.events ++ [e] := by
      rw [Query.emit_eq]
      rfl
    have hfirst : ∀ ev ∈ (q.emit qs e).1.events, ev ∈ qs.events ∨ ev ∈ e :: evs := by
      intro ev hev
      rw [hdeliver] at hev
      rcases List.mem_append.mp hev with hev | hev
      · exact Or.inl hev
      · exact Or.inr (List.mem_singleton.mp hev ▸ List.mem_cons_self ..)
    intro ev hev
    unfold Query.emitAll at hev
    split at hev
    · rcases ih _ ev hev with hev | hev
      · exact hfirst ev hev
      · exact Or.inr (List.mem_cons_of_mem _ hev)
    · exact hfirst ev hev

section
variable {env : Env} {x : Sys} {m : Image}

theorem Remains.genuine (h : Remains env x m) :
    Geometry env ∧ Genuine env x.disk.issued x.writers m := by
  have hcut (d : Disk Item) (m : Image) (h : d.MixCut (Item.bytes env) m) :
      d.MixCut (Item.bytes env) m := h
  obtain ⟨φ, hpr, -⟩ := reach_simulated hcut (fun _ h => h) h.reach
  refine ⟨hpr.geometry, ?_, (hpr.log hcut fun _ h => h).items, h.free⟩
  rw [h.cut.1]
  exact Nat.le_of_eq (hpr.size hcut)

/-- A read-only open of what a cut has left. -/
theorem Remains.opened (h : Remains env x m) {s : Store} (hs : openReadOnly env.codecs m = .ok s) :
    s = openedStore env m { codecs := env.codecs } (0, 0) := by
  have hcut (d : Disk Item) (m : Image) (h : d.MixCut (Item.bytes env) m) :
      d.MixCut (Item.bytes env) m := h
  obtain ⟨g, hg⟩ := h.genuine
  obtain ⟨φ, hpr, -⟩ := reach_simulated hcut (fun _ h => h) h.reach
  exact (openReadOnly_ok g hg.size hpr.volumes h.free hs).1

/-- A flushed block of a current generation is found behind its header, unless its slot is reported
as damaged. -/
theorem Remains.found (h : Remains env x m) {off : Nat} {b : BlockHeader} {payload raw : Bytes}
    (hf : (off, Item.frame b payload raw) ∈ x.disk.flushed)
    (hcur : Current x.disk.issued b.slot b.generation) (hdam : slotDamaged env m b.slot = false) :
    ∃ p hd fs st, p ∈ slotStates env m ∧ p.header = hd.written env ∧
      (env.partitionBase hd.slot, Item.header hd) ∈ x.disk.issued ∧ hd.slot = b.slot ∧
      hd.generation = b.generation ∧ Chain env m hd env.indexBegin {} (fs ++ [(b, payload)]) st ∧
      off = env.partitionBase hd.slot + chainEnd partitionHeaderRegionSize fs := by
  obtain ⟨g, hg⟩ := h.genuine
  obtain ⟨φ, hpr, -⟩ := reach_simulated (fun _ _ h => h) (fun _ h => h) h.reach
  obtain ⟨hd, fs, st, hmade, hds, hdg, hwin, hch, hoff⟩ :=
    (hpr.retain (fun _ _ h => h) fun _ h => h).durable m h.cut off b payload raw hf hcur
  have hbs : hd.slot < env.volume.partitionCount := hmade.slotOf.lt g
  obtain ⟨p, hstate, hp⟩ := slotState_of_window g hmade hwin (hds ▸ hdam)
  have hps : p.header.slot = hd.slot := by rw [hp]; rfl
  -- the header that was written for the slot is the one in place
  obtain ⟨hd', -, hds', hissued, heq, -, -⟩ := slotHeader_issued g hg.items hg.free hbs
    (slotState_header hstate)
  have hwritten : hd.written env = hd'.written env := hp.symm.trans heq
  have hgen : (hd.written env).generation = (hd'.written env).generation := by rw [hwritten]
  have hopt : (hd.written env).options = (hd'.written env).options := by rw [hwritten]
  refine ⟨p, hd', fs, st, ?_, heq, hds' ▸ hissued, hds'.trans hds, hgen.symm.trans hdg,
    hch.header_congr hds' hgen.symm hopt.symm, by rw [hds']; exact hoff⟩
  rw [mem_slotStates, hps]
  exact ⟨hbs, hstate⟩

/-- Where the seals of its generation come last, a footer covers every flushed block of it. -/
theorem Remains.covered (h : Remains env x m) {p : PartitionState}
    (hlast : SealsLastOf p.header.generation x.disk.issued)
    (hp : p ∈ slotStates env m) (hsealed : p.isSealed = true) {off : Nat} {b : BlockHeader}
    {payload raw : Bytes} (hf : (off, Item.frame b payload raw) ∈ x.disk.flushed)
    (hslot : b.slot = p.header.slot) (hgen : b.generation = p.header.generation) :
    ∃ es h' fs', SealedBy env p.footer es h' fs' ∧
      (env.partitionBase p.header.slot + env.footerOffset, Item.footer p.footer es) ∈
        x.disk.issued ∧ h'.slot = b.slot ∧
      (off, b, payload) ∈ chainFrames (env.partitionBase b.slot) partitionHeaderRegionSize fs' := by
  obtain ⟨g, hg⟩ := h.genuine
  obtain ⟨φ, hpr, -⟩ := reach_simulated (fun _ _ h => h) (fun _ h => h) h.reach
  obtain ⟨hs, hstate⟩ := mem_slotStates.mp hp
  obtain ⟨f, hfoot, rfl⟩ := slotState_sealed hstate hsealed
  obtain ⟨es, hmem, hfs, hfg, -⟩ := slotFooter_issued hg.items hg.free hs hfoot
  obtain ⟨h', fs', hseal, -, hall⟩ := hpr.footers (fun _ _ h => h) (fun _ h => h) _ _ _ hmem
  have hslot' : h'.slot = b.slot := hseal.slot.symm.trans (hfs.trans hslot.symm)
  have hgen' : h'.generation = b.generation := hseal.generation.symm.trans (hfg.trans hgen.symm)
  have hlast' : SealsLastOf h'.generation x.disk.issued := by
    rw [hgen', hgen]
    exact hlast
  have hframe := hall hlast' off b payload raw (Disk.live_of_flushed _ hf) hslot'.symm hgen'.symm
  rw [hslot'] at hframe
  exact ⟨es, h', fs', hseal, hmem, hslot', hframe⟩

/-- The catalog lists every partition that was found. -/
theorem mem_catalogOf_of_state {p : PartitionState} (hp : p ∈ slotStates env m) :
    ∃ p' ∈ catalogOf env m, p' = p ∨ p' = p.cleared := by
  rcases catalogOf_cases env m with ⟨hnil, -⟩ | ⟨older, newest, hcat, hsort, -, -⟩
  · rw [hnil] at hp
    cases hp
  · rw [hcat]
    rw [← mem_sortPartitions, hsort] at hp
    rcases List.mem_append.mp hp with hp | hp
    · exact ⟨p.cleared, List.mem_append_left _ (List.mem_map_of_mem hp), Or.inr rfl⟩
    · exact ⟨newest, List.mem_append_right _ (List.mem_singleton_self _),
        Or.inl (List.mem_singleton.mp hp).symm⟩

/-- A block that is retrieved is among the events of its partition. -/
theorem Retrieves.event {p : PartitionState} {hd : PartitionHeader} {o : Nat} {k : RingBlock}
    (h : Retrieves env m p hd o k) (hp : p.header = hd.written env) {q : Query}
    (hsel : q.selectsEvent (blockEvent env hd o k) = true) :
    blockEvent env hd o k ∈ partitionEvents env m q p := by
  obtain ⟨e, he, hev, hmin, hmax⟩ := h
  have hpick : q.selectsPartition p = true ∧ q.selectsEntry e = true := by
    unfold Query.selectsEvent at hsel
    unfold Query.selectsPartition Query.selectsEntry
    cases hr : q.range with
    | none => exact ⟨rfl, rfl⟩
    | some r =>
      rw [hr] at hsel
      obtain ⟨hdomain, hrange⟩ := Bool.and_eq_true _ _ |>.mp hsel
      refine ⟨?_, ?_⟩
      · rw [hp]
        exact hdomain
      · show rangesIntersect e.minTimeNs e.maxTimeNs r = true
        rw [hmin, hmax]
        exact hrange
  unfold partitionEvents
  rw [if_pos hpick.1, ← hev]
  exact List.mem_append_right _ (List.mem_map_of_mem (List.mem_filter.mpr ⟨he, hpick.2⟩))

/-- A flushed block of a current generation is among the events of its partition, unless its slot is
damaged. -/
theorem Remains.retrieved (h : Remains env x m) (hl : env.Lawful) {off : Nat} {b : BlockHeader}
    {payload raw : Bytes} (hf : (off, Item.frame b payload raw) ∈ x.disk.flushed)
    (hcur : Current x.disk.issued b.slot b.generation)
    (hslot : b.slot ∉ (slotList env).filter (slotDamaged env m))
    (hlast : (∃ p ∈ catalogOf env m, p.header.slot = b.slot ∧ p.isSealed = true) →
      SealsLastOf b.generation x.disk.issued) :
    ∃ hd o, (env.partitionBase hd.slot, Item.header hd) ∈ x.disk.issued ∧ hd.slot = b.slot ∧
      hd.generation = b.generation ∧ off = env.partitionBase hd.slot + o ∧
      ∃ p ∈ catalogOf env m, ∀ q : Query,
        q.selectsEvent (blockEvent env hd o ⟨b, payload, raw⟩) = true →
          blockEvent env hd o ⟨b, payload, raw⟩ ∈ partitionEvents env m q p := by
  obtain ⟨g, hg⟩ := h.genuine
  have hmade : FrameMade env x.disk.issued x.writers off b payload raw := by
    obtain ⟨φ, hpr, -⟩ := reach_simulated (fun _ _ h => h) (fun _ h => h) h.reach
    exact hg.items _ ((hpr.log (fun _ _ h => h) fun _ h => h).flushed _ hf)
  have hdam : slotDamaged env m b.slot = false := by
    rw [Bool.eq_false_iff]
    exact fun hd => hslot (List.mem_filter.mpr
      ⟨mem_slotList.mpr (FrameMade.region g hg.items hmade).1, hd⟩)
  have hraw : decodePayload env b payload = .ok raw := by
    obtain ⟨c, q, hq, -⟩ := hmade.made
    exact hq.decodes hl
  obtain ⟨p, hd, fs, st, hp, hhead, hissued, hds, hdg, hch, hoff⟩ := h.found hf hcur hdam
  obtain ⟨p', hp', hpp⟩ := mem_catalogOf_of_state hp
  have hhead' : p'.header = p.header ∧ p'.isSealed = p.isSealed := by
    rcases hpp with rfl | rfl
    · exact ⟨rfl, rfl⟩
    · simp
  have hps : b.slot = p.header.slot := by rw [hhead, ← hds]; rfl
  have hret := hg.retrieves g hl hp hpp hhead hch hraw fun hsealed => by
    have hseals := hlast ⟨p', hp', by rw [hhead'.1, hps], by rw [hhead'.2, hsealed]⟩
    have hpg : b.generation = p.header.generation := by rw [hhead, ← hdg]; rfl
    obtain ⟨es, h', fs', hseal, hmem, hslot', hframe⟩ :=
      h.covered (hpg ▸ hseals) hp hsealed hf hps hpg
    rw [← hds] at hslot' hframe
    exact ⟨es, h', fs', hseal, hmem, hslot', by rw [← hoff]; exact hframe⟩
  exact ⟨hd, chainEnd partitionHeaderRegionSize fs, hissued, hds, hdg, hoff, p', hp',
    fun q hsel => hret.event (hhead'.1.trans hhead) hsel⟩

/-- **Crash durability.**  A block that a flush has covered, of a generation whose slot was not given
to a newer one, is delivered from every image a power cut may leave to every query that asks for it.
Where the image takes the partition as sealed, no frame of a generation may have been written behind
a footer of it. -/
theorem crash_durability (h : Remains env x m) (hl : env.Lawful) {s : Store}
    (hs : openReadOnly env.codecs m = .ok s) {off : Nat} {b : BlockHeader} {payload raw : Bytes}
    (hf : (off, Item.frame b payload raw) ∈ x.disk.flushed)
    (hcur : Current x.disk.issued b.slot b.generation) (hslot : b.slot ∉ s.corruptSlots)
    (hlast : (∃ p ∈ s.partitions, p.header.slot = b.slot ∧ p.isSealed = true) →
      SealsLast x.disk.issued) :
    ∃ hd o, (env.partitionBase hd.slot, Item.header hd) ∈ x.disk.issued ∧ hd.slot = b.slot ∧
      hd.generation = b.generation ∧ off = env.partitionBase hd.slot + o ∧
      ∀ q : Query, q.Total → q.Valid →
        q.selectsEvent (blockEvent env hd o ⟨b, payload, raw⟩) = true →
          blockEvent env hd o ⟨b, payload, raw⟩ ∈
            (ReadProg.run (imageSource m) (s.query q)).1.events := by
  obtain ⟨g, hg⟩ := h.genuine
  obtain rfl := h.opened hs
  obtain ⟨hd, o, hissued, hds, hdg, hoff, p, hp, hevent⟩ := h.retrieved hl hf hcur hslot
    fun hp => (hlast hp).of _
  refine ⟨hd, o, hissued, hds, hdg, hoff, fun q hq hv hsel => ?_⟩
  rw [hg.answers g hl hv, hq.answer, QueryState.deliverAll_events, List.nil_append]
  exact List.mem_append_right _ (List.mem_flatMap.mpr ⟨p, mem_sortPartitions.mpr hp, hevent q hsel⟩)

end

/-- The write of a frame that does not show changes nothing. -/
theorem CollisionFree.issueFrame {env : Env} {issued : List (Nat × Item)} {m : Image}
    (h : CollisionFree env issued m) {off : Nat} {b : BlockHeader} {payload raw : Bytes} :
    CollisionFree env (issued ++ [(off, .frame b payload raw)]) m where
  volume off hoff v hv := List.mem_append_left _ (h.volume off hoff v hv)
  header slot hs hck h1 h2 := by
    obtain ⟨hd, hm, hb⟩ := h.header slot hs hck h1 h2
    exact ⟨hd, List.mem_append_left _ hm, hb⟩
  footer slot hs hck h1 h2 := by
    obtain ⟨f, es, hm, hb⟩ := h.footer slot hs hck h1 h2
    exact ⟨f, es, List.mem_append_left _ hm, hb⟩
  frame slot hs o h1 h2 h3 b hb h4 h5 hcrc := by
    obtain ⟨raw, hm⟩ := h.frame slot hs o h1 h2 h3 b hb h4 h5 hcrc
    exact ⟨raw, List.mem_append_left _ hm⟩
  index slot hs f es hm hcrc := by
    refine h.index slot hs f es ((List.mem_append.mp hm).resolve_right fun hlast => ?_) hcrc
    have hframe : Item.footer f es = .frame b payload raw :=
      congrArg Prod.snd (List.mem_singleton.mp hlast)
    cases hframe

namespace Sample

/-! ### A block that a power cut loses

Behind the rotation of the sample run a second record is published and not flushed. -/

def rotatedAppended : Store := { final with
  builder := record, builderRecords := 1, haveUndurableRecords := true
  metrics := { final.metrics with acceptedRecords := 2, acceptedPayloadBytes := 2 } }

theorem exec_rotatedAppend : ((Op.append record 0 0).program final).exec (Item.bytes env) rotated =
    ((.ok (), rotatedAppended), rotated) := rfl

/-- The first block of the second partition. -/
def lostBlock : BlockHeader := { block 0 (0, 0) (3, 4) with generation := (2 : UInt64), slot := 1 }

def lostDisk : Disk Item := write rotated 21120 (.frame lostBlock record record)

def rotatedPublished : Store := { final with
  partitions := [{ full with isSealed := true, indexValid := true, footer := footer },
    Writer.addBlock { header := header 1 2 } lostBlock 129 256]
  haveUndurableRecords := true, dirty := true
  metrics := { final.metrics with acceptedRecords := 2, acceptedPayloadBytes := 2
                                  publishedBlocks := 2, storedBlockBytes := 258, rawBlockBytes := 2 } }

theorem exec_rotatedPublish : (Op.publish.program rotatedAppended).exec (Item.bytes env) rotated =
    ((.ok (), rotatedPublished), lostDisk) := rfl

def lostSys : Sys := ⟨lostDisk, [(3, 4)], .idle rotatedPublished (some (.publish, .ok ()))⟩

theorem lost_durable : lostDisk.durable = rotated.volatile (Item.bytes env) := rotated_durable.symm

/-- A power cut that loses this block. -/
theorem lost_remains : Remains env lostSys lostDisk.durable where
  reach := (reach_rotated.call _ exec_rotatedAppend).call _ exec_rotatedPublish
  cut := (Disk.durable_fragmentCut (Item.bytes env) lostDisk).mixCut
  free := by
    rw [lost_durable]
    exact rotated_inOrder.collisionFree.issueFrame

def reopened : Store := openedStore env lostDisk.durable { codecs := env.codecs } (0, 0)

/-- The volume opens, and no slot is damaged. -/
theorem reopens : openReadOnly env.codecs lostDisk.durable = .ok reopened ∧
    reopened.corruptSlots = [] := by
  have hassumed : ∀ d, CollisionFreeNow env d → CollisionFreeNow env d := fun _ hd => hd
  obtain ⟨g, hsize, hr, -⟩ := clean_rotated.ring hassumed
  have hm : env.volume.volumeSize.toNat ≤ image.size := Nat.le_of_eq hsize
  have hc := rotated_inOrder.collisionFree
  have hv : ∀ q ∈ ringOf rotated.issued, q.header.options.compressionVersion ≠ 0 := by decide
  rw [reopened, lost_durable]
  refine ⟨?_, hr.undamaged g hm hc hv spanFits lawful unmarked quietFooters⟩
  exact hr.recovers g hm hc hv spanFits lawful unmarked quietFooters (o := { codecs := env.codecs })
    rfl rfl

theorem flushed_frame :
    (12288, Item.frame (block 0 (0, 0) (3, 4)) record record) ∈ lostDisk.flushed := by
  simp [lostDisk, rotated, sealedDisk, framed, write, Disk.flush, Disk.issue, Write.whole, record,
    Item.bytes]

theorem current_first : Current lostDisk.issued 0 1 := by
  intro off h hh hslot
  simp [lostDisk, rotated, sealedDisk, framed, created, formatted, disk, write, Disk.flush,
    Disk.issue] at hh
  rcases hh with ⟨-, rfl⟩ | ⟨-, rfl⟩
  · exact UInt64.le_refl _
  · cases hslot

theorem sealsLast : SealsLast lostDisk.issued := by
  unfold SealsLast
  simp [lostDisk, rotated, sealedDisk, framed, created, formatted, disk, write, Disk.flush, Disk.issue,
    SealOrder]
  constructor
  · intro _
    exact UInt64.le_refl _
  · show ¬ (2 : UInt64) = 1
    decide

end Sample

/-- The block in front of the flush is delivered. -/
theorem sample_crash_durability :
    ∃ ev ∈ (scanBlocks Sample.reopened Sample.lostDisk.durable).1.events,
      ev.metadata.partitionGeneration = 1 ∧ ev.data = Sample.record := by
  have hslot : (0 : UInt32) ∉ Sample.reopened.corruptSlots := by
    rw [Sample.reopens.2]
    exact List.not_mem_nil
  obtain ⟨hd, o, -, -, hgen, -, hdelivers⟩ := crash_durability Sample.lost_remains Sample.lawful
    Sample.reopens.1 Sample.flushed_frame Sample.current_first hslot fun _ => Sample.sealsLast
  exact ⟨_, hdelivers {} scan_total (fun r hr => (by cases hr)) rfl, hgen, rfl⟩

end TFDB
