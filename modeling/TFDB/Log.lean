import TFDB.Run

/-!
# What has been written

Everything a run has issued is a structure the code filled in: a header of the generation its
slot is for, a frame at the end of the blocks of its partition, an index, a footer over the
blocks its writer knew.  `LogInv` says so, together with what the phase knows about the active
partition, and `PReach.log` proves it for every run.

`slotHeader_issued` and `Chain.frames_issued` are the other direction: what a reader accepts has
been issued, where the image is free of collisions.
-/

set_option autoImplicit false

namespace TFDB

open ByteLib Writer

/-! ## Frames with their offsets -/

/-- The frames of a chain that starts at `cursor`, with their offsets on the medium. -/
def chainFrames (base : Nat) : Nat → List (BlockHeader × Bytes) → List (Nat × BlockHeader × Bytes)
  | _, [] => []
  | cursor, (b, payload) :: fs =>
    (base + cursor, b, payload) :: chainFrames base (cursor + b.frameSpan.toNat) fs

/-- Where a chain that starts at `cursor` ends. -/
def chainEnd : Nat → List (BlockHeader × Bytes) → Nat
  | cursor, [] => cursor
  | cursor, (b, _) :: fs => chainEnd (cursor + b.frameSpan.toNat) fs

theorem chainFrames_append (base cursor : Nat) (fs gs : List (BlockHeader × Bytes)) :
    chainFrames base cursor (fs ++ gs) =
      chainFrames base cursor fs ++ chainFrames base (chainEnd cursor fs) gs := by
  induction fs generalizing cursor with
  | nil => rfl
  | cons f fs ih =>
    obtain ⟨b, payload⟩ := f
    simp only [List.cons_append, chainFrames, chainEnd, ih]

theorem chainEntries_append (cursor : Nat) (fs gs : List (BlockHeader × Bytes)) :
    chainEntries cursor (fs ++ gs) = chainEntries cursor fs ++ chainEntries (chainEnd cursor fs) gs := by
  induction fs generalizing cursor with
  | nil => rfl
  | cons f fs ih =>
    obtain ⟨b, payload⟩ := f
    simp only [List.cons_append, chainEntries, chainEnd, ih]

theorem chainEnd_append (cursor : Nat) (fs gs : List (BlockHeader × Bytes)) :
    chainEnd cursor (fs ++ gs) = chainEnd (chainEnd cursor fs) gs := by
  induction fs generalizing cursor with
  | nil => rfl
  | cons f fs ih => exact ih _

@[simp] theorem chainEntries_length (cursor : Nat) (fs : List (BlockHeader × Bytes)) :
    (chainEntries cursor fs).length = fs.length := by
  induction fs generalizing cursor with
  | nil => rfl
  | cons f fs ih => simp [chainEntries, ih]

theorem Chain.cursor_eq {env : Env} {m : Image} {h : PartitionHeader} {limit : Nat}
    {st st' : ScanState} {fs : List (BlockHeader × Bytes)} (hc : Chain env m h limit st fs st') :
    st'.cursor = chainEnd st.cursor fs := by
  induction hc with
  | nil st => rfl
  | cons hf hc ih => exact ih

/-- Every frame of a chain lies between its start and its end. -/
theorem Chain.frame_bounds {env : Env} {m : Image} {h : PartitionHeader} {limit : Nat}
    {st st' : ScanState} {fs : List (BlockHeader × Bytes)} (hc : Chain env m h limit st fs st')
    {base : Nat} {f : Nat × BlockHeader × Bytes} (hf : f ∈ chainFrames base st.cursor fs) :
    base + st.cursor ≤ f.1 ∧ f.1 + f.2.1.frameSpan.toNat ≤ base + st'.cursor := by
  induction hc with
  | nil st => cases hf
  | @cons st st' b x fs hfr hc ih =>
    have hle := hc.cursor_le
    simp only [ScanState.next] at hle
    rcases List.mem_cons.mp hf with rfl | hf
    · exact ⟨Nat.le_refl _, by simp only; omega⟩
    · have := ih hf
      simp only [ScanState.next] at this
      omega

/-- The state of a partition without a footer only depends on its header and its blocks. -/
def openState (h : PartitionHeader) (fs : List (BlockHeader × Bytes)) : PartitionState :=
  scannedState h
    ⟨chainEntries partitionHeaderRegionSize fs, chainEnd partitionHeaderRegionSize fs, false⟩

@[simp] theorem openState_header (h : PartitionHeader) (fs : List (BlockHeader × Bytes)) :
    (openState h fs).header = h := scannedState_header _ _

/-- One turn of `summarize`. -/
def addTotals (p : PartitionState) (e : IndexEntry) : PartitionState :=
  { p with
    aggregateFlags := p.aggregateFlags ||| e.flags
    hasTime := true
    minTimeNs := if p.hasTime then min p.minTimeNs e.minTimeNs else e.minTimeNs
    maxTimeNs := if p.hasTime then max p.maxTimeNs e.maxTimeNs else e.maxTimeNs }

theorem summarize_eq (p : PartitionState) :
    summarize p = p.activeIndex.foldl addTotals
      { p with aggregateFlags := 0, hasTime := false,
               blockCount := UInt32.ofNat p.activeIndex.length } := rfl

/-- The totals do not look at the index, the end or the count. -/
theorem foldl_addTotals (es : List IndexEntry) (p : PartitionState) (index : List IndexEntry)
    (dataEnd : Nat) (count : UInt32) :
    es.foldl addTotals { p with activeIndex := index, dataEnd := dataEnd, blockCount := count } =
      { es.foldl addTotals p with activeIndex := index, dataEnd := dataEnd, blockCount := count } := by
  induction es generalizing p with
  | nil => rfl
  | cons e es ih => exact ih (addTotals p e)

theorem foldl_addTotals_same (es : List IndexEntry) (p : PartitionState) :
    (es.foldl addTotals p).activeIndex = p.activeIndex ∧
      (es.foldl addTotals p).dataEnd = p.dataEnd ∧ (es.foldl addTotals p).isSealed = p.isSealed ∧
      (es.foldl addTotals p).blockCount = p.blockCount := by
  induction es generalizing p with
  | nil => exact ⟨rfl, rfl, rfl, rfl⟩
  | cons e es ih => exact ih (addTotals p e)

theorem summarize_fields (p : PartitionState) :
    (summarize p).activeIndex = p.activeIndex ∧ (summarize p).dataEnd = p.dataEnd ∧
      (summarize p).isSealed = p.isSealed ∧
      (summarize p).blockCount = UInt32.ofNat p.activeIndex.length := foldl_addTotals_same _ _

@[simp] theorem openState_activeIndex (h : PartitionHeader) (fs : List (BlockHeader × Bytes)) :
    (openState h fs).activeIndex = chainEntries partitionHeaderRegionSize fs := (summarize_fields _).1

@[simp] theorem openState_dataEnd (h : PartitionHeader) (fs : List (BlockHeader × Bytes)) :
    (openState h fs).dataEnd = chainEnd partitionHeaderRegionSize fs := (summarize_fields _).2.1

@[simp] theorem openState_isSealed (h : PartitionHeader) (fs : List (BlockHeader × Bytes)) :
    (openState h fs).isSealed = false := (summarize_fields _).2.2.1

@[simp] theorem openState_blockCount (h : PartitionHeader) (fs : List (BlockHeader × Bytes)) :
    (openState h fs).blockCount = UInt32.ofNat fs.length := by
  refine (summarize_fields _).2.2.2.trans ?_
  simp

theorem openState_nil (h : PartitionHeader) : openState h [] = { header := h } := rfl

/-- The state after a block was written is the state of the longer chain. -/
theorem addBlock_openState (h : PartitionHeader) (fs : List (BlockHeader × Bytes)) (b : BlockHeader)
    (payload : Bytes) :
    addBlock (openState h fs) b (blockHeaderEncodedSize + b.storedSize.toNat) b.frameSpan.toNat =
      openState h (fs ++ [(b, payload)]) := by
  have hsize : UInt32.ofNat (blockHeaderEncodedSize + b.storedSize.toNat) = 128 + b.storedSize := by
    simp only [blockHeaderEncodedSize, UInt32.ofNat_add, UInt32.ofNat_toNat]
    rfl
  have hentry : { blockEntry (openState h fs).dataEnd b with
      frameSize := UInt32.ofNat (blockHeaderEncodedSize + b.storedSize.toNat)
      frameSpan := UInt32.ofNat b.frameSpan.toNat } =
      blockEntry (chainEnd partitionHeaderRegionSize fs) b := by
    rw [openState_dataEnd, hsize, UInt32.ofNat_toNat]
    rfl
  have hlen : (openState h fs).activeIndex.length = fs.length := by simp
  have hnext : openState h (fs ++ [(b, payload)]) =
      { addTotals (openState h fs) (blockEntry (chainEnd partitionHeaderRegionSize fs) b) with
        activeIndex := (openState h fs).activeIndex ++
          [blockEntry (chainEnd partitionHeaderRegionSize fs) b]
        dataEnd := (openState h fs).dataEnd + b.frameSpan.toNat
        blockCount := UInt32.ofNat (fs.length + 1) } := by
    have hfold := foldl_addTotals (chainEntries partitionHeaderRegionSize fs)
      { header := h, activeIndex := chainEntries partitionHeaderRegionSize fs
        dataEnd := chainEnd partitionHeaderRegionSize fs
        blockCount := UInt32.ofNat fs.length }
      (chainEntries partitionHeaderRegionSize fs ++
        [blockEntry (chainEnd partitionHeaderRegionSize fs) b])
      (chainEnd partitionHeaderRegionSize fs + b.frameSpan.toNat) (UInt32.ofNat (fs.length + 1))
    simp only [openState_activeIndex, openState_dataEnd]
    simp only [openState, scannedState, summarize_eq, chainEntries_append, chainEnd_append,
      chainEntries, chainEnd, List.length_append, List.length_singleton, chainEntries_length]
    rw [List.foldl_append, List.foldl_cons, List.foldl_nil]
    exact congrArg (addTotals · (blockEntry (chainEnd partitionHeaderRegionSize fs) b)) hfold
  rw [hnext]
  unfold addBlock
  rw [hentry, hlen]
  rfl

/-! ## Slots and generations -/

/-- The slot the ring gives to a generation. -/
def SlotOf (env : Env) (slot : UInt32) (generation : UInt64) : Prop :=
  generation ≠ 0 ∧ slot.toNat = (generation.toNat - 1) % env.partitionCount

theorem SlotOf.unique {env : Env} {a b : UInt32} {generation : UInt64}
    (ha : SlotOf env a generation) (hb : SlotOf env b generation) : a = b :=
  UInt32.toNat_inj.mp (ha.2.trans hb.2.symm)

theorem succ64_toNat {a : UInt64} (h : a ≠ 0xffffffffffffffff) : (a + 1).toNat = a.toNat + 1 := by
  have hmax : a.toNat ≠ 2 ^ 64 - 1 := fun h0 => h (UInt64.toNat_inj.mp h0)
  have hlt := a.toNat_lt
  rw [UInt64.toNat_add]
  show (a.toNat + 1) % 2 ^ 64 = _
  omega

section
variable {env : Env} (g : Geometry env)
include g

theorem SlotOf.lt {slot : UInt32} {generation : UInt64} (h : SlotOf env slot generation) :
    slot < env.volume.partitionCount := by
  have hc := g.count
  rw [UInt32.lt_iff_toNat_lt, h.2]
  exact Nat.mod_lt _ (by simp only [Env.partitionCount] at hc ⊢; omega)

omit g in
theorem slotOf_first : SlotOf env 0 1 := by
  refine ⟨by decide, ?_⟩
  show 0 = (1 - 1) % env.partitionCount
  simp

theorem SlotOf.next {slot : UInt32} {generation : UInt64} (h : SlotOf env slot generation)
    (hmax : generation ≠ 0xffffffffffffffff) :
    SlotOf env ((slot + 1) % env.volume.partitionCount) (generation + 1) := by
  have hc := g.count
  have hlt := UInt32.lt_iff_toNat_lt.mp (h.lt g)
  have hn := env.volume.partitionCount.toNat_lt
  have hg0 : generation.toNat ≠ 0 := fun h0 => h.1 (UInt64.toNat_inj.mp h0)
  have hgn := succ64_toNat hmax
  have hsn : (slot + 1).toNat = slot.toNat + 1 := by
    rw [UInt32.toNat_add]
    show (slot.toNat + 1) % 2 ^ 32 = _
    omega
  refine ⟨fun h0 => ?_, ?_⟩
  · rw [h0] at hgn
    exact absurd hgn (by simp)
  · rw [UInt32.toNat_mod, hsn, hgn, h.2]
    show _ % env.partitionCount = _
    rw [Nat.mod_add_mod]
    congr 1
    omega

end

/-! ## Written structures -/

/-- A header `create_partition` filled in. -/
structure HeaderMade (env : Env) (h : PartitionHeader) : Prop where
  eq : h = newHeader env h.slot h.generation h.options
  options : env.validatePartitionOptions h.options = .ok ()
  slotOf : SlotOf env h.slot h.generation

/-- The frames of a chain from the start of the data region have been issued there. -/
def FramesIssued (env : Env) (issued : List (Nat × Item)) (slot : UInt32)
    (fs : List (BlockHeader × Bytes)) : Prop :=
  ∀ f ∈ chainFrames (env.partitionBase slot) partitionHeaderRegionSize fs,
    ∃ raw, (f.1, Item.frame f.2.1 f.2.2 raw) ∈ issued

/-- A partition a writer works on: its header and its blocks have been issued. -/
structure PartOk (env : Env) (issued : List (Nat × Item)) (p : PartitionState) : Prop where
  header : ∃ h features, (env.partitionBase h.slot, Item.header h) ∈ issued ∧
    p.header = { h with features := features }
  blocks : ∃ fs, p = openState p.header fs ∧ FramesIssued env issued p.header.slot fs

/-- A frame `emit_builder` wrote at the end of its partition. -/
structure FrameMade (env : Env) (issued : List (Nat × Item)) (writers : List (UInt64 × UInt64))
    (off : Nat) (b : BlockHeader) (payload raw : Bytes) : Prop where
  made : ∃ c p, FrameOk env c p b payload raw ∧ PartOk env issued p ∧
    off = env.partitionBase p.header.slot + p.dataEnd
  writer : ∃ j : Nat, writers[j]? = some (b.writerIdHigh, b.writerIdLow) ∧
    ((b.previousWriterIdHigh, b.previousWriterIdLow) = (0, 0) ∨
      ∃ i : Nat, i ≤ j ∧ writers[i]? = some (b.previousWriterIdHigh, b.previousWriterIdLow))

/-- A footer `seal_active_only` wrote over the blocks it knew. -/
def FooterMade (env : Env) (issued : List (Nat × Item)) (off : Nat) (f : PartitionFooter)
    (es : List IndexEntry) : Prop :=
  ∃ p, PartOk env issued p ∧ off = env.partitionBase p.header.slot + env.footerOffset ∧
    f = sealFooter env p ∧ es = p.activeIndex ∧ (encodeIndex es).length ≤ env.indexRegionSize

/-- An issued item is a structure the code filled in, at its place. -/
def ItemOk (env : Env) (issued : List (Nat × Item)) (writers : List (UInt64 × UInt64)) (off : Nat) :
    Item → Prop
  | .volume v => v = env.volume ∧ (off = 0 ∨ off = volumeHeaderCopySize)
  | .header h => HeaderMade env h ∧ off = env.partitionBase h.slot
  | .frame b payload raw => FrameMade env issued writers off b payload raw
  | .index es => ∃ slot < env.volume.partitionCount, off = env.partitionBase slot + env.indexBegin ∧
      (encodeIndex es).length ≤ env.indexRegionSize
  | .footer f es => FooterMade env issued off f es

/-- The catalog of a live writer. -/
structure LiveCat (env : Env) (issued : List (Nat × Item)) (writers : List (UInt64 × UInt64))
    (c : Cat) : Prop where
  writer : writers.getLast? = some c.writerId
  active : ∃ p, c.active = some p ∧ p.isSealed = false ∧ PartOk env issued p

/-- What a phase knows. -/
def PhaseOk (env : Env) (issued : List (Nat × Item)) (writers : List (UInt64 × UInt64)) :
    Phase → Prop
  | .ready c => LiveCat env issued writers c
  | .indexed c => LiveCat env issued writers c
  | .footed c => LiveCat env issued writers c
  | .rotating c slot generation => SlotOf env slot generation ∧ writers.getLast? = some c.writerId
  | .headed c h => HeaderMade env h ∧ (env.partitionBase h.slot, Item.header h) ∈ issued ∧
      writers.getLast? = some c.writerId
  | .halted => True

/-- The invariant of the log. -/
structure LogInv (env : Env) (x : PSys) : Prop where
  items : ∀ w ∈ x.disk.issued, ItemOk env x.disk.issued x.writers w.1 w.2
  phase : PhaseOk env x.disk.issued x.writers x.phase
  pending : ∀ w ∈ x.disk.pending, (w.off, w.item) ∈ x.disk.issued
  flushed : ∀ w ∈ x.disk.flushed, w ∈ x.disk.issued
  nodup : x.writers.Nodup
  nonzero : (0, 0) ∉ x.writers

/-! ## The log only grows -/

section
variable {env : Env} {issued issued' : List (Nat × Item)} {writers writers' : List (UInt64 × UInt64)}

theorem FramesIssued.mono {slot : UInt32} {fs : List (BlockHeader × Bytes)}
    (h : FramesIssued env issued slot fs) (hi : issued ⊆ issued') : FramesIssued env issued' slot fs := by
  intro f hf
  obtain ⟨raw, hm⟩ := h f hf
  exact ⟨raw, hi hm⟩

theorem PartOk.mono {p : PartitionState} (h : PartOk env issued p) (hi : issued ⊆ issued') :
    PartOk env issued' p := by
  obtain ⟨h', features, hm, he⟩ := h.header
  obtain ⟨fs, hp, hf⟩ := h.blocks
  exact ⟨⟨h', features, hi hm, he⟩, ⟨fs, hp, hf.mono hi⟩⟩

theorem ItemOk.mono {off : Nat} {i : Item} (h : ItemOk env issued writers off i)
    (hi : issued ⊆ issued') (hw : writers <+: writers') : ItemOk env issued' writers' off i := by
  have hget {j : Nat} {w : UInt64 × UInt64} (hj : writers[j]? = some w) : writers'[j]? = some w := by
    obtain ⟨rest, rfl⟩ := hw
    rw [List.getElem?_append_left]
    · exact hj
    · exact (List.getElem?_eq_some_iff.mp hj).1
  cases i with
  | volume v => exact h
  | header hd => exact h
  | index es => exact h
  | footer f es =>
    obtain ⟨p, hp, hrest⟩ := h
    exact ⟨p, hp.mono hi, hrest⟩
  | frame b payload raw =>
    obtain ⟨⟨c, p, hf, hp, ho⟩, j, hj, hprev⟩ := h
    refine ⟨⟨c, p, hf, hp.mono hi, ho⟩, j, hget hj, ?_⟩
    rcases hprev with h0 | ⟨i, hij, hi⟩
    · exact Or.inl h0
    · exact Or.inr ⟨i, hij, hget hi⟩

theorem LiveCat.mono {c : Cat} (h : LiveCat env issued writers c) (hi : issued ⊆ issued') :
    LiveCat env issued' writers c := by
  obtain ⟨p, hp, hs, hok⟩ := h.active
  exact ⟨h.writer, p, hp, hs, hok.mono hi⟩

end

/-! ## What a reader accepts has been issued -/

/-- A sealed partition of an image has a valid footer there. -/
theorem slotState_sealed {env : Env} {m : Image} {slot : UInt32} {p : PartitionState}
    (hp : slotState env m slot = some p) (hs : p.isSealed = true) :
    ∃ f, slotFooter env m p.header = .ok f ∧ p.footer = f := by
  have hh := slotState_header hp
  cases hf : slotFooter env m p.header with
  | ok f =>
    rw [slotState_of_sealed hh hf] at hp
    exact ⟨f, rfl, by rw [← Option.some.inj hp]; rfl⟩
  | error e =>
    rw [slotState_of_open hh hf] at hp
    rw [← Option.some.inj hp] at hs
    exact absurd hs (by
      rw [scannedState, (summarize_fields _).2.2.1]
      exact Bool.false_ne_true)

theorem decodePartitionHeader_inv {bs : Bytes} {h : PartitionHeader}
    (hd : decodePartitionHeader bs = .ok h) :
    commonCheck bs partitionMagic partitionHeaderEncodedSize 104 = .ok () ∧
      get64 bs 16 = h.volumeIdHigh ∧ get64 bs 24 = h.volumeIdLow := by
  unfold decodePartitionHeader at hd
  obtain ⟨u, hc, hd⟩ := bind_ok_inv hd
  split at hd
  · simp at hd
  dsimp only at hd
  split at hd
  · simp at hd
  obtain ⟨scan, _, hd⟩ := bind_ok_inv hd
  split at hd
  · simp at hd
  split at hd
  · simp at hd
  cases u
  cases hd
  exact ⟨hc, rfl, rfl⟩

theorem decodePartitionFooter_inv {bs : Bytes} {f : PartitionFooter}
    (hd : decodePartitionFooter bs = .ok f) :
    commonCheck bs footerMagic partitionFooterEncodedSize 100 = .ok () ∧
      get64 bs 16 = f.volumeIdHigh ∧ get64 bs 24 = f.volumeIdLow := by
  unfold decodePartitionFooter at hd
  obtain ⟨u, hc, hd⟩ := bind_ok_inv hd
  split at hd
  · simp at hd
  split at hd
  · simp at hd
  dsimp only at hd
  split at hd
  · simp at hd
  cases u
  cases hd
  exact ⟨hc, rfl, rfl⟩

/-- The header a written header decodes to. -/
def PartitionHeader.written (env : Env) (h : PartitionHeader) : PartitionHeader :=
  { h with features := writerFeatures h.options env.volume.partitionSize env.volume.indexRegionSize }

section
variable {env : Env} (g : Geometry env)
include g

/-- A written header that is accepted is accepted as itself, and its codec has a version. -/
theorem HeaderMade.accepted {h h' : PartitionHeader} (hm : HeaderMade env h) {slot : UInt32}
    (hh : acceptPartitionHeader env slot (Item.bytes env (.header h)) = .ok h') :
    h' = h.written env ∧ h.options.compressionVersion ≠ 0 ∧ h.slot = slot := by
  have hd := (acceptPartitionHeader_inv hh).1
  have hv : h.options.compressionVersion ≠ 0 := decodePartitionHeader_version hd
  have hok : HeaderOk env h := by
    have he := hm.eq
    exact ⟨by rw [he]; rfl, by rw [he]; rfl, by rw [he]; rfl, by rw [he]; rfl, hm.options, hv⟩
  obtain ⟨-, -, hr⟩ := validatePartitionOptions_ok hok.options
  have hi : env.volume.indexRegionSize ≠ 0 := by
    intro h0
    have := g.index_min
    simp [Env.indexRegionSize, h0, indexEntryEncodedSize] at this
  have hdec : decodePartitionHeader (Item.bytes env (.header h)) = .ok (h.written env) :=
    decodePartitionHeader_encode hv hi hr
  have heq : h' = h.written env := Except.ok.inj (hd.symm.trans hdec)
  refine ⟨heq, hv, ?_⟩
  have := (acceptPartitionHeader_inv hh).2.2.2.1
  rw [heq] at this
  exact this

variable {issued : List (Nat × Item)} {writers : List (UInt64 × UInt64)} {m : Image}

/-- A valid header in a collision-free image has been issued for its slot. -/
theorem slotHeader_issued (hitems : ∀ w ∈ issued, ItemOk env issued writers w.1 w.2)
    (hc : CollisionFree env issued m) {slot : UInt32} (hs : slot < env.volume.partitionCount)
    {h' : PartitionHeader} (hh : slotHeader env m slot = .ok h') :
    ∃ h, HeaderMade env h ∧ h.slot = slot ∧ (env.partitionBase slot, Item.header h) ∈ issued ∧
      h' = h.written env ∧ h.options.compressionVersion ≠ 0 ∧
      m.window (env.partitionBase slot) partitionHeaderEncodedSize = Item.bytes env (.header h) := by
  unfold slotHeader at hh
  obtain ⟨hd, hhi, hlo, -, -⟩ := acceptPartitionHeader_inv hh
  obtain ⟨hcc, e16, e24⟩ := decodePartitionHeader_inv hd
  obtain ⟨h, hmem, hbytes⟩ := hc.header slot hs hcc (e16.trans hhi) (e24.trans hlo)
  obtain ⟨hm, -⟩ : HeaderMade env h ∧ _ := hitems _ hmem
  rw [hbytes] at hh
  obtain ⟨heq, hv, hslot⟩ := hm.accepted g hh
  exact ⟨h, hm, hslot, hmem, heq, hv, hbytes⟩

/-- A written header in place is found by a reader, unless its codec has version zero. -/
theorem HeaderMade.slotHeader {h : PartitionHeader} (hm : HeaderMade env h)
    (hv : h.options.compressionVersion ≠ 0)
    (hw : m.window (env.partitionBase h.slot) partitionHeaderEncodedSize = Item.bytes env (.header h)) :
    slotHeader env m h.slot = .ok (h.written env) := by
  have he := hm.eq
  have hok : HeaderOk env h :=
    ⟨by rw [he]; rfl, by rw [he]; rfl, by rw [he]; rfl, by rw [he]; rfl, hm.options, hv⟩
  unfold TFDB.slotHeader
  rw [hw]
  exact acceptPartitionHeader_encode g hok

omit g in
/-- The frames a scan accepts in a collision-free image have been issued. -/
theorem Chain.frames_issued (hc : CollisionFree env issued m) {h : PartitionHeader}
    (hs : h.slot < env.volume.partitionCount) {limit : Nat} (hl : limit ≤ env.indexBegin)
    {st st' : ScanState} {fs : List (BlockHeader × Bytes)} (hch : Chain env m h limit st fs st')
    (hst : partitionHeaderRegionSize ≤ st.cursor) :
    ∀ f ∈ chainFrames (env.partitionBase h.slot) st.cursor fs,
      ∃ raw, (f.1, Item.frame f.2.1 f.2.2 raw) ∈ issued := by
  induction hch with
  | nil st => exact fun f hf => (by cases hf)
  | @cons st st' b x fs hf hch ih =>
    intro f hm
    rcases List.mem_cons.mp hm with rfl | hm
    · have hin := hf.inside
      obtain ⟨raw, hraw⟩ := hc.frame h.slot hs st.cursor hst (by omega) hf.accepted.cursor_aligned b
        hf.header hf.accepted.idHigh hf.accepted.idLow (by rw [hf.payload_eq]; exact hf.crc)
      rw [hf.payload_eq] at hraw
      exact ⟨raw, hraw⟩
    · refine ih ?_ f hm
      simp only [ScanState.next]
      omega

/-- A partition without a valid footer: its state is that of the longest chain. -/
theorem slotState_open (hm : env.volume.volumeSize.toNat ≤ m.size) {slot : UInt32}
    (hs : slot < env.volume.partitionCount) {p : PartitionState}
    (hp : slotState env m slot = some p) (ho : p.isSealed = false) :
    ∃ fs st, p = openState p.header fs ∧ Chain env m p.header env.indexBegin {} fs st ∧
      Stuck env m p.header env.indexBegin st := by
  have hh := slotState_header hp
  have hslot : p.header.slot < env.volume.partitionCount := by
    rw [slotHeader_slot hh]
    exact hs
  cases hf : slotFooter env m p.header with
  | ok f =>
    rw [slotState_of_sealed hh hf] at hp
    rw [← Option.some.inj hp] at ho
    cases ho
  | error e =>
    rw [slotState_of_open hh hf] at hp
    obtain ⟨fs, st, corrupt, hrun, hch, hstuck⟩ := scanPartition_run g hm hslot 0
      env.indexBegin (if_pos rfl) (Nat.le_of_lt g.header_lt_indexBegin) (Nat.le_refl _)
    refine ⟨fs, st, ?_, hch, hstuck⟩
    refine (Option.some.inj hp).symm.trans ?_
    rw [slotScan_of_run hrun]
    have he := hch.entries
    have hcur := hch.cursor_eq
    simp only [ScanState.stop, he, hcur, List.nil_append]
    rfl

/-- The newest partition of a collision-free image, if it has no footer, is one a writer worked on. -/
theorem partOk_of_slotState (hitems : ∀ w ∈ issued, ItemOk env issued writers w.1 w.2)
    (hc : CollisionFree env issued m) (hm : env.volume.volumeSize.toNat ≤ m.size) {slot : UInt32}
    (hs : slot < env.volume.partitionCount) {p : PartitionState}
    (hp : slotState env m slot = some p) (ho : p.isSealed = false) : PartOk env issued p := by
  have hslot := slotState_slot hp
  obtain ⟨fs, st, hopen, hch, -⟩ := slotState_open g hm hs hp ho
  obtain ⟨h, -, hh, hmem, heq, -, -⟩ := slotHeader_issued g hitems hc hs (slotState_header hp)
  refine ⟨⟨h, _, hh ▸ hmem, heq⟩, fs, hopen, ?_⟩
  exact hch.frames_issued hc (hslot ▸ hs) (Nat.le_refl _) (Nat.le_refl _)

end

/-! ## Footers -/

theorem foldl_addTotals_times (es : List IndexEntry) (p : PartitionState)
    (hes : ∀ e ∈ es, e.minTimeNs ≤ e.maxTimeNs) (hp : p.hasTime = true → p.minTimeNs ≤ p.maxTimeNs) :
    (es.foldl addTotals p).hasTime = true →
      (es.foldl addTotals p).minTimeNs ≤ (es.foldl addTotals p).maxTimeNs := by
  induction es generalizing p with
  | nil => exact hp
  | cons e es ih =>
    refine ih (addTotals p e) (fun e' h => hes e' (List.mem_cons_of_mem _ h)) fun _ => ?_
    have he := hes e (List.mem_cons_self ..)
    simp only [addTotals]
    split
    · exact min_le_max he
    · exact he

theorem chainEntries_times {cursor : Nat} {fs : List (BlockHeader × Bytes)}
    (h : ∀ f ∈ fs, f.1.minTimeNs ≤ f.1.maxTimeNs) :
    ∀ e ∈ chainEntries cursor fs, e.minTimeNs ≤ e.maxTimeNs := by
  induction fs generalizing cursor with
  | nil => exact fun e he => (by cases he)
  | cons f fs ih =>
    obtain ⟨b, x⟩ := f
    intro e he
    rcases List.mem_cons.mp he with rfl | he
    · exact h _ (List.mem_cons_self ..)
    · exact ih (fun f hf => h f (List.mem_cons_of_mem _ hf)) e he

theorem mem_chainFrames (base cursor : Nat) {fs : List (BlockHeader × Bytes)} {f : BlockHeader × Bytes}
    (h : f ∈ fs) : ∃ off, (off, f.1, f.2) ∈ chainFrames base cursor fs := by
  induction fs generalizing cursor with
  | nil => cases h
  | cons f' fs ih =>
    obtain ⟨b, x⟩ := f'
    rcases List.mem_cons.mp h with rfl | h
    · exact ⟨_, List.mem_cons_self ..⟩
    · obtain ⟨off, ho⟩ := ih (cursor + b.frameSpan.toNat) h
      exact ⟨off, List.mem_cons_of_mem _ ho⟩

theorem inBounds_times {b : BlockHeader} (h : b.inBounds = true) : b.minTimeNs ≤ b.maxTimeNs := by
  simp only [BlockHeader.inBounds, Bool.not_eq_true', Bool.or_eq_false_iff, decide_eq_false_iff_not] at h
  exact Int64.not_lt.mp h.1.2

section
variable {env : Env} {issued : List (Nat × Item)} {writers : List (UInt64 × UInt64)}

/-- The blocks of an issued chain satisfy what `emit_builder` guarantees. -/
theorem FramesIssued.made (hitems : ∀ w ∈ issued, ItemOk env issued writers w.1 w.2) {slot : UInt32}
    {fs : List (BlockHeader × Bytes)} (h : FramesIssued env issued slot fs)
    {f : BlockHeader × Bytes} (hf : f ∈ fs) :
    ∃ off raw, (off, f.1, f.2) ∈ chainFrames (env.partitionBase slot) partitionHeaderRegionSize fs ∧
      FrameMade env issued writers off f.1 f.2 raw := by
  obtain ⟨off, ho⟩ := mem_chainFrames (env.partitionBase slot)
    partitionHeaderRegionSize hf
  obtain ⟨raw, hm⟩ := h _ ho
  exact ⟨off, raw, ho, hitems _ hm⟩

/-- A written footer decodes to itself. -/
theorem FooterMade.decodes (hitems : ∀ w ∈ issued, ItemOk env issued writers w.1 w.2) {off : Nat}
    {f : PartitionFooter} {es : List IndexEntry} (h : FooterMade env issued off f es) :
    decodePartitionFooter (encodePartitionFooter f) = .ok f := by
  obtain ⟨p, hp, -, rfl, rfl, hfit⟩ := h
  obtain ⟨fs, hopen, hissued⟩ := hp.blocks
  have hir : env.indexRegionSize < 2 ^ 32 := env.volume.indexRegionSize.toNat_lt
  rw [encodeIndex_length] at hfit
  have hn : p.activeIndex.length < 2 ^ 32 := by omega
  refine decodePartitionFooter_encode ?_ fun _ => ?_
  · simp only [sealFooter, encodeIndex_length]
    rw [toNat_ofNat32 hn, toNat_ofNat32 (by omega)]
    simp only [indexEntryEncodedSize]
  · simp only [sealFooter]
    cases ht : p.hasTime with
    | false => simp
    | true =>
      have htimes : ∀ e ∈ chainEntries partitionHeaderRegionSize fs, e.minTimeNs ≤ e.maxTimeNs :=
        chainEntries_times fun f hf => by
          obtain ⟨off, raw, -, hmade⟩ := hissued.made hitems hf
          obtain ⟨c, q, hq, -⟩ := hmade.made
          exact inBounds_times hq.inBounds
      rw [hopen] at ht ⊢
      exact foldl_addTotals_times _ _ htimes (fun h => by cases h) ht

/-- The writer of the last block of an issued chain is one of the writers. -/
theorem FramesIssued.lastWriter (hitems : ∀ w ∈ issued, ItemOk env issued writers w.1 w.2)
    {slot : UInt32} {fs : List (BlockHeader × Bytes)} (h : FramesIssued env issued slot fs) :
    lastWriter (chainEntries partitionHeaderRegionSize fs) = (0, 0) ∨
      ∃ j : Nat, writers[j]? = some (lastWriter (chainEntries partitionHeaderRegionSize fs)) := by
  rcases List.eq_nil_or_concat fs with rfl | ⟨front, f, rfl⟩
  · exact Or.inl rfl
  · right
    rw [List.concat_eq_append] at h ⊢
    obtain ⟨off, raw, -, hmade⟩ := h.made hitems (f := f) (by simp)
    obtain ⟨j, hj, -⟩ := hmade.writer
    obtain ⟨b, x⟩ := f
    refine ⟨j, ?_⟩
    rw [hj, chainEntries_append]
    simp [chainEntries, TFDB.lastWriter, blockEntry]

end

/-! ## The invariant holds in every run -/

theorem getLast?_index {α : Type} {l : List α} {a : α} (h : l.getLast? = some a) :
    l[l.length - 1]? = some a := by
  rwa [List.getLast?_eq_getElem?] at h

section
variable {env : Env} {cut : Disk Item → Image → Prop} {assumed : Disk Item → Prop}

theorem PartOk.slotOf {issued : List (Nat × Item)} {writers : List (UInt64 × UInt64)}
    (hitems : ∀ w ∈ issued, ItemOk env issued writers w.1 w.2) {p : PartitionState}
    (hp : PartOk env issued p) : SlotOf env p.header.slot p.header.generation := by
  obtain ⟨h, features, hm, he⟩ := hp.header
  obtain ⟨hmade, -⟩ : HeaderMade env h ∧ _ := hitems _ hm
  rw [he]
  exact hmade.slotOf

/-- What one write adds to the log, and what the phase knows afterwards. -/
theorem Phase.Write.logged {φ φ' : Phase} {off : Nat} {i : Item} (h : Phase.Write env φ off i φ')
    (g : Geometry env) {issued : List (Nat × Item)} {writers : List (UInt64 × UInt64)}
    (hitems : ∀ w ∈ issued, ItemOk env issued writers w.1 w.2)
    (hφ : PhaseOk env issued writers φ) :
    ItemOk env issued writers off i ∧ PhaseOk env (issued ++ [(off, i)]) writers φ' := by
  have hsub : issued ⊆ issued ++ [(off, i)] := List.subset_append_left ..
  have active {c : Cat} {p : PartitionState} (hc : LiveCat env issued writers c)
      (hp : c.active = some p) : PartOk env issued p := by
    obtain ⟨q, hq, -, hok⟩ := hc.active
    cases hp.symm.trans hq
    exact hok
  cases h with
  | @frame c p b payload raw hp hs hf =>
    have hok := active hφ hp
    obtain ⟨fs, hopen, hissued⟩ := hok.blocks
    have hlast := getLast?_index hφ.writer
    have hidx : p.activeIndex = chainEntries partitionHeaderRegionSize fs := by
      rw [hopen]
      exact openState_activeIndex _ _
    refine ⟨⟨⟨c, p, hf, hok, rfl⟩, writers.length - 1, ?_, ?_⟩, hφ.writer, ?_⟩
    · rw [hlast, hf.writer]
    · rw [hf.previous, hidx]
      rcases hissued.lastWriter hitems with h0 | ⟨j, hj⟩
      · exact Or.inl h0
      · refine Or.inr ⟨j, ?_, hj⟩
        have := (List.getElem?_eq_some_iff.mp hj).1
        omega
    · refine ⟨addBlock p b (blockHeaderEncodedSize + b.storedSize.toNat) b.frameSpan.toNat, ?_, hs, ?_⟩
      · rw [Cat.active_addFrame, hp]
        rfl
      · have hadd : addBlock p b (blockHeaderEncodedSize + b.storedSize.toNat) b.frameSpan.toNat =
            openState p.header (fs ++ [(b, payload)]) := by
          rw [← addBlock_openState, ← hopen]
        rw [hadd]
        obtain ⟨h, features, hm, he⟩ := hok.header
        refine ⟨⟨h, features, hsub hm, by rw [openState_header]; exact he⟩, fs ++ [(b, payload)],
          by rw [openState_header], ?_⟩
        intro f hfm
        rw [openState_header, chainFrames_append] at hfm
        rcases List.mem_append.mp hfm with hfm | hfm
        · obtain ⟨r, hr⟩ := hissued f hfm
          exact ⟨r, hsub hr⟩
        · rw [List.mem_singleton.mp hfm]
          refine ⟨raw, List.mem_append_right _ (List.mem_singleton.mpr ?_)⟩
          rw [hopen]
          simp
  | @index c p hp hs hd hne hfit =>
    have hok := active hφ hp
    exact ⟨⟨_, (hok.slotOf hitems).lt g, rfl, hfit⟩, LiveCat.mono hφ hsub⟩
  | @footer c p hp hs hfit =>
    exact ⟨⟨p, active hφ hp, rfl, rfl, rfl, hfit⟩, LiveCat.mono hφ hsub⟩
  | @emptyFooter c p hp hs hd hne =>
    exact ⟨⟨p, active hφ hp, rfl, rfl, rfl, by rw [hne]; exact Nat.zero_le _⟩, LiveCat.mono hφ hsub⟩
  | header ho =>
    exact ⟨⟨⟨rfl, ho, hφ.1⟩, rfl⟩, ⟨rfl, ho, hφ.1⟩, List.mem_append_right _ (List.mem_singleton_self _),
      hφ.2⟩

/-- What the phase knows after a flush. -/
theorem Phase.Flush.logged {φ φ' : Phase} (h : Phase.Flush env φ φ') (g : Geometry env)
    {issued : List (Nat × Item)} {writers : List (UInt64 × UInt64)}
    (hitems : ∀ w ∈ issued, ItemOk env issued writers w.1 w.2)
    (hφ : PhaseOk env issued writers φ) : PhaseOk env issued writers φ' := by
  cases h with
  | sync => exact ⟨hφ.writer, hφ.active⟩
  | @sealed c p hp hs hg =>
    obtain ⟨q, hq, -, hok⟩ := LiveCat.active hφ
    cases hp.symm.trans hq
    exact ⟨(hok.slotOf hitems).next g hg, LiveCat.writer (c := c) hφ⟩
  | @install c h =>
    obtain ⟨hmade, hm, hw⟩ := hφ
    refine ⟨hw, _, Cat.active_install c h, rfl, ⟨h, h.features, hm, rfl⟩, [], rfl, ?_⟩
    intro f hf
    cases hf

/-- What the phase of an open knows. -/
theorem openPhase_logged (g : Geometry env) {issued : List (Nat × Item)}
    {writers : List (UInt64 × UInt64)} {m : Image} {id : UInt64 × UInt64}
    (hitems : ∀ w ∈ issued, ItemOk env issued writers w.1 w.2)
    (hc : CollisionFree env issued m) (hm : env.volume.volumeSize.toNat ≤ m.size)
    (hgen : GenerationsOk (slotStates env m)) :
    PhaseOk env issued (writers ++ [id]) (openPhase env m id) := by
  have hlast : (writers ++ [id]).getLast? = some (openedCat env m id).writerId := by
    rw [List.getLast?_concat]
    rfl
  unfold openPhase
  split
  · trivial
  split
  · exact ⟨slotOf_first, hlast⟩
  · rename_i p hp
    have hmem : p ∈ slotStates env m := by
      rcases catalogOf_cases env m with ⟨-, h⟩ | ⟨older, newest, h, -, hn, -⟩
      · rw [h] at hp
        cases hp
      · rw [h, List.getLast?_concat] at hp
        cases hp
        exact hn
    obtain ⟨hslot, hstate⟩ := mem_slotStates.mp hmem
    split
    · split
      · trivial
      · rename_i hmax
        obtain ⟨h, hmade, -, -, heq, -, -⟩ :=
          slotHeader_issued g hitems hc hslot (slotState_header hstate)
        rw [heq] at hmax ⊢
        exact ⟨hmade.slotOf.next g hmax, hlast⟩
    · rename_i hs
      have hs' : p.isSealed = false := by simpa using hs
      exact ⟨hlast, p, openedCat_active _ hgen hp, hs',
        partOk_of_slotState g hitems hc hm hslot hstate hs'⟩

/-- **The log invariant holds in every run.** -/
theorem PReach.log (hcut : ∀ d m, cut d m → d.MixCut (Item.bytes env) m)
    (hassumed : ∀ d, assumed d → CollisionFreeNow env d) {x : PSys} (h : PReach env cut assumed x) :
    LogInv env x := by
  induction h with
  | @init x h =>
    refine ⟨?_, trivial, ?_, ?_, List.nodup_nil, fun h => by cases h⟩
    · rw [h.issued]
      exact fun w hw => by cases hw
    · rw [h.pending]
      exact fun w hw => by cases hw
    · rw [h.flushed]
      exact fun w hw => by cases hw
  | @step x y hx hstep ih =>
    have g := hx.geometry
    -- an issued item extends the log
    have issue (off : Nat) (i : Item) (n : Nat) (φ : Phase)
        (hi : ItemOk env x.disk.issued x.writers off i)
        (hφ : PhaseOk env (x.disk.issued ++ [(off, i)]) x.writers φ) :
        LogInv env { x with disk := x.disk.issue off i n, phase := φ } := by
      have hsub : x.disk.issued ⊆ x.disk.issued ++ [(off, i)] := List.subset_append_left ..
      refine ⟨fun w hw => ?_, hφ, fun w hw => ?_, fun w hw => hsub (ih.flushed w hw), ih.nodup,
        ih.nonzero⟩
      · rcases List.mem_append.mp hw with hw | hw
        · exact (ih.items w hw).mono hsub (List.prefix_refl _)
        · rw [List.mem_singleton.mp hw]
          exact hi.mono hsub (List.prefix_refl _)
      · rcases List.mem_append.mp hw with hw | hw
        · exact hsub (ih.pending w hw)
        · rw [List.mem_singleton.mp hw]
          exact List.mem_append_right _ (List.mem_singleton_self _)
    have flush (φ : Phase) (hφ : PhaseOk env x.disk.issued x.writers φ) :
        LogInv env { x with disk := x.disk.flush (Item.bytes env), phase := φ } := by
      refine ⟨ih.items, hφ, fun w hw => (by cases hw), fun w hw => ?_, ih.nodup, ih.nonzero⟩
      rcases (Disk.mem_flush_flushed _).mp hw with hw | ⟨w', hw', -, rfl⟩
      · exact ih.flushed w hw
      · exact ih.pending w' hw'
    cases hstep with
    | format hφ off n hoff =>
      have := issue off (.volume env.volume) n .halted ⟨rfl, hoff⟩ trivial
      rwa [← hφ] at this
    | formatFlush hφ hvol =>
      have := flush .halted trivial
      rwa [← hφ] at this
    | write h =>
      obtain ⟨hi, hφ⟩ := h.logged g ih.items ih.phase
      exact issue _ _ _ _ hi hφ
    | writeFails n h =>
      obtain ⟨hi, -⟩ := h.logged g ih.items ih.phase
      exact issue _ _ n .halted hi trivial
    | flush h => exact flush _ (h.logged g ih.items ih.phase)
    | halt => exact ⟨ih.items, trivial, ih.pending, ih.flushed, ih.nodup, ih.nonzero⟩
    | powerCut m h => exact ⟨ih.items, trivial, fun w hw => (by cases hw), ih.flushed, ih.nodup,
        ih.nonzero⟩
    | startOpen id hφ had hfresh hid hnf hgen =>
      refine ⟨fun w hw => (ih.items w hw).mono (List.Subset.refl _) (List.prefix_append ..),
        openPhase_logged g ih.items (hassumed _ had) (hx.seen_size hcut) hgen, ih.pending, ih.flushed,
        ?_, ?_⟩
      · rw [List.nodup_append]
        refine ⟨ih.nodup, List.nodup_singleton _, fun a ha b hb => ?_⟩
        rw [List.mem_singleton.mp hb]
        exact fun he => hfresh (he ▸ ha)
      · intro h0
        rcases List.mem_append.mp h0 with h0 | h0
        · exact ih.nonzero h0
        · exact hid (List.mem_singleton.mp h0).symm

end

end TFDB
