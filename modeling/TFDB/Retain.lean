import TFDB.Log

/-!
# What a volume retains

A block that a flush has covered stays where a scan finds it, in every image a power cut may
leave, as long as its slot has not been given to a newer generation.

* `Found` — the image holds the header of the block's partition and a chain of frames from the
  start of the data region that ends in the block;
* `Current` — no header of a newer generation was issued for the slot;
* `RetainInv` — whole frames of current generations are found in what the machine sees, flushed
  ones in every possible cut, and the writer's catalog has all of them.

`PReach.retain` proves the invariant for every run.
-/

set_option autoImplicit false

namespace TFDB

open ByteLib Writer

/-! ## Where writes go -/

theorem chainEnd_ge (cursor : Nat) (fs : List (BlockHeader × Bytes)) : cursor ≤ chainEnd cursor fs := by
  induction fs generalizing cursor with
  | nil => exact Nat.le_refl _
  | cons f fs ih => exact Nat.le_trans (Nat.le_add_right ..) (ih _)

section
variable {env : Env} (g : Geometry env) {issued : List (Nat × Item)}
  {writers : List (UInt64 × UInt64)} (hitems : ∀ w ∈ issued, ItemOk env issued writers w.1 w.2)
include g hitems

/-- A frame lies in the data region of its slot. -/
theorem FrameMade.region {off : Nat} {b : BlockHeader} {payload raw : Bytes}
    (h : FrameMade env issued writers off b payload raw) :
    b.slot < env.volume.partitionCount ∧ SlotOf env b.slot b.generation ∧
      env.partitionBase b.slot + partitionHeaderRegionSize ≤ off ∧
      off + b.frameSpan.toNat ≤ env.partitionBase b.slot + env.indexBegin ∧
      128 + payload.length ≤ b.frameSpan.toNat := by
  obtain ⟨c, p, hf, hp, rfl⟩ := h.made
  obtain ⟨fs, hopen, -⟩ := hp.blocks
  have hso := hp.slotOf hitems
  have hde : p.dataEnd = chainEnd partitionHeaderRegionSize fs := by
    rw [hopen]
    exact openState_dataEnd _ _
  have hge := chainEnd_ge partitionHeaderRegionSize fs
  have hroom := hf.room
  obtain ⟨-, hspan, -, -⟩ := alignUp_spec hf.span
  simp only [blockHeaderEncodedSize] at hspan
  rw [hf.slot, hf.generation]
  exact ⟨hso.lt g, hso, by omega, by omega, by omega⟩

omit hitems in
/-- Structures outside the header and data regions leave these alone, in every slot. -/
theorem ItemOk.avoids {off : Nat} {i : Item} (h : ItemOk env issued writers off i)
    (hi : ∀ h, i ≠ .header h) (hf : ∀ b payload raw, i ≠ .frame b payload raw) (slot : UInt32)
    {a : Nat} (h1 : env.partitionBase slot ≤ a) (h2 : a < env.partitionBase slot + env.indexBegin) :
    a < off ∨ off + (i.bytes env).length ≤ a := by
  have hsum := g.indexBegin_add
  have hfo := g.footerOffset_eq
  -- a structure behind the index offset of slot `t`
  have behind {t : UInt32} {n : Nat} (ho : env.partitionBase t + env.indexBegin ≤ off)
      (hn : off + n ≤ env.partitionBase t + env.partitionSize) : a < off ∨ off + n ≤ a := by
    by_cases hst : slot = t
    · left
      subst hst
      omega
    · rcases Geometry.slots_disjoint env hst with hd | hd
      · left
        omega
      · right
        omega
  cases i with
  | volume v =>
    right
    obtain ⟨-, hoff⟩ := h
    have : volumePrefixSize ≤ env.partitionBase slot := Nat.le_add_right ..
    simp only [Item.bytes_volume_length]
    simp only [volumeHeaderCopySize, volumePrefixSize] at *
    omega
  | header hd => exact absurd rfl (hi hd)
  | frame b payload raw => exact absurd rfl (hf b payload raw)
  | index es =>
    obtain ⟨t, -, rfl, hfit⟩ := h
    refine behind (Nat.le_refl _) ?_
    simp only [Item.bytes]
    omega
  | footer f es =>
    obtain ⟨p, -, hoff, -⟩ : FooterMade env issued off f es := h
    rw [Item.bytes_footer_length]
    simp only [partitionFooterRegionSize] at hsum
    exact behind (t := p.header.slot) (by omega) (by omega)

end

/-! ## Found blocks -/

/-- The image holds the header of the block's partition and a chain that ends in the block. -/
def Found (env : Env) (m : Image) (off : Nat) (b : BlockHeader) (payload : Bytes) : Prop :=
  ∃ h fs st, HeaderMade env h ∧ h.slot = b.slot ∧ h.generation = b.generation ∧
    m.window (env.partitionBase h.slot) partitionHeaderEncodedSize = Item.bytes env (.header h) ∧
    Chain env m h env.indexBegin {} (fs ++ [(b, payload)]) st ∧
    off = env.partitionBase h.slot + chainEnd partitionHeaderRegionSize fs

/-- Finding a block only depends on the header and the frames up to the block. -/
theorem Found.congr {env : Env} {m m' : Image} {off : Nat} {b : BlockHeader} {payload : Bytes}
    (h : Found env m off b payload)
    (hw : ∀ a, env.partitionBase b.slot ≤ a → a < off + b.frameSpan.toNat →
      (a < env.partitionBase b.slot + partitionHeaderEncodedSize ∨
        env.partitionBase b.slot + partitionHeaderRegionSize ≤ a) → m'.byte a = m.byte a) :
    Found env m' off b payload := by
  obtain ⟨h, fs, st, hmade, hslot, hgen, hwin, hch, rfl⟩ := h
  rw [hslot] at hwin hw ⊢
  have hend := hch.cursor_eq
  rw [chainEnd_append] at hend
  simp only [chainEnd] at hend
  have hge := chainEnd_ge partitionHeaderRegionSize fs
  refine ⟨h, fs, st, hmade, hslot, hgen, ?_, ?_, by rw [hslot]⟩
  · rw [hslot, ← hwin]
    refine Image.window_congr fun a h1 h2 => hw a h1 ?_ (Or.inl h2)
    simp only [partitionHeaderEncodedSize, partitionHeaderRegionSize] at *
    omega
  · refine hch.congr fun a h1 h2 => ?_
    rw [hslot] at h1 h2
    have h1 : env.partitionBase b.slot + partitionHeaderRegionSize ≤ a := h1
    exact hw a (by omega) (by omega) (Or.inr h1)

theorem Chain.header_congr {env : Env} {m : Image} {h h' : PartitionHeader} {limit : Nat}
    {st st' : ScanState} {fs : List (BlockHeader × Bytes)} (hc : Chain env m h limit st fs st')
    (h1 : h'.slot = h.slot) (h2 : h'.generation = h.generation) (h3 : h'.options = h.options) :
    Chain env m h' limit st fs st' := by
  induction hc with
  | nil st => exact .nil st
  | cons hf hc ih =>
    obtain ⟨hin, hd, ha, hp, hcrc⟩ := hf
    refine .cons ⟨hin, by rw [h1]; exact hd, ?_, by rw [h1]; exact hp, hcrc⟩ ih
    obtain ⟨a1, a2, a3, a4, a5, a6, a7, a8, a9, a10, a11, a12, a13, a14, a15, a16⟩ := ha
    exact ⟨a1.trans h2.symm, a2.trans h1.symm, a3, a4, a5, a6, a7, a8, a9, a10, a11, by rw [h3]; exact a12,
      a13, a14, a15, a16⟩

/-! ## The invariant -/

/-- No header of a newer generation was issued for the slot. -/
def Current (issued : List (Nat × Item)) (slot : UInt32) (generation : UInt64) : Prop :=
  ∀ off h, (off, Item.header h) ∈ issued → h.slot = slot → h.generation ≤ generation

theorem Current.mono {issued issued' : List (Nat × Item)} {slot : UInt32} {generation : UInt64}
    (h : Current issued' slot generation) (hi : issued ⊆ issued') : Current issued slot generation :=
  fun off hd hm => h off hd (hi hm)

/-- A partition whose catalog entry and image agree: `h` is its header, `fs` its blocks. -/
structure Open (env : Env) (m : Image) (p : PartitionState) (h : PartitionHeader)
    (fs : List (BlockHeader × Bytes)) (st : ScanState) : Prop where
  made : HeaderMade env h
  slot : p.header.slot = h.slot
  generation : p.header.generation = h.generation
  options : p.header.options = h.options
  window : m.window (env.partitionBase h.slot) partitionHeaderEncodedSize = Item.bytes env (.header h)
  chain : Chain env m h env.indexBegin {} fs st
  state : p = openState p.header fs

section
variable (env : Env) (d : Disk Item)

/-- The active partition is open on what the machine sees and lists all whole frames of its
generation, and newer current generations have none. -/
structure Active (c : Cat) : Prop where
  lists : ∃ p h fs st, c.active = some p ∧ Open env (d.volatile (Item.bytes env)) p h fs st ∧
    (Current d.issued h.slot h.generation → ∀ off b payload raw,
      d.Live (Item.bytes env) (off, .frame b payload raw) → b.slot = h.slot →
      b.generation = h.generation →
      (off, b, payload) ∈ chainFrames (env.partitionBase h.slot) partitionHeaderRegionSize fs)
  newer : ∀ p, c.active = some p → ∀ off b payload raw,
    d.Live (Item.bytes env) (off, .frame b payload raw) → Current d.issued b.slot b.generation →
    b.generation ≤ p.header.generation

/-- Current generations from `generation` on have no whole frames. -/
def Unused (generation : UInt64) : Prop := ∀ off b payload raw,
  d.Live (Item.bytes env) (off, .frame b payload raw) → Current d.issued b.slot b.generation →
  b.generation < generation

def RetainPhase : Phase → Prop
  | .ready c => Active env d c
  | .indexed c => Active env d c
  | .footed c => Active env d c
  | .rotating _ _ generation => Unused env d generation
  | .headed _ h => Unused env d h.generation ∧
      (d.volatile (Item.bytes env)).window (env.partitionBase h.slot) partitionHeaderEncodedSize =
        Item.bytes env (.header h)
  | .halted => True

/-- Whole frames of current generations are found. -/
structure RetainInv (φ : Phase) : Prop where
  seen : ∀ off b payload raw, d.Live (Item.bytes env) (off, .frame b payload raw) →
    Current d.issued b.slot b.generation → Found env (d.volatile (Item.bytes env)) off b payload
  durable : ∀ m, d.MixCut (Item.bytes env) m → ∀ off b payload raw,
    (off, Item.frame b payload raw) ∈ d.flushed → Current d.issued b.slot b.generation →
    Found env m off b payload
  phase : RetainPhase env d φ

end

theorem lt_succ64 {a b : UInt64} (hb : b ≠ 0xffffffffffffffff) (h : a ≤ b) : a < b + 1 := by
  rw [UInt64.lt_iff_toNat_lt, succ64_toNat hb]
  exact Nat.lt_succ_of_le (UInt64.le_iff_toNat_le.mp h)

/-! ## Blocks of an open partition -/

theorem mem_chainFrames_split {base cursor : Nat} {fs : List (BlockHeader × Bytes)}
    {f : Nat × BlockHeader × Bytes} (h : f ∈ chainFrames base cursor fs) :
    ∃ front back, fs = front ++ (f.2.1, f.2.2) :: back ∧ f.1 = base + chainEnd cursor front := by
  induction fs generalizing cursor with
  | nil => cases h
  | cons f' fs ih =>
    obtain ⟨b, x⟩ := f'
    rcases List.mem_cons.mp h with rfl | h
    · exact ⟨[], fs, rfl, rfl⟩
    · obtain ⟨front, back, rfl, ho⟩ := ih h
      exact ⟨(b, x) :: front, back, rfl, ho⟩

theorem Chain.split {env : Env} {m : Image} {h : PartitionHeader} {limit : Nat} {st st' : ScanState}
    {fs gs : List (BlockHeader × Bytes)} (hc : Chain env m h limit st (fs ++ gs) st') :
    ∃ sm, Chain env m h limit st fs sm ∧ Chain env m h limit sm gs st' := by
  induction fs generalizing st with
  | nil => exact ⟨st, .nil st, hc⟩
  | cons f fs ih =>
    cases hc with
    | cons hf hc =>
      obtain ⟨sm, h1, h2⟩ := ih hc
      exact ⟨sm, .cons hf h1, h2⟩

section
variable {env : Env} {m : Image} {p : PartitionState} {h : PartitionHeader}
  {fs : List (BlockHeader × Bytes)} {st : ScanState}

/-- The blocks of an open partition are found. -/
theorem Open.found (ho : Open env m p h fs st) {off : Nat} {b : BlockHeader} {payload : Bytes}
    (hf : (off, b, payload) ∈ chainFrames (env.partitionBase h.slot) partitionHeaderRegionSize fs)
    (hs : b.slot = h.slot) (hg : b.generation = h.generation) : Found env m off b payload := by
  obtain ⟨front, back, rfl, hoff⟩ := mem_chainFrames_split hf
  have hc := ho.chain
  rw [show front ++ (b, payload) :: back = (front ++ [(b, payload)]) ++ back by simp] at hc
  obtain ⟨sm, hc, -⟩ := hc.split
  exact ⟨h, front, sm, ho.made, hs.symm, hg.symm, ho.window, hc, hoff⟩

/-- A found block is one of the blocks of the open partition in its slot. -/
theorem Open.mem_of_found (g : Geometry env) (ho : Open env m p h fs st)
    (hv : h.options.compressionVersion ≠ 0) (hstuck : Stuck env m h env.indexBegin st) {off : Nat}
    {b : BlockHeader} {payload : Bytes} (hf : Found env m off b payload) (hs : b.slot = h.slot) :
    (off, b, payload) ∈ chainFrames (env.partitionBase h.slot) partitionHeaderRegionSize fs := by
  obtain ⟨h', front, sm, hmade, hslot, hgen, hwin, hch, rfl⟩ := hf
  have hacc := ho.made.slotHeader g hv ho.window
  have hslot' : h'.slot = h.slot := hslot.trans hs
  have heq : h.written env = h'.written env := by
    unfold slotHeader at hacc
    rw [← hslot', hwin] at hacc
    exact (hmade.accepted g hacc).1
  have hgen' := congrArg PartitionHeader.generation heq
  have hopt' := congrArg PartitionHeader.options heq
  have hch' : Chain env m h env.indexBegin {} (front ++ [(b, payload)]) sm :=
    hch.header_congr hslot'.symm hgen' hopt'
  obtain ⟨rest, hfs, -⟩ := hch'.prefix ho.chain hstuck
  rw [hfs, chainFrames_append, chainFrames_append, hslot']
  refine List.mem_append_left _ (List.mem_append_right _ ?_)
  simp [chainFrames]

theorem Open.dataEnd (ho : Open env m p h fs st) :
    p.dataEnd = chainEnd partitionHeaderRegionSize fs ∧ st.cursor = p.dataEnd ∧
      p.activeIndex = chainEntries partitionHeaderRegionSize fs := by
  have hc := ho.chain.cursor_eq
  have hs := ho.state
  refine ⟨?_, ?_, ?_⟩
  · rw [hs]
    exact openState_dataEnd _ _
  · rw [hc, hs]
    exact (openState_dataEnd _ _).symm
  · rw [hs]
    exact openState_activeIndex _ _

/-- An open partition only depends on its header and the frames up to its end. -/
theorem Open.congr {m' : Image} (ho : Open env m p h fs st)
    (hw : ∀ a, env.partitionBase h.slot ≤ a → a < env.partitionBase h.slot + p.dataEnd →
      (a < env.partitionBase h.slot + partitionHeaderEncodedSize ∨
        env.partitionBase h.slot + partitionHeaderRegionSize ≤ a) → m'.byte a = m.byte a) :
    Open env m' p h fs st := by
  obtain ⟨hde, hcur, -⟩ := ho.dataEnd
  have hge := chainEnd_ge partitionHeaderRegionSize fs
  refine ⟨ho.made, ho.slot, ho.generation, ho.options, ?_, ?_, ho.state⟩
  · rw [← ho.window]
    refine Image.window_congr fun a h1 h2 => hw a h1 ?_ (Or.inl h2)
    simp only [partitionHeaderEncodedSize, partitionHeaderRegionSize] at *
    omega
  · refine ho.chain.congr fun a h1 h2 => ?_
    have h1 : env.partitionBase h.slot + partitionHeaderRegionSize ≤ a := h1
    exact hw a (by omega) (by omega) (Or.inr h1)

end

/-! ## Writes outside the header and data regions -/

section
variable {env : Env} {d : Disk Item} {off n : Nat} {i : Item}

theorem live_frame_issue {o : Nat} {b : BlockHeader} {payload raw : Bytes}
    (h : (d.issue off i n).Live (Item.bytes env) (o, .frame b payload raw)) :
    d.Live (Item.bytes env) (o, .frame b payload raw) ∨
      ((Item.bytes env i).length ≤ n ∧ o = off ∧ i = .frame b payload raw) := by
  rcases (Disk.live_issue _).mp h with h | ⟨hn, h⟩
  · exact Or.inl h
  · exact Or.inr ⟨hn, (Prod.mk.inj h).1, (Prod.mk.inj h).2.symm⟩

theorem current_issue {slot : UInt32} {generation : UInt64}
    (h : Current (d.issue off i n).issued slot generation) : Current d.issued slot generation :=
  h.mono (List.subset_append_left ..)

theorem current_issue_iff (hi : ∀ h, i ≠ .header h) {slot : UInt32} {generation : UInt64} :
    Current (d.issue off i n).issued slot generation ↔ Current d.issued slot generation := by
  refine ⟨current_issue, fun h o hd hm => ?_⟩
  rcases List.mem_append.mp hm with hm | hm
  · exact h o hd hm
  · exact absurd (Prod.mk.inj (List.mem_singleton.mp hm)).2.symm (hi hd)

variable {issued : List (Nat × Item)} {writers : List (UInt64 × UInt64)}

/-- Writes of volume headers, indexes and footers disturb no block. -/
theorem RetainInv.quiet (g : Geometry env) (hlog : ∀ w ∈ d.issued, ItemOk env d.issued writers w.1 w.2)
    {φ : Phase} (h : RetainInv env d φ) (hok : ItemOk env issued writers off i)
    (hi : ∀ h, i ≠ .header h) (hf : ∀ b payload raw, i ≠ .frame b payload raw)
    (hlive : ∀ w, d.Live (Item.bytes env) w → w ∈ d.issued) :
    (∀ c, Active env d c → Active env (d.issue off i n) c) ∧
      ∀ φ', RetainPhase env (d.issue off i n) φ' → RetainInv env (d.issue off i n) φ' := by
  have hout {slot : UInt32} {a : Nat} (h1 : env.partitionBase slot ≤ a)
      (h2 : a < env.partitionBase slot + env.indexBegin) := hok.avoids g hi hf slot h1 h2
  have hlive' {o : Nat} {b : BlockHeader} {payload raw : Bytes}
      (hl : (d.issue off i n).Live (Item.bytes env) (o, .frame b payload raw)) :
      d.Live (Item.bytes env) (o, .frame b payload raw) := by
    rcases live_frame_issue hl with hl | ⟨-, -, he⟩
    · exact hl
    · exact absurd he (hf _ _ _)
  have region {o : Nat} {b : BlockHeader} {payload raw : Bytes}
      (hl : d.Live (Item.bytes env) (o, .frame b payload raw)) :
      o + b.frameSpan.toNat ≤ env.partitionBase b.slot + env.indexBegin :=
    (FrameMade.region g hlog (hlog _ (hlive _ hl))).2.2.2.1
  refine ⟨fun c hc => ?_, fun φ' hφ => ⟨?_, ?_, hφ⟩⟩
  · obtain ⟨p, hh, fs, st, hp, ho, hall⟩ := hc.lists
    refine ⟨⟨p, hh, fs, st, hp, ?_, ?_⟩, ?_⟩
    · refine ho.congr fun a h1 h2 _ => Disk.volatile_issue_out _ (hout h1 ?_)
      have := ho.chain.cursor_limit (Nat.le_of_lt g.header_lt_indexBegin)
      obtain ⟨-, hcur, -⟩ := ho.dataEnd
      omega
    · exact fun hcur o b payload raw hl => hall ((current_issue_iff hi).mp hcur) o b payload raw (hlive' hl)
    · exact fun q hq o b payload raw hl hcur =>
        hc.newer q hq o b payload raw (hlive' hl) ((current_issue_iff hi).mp hcur)
  · intro o b payload raw hl hcur
    have hl' := hlive' hl
    have hr := region hl'
    refine (h.seen o b payload raw hl' ((current_issue_iff hi).mp hcur)).congr fun a h1 h2 _ => ?_
    exact Disk.volatile_issue_out _ (hout h1 (by omega))
  · intro m hm o b payload raw hl hcur
    obtain ⟨m₀, hm₀, hagree⟩ := Disk.mixCut_issue _ hm
    have hr := region (Disk.live_of_flushed _ hl)
    refine (h.durable m₀ hm₀ o b payload raw hl ((current_issue_iff hi).mp hcur)).congr fun a h1 h2 _ => ?_
    exact hagree a (hout h1 (by omega))

end

/-! ## Writes of frames -/

theorem Chain.end_eq {env : Env} {m : Image} {h : PartitionHeader} {limit : Nat} {st st' : ScanState}
    {fs : List (BlockHeader × Bytes)} (hc : Chain env m h limit st fs st') :
    st' = fs.foldl (fun st f => st.next f.1) st := by
  induction hc with
  | nil st => rfl
  | cons hf hc ih => exact ih

theorem Chain.sequence {env : Env} {m : Image} {h : PartitionHeader} {limit : Nat} {st st' : ScanState}
    {fs : List (BlockHeader × Bytes)} (hc : Chain env m h limit st fs st') :
    st'.expectedSequence = st.expectedSequence + UInt32.ofNat fs.length := by
  induction hc with
  | nil st => simp
  | @cons st st' b x fs hf hc ih =>
    rw [ih, List.length_cons, UInt32.ofNat_add, ← UInt32.add_assoc]
    simp only [ScanState.next]
    rw [UInt32.add_assoc, UInt32.add_assoc, UInt32.add_comm 1]
    rfl

/-- The writer a scan expects next is that of the last block. -/
theorem Chain.expectedWriter {env : Env} {m : Image} {h : PartitionHeader} {limit : Nat}
    {st : ScanState} {fs : List (BlockHeader × Bytes)} (hc : Chain env m h limit {} fs st) :
    (st.expectedWriterHigh, st.expectedWriterLow) =
      lastWriter (chainEntries partitionHeaderRegionSize fs) := by
  rw [hc.end_eq]
  rcases List.eq_nil_or_concat fs with rfl | ⟨front, f, rfl⟩
  · rfl
  · obtain ⟨b, x⟩ := f
    rw [List.concat_eq_append, List.foldl_append, chainEntries_append]
    simp [chainEntries, lastWriter, blockEntry, ScanState.next]

theorem Chain.aligned {env : Env} {m : Image} {h : PartitionHeader} {limit : Nat} {st st' : ScanState}
    {fs : List (BlockHeader × Bytes)} (hc : Chain env m h limit st fs st')
    (hst : st.cursor % env.quantum = 0) : st'.cursor % env.quantum = 0 := by
  induction hc with
  | nil st => exact hst
  | cons hf hc ih =>
    refine ih ?_
    simp only [ScanState.next]
    rw [Nat.add_mod, hst, hf.accepted.span_aligned]
    simp

/-- The frame written at the end of an open partition extends its chain. -/
theorem Open.snoc {env : Env} (g : Geometry env) {m : Image} (m' : Image) {p : PartitionState}
    {h : PartitionHeader} {fs : List (BlockHeader × Bytes)} {st : ScanState}
    (ho : Open env m p h fs st) {c : Cat} {b : BlockHeader} {payload raw : Bytes}
    (hf : FrameOk env c p b payload raw)
    (hout : ∀ a, a < env.partitionBase h.slot + p.dataEnd → m'.byte a = m.byte a)
    (hin : m'.window (env.partitionBase h.slot + p.dataEnd) (128 + payload.length) =
      encodeBlockHeader b ++ payload) :
    Open env m' (addBlock p b (blockHeaderEncodedSize + b.storedSize.toNat) b.frameSpan.toNat) h
      (fs ++ [(b, payload)]) (st.next b) := by
  obtain ⟨hde, hcur, hidx⟩ := ho.dataEnd
  have ho' : Open env m' p h fs st := ho.congr fun a _ h2 _ => hout a h2
  have hent := ho.chain.entries
  have hadd : addBlock p b (blockHeaderEncodedSize + b.storedSize.toNat) b.frameSpan.toNat =
      openState p.header (fs ++ [(b, payload)]) := by
    rw [← addBlock_openState, ← ho.state]
  obtain ⟨hq, hspan, -, hal⟩ := alignUp_spec hf.span
  -- the frame as the scan finds it
  have hw1 : m'.window (env.partitionBase h.slot + st.cursor) blockHeaderEncodedSize =
      encodeBlockHeader b := by
    have := congrArg (fun bs => slice bs 0 128) hin
    rw [Image.slice_window _ (by omega), Nat.add_zero] at this
    rw [hcur]
    refine this.trans ?_
    simp [slice]
  have hw2 : m'.window (env.partitionBase h.slot + st.cursor + blockHeaderEncodedSize)
      b.storedSize.toNat = payload := by
    have := congrArg (fun bs => slice bs 128 payload.length) hin
    rw [Image.slice_window _ (by omega)] at this
    rw [hcur, hf.stored]
    refine this.trans ?_
    simp [slice]
  have hseq : st.expectedSequence = UInt32.ofNat fs.length := by
    rw [ho.chain.sequence]
    exact UInt32.zero_add _
  have hwriter := ho.chain.expectedWriter
  have halign := ho.chain.aligned g.header_aligned
  have hprev := hf.previous
  rw [hidx, ← hwriter] at hprev
  have hroom := hf.room
  have hframe : FrameAt env m' h env.indexBegin st b payload := by
    refine ⟨?_, ?_, ?_, hw2, hf.crc⟩
    · simp only [blockHeaderEncodedSize] at hspan ⊢
      omega
    · rw [hw1]
      exact decodeBlockHeader_encode hf.inBounds
    · refine
        { generation := hf.generation.trans ho.generation, slot := hf.slot.trans ho.slot
          idLow := hf.idLow, idHigh := hf.idHigh, previousHigh := (Prod.mk.inj hprev).1
          previousLow := (Prod.mk.inj hprev).2, sequence := ?_, records := ?_
          times := inBounds_times hf.inBounds, stored_le := ?_, raw_le := ?_
          compression := by rw [← ho.options]; exact hf.compression
          span_aligned := hal, cursor_aligned := halign, span_le := by omega
          span := by rw [hf.stored]; exact hf.span }
      · rw [hf.sequence, hseq, hidx, chainEntries_length]
      · have := hf.inBounds
        simp only [BlockHeader.inBounds, Bool.not_eq_true', Bool.or_eq_false_iff,
          beq_eq_false_iff_ne] at this
        exact this.1.1.1.2
      · rw [UInt32.le_iff_toNat_le, hf.stored]
        exact hf.stored_le
      · rw [UInt32.le_iff_toNat_le, hf.rawSize]
        exact hf.raw_le
  rw [hadd]
  exact ⟨ho.made, by rw [openState_header]; exact ho.slot, by rw [openState_header]; exact ho.generation,
    by rw [openState_header]; exact ho.options, ho'.window, ho'.chain.snoc hframe, by rw [openState_header]⟩

section
variable {env : Env} {d : Disk Item} {writers : List (UInt64 × UInt64)}

/-- A frame written at the end of the active partition disturbs no block, and the catalog goes
on listing all blocks of its generation. -/
theorem RetainInv.frame (g : Geometry env)
    (hlog : ∀ w ∈ d.issued, ItemOk env d.issued writers w.1 w.2)
    (hlive : ∀ w, d.Live (Item.bytes env) w → w ∈ d.issued) {c : Cat}
    (hr : RetainInv env d (.ready c)) {p : PartitionState} (hp : c.active = some p)
    (hpart : PartOk env d.issued p) {b : BlockHeader} {payload raw : Bytes}
    (hf : FrameOk env c p b payload raw) (n : Nat) :
    (∀ φ', RetainPhase env (d.issue (env.partitionBase p.header.slot + p.dataEnd)
        (.frame b payload raw) n) φ' →
      RetainInv env (d.issue (env.partitionBase p.header.slot + p.dataEnd)
        (.frame b payload raw) n) φ') ∧
    ((Item.bytes env (.frame b payload raw)).length ≤ n →
      Active env (d.issue (env.partitionBase p.header.slot + p.dataEnd)
        (.frame b payload raw) n) (c.addFrame b)) := by
  have hact : Active env d c := hr.phase
  obtain ⟨q, h, fs, st, hq, ho, hall⟩ := hact.lists
  cases hp.symm.trans hq
  obtain ⟨hde, hcur, -⟩ := ho.dataEnd
  have hsum := g.indexBegin_add
  have hroom := hf.room
  obtain ⟨-, hspan, -, -⟩ := alignUp_spec hf.span
  simp only [blockHeaderEncodedSize] at hspan
  have hissued : ∃ h0, (env.partitionBase h0.slot, Item.header h0) ∈ d.issued ∧
      h0.slot = h.slot ∧ h0.generation = h.generation := by
    obtain ⟨h0, features, hm, he⟩ := hpart.header
    refine ⟨h0, hm, ?_, ?_⟩
    · rw [← ho.slot, he]
    · rw [← ho.generation, he]
  -- the blocks that have to be kept end before the new frame, or lie in another slot
  have keep {o : Nat} {b' : BlockHeader} {payload' raw' : Bytes}
      (hl : d.Live (Item.bytes env) (o, .frame b' payload' raw'))
      (hc : Current d.issued b'.slot b'.generation) {a : Nat}
      (h1 : env.partitionBase b'.slot ≤ a) (h2 : a < o + b'.frameSpan.toNat) :
      a < env.partitionBase p.header.slot + p.dataEnd ∨
        env.partitionBase p.header.slot + p.dataEnd +
          (Item.bytes env (.frame b payload raw)).length ≤ a := by
    rw [Item.bytes_frame_length]
    have hreg : o + b'.frameSpan.toNat ≤ env.partitionBase b'.slot + env.indexBegin :=
      (FrameMade.region g hlog (hlog _ (hlive _ hl))).2.2.2.1
    by_cases hs : b'.slot = h.slot
    · left
      obtain ⟨h0, hm, hs0, hg0⟩ := hissued
      have hle := hc _ _ hm (hs0.trans hs.symm)
      have hge := hact.newer p hp o b' payload' raw' hl hc
      have hgen : b'.generation = h.generation := by
        apply UInt64.le_antisymm
        · rw [← ho.generation]; exact hge
        · rw [← hg0]; exact hle
      rw [hs, hgen] at hc
      have hmem := hall hc o b' payload' raw' hl hs hgen
      have hend : o + b'.frameSpan.toNat ≤ env.partitionBase h.slot + st.cursor :=
        (ho.chain.frame_bounds hmem).2
      rw [ho.slot]
      omega
    · rw [ho.slot]
      rcases Geometry.slots_disjoint env hs with hd | hd
      · left
        omega
      · right
        omega
  refine ⟨fun φ' hφ => ⟨?_, ?_, hφ⟩, fun hn => ?_⟩
  · intro o b' payload' raw' hl hc
    have hc' := current_issue hc
    rcases live_frame_issue hl with hl' | ⟨hn, rfl, heq⟩
    · exact (hr.seen o b' payload' raw' hl' hc').congr fun a h1 h2 _ =>
        Disk.volatile_issue_out _ (keep hl' hc' h1 h2)
    · cases heq
      have hw := Disk.volatile_issue_whole (Item.bytes env) d
        (env.partitionBase p.header.slot + p.dataEnd) hn
      have hopen := ho.snoc g ((d.issue (env.partitionBase p.header.slot + p.dataEnd)
          (.frame b payload raw) n).volatile (Item.bytes env)) hf
        (fun a ha => Disk.volatile_issue_out _ (Or.inl (by rw [ho.slot]; exact ha)))
        (by rw [← ho.slot, ← Item.bytes_frame_length env b payload raw]; exact hw)
      refine hopen.found ?_ (hf.slot.trans ho.slot) (hf.generation.trans ho.generation)
      rw [chainFrames_append]
      refine List.mem_append_right _ ?_
      simp [chainFrames, ho.slot, hde]
  · intro m hm o b' payload' raw' hl hc
    have hc' := current_issue hc
    obtain ⟨m₀, hm₀, hagree⟩ := Disk.mixCut_issue _ hm
    have hl' : d.Live (Item.bytes env) (o, .frame b' payload' raw') := Disk.live_of_flushed _ hl
    exact (hr.durable m₀ hm₀ o b' payload' raw' hl hc').congr fun a h1 h2 _ =>
      hagree a (keep hl' hc' h1 h2)
  · have hw := Disk.volatile_issue_whole (Item.bytes env) d
      (env.partitionBase p.header.slot + p.dataEnd) hn
    have hopen := ho.snoc g ((d.issue (env.partitionBase p.header.slot + p.dataEnd)
        (.frame b payload raw) n).volatile (Item.bytes env)) hf
      (fun a ha => Disk.volatile_issue_out _ (Or.inl (by rw [ho.slot]; exact ha)))
      (by rw [← ho.slot, ← Item.bytes_frame_length env b payload raw]; exact hw)
    have hact' : (c.addFrame b).active = some (addBlock p b
        (blockHeaderEncodedSize + b.storedSize.toNat) b.frameSpan.toNat) := by
      rw [Cat.active_addFrame, hp]
      rfl
    refine ⟨⟨_, h, _, _, hact', hopen, ?_⟩, ?_⟩
    · intro hc o b' payload' raw' hl hs hg
      rw [chainFrames_append]
      rcases live_frame_issue hl with hl' | ⟨-, rfl, heq⟩
      · exact List.mem_append_left _ (hall (current_issue hc) o b' payload' raw' hl' hs hg)
      · cases heq
        refine List.mem_append_right _ ?_
        simp [chainFrames, ho.slot, hde]
    · intro q hq o b' payload' raw' hl hc
      cases hact'.symm.trans hq
      show b'.generation ≤ p.header.generation
      rcases live_frame_issue hl with hl' | ⟨-, -, heq⟩
      · exact hact.newer p hp o b' payload' raw' hl' (current_issue hc)
      · cases heq
        rw [hf.generation]
        exact UInt64.le_refl _

/-! ## Writes of headers -/

/-- A header written for an unused generation disturbs no block of a current one. -/
theorem RetainInv.header (g : Geometry env)
    (hlog : ∀ w ∈ d.issued, ItemOk env d.issued writers w.1 w.2)
    (hlive : ∀ w, d.Live (Item.bytes env) w → w ∈ d.issued) {h : PartitionHeader} {φ : Phase}
    (hr : RetainInv env d φ) (hu : Unused env d h.generation) (n : Nat) :
    (∀ φ', RetainPhase env (d.issue (env.partitionBase h.slot) (.header h) n) φ' →
      RetainInv env (d.issue (env.partitionBase h.slot) (.header h) n) φ') ∧
    Unused env (d.issue (env.partitionBase h.slot) (.header h) n) h.generation := by
  have hnf {o : Nat} {b : BlockHeader} {payload raw : Bytes}
      (hl : (d.issue (env.partitionBase h.slot) (.header h) n).Live (Item.bytes env)
        (o, .frame b payload raw)) : d.Live (Item.bytes env) (o, .frame b payload raw) := by
    rcases live_frame_issue hl with hl | ⟨-, -, he⟩
    · exact hl
    · cases he
  have hsum := g.indexBegin_add
  have hlt := g.header_lt_indexBegin
  -- a block whose generation is still current lies in another slot
  have keep {o : Nat} {b : BlockHeader} {payload raw : Bytes}
      (hl : d.Live (Item.bytes env) (o, .frame b payload raw))
      (hc : Current (d.issue (env.partitionBase h.slot) (.header h) n).issued b.slot b.generation)
      {a : Nat} (h1 : env.partitionBase b.slot ≤ a) (h2 : a < o + b.frameSpan.toNat) :
      a < env.partitionBase h.slot ∨
        env.partitionBase h.slot + (Item.bytes env (.header h)).length ≤ a := by
    rw [Item.bytes_header_length]
    have hreg : o + b.frameSpan.toNat ≤ env.partitionBase b.slot + env.indexBegin :=
      (FrameMade.region g hlog (hlog _ (hlive _ hl))).2.2.2.1
    have hs : b.slot ≠ h.slot := by
      intro hs
      have hle := hc _ h (List.mem_append_right _ (List.mem_singleton_self _)) hs.symm
      exact absurd (hu o b payload raw hl (current_issue hc)) (UInt64.not_lt.mpr hle)
    simp only [partitionHeaderRegionSize] at hlt
    rcases Geometry.slots_disjoint env hs with hd | hd
    · left
      omega
    · right
      omega
  refine ⟨fun φ' hφ => ⟨?_, ?_, hφ⟩, ?_⟩
  · intro o b payload raw hl hc
    have hl' := hnf hl
    exact (hr.seen o b payload raw hl' (current_issue hc)).congr fun a h1 h2 _ =>
      Disk.volatile_issue_out _ (keep hl' hc h1 h2)
  · intro m hm o b payload raw hl hc
    obtain ⟨m₀, hm₀, hagree⟩ := Disk.mixCut_issue _ hm
    exact (hr.durable m₀ hm₀ o b payload raw hl (current_issue hc)).congr fun a h1 h2 _ =>
      hagree a (keep (Disk.live_of_flushed _ hl) hc h1 h2)
  · exact fun o b payload raw hl hc => hu o b payload raw (hnf hl) (current_issue hc)

end

/-! ## Opens -/

section
variable {env : Env} {m : Image}

/-- A written header names its volume and its generation. -/
theorem headerNames (env : Env) (h : PartitionHeader) :
    get64 (Item.bytes env (.header h)) 16 = h.volumeIdHigh ∧
      get64 (Item.bytes env (.header h)) 24 = h.volumeIdLow ∧
      get64 (Item.bytes env (.header h)) 32 = h.generation := by
  have hfields := partitionHeaderFields_placed h env.volume.partitionSize env.volume.indexRegionSize
  exact ⟨get64_record hfields (by decide) (by simp [partitionHeaderFields, commonFields]) (by omega),
    get64_record hfields (by decide) (by simp [partitionHeaderFields, commonFields]) (by omega),
    get64_record hfields (by decide) (by simp [partitionHeaderFields, commonFields]) (by omega)⟩

/-- A written header is evidence of the volume. -/
theorem slotEvidence_header {h : PartitionHeader} (hm : HeaderMade env h)
    (hw : m.window (env.partitionBase h.slot) partitionHeaderEncodedSize = Item.bytes env (.header h)) :
    slotEvidence env m h.slot = true := by
  have hmagic : slice (Item.bytes env (.header h)) 0 8 = partitionMagic :=
    slice_encodePartitionHeader (by simp [partitionHeaderFields, commonFields]) rfl (by omega)
  obtain ⟨e16, e24, -⟩ := headerNames env h
  have hhigh : get64 (Item.bytes env (.header h)) 16 = env.volume.volumeIdHigh :=
    e16.trans (congrArg PartitionHeader.volumeIdHigh hm.eq)
  have hlow : get64 (Item.bytes env (.header h)) 24 = env.volume.volumeIdLow :=
    e24.trans (congrArg PartitionHeader.volumeIdLow hm.eq)
  have hne : (Item.bytes env (.header h)).all (· == 0) = false := by
    rw [Bool.eq_false_iff]
    intro hall
    have hmem : (0x54 : UInt8) ∈ Item.bytes env (.header h) := by
      have : (0x54 : UInt8) ∈ slice (Item.bytes env (.header h)) 0 8 := by
        rw [hmagic]
        decide
      exact List.mem_of_mem_drop (List.mem_of_mem_take this)
    have := List.all_eq_true.mp hall _ hmem
    exact absurd this (by decide)
  unfold slotEvidence
  simp only [hw, hne, headerEvidence, hmagic, hhigh, hlow, beq_self_eq_true, Bool.and_self,
    Bool.not_false, Bool.true_or]

/-- A written header in place makes its slot a partition, or a damaged slot. -/
theorem slotState_of_window (g : Geometry env) {h : PartitionHeader} (hm : HeaderMade env h)
    (hw : m.window (env.partitionBase h.slot) partitionHeaderEncodedSize = Item.bytes env (.header h))
    (hd : slotDamaged env m h.slot = false) :
    ∃ p, slotState env m h.slot = some p ∧ p.header = h.written env := by
  cases hh : slotHeader env m h.slot with
  | error e =>
    rw [slotDamaged_of_error hh, slotEvidence_header hm hw] at hd
    cases hd
  | ok h' =>
    have hacc : h' = h.written env := by
      unfold slotHeader at hh
      rw [hw] at hh
      exact (hm.accepted g hh).1
    subst hacc
    cases hf : slotFooter env m (h.written env) with
    | ok f => exact ⟨_, slotState_of_sealed hh hf, rfl⟩
    | error e => exact ⟨_, slotState_of_open hh hf, scannedState_header _ _⟩

theorem FrameAt.header_congr {h h' : PartitionHeader} {limit : Nat} {st : ScanState} {b : BlockHeader}
    {payload : Bytes} (hf : FrameAt env m h limit st b payload) (h1 : h'.slot = h.slot)
    (h2 : h'.generation = h.generation) (h3 : h'.options = h.options) :
    FrameAt env m h' limit st b payload := by
  have hc := (Chain.cons hf (.nil _)).header_congr h1 h2 h3
  cases hc with
  | cons hf _ => exact hf

theorem Stuck.header_congr {h h' : PartitionHeader} {limit : Nat} {st : ScanState}
    (hs : Stuck env m h limit st) (h1 : h'.slot = h.slot) (h2 : h'.generation = h.generation)
    (h3 : h'.options = h.options) : Stuck env m h' limit st :=
  fun b payload hf => hs b payload (hf.header_congr h1.symm h2.symm h3.symm)

end

section
variable {env : Env} {d : Disk Item} {writers : List (UInt64 × UInt64)}

/-- What the phase of an open finds. -/
theorem RetainInv.opened (g : Geometry env)
    (hlog : ∀ w ∈ d.issued, ItemOk env d.issued writers w.1 w.2)
    (hlive : ∀ w, d.Live (Item.bytes env) w → w ∈ d.issued)
    (hc : CollisionFreeNow env d)
    (hm : env.volume.volumeSize.toNat ≤ (d.volatile (Item.bytes env)).size)
    (hgen : GenerationsOk (slotStates env (d.volatile (Item.bytes env)))) {φ : Phase}
    (hr : RetainInv env d φ) (id : UInt64 × UInt64) :
    RetainPhase env d (openPhase env (d.volatile (Item.bytes env)) id) := by
  -- a current generation with a whole frame is one of the recovered ones
  have found {o : Nat} {b : BlockHeader} {payload raw : Bytes}
      (hd : ¬ ((slotList env).filter (slotDamaged env (d.volatile (Item.bytes env))) ≠ []))
      (hl : d.Live (Item.bytes env) (o, .frame b payload raw))
      (hcur : Current d.issued b.slot b.generation) :
      ∃ p ∈ slotStates env (d.volatile (Item.bytes env)), p.header.generation = b.generation := by
    obtain ⟨h, fs, st, hmade, hslot, hg, hwin, -, -⟩ := hr.seen o b payload raw hl hcur
    have hlt := (FrameMade.region g hlog (hlog _ (hlive _ hl))).1
    rw [← hslot] at hlt
    have hnd : slotDamaged env (d.volatile (Item.bytes env)) h.slot = false := by
      rw [ne_eq, not_not, List.filter_eq_nil_iff] at hd
      exact Bool.eq_false_iff.mpr (hd _ (mem_slotList.mpr hlt))
    obtain ⟨p, hp, hph⟩ := slotState_of_window g hmade hwin hnd
    refine ⟨p, mem_slotStates.mpr ?_, ?_⟩
    · rw [hph]
      exact ⟨hlt, hp⟩
    · rw [hph]
      exact hg
  unfold openPhase
  split
  · trivial
  rename_i hd
  rcases catalogOf_cases env (d.volatile (Item.bytes env)) with
    ⟨hnil, hcat⟩ | ⟨older, newest, hcat, -, hmem, hmax⟩
  · rw [hcat]
    intro o b payload raw hl hcur
    obtain ⟨p, hp, -⟩ := found hd hl hcur
    rw [hnil] at hp
    cases hp
  have hlast : (catalogOf env (d.volatile (Item.bytes env))).getLast? = some newest := by
    rw [hcat]
    simp
  have hle {o : Nat} {b : BlockHeader} {payload raw : Bytes}
      (hl : d.Live (Item.bytes env) (o, .frame b payload raw))
      (hcur : Current d.issued b.slot b.generation) :
      b.generation ≤ newest.header.generation := by
    obtain ⟨p, hp, hpg⟩ := found hd hl hcur
    rw [← hpg]
    exact hmax p hp
  simp only [hlast]
  split
  · split
    · trivial
    · rename_i hne
      exact fun o b payload raw hl hcur => lt_succ64 hne (hle hl hcur)
  · rename_i hs
    have hs' : newest.isSealed = false := by simpa using hs
    obtain ⟨hslot, hstate⟩ := mem_slotStates.mp hmem
    obtain ⟨fs, st, hopen, hch, hstuck⟩ := slotState_open g hm hslot hstate hs'
    obtain ⟨h, hmade, hhs, -, heq, hv, hwin⟩ := slotHeader_issued g hlog hc hslot (slotState_header hstate)
    have e1 : newest.header.slot = h.slot := hhs.symm
    have e2 : newest.header.generation = h.generation := by rw [heq]; rfl
    have e3 : newest.header.options = h.options := by rw [heq]; rfl
    have ho : Open env (d.volatile (Item.bytes env)) newest h fs st :=
      ⟨hmade, e1, e2, e3, by rw [← e1]; exact hwin, hch.header_congr e1.symm e2.symm e3.symm, hopen⟩
    have hstuck' : Stuck env (d.volatile (Item.bytes env)) h env.indexBegin st :=
      hstuck.header_congr e1.symm e2.symm e3.symm
    have hact := openedCat_active id hgen hlast
    refine ⟨⟨newest, h, fs, st, hact, ho, ?_⟩, ?_⟩
    · intro hcur o b payload raw hl hbs hbg
      rw [← hbs, ← hbg] at hcur
      exact ho.mem_of_found g hv hstuck' (hr.seen o b payload raw hl hcur) hbs
    · intro p hp o b payload raw hl hcur
      cases hact.symm.trans hp
      exact hle hl hcur

theorem RetainInv.flush {φ : Phase} (hr : RetainInv env d φ) {φ' : Phase}
    (hφ : RetainPhase env (d.flush (Item.bytes env)) φ') :
    RetainInv env (d.flush (Item.bytes env)) φ' := by
  refine ⟨fun o b payload raw hl hcur => ?_, fun m hm o b payload raw hl hcur => ?_, hφ⟩
  · rw [Disk.flush_volatile]
    exact hr.seen o b payload raw ((Disk.live_flush _).mp hl) hcur
  · rw [Disk.mixCut_flush _ hm]
    exact hr.seen o b payload raw ((Disk.flushed_flush _).mp hl) hcur

theorem Active.flush {c c' : Cat} (ha : Active env d c) (he : c'.active = c.active) :
    Active env (d.flush (Item.bytes env)) c' := by
  obtain ⟨p, h, fs, st, hp, ho, hall⟩ := ha.lists
  refine ⟨⟨p, h, fs, st, he.trans hp, by rw [Disk.flush_volatile]; exact ho, ?_⟩, ?_⟩
  · exact fun hcur o b payload raw hl => hall hcur o b payload raw ((Disk.live_flush _).mp hl)
  · exact fun q hq o b payload raw hl hcur =>
      ha.newer q (he ▸ hq) o b payload raw ((Disk.live_flush _).mp hl) hcur

end

/-! ## The invariant holds in every run -/

/-- What is live has been issued. -/
theorem LogInv.live {env : Env} {x : PSys} (h : LogInv env x) {w : Nat × Item}
    (hw : x.disk.Live (Item.bytes env) w) : w ∈ x.disk.issued := by
  rcases hw with hw | ⟨w', hw', -, rfl⟩
  · exact h.flushed w hw
  · exact h.pending w' hw'

section
variable {env : Env} {cut : Disk Item → Image → Prop} {assumed : Disk Item → Prop}

/-- **Flushed blocks of current generations are found in every cut, in every run.** -/
theorem PReach.retain (hcut : ∀ d m, cut d m → d.MixCut (Item.bytes env) m)
    (hassumed : ∀ d, assumed d → CollisionFreeNow env d) {x : PSys} (h : PReach env cut assumed x) :
    RetainInv env x.disk x.phase := by
  induction h with
  | @init x h =>
    have hnone (w : Nat × Item) : ¬ x.disk.Live (Item.bytes env) w := by
      rintro (hw | ⟨w', hw', -⟩)
      · rw [h.flushed] at hw
        cases hw
      · rw [h.pending] at hw'
        cases hw'
    exact ⟨fun o b payload raw hl => absurd hl (hnone _),
      fun m hm o b payload raw hl => absurd (Disk.live_of_flushed _ hl) (hnone _), trivial⟩
  | @step x y hx hstep ih =>
    have g := hx.geometry
    have hlog := hx.log hcut hassumed
    have hlive (w : Nat × Item) (hw : x.disk.Live (Item.bytes env) w) := hlog.live hw
    -- one write, whole or not
    have write {off : Nat} {i : Item} {φ' : Phase} (hw : Phase.Write env x.phase off i φ') (n : Nat) :
        RetainInv env (x.disk.issue off i n) .halted ∧
          ((i.bytes env).length ≤ n → RetainPhase env (x.disk.issue off i n) φ') := by
      have hitem := (hw.logged g hlog.items hlog.phase).1
      generalize hφ : x.phase = φ at hw ih
      have hphase := ih.phase
      cases hw with
      | @frame c p b payload raw hp hs hf =>
        have hpart : PartOk env x.disk.issued p := by
          have hlc : LiveCat env x.disk.issued x.writers c := by
            have := hlog.phase
            rwa [hφ] at this
          obtain ⟨q, hq, -, hok⟩ := hlc.active
          cases hp.symm.trans hq
          exact hok
        obtain ⟨h1, h2⟩ := ih.frame g hlog.items hlive hp hpart hf n
        exact ⟨h1 _ trivial, h2⟩
      | index hp hs hd hne hfit =>
        obtain ⟨h1, h2⟩ := ih.quiet g hlog.items (n := n) hitem (fun _ h => by cases h)
          (fun _ _ _ h => by cases h) hlive
        exact ⟨h2 _ trivial, fun _ => h1 _ hphase⟩
      | footer hp hs hfit =>
        obtain ⟨h1, h2⟩ := ih.quiet g hlog.items (n := n) hitem (fun _ h => by cases h)
          (fun _ _ _ h => by cases h) hlive
        exact ⟨h2 _ trivial, fun _ => h1 _ hphase⟩
      | emptyFooter hp hs hd hne =>
        obtain ⟨h1, h2⟩ := ih.quiet g hlog.items (n := n) hitem (fun _ h => by cases h)
          (fun _ _ _ h => by cases h) hlive
        exact ⟨h2 _ trivial, fun _ => h1 _ hphase⟩
      | @header c slot generation options ho =>
        obtain ⟨h1, h2⟩ := ih.header g hlog.items hlive (h := newHeader env slot generation options)
          hphase n
        refine ⟨h1 _ trivial, fun hn => ⟨h2, ?_⟩⟩
        have := Disk.volatile_issue_whole (Item.bytes env) x.disk (env.partitionBase slot) hn
        rwa [Item.bytes_header_length] at this
    cases hstep with
    | format hφ off n hoff =>
      have hok : ItemOk env x.disk.issued x.writers off (.volume env.volume) := ⟨rfl, hoff⟩
      obtain ⟨-, h2⟩ := ih.quiet g hlog.items (n := n) hok (fun _ h => by cases h)
        (fun _ _ _ h => by cases h) hlive
      rw [hφ]
      exact h2 _ trivial
    | formatFlush hφ hvol =>
      rw [hφ]
      exact ih.flush trivial
    | write h =>
      obtain ⟨h1, h2⟩ := write h _
      exact ⟨h1.seen, h1.durable, h2 (Nat.le_refl _)⟩
    | writeFails n h => exact (write h n).1
    | flush h =>
      refine ih.flush ?_
      have hphase := ih.phase
      have hlogp := hlog.phase
      generalize x.phase = φ at h hphase hlogp
      cases h with
      | sync => exact Active.flush hphase rfl
      | @sealed c p hp hs hg =>
        intro o b payload raw hl hcur
        exact lt_succ64 hg (Active.newer hphase p hp o b payload raw ((Disk.live_flush _).mp hl) hcur)
      | @install c h =>
        obtain ⟨hu, hwin⟩ := hphase
        have hact := Cat.active_install c h
        have unused {o : Nat} {b : BlockHeader} {payload raw : Bytes}
            (hl : (x.disk.flush (Item.bytes env)).Live (Item.bytes env) (o, .frame b payload raw))
            (hcur : Current x.disk.issued b.slot b.generation) : b.generation < h.generation :=
          hu o b payload raw ((Disk.live_flush _).mp hl) hcur
        refine ⟨⟨{ header := h }, h, [], {}, hact, ?_, ?_⟩, ?_⟩
        · exact ⟨hlogp.1, rfl, rfl, rfl, by rw [Disk.flush_volatile]; exact hwin, .nil _, rfl⟩
        · intro hcur o b payload raw hl hbs hbg
          exfalso
          rw [← hbs, ← hbg] at hcur
          have := unused hl hcur
          rw [hbg] at this
          exact absurd this (UInt64.lt_irrefl _)
        · intro p hp o b payload raw hl hcur
          cases hact.symm.trans hp
          exact UInt64.le_of_lt (unused hl hcur)
    | halt => exact ⟨ih.seen, ih.durable, trivial⟩
    | powerCut m h =>
      refine ⟨fun o b payload raw hl hcur => ?_, fun m' hm' o b payload raw hl hcur => ?_, trivial⟩
      · exact ih.durable m (hcut _ _ h) o b payload raw ((Disk.live_restart _).mp hl) hcur
      · rw [Disk.mixCut_restart _ hm']
        exact ih.durable m (hcut _ _ h) o b payload raw hl hcur
    | startOpen id hφ had hfresh hid hnf hgen =>
      exact ⟨ih.seen, ih.durable,
        ih.opened g hlog.items hlive (hassumed _ had) (hx.seen_size hcut) hgen id⟩

end

end TFDB
