import TFDB.Retain

/-!
# Footers and the blocks they close

A footer names a number of blocks and the end of their data.  `SealedBy` says which blocks these
are: the chain the writer knew when it filled the footer in.

* `PReach.footers` — every issued footer is such a footer, and where seals come last
  (`SealOrder`) it lists every whole frame of its generation.
-/

set_option autoImplicit false

namespace TFDB

open ByteLib Writer

/-! ## Sealed chains -/

/-- The footer `f` with the index `es` closes the chain `fs` of the partition `h`. -/
structure SealedBy (env : Env) (f : PartitionFooter) (es : List IndexEntry) (h : PartitionHeader)
    (fs : List (BlockHeader × Bytes)) : Prop where
  chain : ∃ m st, Chain env m h env.indexBegin {} fs st
  footer : f = sealFooter env (openState h fs)
  entries : es = chainEntries partitionHeaderRegionSize fs
  fits : (encodeIndex es).length ≤ env.indexRegionSize

section
variable {env : Env} {f : PartitionFooter} {es : List IndexEntry} {h : PartitionHeader}
  {fs : List (BlockHeader × Bytes)}

theorem SealedBy.generation (hs : SealedBy env f es h fs) : f.generation = h.generation := by
  rw [hs.footer]
  simp [sealFooter]

theorem SealedBy.slot (hs : SealedBy env f es h fs) : f.slot = h.slot := by
  rw [hs.footer]
  simp [sealFooter]

theorem SealedBy.length_lt (hs : SealedBy env f es h fs) : fs.length * 48 ≤ env.indexRegionSize := by
  have := hs.fits
  rwa [hs.entries, encodeIndex_length, chainEntries_length] at this

theorem SealedBy.blockCount (hs : SealedBy env f es h fs) : f.blockCount.toNat = fs.length := by
  have hlt : env.indexRegionSize < 2 ^ 32 := env.volume.indexRegionSize.toNat_lt
  have hn := hs.length_lt
  rw [hs.footer]
  simp only [sealFooter, openState_activeIndex, chainEntries_length]
  exact toNat_ofNat32 (by omega)

theorem SealedBy.dataEnd (g : Geometry env) (hs : SealedBy env f es h fs) :
    f.dataEnd.toNat = chainEnd partitionHeaderRegionSize fs ∧
      chainEnd partitionHeaderRegionSize fs ≤ env.indexBegin := by
  obtain ⟨m, st, hc⟩ := hs.chain
  have hcur := hc.cursor_eq
  have hle := hc.cursor_limit (Nat.le_of_lt g.header_lt_indexBegin)
  have hsum := g.indexBegin_add
  have hsz := Geometry.partitionSize_lt env
  have hcur' : st.cursor = chainEnd partitionHeaderRegionSize fs := hcur
  refine ⟨?_, by omega⟩
  rw [hs.footer]
  simp only [sealFooter, openState_dataEnd]
  rw [UInt64.toNat_ofNat', Nat.mod_eq_of_lt]
  omega

/-- A block of the chain lies before the footer's counters. -/
theorem SealedBy.covers (g : Geometry env) (hs : SealedBy env f es h fs) {o : Nat} {b : BlockHeader}
    {payload : Bytes}
    (hm : (o, b, payload) ∈ chainFrames (env.partitionBase h.slot) partitionHeaderRegionSize fs) :
    b.sequence < f.blockCount ∧
      o + b.frameSpan.toNat ≤ env.partitionBase h.slot + f.dataEnd.toNat := by
  obtain ⟨m, st, hc⟩ := hs.chain
  obtain ⟨hde, -⟩ := hs.dataEnd g
  have hcur : st.cursor = chainEnd partitionHeaderRegionSize fs := hc.cursor_eq
  have hb : o + b.frameSpan.toNat ≤ env.partitionBase h.slot + st.cursor := (hc.frame_bounds hm).2
  refine ⟨?_, by omega⟩
  obtain ⟨front, back, hfs, -⟩ := mem_chainFrames_split hm
  have hfs : fs = front ++ (b, payload) :: back := hfs
  subst hfs
  obtain ⟨sm, hfront, hback⟩ := hc.split
  have hseq := hfront.sequence
  cases hback with
  | cons hfr _ =>
    have hlt : env.indexRegionSize < 2 ^ 32 := env.volume.indexRegionSize.toNat_lt
    have hn := hs.length_lt
    have hlen : (front ++ (b, payload) :: back).length = front.length + (back.length + 1) := by simp
    rw [UInt32.lt_iff_toNat_lt, hs.blockCount, hfr.accepted.sequence, hseq]
    have h0 : (({} : ScanState).expectedSequence + UInt32.ofNat front.length).toNat = front.length := by
      have : ({} : ScanState).expectedSequence + UInt32.ofNat front.length =
          UInt32.ofNat front.length := UInt32.zero_add _
      rw [this]
      exact toNat_ofNat32 (by omega)
    rw [h0, hlen]
    omega

/-- The times of the blocks of a chain are in order. -/
theorem Chain.times {m : Image} {limit : Nat} {st st' : ScanState}
    (hc : Chain env m h limit st fs st') : ∀ f ∈ fs, f.1.minTimeNs ≤ f.1.maxTimeNs := by
  induction hc with
  | nil st => exact fun f hf => (by cases hf)
  | cons hf _ ih =>
    intro f hm
    rcases List.mem_cons.mp hm with rfl | hm
    · exact hf.accepted.times
    · exact ih f hm

theorem SealedBy.times (hs : SealedBy env f es h fs) : f.minTimeNs ≤ f.maxTimeNs := by
  obtain ⟨m, st, hc⟩ := hs.chain
  rw [hs.footer]
  simp only [sealFooter]
  cases ht : (openState h fs).hasTime with
  | false => simp
  | true => exact foldl_addTotals_times _ _ (chainEntries_times hc.times) (fun h => by cases h) ht

theorem SealedBy.indexSize (hs : SealedBy env f es h fs) :
    f.indexSize.toNat = fs.length * indexEntryEncodedSize := by
  have hlt : env.indexRegionSize < 2 ^ 32 := env.volume.indexRegionSize.toNat_lt
  have hn := hs.length_lt
  rw [hs.footer]
  simp only [sealFooter, openState_activeIndex, encodeIndex_length, chainEntries_length]
  exact toNat_ofNat32 (by omega)

theorem SealedBy.decodes (hs : SealedBy env f es h fs) :
    decodePartitionFooter (encodePartitionFooter f) = .ok f := by
  refine decodePartitionFooter_encode ?_ fun _ => hs.times
  rw [hs.indexSize, hs.blockCount]

/-- The footer of a chain is accepted for its partition. -/
theorem SealedBy.accepted (g : Geometry env) (hs : SealedBy env f es h fs) {h' : PartitionHeader}
    (h1 : h'.slot = h.slot) (h2 : h'.generation = h.generation) :
    acceptFooter env h' (encodePartitionFooter f) = .ok f := by
  obtain ⟨m, st, hc⟩ := hs.chain
  obtain ⟨hde, hle⟩ := hs.dataEnd g
  have hcur : st.cursor = chainEnd partitionHeaderRegionSize fs := hc.cursor_eq
  have hal := hc.aligned g.header_aligned
  have hge := chainEnd_ge partitionHeaderRegionSize fs
  have hsum := g.indexBegin_add
  have hsz := Geometry.partitionSize_lt env
  have hoff : f.indexOffset.toNat = env.indexBegin := by
    rw [hs.footer]
    simp only [sealFooter]
    rw [UInt64.toNat_ofNat', Nat.mod_eq_of_lt]
    omega
  have hid : f.volumeIdHigh = env.volume.volumeIdHigh ∧ f.volumeIdLow = env.volume.volumeIdLow := by
    rw [hs.footer]
    exact ⟨rfl, rfl⟩
  have hsize := hs.indexSize
  have hcount := hs.blockCount
  have hlen := hs.length_lt
  have hempty : f.blockCount = 0 → f.dataEnd.toNat = partitionHeaderRegionSize := by
    intro h0
    rw [h0] at hcount
    have hnil : fs = [] := List.length_eq_zero_iff.mp hcount.symm
    rw [hde, hnil]
    rfl
  unfold acceptFooter
  rw [hs.decodes]
  refine if_neg ?_
  rintro (h | h | h | h | h | h | h | h | h | h | h | h)
  · exact h hid.1
  · exact h hid.2
  · exact h (hs.slot.trans h1.symm)
  · exact h (hs.generation.trans h2.symm)
  · exact h hoff
  · simp only [indexEntryEncodedSize] at hsize
    omega
  · omega
  · omega
  · rw [hde, ← hcur] at h
    exact h hal
  · rw [hcount] at h
    exact h hsize
  · exact h.2 (hempty h.1)
  · exact absurd hs.times (Int64.not_le.mpr h.2)

end

/-! ## Footers of a run -/

/-- No frame is written for a generation behind a footer of it, and no footer for a generation
behind a newer header for its slot. -/
def SealOrder : Item → Item → Prop
  | .footer f _, .frame b _ _ => b.generation ≠ f.generation
  | .header h, .footer f _ => h.slot = f.slot → h.generation ≤ f.generation
  | _, _ => True

/-- Seals come last in what was issued. -/
def SealsLast (issued : List (Nat × Item)) : Prop := issued.Pairwise fun a b => SealOrder a.2 b.2

/-- The item is a block or a footer of the generation. -/
def Item.OfGeneration (generation : UInt64) : Item → Prop
  | .frame b _ _ => b.generation = generation
  | .footer f _ => f.generation = generation
  | _ => False

/-- Seals come last in what was issued for one generation. -/
def SealsLastOf (generation : UInt64) (issued : List (Nat × Item)) : Prop :=
  issued.Pairwise fun a b => b.2.OfGeneration generation → SealOrder a.2 b.2

theorem SealsLast.of {issued : List (Nat × Item)} (h : SealsLast issued) (generation : UInt64) :
    SealsLastOf generation issued := by
  refine List.Pairwise.imp ?_ h
  intro a b hab _
  exact hab

theorem SealsLastOf.of_issue {generation : UInt64} {d : Disk Item} {off : Nat} {i : Item} {n : Nat}
    (h : SealsLastOf generation (d.issue off i n).issued) : SealsLastOf generation d.issued ∧
      (i.OfGeneration generation → ∀ w ∈ d.issued, SealOrder w.2 i) := by
  obtain ⟨h1, -, h2⟩ := List.pairwise_append.mp h
  exact ⟨h1, fun hi w hw => h2 w hw (off, i) (List.mem_singleton_self _) hi⟩

/-- Every issued footer closes a chain and, where the seals of its generation come last, lists all
whole frames of it. -/
def FootInv (env : Env) (d : Disk Item) : Prop :=
  ∀ off f es, (off, Item.footer f es) ∈ d.issued → ∃ h fs, SealedBy env f es h fs ∧
    off = env.partitionBase h.slot + env.footerOffset ∧
    (SealsLastOf h.generation d.issued → ∀ o b payload raw, d.Live (Item.bytes env) (o, .frame b payload raw) →
      b.slot = h.slot → b.generation = h.generation →
      (o, b, payload) ∈ chainFrames (env.partitionBase h.slot) partitionHeaderRegionSize fs)

section
variable {env : Env} {d : Disk Item} {off n : Nat} {i : Item}

/-- A write that is neither a footer nor a frame adds nothing to list. -/
theorem FootInv.quiet (h : FootInv env d) (hi : ∀ f es, i ≠ .footer f es)
    (hf : ∀ b payload raw, i ≠ .frame b payload raw) : FootInv env (d.issue off i n) := by
  intro o f es hm
  rcases List.mem_append.mp hm with hm | hm
  · obtain ⟨h', fs, hs, ho, hall⟩ := h o f es hm
    refine ⟨h', fs, hs, ho, fun hord o' b payload raw hl => ?_⟩
    rcases live_frame_issue hl with hl | ⟨-, -, he⟩
    · exact hall hord.of_issue.1 o' b payload raw hl
    · exact absurd he (hf _ _ _)
  · exact absurd (Prod.mk.inj (List.mem_singleton.mp hm)).2.symm (hi f es)

/-- A frame is one no footer of its generation has to list. -/
theorem FootInv.frame (h : FootInv env d) {b : BlockHeader} {payload raw : Bytes} :
    FootInv env (d.issue off (.frame b payload raw) n) := by
  intro o f es hm
  rcases List.mem_append.mp hm with hm | hm
  · obtain ⟨h', fs, hs, ho, hall⟩ := h o f es hm
    refine ⟨h', fs, hs, ho, fun hord o' b' payload' raw' hl hbs hbg => ?_⟩
    rcases live_frame_issue hl with hl | ⟨-, -, he⟩
    · exact hall hord.of_issue.1 o' b' payload' raw' hl hbs hbg
    · cases he
      exact absurd (hbg.trans hs.generation.symm) (hord.of_issue.2 hbg _ hm)
  · cases List.mem_singleton.mp hm

/-- A footer lists what its writer's catalog lists. -/
theorem FootInv.footer (h : FootInv env d) {c : Cat} (ha : Active env d c) {p : PartitionState}
    (hp : c.active = some p) (hfit : (encodeIndex p.activeIndex).length ≤ env.indexRegionSize) :
    FootInv env (d.issue (env.partitionBase p.header.slot + env.footerOffset)
      (.footer (sealFooter env p) p.activeIndex) n) := by
  intro o f es hm
  rcases List.mem_append.mp hm with hm | hm
  · obtain ⟨h', fs, hs, ho, hall⟩ := h o f es hm
    refine ⟨h', fs, hs, ho, fun hord o' b payload raw hl => ?_⟩
    rcases live_frame_issue hl with hl | ⟨-, -, he⟩
    · exact hall hord.of_issue.1 o' b payload raw hl
    · cases he
  · have hpair := Prod.mk.inj (List.mem_singleton.mp hm)
    have ho' := hpair.1
    have hfe := (Item.footer.inj hpair.2).1
    have hee := (Item.footer.inj hpair.2).2
    subst hfe hee
    obtain ⟨q, hh, fs, st, hq, ho, hall⟩ := ha.lists
    cases hp.symm.trans hq
    obtain ⟨-, -, hidx⟩ := ho.dataEnd
    refine ⟨p.header, fs, ⟨⟨_, st, ho.chain.header_congr ho.slot ho.generation ho.options⟩, ?_, hidx,
      hfit⟩, ho', fun hord o' b payload raw hl hbs hbg => ?_⟩
    · rw [← ho.state]
    · have hl' : d.Live (Item.bytes env) (o', .frame b payload raw) := by
        rcases live_frame_issue hl with hl | ⟨-, -, he⟩
        · exact hl
        · cases he
      have hcur : Current d.issued hh.slot hh.generation := by
        intro off' h' hm' hs'
        have := hord.of_issue.2 (show (sealFooter env p).generation = _ from rfl) _ hm'
          (hs'.trans ho.slot.symm)
        rw [← ho.generation]
        exact this
      rw [ho.slot] at hbs ⊢
      rw [ho.generation] at hbg
      exact hall hcur o' b payload raw hl' hbs hbg

end

section
variable {env : Env} {cut : Disk Item → Image → Prop} {assumed : Disk Item → Prop}

/-- **The footers of every run** close the chains their writers knew. -/
theorem PReach.footers (hcut : ∀ d m, cut d m → d.MixCut (Item.bytes env) m)
    (hassumed : ∀ d, assumed d → CollisionFreeNow env d) {x : PSys} (h : PReach env cut assumed x) :
    FootInv env x.disk := by
  induction h with
  | @init x h =>
    intro off f es hm
    rw [h.issued] at hm
    cases hm
  | @step x y hx hstep ih =>
    have hphase := (hx.retain hcut hassumed).phase
    have write {off : Nat} {i : Item} {φ' : Phase} (hw : Phase.Write env x.phase off i φ') (n : Nat) :
        FootInv env (x.disk.issue off i n) := by
      generalize x.phase = φ at hw hphase
      cases hw with
      | frame hp hs hf => exact ih.frame
      | index hp hs hd hne hfit =>
        exact ih.quiet (fun _ _ h => by cases h) (fun _ _ _ h => by cases h)
      | footer hp hs hfit => exact ih.footer hphase hp hfit
      | @emptyFooter c p hp hs hd hne =>
        exact ih.footer hphase hp (by rw [hne]; exact Nat.zero_le _)
      | header ho => exact ih.quiet (fun _ _ h => by cases h) (fun _ _ _ h => by cases h)
    -- a flush keeps the live frames, a cut only loses some
    have flush : FootInv env (x.disk.flush (Item.bytes env)) := by
      intro off f es hm
      obtain ⟨h', fs, hs, ho, hall⟩ := ih off f es hm
      exact ⟨h', fs, hs, ho, fun hord o b payload raw hl =>
        hall hord o b payload raw ((Disk.live_flush _).mp hl)⟩
    cases hstep with
    | format hφ off n hoff => exact ih.quiet (fun _ _ h => by cases h) (fun _ _ _ h => by cases h)
    | formatFlush hφ hvol => exact flush
    | write h => exact write h _
    | writeFails n h => exact write h n
    | flush h => exact flush
    | halt => exact ih
    | powerCut m h =>
      intro off f es hm
      obtain ⟨h', fs, hs, ho, hall⟩ := ih off f es hm
      exact ⟨h', fs, hs, ho, fun hord o b payload raw hl =>
        hall hord o b payload raw (Disk.live_of_flushed _ ((Disk.live_restart _).mp hl))⟩
    | startOpen id hφ had hfresh hid hnf hgen => exact ih

theorem acceptFooter_inv {h : PartitionHeader} {bs : Bytes} {f : PartitionFooter}
    (hf : acceptFooter env h bs = .ok f) :
    decodePartitionFooter bs = .ok f ∧ f.volumeIdHigh = env.volume.volumeIdHigh ∧
      f.volumeIdLow = env.volume.volumeIdLow ∧ f.slot = h.slot ∧ f.generation = h.generation := by
  unfold acceptFooter at hf
  obtain ⟨f', hd, hf⟩ := bind_ok_inv hf
  split at hf
  · simp at hf
  · rename_i hn
    cases hf
    simp only [not_or, not_not] at hn
    exact ⟨hd, hn.1, hn.2.1, hn.2.2.1, hn.2.2.2.1⟩

/-- The reading of a footer in a collision-free image. -/
theorem slotFooter_issued {issued : List (Nat × Item)} {writers : List (UInt64 × UInt64)} {m : Image}
    (hitems : ∀ w ∈ issued, ItemOk env issued writers w.1 w.2) (hc : CollisionFree env issued m)
    {h : PartitionHeader} (hs : h.slot < env.volume.partitionCount) {f : PartitionFooter}
    (hf : slotFooter env m h = .ok f) :
    ∃ es, (env.partitionBase h.slot + env.footerOffset, Item.footer f es) ∈ issued ∧
      f.slot = h.slot ∧ f.generation = h.generation ∧
      m.window (env.partitionBase h.slot + env.footerOffset) partitionFooterEncodedSize =
        encodePartitionFooter f := by
  unfold slotFooter at hf
  obtain ⟨hd, hhi, hlo, hsl, hgen⟩ := acceptFooter_inv hf
  obtain ⟨hcc, e16, e24⟩ := decodePartitionFooter_inv hd
  obtain ⟨f', es, hmem, hbytes⟩ := hc.footer h.slot hs hcc (e16.trans hhi) (e24.trans hlo)
  have hmade : FooterMade env issued _ f' es := hitems _ hmem
  rw [hbytes] at hd
  obtain rfl : f' = f := Except.ok.inj ((hmade.decodes hitems).symm.trans hd)
  exact ⟨es, hmem, hsl, hgen, hbytes⟩

end

/-! ## What a reader makes of them -/

section
variable {env : Env}

/-- What a read-only open recovers from an image of this volume. -/
theorem openReadOnly_ok {m : Image} (g : Geometry env) (hm : env.volume.volumeSize.toNat ≤ m.size)
    {issued : List (Nat × Item)} (hv : ∀ off v, (off, Item.volume v) ∈ issued → v = env.volume)
    (hc : CollisionFree env issued m) {s : Store} (hs : openReadOnly env.codecs m = .ok s) :
    s = openedStore env m { codecs := env.codecs } (0, 0) ∧
      (∀ slot < env.volume.partitionCount, ¬ SlotFails env m slot) ∧
      GenerationsOk (slotStates env m) := by
  obtain ⟨⟨id, hid, hs⟩, hnf, hgen⟩ := recover_ok (o := { codecs := env.codecs }) g hm
    (fun v hv' => readVolumeHeader_eq hv hc hv') rfl hs
  cases hid
  exact ⟨hs, hnf, hgen⟩

end

end TFDB
