import TFDB.Isolation

/-!
# Writer incarnations

The writable opens of a volume are numbered in the order in which they happen.  A block names
its writer and the writer of the block before it, and a writer only ever goes on behind blocks
of its own or of earlier incarnations (`FrameMade.writer`).  So the incarnations of the blocks
a scan returns never decrease (`scanPartition_incarnations`), whatever stale blocks lie behind
them.
-/

set_option autoImplicit false

namespace TFDB

open ByteLib Writer

/-- The number of the writable open that wrote a block, counted from one. -/
def incarnation (writers : List (UInt64 × UInt64)) (e : IndexEntry) : Nat :=
  writers.idxOf (e.writerIdHigh, e.writerIdLow) + 1

theorem idxOf_of_getElem? {α : Type} [BEq α] [LawfulBEq α] {l : List α} (hl : l.Nodup) {j : Nat}
    {a : α} (h : l[j]? = some a) : l.idxOf a = j := by
  obtain ⟨hj, rfl⟩ := List.getElem?_eq_some_iff.mp h
  exact hl.idxOf_getElem j hj

/-- The entries of a chain, from a state whose expected writer has number `k` or none. -/
theorem Chain.incarnations {env : Env} {issued : List (Nat × Item)} {writers : List (UInt64 × UInt64)}
    {m : Image} (hitems : ∀ w ∈ issued, ItemOk env issued writers w.1 w.2) (hnd : writers.Nodup)
    (hzero : (0, 0) ∉ writers) (hc : CollisionFree env issued m) {h : PartitionHeader}
    (hs : h.slot < env.volume.partitionCount) {limit : Nat} (hl : limit ≤ env.indexBegin)
    {st st' : ScanState} {fs : List (BlockHeader × Bytes)} (hch : Chain env m h limit st fs st')
    (hst : partitionHeaderRegionSize ≤ st.cursor) {k : Nat}
    (hk : k = 0 ∨ writers[k - 1]? = some (st.expectedWriterHigh, st.expectedWriterLow)) :
    (∀ e ∈ chainEntries st.cursor fs,
      (e.writerIdHigh, e.writerIdLow) ∈ writers ∧ k ≤ incarnation writers e) ∧
      ((chainEntries st.cursor fs).map (incarnation writers)).Pairwise (· ≤ ·) := by
  induction hch generalizing k with
  | nil st => exact ⟨fun e he => (by cases he), List.Pairwise.nil⟩
  | @cons st st' b x fs hf hch ih =>
    obtain ⟨raw, hmem⟩ := (Chain.cons hf hch).frames_issued hc hs hl hst _ (List.mem_cons_self ..)
    obtain ⟨j, hj, hprev⟩ : ∃ j : Nat, _ := (hitems _ hmem).writer
    simp only at hj hprev
    rw [hf.accepted.previousHigh, hf.accepted.previousLow] at hprev
    -- the number of this block is at least `k`
    have hkj : k ≤ j + 1 := by
      rcases hk with rfl | hk
      · exact Nat.zero_le _
      · rcases hprev with h0 | ⟨i, hij, hi⟩
        · rw [h0] at hk
          exact absurd (List.mem_of_getElem? hk) hzero
        · have h1 := idxOf_of_getElem? hnd hk
          have h2 := idxOf_of_getElem? hnd hi
          omega
    have hnum : incarnation writers (blockEntry st.cursor b) = j + 1 := by
      simp only [incarnation, blockEntry]
      rw [idxOf_of_getElem? hnd hj]
    obtain ⟨h1, h2⟩ := ih (k := j + 1) (by simp only [ScanState.next]; omega) (Or.inr hj)
    refine ⟨fun e he => ?_, ?_⟩
    · rcases List.mem_cons.mp he with rfl | he
      · exact ⟨List.mem_of_getElem? hj, by rw [hnum]; exact hkj⟩
      · obtain ⟨hw, hle⟩ := h1 e he
        exact ⟨hw, Nat.le_trans hkj hle⟩
    · simp only [chainEntries, List.map_cons, List.pairwise_cons]
      refine ⟨fun n hn => ?_, h2⟩
      obtain ⟨e, he, rfl⟩ := List.mem_map.mp hn
      rw [hnum]
      exact (h1 e he).2

/-- A scan that returns has a limit inside the data region. -/
theorem scanPartition_limit {env : Env} {src : Source Status} {h : PartitionHeader} {scanLimit : Nat}
    {scan : Scan} (hrun : Rd.run src (scanPartition env h scanLimit) = .ok scan) :
    partitionHeaderRegionSize ≤ (if scanLimit = 0 then env.indexBegin else scanLimit) ∧
      (if scanLimit = 0 then env.indexBegin else scanLimit) ≤ env.indexBegin := by
  have hlim : ¬ ((if scanLimit = 0 then env.indexBegin else scanLimit) < partitionHeaderRegionSize ∨
      (if scanLimit = 0 then env.indexBegin else scanLimit) > env.indexBegin) := by
    intro hbad
    simp only [scanPartition, if_pos hbad, Rd.run_fail] at hrun
    cases hrun
  simpa only [not_or, not_lt] using hlim

/-- **The incarnations of the blocks a scan returns never decrease**, in every image a power
cut may leave. -/
theorem scanPartition_incarnations {env : Env} {x : Sys}
    (hx : Reach env (fun d m => d.FragmentCut (Item.bytes env) m) (CollisionFreeNow env) x)
    {m : Image} (hm : x.disk.FragmentCut (Item.bytes env) m)
    (hc : CollisionFree env x.disk.issued m) {h : PartitionHeader}
    (hs : h.slot < env.volume.partitionCount) {scanLimit : Nat} {scan : Scan}
    (hrun : Rd.run (imageSource m) (scanPartition env h scanLimit) = .ok scan) :
    x.writers.Nodup ∧ (∀ e ∈ scan.entries, (e.writerIdHigh, e.writerIdLow) ∈ x.writers) ∧
      (scan.entries.map (incarnation x.writers)).Pairwise (· ≤ ·) := by
  have hcut : ∀ d m, Disk.FragmentCut (Item.bytes env) d m → d.MixCut (Item.bytes env) m :=
    fun d m h => h.mixCut
  obtain ⟨φ, hp, -⟩ := reach_simulated hcut (fun _ h => h) hx
  have hlog := hp.log hcut fun _ h => h
  have hsize : env.volume.volumeSize.toNat ≤ m.size := by
    rw [hp.size hcut, (hm.mixCut).1]
  obtain ⟨h1, h2⟩ := scanPartition_limit hrun
  obtain ⟨fs, st, corrupt, hrun', hch, -⟩ := scanPartition_run hp.geometry hsize hs _ _ rfl h1 h2
  rw [hrun'] at hrun
  cases hrun
  obtain ⟨h3, h4⟩ := hch.incarnations hlog.items hlog.nodup hlog.nonzero hc hs h2 (Nat.le_refl _)
    (Or.inl rfl)
  have hent : (st.stop corrupt).entries = chainEntries partitionHeaderRegionSize fs := hch.entries
  rw [hent]
  exact ⟨hlog.nodup, fun e he => (h3 e he).1, h4⟩

/-! ## A second writer on the sample volume

The process ends behind the flush of the first block.  A second writer opens the volume, finds the
partition and goes on in it. -/

namespace Sample

theorem clean_synced : Clean env image (CollisionFreeNow env) flushedDisk (some synced) :=
  ((clean_opened.called _ exec_append).called _ exec_publish).called _ exec_checkpoint

theorem flushed_inOrder : InOrder flushedDisk := framed_inOrder.flush

/-- The partition as an open finds it: the header has its feature descriptors. -/
def found : PartitionState := { full with header := (header 0 1).written env }

theorem catalog_flushed : catalogOf env (flushedDisk.volatile (Item.bytes env)) = [found] := by
  obtain ⟨g, hsize, hr, -⟩ := clean_synced.ring fun _ hd => hd
  rw [hr.catalog g (Nat.le_of_eq hsize) flushed_inOrder.collisionFree (by decide)]
  rfl

theorem undamaged_flushed :
    (slotList env).filter (slotDamaged env (flushedDisk.volatile (Item.bytes env))) = [] := by
  obtain ⟨g, hsize, hr, -⟩ := clean_synced.ring fun _ hd => hd
  exact hr.undamaged g (Nat.le_of_eq hsize) flushed_inOrder.collisionFree (by decide) spanFits lawful
    unmarked quietFooters

/-- What an open makes of the volume. -/
def resumedStore (o : OpenOptions) (id : UInt64 × UInt64) : Store where
  env := env
  writable := o.writable
  partitions := [found]
  activeGeneration := 1
  writerIdHigh := id.1
  writerIdLow := id.2
  nextOptions := o.nextPartition

theorem recover_flushed {o : OpenOptions} (ho : o.codecs = env.codecs)
    {random : Except Status (UInt64 × UInt64)} {id : UInt64 × UInt64}
    (hid : prepareWriter env o random = .ok id) :
    Rd.run (imageSource (flushedDisk.volatile (Item.bytes env)))
        (recover (flushedDisk.volatile (Item.bytes env)).size o random) =
      .ok (resumedStore o id) := by
  obtain ⟨g, hsize, hr, -⟩ := clean_synced.ring fun _ hd => hd
  have hrun := hr.recovers g (Nat.le_of_eq hsize) flushed_inOrder.collisionFree (by decide) spanFits
    lawful unmarked quietFooters ho hid
  have hcat := catalog_flushed
  unfold catalogOf at hcat
  rw [hrun]
  simp only [openedStore, recoveredStore, hcat, undamaged_flushed]
  rfl

def resumed : Store := resumedStore openOptions (5, 6)

theorem exec_resume : (startWriter resumed).exec (Item.bytes env) flushedDisk =
    ((.ok (), resumed), flushedDisk) := rfl

def resumedAppended : Store := { resumed with
  builder := record, builderRecords := 1, haveLastTime := true, haveUndurableRecords := true
  metrics := { acceptedRecords := 1, acceptedPayloadBytes := 1 } }

theorem exec_resumedAppend : ((Op.append record 0 0).program resumed).exec (Item.bytes env) flushedDisk =
    ((.ok (), resumedAppended), flushedDisk) := rfl

/-- The second block names its own writer and the one before it. -/
def secondBlock : BlockHeader := block 1 (3, 4) (5, 6)

def continued : Disk Item := write flushedDisk 12544 (.frame secondBlock record record)

def resumedPublished : Store := { resumed with
  partitions := [Writer.addBlock found secondBlock 129 256]
  haveLastTime := true, haveUndurableRecords := true, dirty := true
  metrics := { acceptedRecords := 1, acceptedPayloadBytes := 1
               publishedBlocks := 1, storedBlockBytes := 129, rawBlockBytes := 1 } }

theorem exec_resumedPublish : (Op.publish.program resumedAppended).exec (Item.bytes env) flushedDisk =
    ((.ok (), resumedPublished), continued) := rfl

theorem clean_continued :
    Clean env image (CollisionFreeNow env) continued (some resumedPublished) := by
  have hopened : Clean env image (CollisionFreeNow env) flushedDisk (some resumed) := by
    refine @Clean.opened _ _ _ _ _ resumed _ clean_synced.destroyed flushed_inOrder.collisionFree
      openOptions (.ok (5, 6)) rfl rfl ?_ ?_ exec_resume
    · exact fun h => absurd (Except.ok.inj h) (by decide)
    · exact recover_flushed rfl rfl
  exact (hopened.called _ exec_resumedAppend).called _ exec_resumedPublish

theorem reach_continued {cut : Disk Item → Image → Prop} : Reach env cut (CollisionFreeNow env)
    ⟨continued, [(3, 4), (5, 6)], .idle resumedPublished (some (.publish, .ok ()))⟩ := by
  have hdown : Reach env cut (CollisionFreeNow env) ⟨flushedDisk, [(3, 4)], .down⟩ :=
    (reach_published.call _ exec_checkpoint).step (.restart _)
  have hopened := hdown.open (o := openOptions) flushed_inOrder.collisionFree rfl (by decide)
    (by decide) (recover_flushed rfl rfl) rfl exec_resume
  exact (hopened.call _ exec_resumedAppend).call _ exec_resumedPublish

theorem continued_inOrder : InOrder continued := by
  refine flushed_inOrder.frame 0 4352 _ rfl (Or.inr rfl) rfl rfl fun o' b' payload' raw' h _ => ?_
  simp [flushedDisk, framed, created, formatted, write, disk, Disk.flush, Disk.issue] at h
  have hbase : env.partitionBase 0 = 8192 := rfl
  simp only [h.2.2.1, record, List.length_singleton]
  omega

/-- The scan of the partition finds the blocks of both writers. -/
theorem scan_continued : ∃ scan, Rd.run (imageSource (continued.volatile (Item.bytes env)))
      (scanPartition env (header 0 1) 0) = .ok scan ∧
    scan.entries.map (incarnation [(3, 4), (5, 6)]) = [1, 2] := by
  obtain ⟨g, hsize, hr, -⟩ := clean_continued.ring fun _ hd => hd
  let q : RingPartition :=
    { header := header 0 1
      blocks := [⟨block 0 (0, 0) (3, 4), record, record⟩, ⟨secondBlock, record, record⟩] }
  have hring : ringOf continued.issued = [q] := rfl
  have hq : q ∈ ringOf continued.issued := hring ▸ List.mem_singleton_self q
  have hvolume : env.volume.volumeSize.toNat ≤ (continued.volatile (Item.bytes env)).size := by
    rw [hr.size]
    exact Nat.le_of_eq hsize
  obtain ⟨st, hch⟩ := (hr.media q hq).chain
  obtain ⟨fs, st', corrupt, hrun, hch', hstuck⟩ := scanPartition_run g hvolume
    (show (header 0 1).slot < env.volume.partitionCount by decide) 0 env.indexBegin rfl
    (Nat.le_of_lt g.header_lt_indexBegin) (Nat.le_refl _)
  -- the scan stops where the blocks of the ring end
  obtain ⟨rfl, rfl⟩ := hch.eq_of_stuck (hr.stuck g continued_inOrder.collisionFree hq hch) hch' hstuck
  refine ⟨_, hrun, ?_⟩
  have hent : (st.stop corrupt).entries = chainEntries partitionHeaderRegionSize q.frames :=
    hch'.entries
  rw [hent]
  rfl

end Sample

/-- The scan of a partition that two writers have written finds the blocks of both, in order. -/
theorem sample_scan_incarnations :
    ∃ scan, Rd.run (imageSource (Sample.continued.volatile (Item.bytes Sample.env)))
        (scanPartition Sample.env (Sample.header 0 1) 0) = .ok scan ∧
      scan.entries.map (incarnation [(3, 4), (5, 6)]) = [1, 2] ∧
      (∀ e ∈ scan.entries, (e.writerIdHigh, e.writerIdLow) ∈
        [((3 : UInt64), (4 : UInt64)), (5, 6)]) ∧
      (scan.entries.map (incarnation [(3, 4), (5, 6)])).Pairwise (· ≤ ·) := by
  obtain ⟨scan, hrun, hnumbers⟩ := Sample.scan_continued
  obtain ⟨-, hwriters, horder⟩ := scanPartition_incarnations Sample.reach_continued
    (Disk.volatile_fragmentCut _ _) Sample.continued_inOrder.collisionFree (by decide) hrun
  exact ⟨scan, hrun, hnumbers, hwriters, horder⟩

end TFDB
