import TFDB.ManyBlocks

/-!
# Complete strict opens

A strict open is compared with what `scan_blocks` delivers on the same image.

* `CompleteScan` — the scan returns `Ok` and delivers the blocks that `inspect` counts;
* `scanBlocks_verified` — what a scan of a verified image delivers;
* `strict_open_complete` — when a strictly opened store has a complete scan;
* `count_wraps` — with `2 ^ 32` blocks `inspect` reports none of them.
-/

set_option autoImplicit false

namespace TFDB

open ByteLib

/-! ## The scan of a strictly opened store -/

/-- The number of blocks `inspect` reports. -/
def PartitionState.reportedBlocks (p : PartitionState) : UInt32 :=
  if p.isSealed then p.footer.blockCount else p.blockCount

/-- The events of a partition among some events. -/
def eventsOf (p : PartitionState) (events : List BlockEvent) : List BlockEvent :=
  events.filter fun ev => ev.metadata.partitionGeneration == p.header.generation

/-- A scan returns `Ok`, has no gap, and has one data event for each block: the blocks of a
partition are numbered from zero to the count that `inspect` reports. -/
structure CompleteScan (s : Store) (m : Image) : Prop where
  ok : (scanBlocks s m).2 = {}
  data : ∀ ev ∈ (scanBlocks s m).1.events, ev.kind = .data ∧
    ∃ p ∈ s.partitions, ev.metadata.partitionGeneration = p.header.generation
  blocks : ∀ p ∈ s.partitions,
    (eventsOf p (scanBlocks s m).1.events).map (fun ev => ev.metadata.blockSequence.toNat) =
      List.range p.reportedBlocks.toNat

/-- The event of a readable block. -/
theorem entryEvent_read {env : Env} {m : Image} {p : PartitionState} {e : IndexEntry}
    {metadata : BlockMetadata} {decoded : Bytes}
    (h : blockOutcome env m p e = .ok (metadata, decoded)) :
    (entryEvent env m p e).kind = .data ∧
      (entryEvent env m p e).metadata.partitionGeneration = p.header.generation ∧
      (entryEvent env m p e).metadata.blockSequence = e.sequence := by
  obtain ⟨b, hb, -, rfl⟩ := blockOutcome_ok h
  rw [entryEvent, h]
  refine ⟨rfl, rfl, ?_⟩
  have hid := hb.identity
  simp only [identityAgrees, Bool.and_eq_true, beq_iff_eq] at hid
  exact hid.1.1.1.2

/-- Of events that carry the generation of their partition, those of one partition. -/
theorem eventsOf_flatMap {ps : List PartitionState} {f : PartitionState → List BlockEvent}
    (hf : ∀ q ∈ ps, ∀ ev ∈ f q, ev.metadata.partitionGeneration = q.header.generation)
    (hnd : (ps.map fun q => q.header.generation).Nodup) {p : PartitionState} (hp : p ∈ ps) :
    eventsOf p (ps.flatMap f) = f p := by
  have hself (q : PartitionState) (hq : q ∈ ps) (heq : q.header.generation = p.header.generation) :
      eventsOf p (f q) = f q := by
    refine List.filter_eq_self.mpr fun ev hev => ?_
    rw [hf q hq ev hev, heq]
    exact beq_self_eq_true _
  have hother (q : PartitionState) (hq : q ∈ ps) (hne : q.header.generation ≠ p.header.generation) :
      eventsOf p (f q) = [] := by
    refine List.filter_eq_nil_iff.mpr fun ev hev => ?_
    rw [hf q hq ev hev]
    simpa using hne
  clear hf
  induction ps with
  | nil => cases hp
  | cons q ps ih =>
    rw [List.map_cons, List.nodup_cons] at hnd
    have happ : eventsOf p ((q :: ps).flatMap f) = eventsOf p (f q) ++ eventsOf p (ps.flatMap f) := by
      rw [List.flatMap_cons, eventsOf, List.filter_append]
      rfl
    rw [happ]
    by_cases heq : q.header.generation = p.header.generation
    · have hrest : eventsOf p (ps.flatMap f) = [] := by
        rw [eventsOf, List.filter_flatMap]
        refine List.flatMap_eq_nil_iff.mpr fun r hr => ?_
        refine hother r (List.mem_cons_of_mem _ hr) fun hre => hnd.1 ?_
        rw [heq, ← hre]
        exact List.mem_map_of_mem hr
      rw [hself q (List.mem_cons_self ..) heq, hrest, List.append_nil]
      rcases List.mem_cons.mp hp with rfl | hp
      · rfl
      · exact absurd (heq ▸ List.mem_map_of_mem hp) hnd.1
    · rw [hother q (List.mem_cons_self ..) heq, List.nil_append]
      rcases List.mem_cons.mp hp with rfl | hp
      · exact absurd rfl heq
      · exact ih hnd.2 hp (fun r hr => hself r (List.mem_cons_of_mem _ hr))
          fun r hr => hother r (List.mem_cons_of_mem _ hr)

section
variable {env : Env} {m : Image} (g : Geometry env) (hm : env.volume.volumeSize.toNat ≤ m.size)
include g hm

/-- A partition of the catalog of a verified image: its blocks, and what a query makes of them. -/
theorem catalog_verified (hst : ∀ slot < env.volume.partitionCount, StrictSlot env m slot)
    {p : PartitionState} (hp : p ∈ catalogOf env m) :
    ∃ q ∈ slotStates env m, ∃ es, (p = q ∨ p = q.cleared) ∧ VerifiedIndex env m q es ∧
      Readable env m p ∧ (acquired env m p).entries = es ∧
      (es.length < 2 ^ 32 → (acquired env m p).invalidPrefix p = false) := by
  obtain ⟨q, hq, hpq⟩ := catalogOf_mem hp
  obtain ⟨hs, hstate⟩ := mem_slotStates.mp hq
  have hhead : p.header = q.header := by
    rcases hpq with rfl | rfl
    · rfl
    · simp
  obtain ⟨es, hes⟩ := (hst _ hs).verified g hm hs hstate
  obtain ⟨a, ha, hae, hinv⟩ := hes.acquired g hm hs hpq
  have hacq := acquired_of_run ha
  refine ⟨q, hq, es, hpq, hes, ⟨?_, ?_, ⟨a, ha⟩, ?_⟩, ?_, ?_⟩
  · rw [hhead]
    exact hs
  · rw [hhead]
    exact ⟨_, slotState_header hstate, rfl⟩
  · rw [hacq, hae]
    intro e he
    refine ⟨hes.entries e he, fun st hst => ?_⟩
    obtain ⟨metadata, decoded, hr⟩ := hes.reads e he
    rw [blockOutcome_header hhead, hr] at hst
    cases hst
  · rw [hacq, hae]
  · rw [hacq]
    exact hinv

omit g hm in
/-- The events of a partition whose index is verified. -/
theorem VerifiedIndex.events {p q : PartitionState} {es : List IndexEntry}
    (hes : VerifiedIndex env m q es) (hhead : p.header = q.header)
    (ha : (TFDB.acquired env m p).entries = es) :
    partitionEvents env m {} p =
      (if (TFDB.acquired env m p).invalidPrefix p then [prefixGap p] else []) ++
        es.map (entryEvent env m p) ∧
      ∀ e ∈ es, (entryEvent env m p e).kind = .data ∧
        (entryEvent env m p e).metadata.partitionGeneration = p.header.generation ∧
        (entryEvent env m p e).metadata.blockSequence = e.sequence := by
  constructor
  · have hsel : ∀ e : IndexEntry, ({} : Query).selectsEntry e = true := fun _ => rfl
    have hpart : ({} : Query).selectsPartition p = true := rfl
    rw [partitionEvents, if_pos hpart, ha, List.filter_eq_self.mpr fun e _ => hsel e]
  · intro e he
    obtain ⟨metadata, decoded, hr⟩ := hes.reads e he
    rw [← blockOutcome_header hhead] at hr
    exact entryEvent_read hr

/-- The scan of a store opened on a verified image. -/
theorem scanBlocks_verified (hst : ∀ slot < env.volume.partitionCount, StrictSlot env m slot)
    (o : OpenOptions) (id : UInt64 × UInt64) :
    scanBlocks (openedStore env m o id) m =
      (({} : QueryState).deliverAll ((sortPartitions (catalogOf env m)).flatMap
        (partitionEvents env m {})), {}) := by
  have hclean : (openedStore env m o id).corruptSlots = [] := by
    refine List.filter_eq_nil_iff.mpr fun slot hs => ?_
    rw [(hst slot (mem_slotList.mp hs)).1]
    exact Bool.false_ne_true
  have hr : ∀ p ∈ catalogOf env m, Readable env m p := by
    intro p hp
    obtain ⟨q, -, es, -, -, hr, -⟩ := catalog_verified g hm hst hp
    exact hr
  have hrun := run_query g hm scan_total (fun r hr => by cases hr) [] hr
  rw [scanBlocks, Store.query, hclean]
  exact hrun

end

theorem map_sequences {es : List IndexEntry}
    (h : es.map (·.sequence) = (List.range es.length).map UInt32.ofNat) (hlt : es.length < 2 ^ 32) :
    es.map (fun e => e.sequence.toNat) = List.range es.length := by
  have hmap := congrArg (List.map UInt32.toNat) h
  rw [List.map_map, List.map_map] at hmap
  refine hmap.trans ?_
  conv => rhs; rw [← List.map_id (List.range es.length)]
  refine List.map_congr_left fun i hi => ?_
  have := List.mem_range.mp hi
  exact toNat_ofNat32 (by omega)

theorem catalogOf_generations {env : Env} {m : Image} (hgen : GenerationsOk (slotStates env m)) :
    ((sortPartitions (catalogOf env m)).map fun p => p.header.generation).Nodup := by
  have hheads : ((catalogOf env m).map fun p => p.header.generation) =
      (sortPartitions (slotStates env m)).map fun p => p.header.generation := by
    have := congrArg (List.map PartitionHeader.generation) (catalogOf_headers env m)
    rwa [List.map_map, List.map_map] at this
  have hsort (ps : List PartitionState) : ((sortPartitions ps).map fun p => p.header.generation).Nodup ↔
      (ps.map fun p => p.header.generation).Nodup :=
    ((List.mergeSort_perm _ _).map _).nodup_iff
  rw [hsort, hheads, hsort]
  exact hgen.2

section
variable {env : Env} {m : Image} (g : Geometry env) (hm : env.volume.volumeSize.toNat ≤ m.size)
  (hst : ∀ slot < env.volume.partitionCount, StrictSlot env m slot)
  (hgen : GenerationsOk (slotStates env m)) (o : OpenOptions) (id : UInt64 × UInt64)
include g hm hst hgen

/-- The events of one partition in the scan of a verified image. -/
theorem eventsOf_scan {p : PartitionState} (hp : p ∈ catalogOf env m) :
    eventsOf p (scanBlocks (openedStore env m o id) m).1.events = partitionEvents env m {} p := by
  rw [scanBlocks_verified g hm hst, QueryState.deliverAll_events]
  refine eventsOf_flatMap ?_ (catalogOf_generations hgen) (mem_sortPartitions.mpr hp)
  intro q hq ev hev
  obtain ⟨q', -, es, hqq, hes, -, ha, -⟩ := catalog_verified g hm hst (mem_sortPartitions.mp hq)
  have hhead : q.header = q'.header := by
    rcases hqq with rfl | rfl
    · rfl
    · simp
  obtain ⟨hevents, hdata⟩ := hes.events hhead ha
  rw [hevents] at hev
  rcases List.mem_append.mp hev with hev | hev
  · split at hev
    · rw [List.mem_singleton.mp hev]
      rfl
    · cases hev
  · obtain ⟨e, he, rfl⟩ := List.mem_map.mp hev
    exact (hdata e he).2.1

/-- With a count that fits, the scan is complete. -/
theorem completeScan_of_few (hfew : ∀ p ∈ slotStates env m, p.isSealed = false →
    p.activeIndex.length < 2 ^ 32) : CompleteScan (openedStore env m o id) m := by
  -- the events of a partition are the data events of its blocks
  have hpart : ∀ p ∈ catalogOf env m, ∃ es : List IndexEntry,
      partitionEvents env m {} p = es.map (entryEvent env m p) ∧
      es.map (fun e => e.sequence.toNat) = List.range p.reportedBlocks.toNat ∧
      ∀ e ∈ es, (entryEvent env m p e).kind = .data ∧
        (entryEvent env m p e).metadata.partitionGeneration = p.header.generation ∧
        (entryEvent env m p e).metadata.blockSequence = e.sequence := by
    intro p hp
    obtain ⟨q, hq, es, hpq, hes, -, ha, hinv⟩ := catalog_verified g hm hst hp
    have hhead : p.header = q.header := by
      rcases hpq with rfl | rfl
      · rfl
      · simp
    have hlen : es.length < 2 ^ 32 ∧ p.reportedBlocks.toNat = es.length := by
      cases hsealed : q.isSealed with
      | true =>
        obtain ⟨-, hlen⟩ := hes.sealed hsealed
        have hpe : p = q := by
          rcases hpq with rfl | rfl
          · rfl
          · simp [PartitionState.cleared, hsealed]
        rw [PartitionState.reportedBlocks, hpe, hsealed, if_pos rfl, hlen]
        exact ⟨UInt32.toNat_lt _, rfl⟩
      | false =>
        obtain ⟨fs, st, hopen, hese, -⟩ := hes.footerless hsealed
        have hlt := hfew q hq hsealed
        rw [hopen, openState_activeIndex, ← hese] at hlt
        have hcount : p.isSealed = false ∧ p.blockCount = q.blockCount := by
          rcases hpq with rfl | rfl
          · exact ⟨hsealed, rfl⟩
          · simp [PartitionState.cleared, hsealed]
        refine ⟨hlt, ?_⟩
        rw [PartitionState.reportedBlocks, hcount.1, if_neg Bool.false_ne_true, hcount.2, hopen,
          openState_blockCount]
        rw [hese, chainEntries_length] at hlt ⊢
        exact toNat_ofNat32 hlt
    obtain ⟨hevents, hdata⟩ := hes.events hhead ha
    refine ⟨es, ?_, ?_, hdata⟩
    · rw [hevents, hinv hlen.1]
      rfl
    · rw [hlen.2]
      exact map_sequences hes.sequences hlen.1
  refine ⟨?_, ?_, ?_⟩
  · rw [scanBlocks_verified g hm hst]
  · intro ev hev
    rw [scanBlocks_verified g hm hst, QueryState.deliverAll_events] at hev
    obtain ⟨p, hp, hev⟩ := List.mem_flatMap.mp hev
    have hp := mem_sortPartitions.mp hp
    obtain ⟨es, hes, -, hdata⟩ := hpart p hp
    rw [hes] at hev
    obtain ⟨e, he, rfl⟩ := List.mem_map.mp hev
    exact ⟨(hdata e he).1, p, hp, (hdata e he).2.1⟩
  · intro p hp
    obtain ⟨es, hes, hseq, hdata⟩ := hpart p hp
    rw [eventsOf_scan g hm hst hgen o id hp, hes, List.map_map, ← hseq]
    refine List.map_congr_left fun e he => ?_
    simp only [Function.comp]
    rw [(hdata e he).2.2]

/-- A complete scan has no partition whose count does not fit. -/
theorem few_of_completeScan (hc : CompleteScan (openedStore env m o id) m) :
    ∀ p ∈ slotStates env m, p.isSealed = false → p.activeIndex.length < 2 ^ 32 := by
  intro q hq hsealed
  obtain ⟨p, hp, hhead⟩ : ∃ p ∈ catalogOf env m, p.header = q.header := by
    have hmem : q.header ∈ (catalogOf env m).map PartitionState.header := by
      rw [catalogOf_headers]
      exact List.mem_map_of_mem (mem_sortPartitions.mpr hq)
    obtain ⟨p, hp, he⟩ := List.mem_map.mp hmem
    exact ⟨p, hp, he⟩
  obtain ⟨q', hq', es, hpq, hes, -, ha, -⟩ := catalog_verified g hm hst hp
  have hhead' : p.header = q'.header := by
    rcases hpq with rfl | rfl
    · rfl
    · simp
  obtain rfl : q' = q := by
    obtain ⟨-, h1⟩ := mem_slotStates.mp hq'
    obtain ⟨-, h2⟩ := mem_slotStates.mp hq
    rw [← hhead', hhead] at h1
    exact Option.some.inj (h1.symm.trans h2)
  obtain ⟨fs, st, hopen, hese, -⟩ := hes.footerless hsealed
  have hidx : q'.activeIndex = es := by
    rw [hopen, openState_activeIndex, hese]
  have hcount := congrArg List.length (hc.blocks p hp)
  rw [eventsOf_scan g hm hst hgen o id hp, (hes.events hhead' ha).1] at hcount
  simp only [List.length_map, List.length_append, List.length_range] at hcount
  have hlt := p.reportedBlocks.toNat_lt
  rw [hidx]
  omega

end

/-- The same bound, said of the catalog and of the slots. -/
theorem few_iff {env : Env} {m : Image} :
    (∀ p ∈ slotStates env m, p.isSealed = false → p.activeIndex.length < 2 ^ 32) ↔
      ∀ slot < env.volume.partitionCount, ∀ h e, slotHeader env m slot = .ok h →
        slotFooter env m h = .error e → (slotScan env m h).entries.length < 2 ^ 32 := by
  constructor
  · intro hall slot hslot h e hh hf
    have hmem : scannedState h (slotScan env m h) ∈ slotStates env m :=
      List.mem_filterMap.mpr ⟨slot, mem_slotList.mpr hslot, slotState_of_open hh hf⟩
    have hlt := hall _ hmem (scannedState_isSealed _ _)
    rw [scannedState_activeIndex] at hlt
    exact hlt
  · intro hall p hp hsealed
    obtain ⟨hslot, hstate⟩ := mem_slotStates.mp hp
    have hh := slotState_header hstate
    cases hf : slotFooter env m p.header with
    | ok f =>
      rw [slotState_of_sealed hh hf] at hstate
      rw [← Option.some.inj hstate] at hsealed
      cases hsealed
    | error e =>
      rw [slotState_of_open hh hf] at hstate
      rw [← Option.some.inj hstate, scannedState_activeIndex]
      exact hall _ hslot _ e hh hf

/-- **A strict open is a complete verification exactly if no partition without a footer has `2 ^ 32`
blocks or more.**  The count of a footerless partition is kept in 32 bits. -/
theorem strict_open_complete {m : Image} {o : OpenOptions}
    {random : Except Status (UInt64 × UInt64)} {s : Store} (hstrict : o.verifyPayloadsOnOpen = true)
    (hrun : Rd.run (imageSource m) (recover m.size o random) = .ok s) :
    CompleteScan s m ↔
      ∀ slot < s.env.volume.partitionCount, ∀ h e, slotHeader s.env m slot = .ok h →
        slotFooter s.env m h = .error e → (slotScan s.env m h).entries.length < 2 ^ 32 := by
  obtain ⟨-, g, hm, ⟨id, -, hs⟩, -, hgen, r, hr⟩ := recover_inv hrun
  rw [hstrict, recoverSlots_strict_iff g hm _ fun slot hs => mem_slotList.mp hs] at hr
  have hst : ∀ slot < s.env.volume.partitionCount, StrictSlot s.env m slot :=
    fun slot hslot => hr.2 slot (mem_slotList.mpr hslot)
  rw [← few_iff]
  have hiff : CompleteScan (openedStore s.env m o id) m ↔
      ∀ p ∈ slotStates s.env m, p.isSealed = false → p.activeIndex.length < 2 ^ 32 :=
    ⟨few_of_completeScan g hm hst hgen o id, completeScan_of_few g hm hst hgen o id⟩
  rw [← hs] at hiff
  exact hiff

/-- Three blocks: their count fits, and the scan of the strictly opened store is complete. -/
theorem few_blocks_complete : CompleteScan (Terabyte.opened 3) (Terabyte.image 3) := by
  refine (strict_open_complete (o := ManyBlocks.strict) rfl (Terabyte.opens (by decide))).mpr ?_
  intro slot hs h e hh _
  have hlen := ManyBlocks.scan_length (Terabyte.room (n := 3) (by decide)) hs hh
  show (slotScan Terabyte.env (Terabyte.image 3) h).entries.length < 2 ^ 32
  rw [Terabyte.image, hlen]
  decide

/-- With `2 ^ 32` blocks the strict open succeeds, but `inspect` reports no block at all. -/
theorem count_wraps :
    Rd.run (imageSource (Terabyte.image (2 ^ 32)))
        (recover (Terabyte.image (2 ^ 32)).size ManyBlocks.strict (.ok (0, 0))) =
      .ok (Terabyte.opened (2 ^ 32)) ∧
    ¬ CompleteScan (Terabyte.opened (2 ^ 32)) (Terabyte.image (2 ^ 32)) := by
  have hn : 2 ^ 32 ≤ 2 ^ 32 + 1 := Nat.le_succ _
  have hroom := Terabyte.room hn
  refine ⟨Terabyte.opens hn, fun hc => ?_⟩
  have hfew := few_of_completeScan hroom.geometry hroom.size
    (fun slot hs => ManyBlocks.verified hroom hs) (ManyBlocks.generations hroom) _ _ hc
  have hlt := hfew _ (by rw [ManyBlocks.states hroom]; exact List.mem_singleton_self _)
    (scannedState_isSealed _ _)
  rw [scannedState_activeIndex, (ManyBlocks.first_verified hroom).2] at hlt
  exact Nat.lt_irrefl _ hlt

end TFDB
