import TFDB.LiveCatalog
import TFDB.Complete

/-!
# Every call of a store object

* `Held` — a store object between two calls, opened on any image;
* `event_discipline` — every `scan_blocks` and `query_blocks` call on it keeps the event rules, and
  its data events are in order if no partition has more than `2 ^ 32` blocks that a scan has to find;
* `verified_few` — which is also necessary where every block was verified by open;
* `sequence_wraps` — an image with `2 ^ 32 + 1` blocks delivers two blocks with sequence 0.
-/

set_option autoImplicit false

namespace TFDB

open ByteLib

/-- A store object between two calls: what open returned for an image, or what calls with any
outcome of their writes and flushes made of it. -/
inductive Held : Store → Prop
  | opened {m : Image} {o : OpenOptions} {random : Except Status (UInt64 × UInt64)} {s : Store}
      (h : Rd.run (imageSource m) (recover m.size o random) = .ok s) : Held s
  | called {env : Env} {x : Sys} {S : Session} {s : Store} {last : Option (Op × Except Status Unit)}
      (h : Tracked env x S) (hp : x.proc = .idle s last) : Held s

theorem Held.ordered {s : Store} (h : Held s) : OrderedCatalog s := by
  cases h with
  | opened h =>
    obtain ⟨-, g, hm, ⟨id, -, hs⟩, -, hgen, -⟩ := recover_inv h
    rw [hs]
    exact opened_ordered g hm hgen _ id
  | called h hp =>
    have hf := h.orderKept
    rw [hp] at hf
    exact hf

/-- `scan_blocks` or `query_blocks` on an image. -/
def Store.answer (s : Store) (q : Query) (m : Image) : QueryState × Status :=
  ReadProg.run (imageSource m) (s.query q)

/-- The data of every call is in order. -/
def DataInOrder (s : Store) (m : Image) : Prop := ∀ q, Increasing (s.answer q m).1.events

theorem OrderedCatalog.dataInOrder {s : Store} (h : OrderedCatalog s) {m : Image} (hfew : ∀ p ∈ s.partitions, Few s.env m p) :
    DataInOrder s m := by
  intro q
  have hsort : sortPartitions s.partitions = s.partitions :=
    List.mergeSort_of_pairwise (h.order.imp fun hab => by
      simpa only [byGeneration, decide_eq_true_eq] using UInt64.le_of_lt hab)
  refine query_increasing s.corruptSlots ?_ fun p hp es hes => ?_
  · rw [hsort]
    exact h.order
  · exact (hes.numbered (h.numbered p hp)).increasing (hes.length_le (hfew p hp))

/-! ## Where open verified the blocks -/

section
variable {env : Env} {m : Image} (g : Geometry env) (hm : env.volume.volumeSize.toNat ≤ m.size)
include g hm

/-- A verified index of at most `2 ^ 32` entries. -/
theorem VerifiedIndex.few {q : PartitionState} {es : List IndexEntry} (h : VerifiedIndex env m q es)
    (hq : q ∈ slotStates env m) (hlen : es.length ≤ 2 ^ 32) {p : PartitionState}
    (hp : p = q ∨ p = q.cleared) : Few env m p := by
  obtain ⟨hslot, hstate⟩ := mem_slotStates.mp hq
  cases hsealed : q.isSealed with
  | true =>
    obtain rfl : p = q := by
      rcases hp with hp | hp
      · exact hp
      · rw [hp, PartitionState.cleared, if_pos hsealed]
    refine ⟨?_, fun hres => ?_⟩
    · rw [slotState_sealed_index hstate hsealed]
      exact Nat.zero_le _
    · obtain ⟨hload, -⟩ := h.sealed hsealed
      rw [Rescanned, if_pos hsealed] at hres
      obtain ⟨st, hst⟩ := hres
      rw [hload] at hst
      cases hst
  | false =>
    obtain ⟨fs, st, hopen, hc, hstuck⟩ := slotState_open g hm hslot hstate hsealed
    obtain ⟨fs', st', hopen', hes, -⟩ := h.footerless hsealed
    have hindex : q.activeIndex = es := by
      rw [hopen', openState_activeIndex, hes]
    have hfs : fs.length = es.length := by
      rw [← hindex, hopen, openState_activeIndex, chainEntries_length]
    have hhead : p.header = q.header := by
      rcases hp with rfl | rfl
      · rfl
      · simp
    constructor
    · rcases hp with rfl | rfl
      · rw [hindex]
        exact hlen
      · rw [PartitionState.cleared, if_neg (by simp [hsealed])]
        exact Nat.zero_le _
    · intro _ gs su hgs
      rw [hhead] at hgs
      obtain ⟨rest, hrest, -⟩ := hgs.prefix hc hstuck
      have := congrArg List.length hrest
      rw [List.length_append] at this
      omega

/-- The entries of a verified partition are all delivered by a scan, so their order is that of its
events. -/
theorem verified_few (hst : ∀ slot < env.volume.partitionCount, StrictSlot env m slot)
    (o : OpenOptions) (id : UInt64 × UInt64) (h : DataInOrder (openedStore env m o id) m) :
    ∀ p ∈ (openedStore env m o id).partitions, Few env m p := by
  intro p hp
  rw [openedStore_partitions] at hp
  obtain ⟨q, hq, es, hpq, hes, -, ha, -⟩ := catalog_verified g hm hst hp
  have hhead : p.header = q.header := by
    rcases hpq with rfl | rfl
    · rfl
    · simp
  obtain ⟨hevents, hdata⟩ := hes.events hhead ha
  refine hes.few g hm hq ?_ hpq
  have hscan : Increasing (scanBlocks (openedStore env m o id) m).1.events := h {}
  rw [scanBlocks_verified g hm hst, QueryState.deliverAll_events, List.nil_append] at hscan
  -- the events of this partition are among those of the scan
  have hsub : (es.map (entryEvent env m p)).Sublist
      (((sortPartitions (catalogOf env m)).flatMap (partitionEvents env m {})).filter
        BlockEvent.isData) := by
    have hall : (es.map (entryEvent env m p)).filter BlockEvent.isData =
        es.map (entryEvent env m p) := by
      refine List.filter_eq_self.mpr fun ev hev => ?_
      obtain ⟨e, he, rfl⟩ := List.mem_map.mp hev
      exact beq_iff_eq.mpr (hdata e he).1
    rw [← hall]
    refine List.Sublist.filter _ (.trans ?_ (List.Sublist.flatMap
      (List.singleton_sublist.mpr (mem_sortPartitions.mpr hp)) _))
    rw [List.flatMap_singleton, hevents]
    exact List.sublist_append_right ..
  have hpair := hscan.sublist hsub
  rw [List.pairwise_map] at hpair
  refine Numbered.length_le hes.sequences (List.pairwise_map.mpr
    (hpair.imp_of_mem fun {a b} ha hb hab => ?_))
  obtain ⟨-, hga, hsa⟩ := hdata a ha
  obtain ⟨-, hgb, hsb⟩ := hdata b hb
  rcases hab with hlt | ⟨-, hlt⟩
  · rw [hga, hgb] at hlt
    exact absurd hlt (UInt64.lt_irrefl _)
  · rw [hsa, hsb] at hlt
    exact hlt

end

/-- **The discipline of query events.**  Every call on a store object keeps the event rules on
every image.  Its data comes in strictly increasing order of generation and sequence if no more than
`2 ^ 32` blocks of a partition are retained or found by a scan, and only then if open verified
them. -/
theorem event_discipline {s : Store} (h : Held s) (m : Image) :
    (∀ q, EventRules q s.partitions (s.answer q m).1 (s.answer q m).2) ∧
    ((∀ p ∈ s.partitions, Few s.env m p) → DataInOrder s m) ∧
    ((∃ o random, o.verifyPayloadsOnOpen = true ∧
        Rd.run (imageSource m) (recover m.size o random) = .ok s) →
      (DataInOrder s m ↔ ∀ p ∈ s.partitions, Few s.env m p)) := by
  refine ⟨fun q => query_rules s.env _ q s.partitions s.corruptSlots, h.ordered.dataInOrder, ?_⟩
  rintro ⟨o, random, hstrict, hrun⟩
  refine ⟨fun hord => ?_, h.ordered.dataInOrder⟩
  obtain ⟨-, g, hm, ⟨id, -, hs⟩, -, hgen, r, hr⟩ := recover_inv hrun
  rw [hstrict, recoverSlots_strict_iff g hm _ fun slot hs => mem_slotList.mp hs] at hr
  have hst : ∀ slot < s.env.volume.partitionCount, StrictSlot s.env m slot :=
    fun slot hslot => hr.2 slot (mem_slotList.mpr hslot)
  have hfew := verified_few g hm hst o id (hs ▸ hord)
  rw [← hs] at hfew
  exact hfew

/-! ## A partition with more blocks than sequences -/

/-- Three blocks are delivered in order, to every visitor. -/
theorem three_blocks_in_order : DataInOrder (Terabyte.opened 3) (Terabyte.image 3) := by
  refine (event_discipline (.opened (Terabyte.opens (by decide))) _).2.1 fun p hp => ?_
  obtain ⟨q, hq, hopen, hlen⟩ := Terabyte.retained (n := 3) (by decide)
  rw [hq, List.mem_singleton] at hp
  subst hp
  refine ⟨by omega, fun hres => ?_⟩
  rw [Rescanned, if_neg (by simp [hopen])] at hres
  rw [hres] at hlen
  cases hlen

/-- With `2 ^ 32 + 1` blocks open verifies all of them, and a scan delivers sequence 0 twice. -/
theorem sequence_wraps :
    Rd.run (imageSource (Terabyte.image (2 ^ 32 + 1)))
        (recover (Terabyte.image (2 ^ 32 + 1)).size ManyBlocks.strict (.ok (0, 0))) =
      .ok (Terabyte.opened (2 ^ 32 + 1)) ∧
    ¬ DataInOrder (Terabyte.opened (2 ^ 32 + 1)) (Terabyte.image (2 ^ 32 + 1)) := by
  have hn : 2 ^ 32 + 1 ≤ 2 ^ 32 + 1 := Nat.le_refl _
  refine ⟨Terabyte.opens hn, fun hord => ?_⟩
  have hroom := Terabyte.room hn
  obtain ⟨p, hp, -, hlen⟩ := Terabyte.retained hn
  have hfew := verified_few hroom.geometry hroom.size (fun slot hs => ManyBlocks.verified hroom hs) _ _
    hord p (by
      show p ∈ (Terabyte.opened (2 ^ 32 + 1)).partitions
      rw [hp]
      exact List.mem_singleton_self _)
  have hle := hfew.retained
  omega

end TFDB
