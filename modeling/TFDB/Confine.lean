import TFDB.Log
import TFDB.Fresh

/-!
# Where a store writes

The writes of a store stay in the region that belongs to them: the header region of the slot
being created, the free bytes, the index region or the footer region of the active slot.  This
needs nothing of what is on the medium; it is a property of the catalog a store holds
(`CatFits`), of the geometry it opened with and of the protocol.

* `Region` — the four regions, from the phase a store is in;
* `Phase.Write.confined` — a write of the protocol lies in its region and outside the data of
  every catalogued partition;
* `writes_confined` — so does every write of every run.
-/

set_option autoImplicit false

namespace TFDB

open ByteLib Writer

/-! ## Catalogs that fit the volume -/

/-- A partition and the blocks of its resident index lie in the data region. -/
structure PartFits (env : Env) (p : PartitionState) : Prop where
  slot : p.header.slot < env.volume.partitionCount
  lower : partitionHeaderRegionSize ≤ p.dataEnd
  upper : p.dataEnd ≤ env.indexBegin
  entries : ∀ e ∈ p.activeIndex, partitionHeaderRegionSize ≤ e.offset.toNat ∧
    e.offset.toNat + e.frameSpan.toNat ≤ p.dataEnd

/-- The partitions of a catalog fit and have slots of their own. -/
structure CatFits (env : Env) (c : Cat) : Prop where
  slots : (c.partitions.map fun p => p.header.slot).Nodup
  parts : ∀ p ∈ c.partitions, PartFits env p

def Phase.Fits (env : Env) : Phase → Prop
  | .ready c => CatFits env c
  | .indexed c => CatFits env c
  | .footed c => CatFits env c
  | .rotating c slot _ => CatFits env c ∧ slot < env.volume.partitionCount
  | .headed c h => CatFits env c ∧ h.slot < env.volume.partitionCount
  | .halted => True

theorem PartFits.cleared {env : Env} {p : PartitionState} (h : PartFits env p) :
    PartFits env p.cleared := by
  unfold PartitionState.cleared
  split
  · exact h
  · exact ⟨h.slot, h.lower, h.upper, fun e he => by cases he⟩

theorem mem_updateFirst {c : PartitionState → Bool} {f : PartitionState → PartitionState}
    {q : PartitionState} : ∀ {ps : List PartitionState}, q ∈ updateFirst c f ps →
      q ∈ ps ∨ ∃ p ∈ ps, ps.find? c = some p ∧ q = f p
  | [], h => by cases h
  | p :: ps, h => by
    simp only [updateFirst] at h
    split at h
    · rename_i hc
      rcases List.mem_cons.mp h with rfl | h
      · exact Or.inr ⟨p, List.mem_cons_self .., by simp [hc], rfl⟩
      · exact Or.inl (List.mem_cons_of_mem _ h)
    · rename_i hc
      rcases List.mem_cons.mp h with rfl | h
      · exact Or.inl (List.mem_cons_self ..)
      · rcases mem_updateFirst h with h | ⟨p', hp', hfind, rfl⟩
        · exact Or.inl (List.mem_cons_of_mem _ h)
        · exact Or.inr ⟨p', List.mem_cons_of_mem _ hp', by simp [hc, hfind], rfl⟩

theorem updateFirst_slots {c : PartitionState → Bool} {f : PartitionState → PartitionState}
    (hf : ∀ p, (f p).header = p.header) : ∀ ps : List PartitionState,
      (updateFirst c f ps).map (fun p => p.header.slot) = ps.map fun p => p.header.slot
  | [] => rfl
  | p :: ps => by
    simp only [updateFirst]
    split
    · simp [hf]
    · simp [updateFirst_slots hf ps]

section
variable {env : Env} {c : Cat}

theorem CatFits.update (h : CatFits env c) {f : PartitionState → PartitionState}
    (hf : ∀ p, (f p).header = p.header)
    (hp : ∀ p, c.active = some p → PartFits env p → PartFits env (f p)) :
    CatFits env (c.update f) where
  slots := by
    rw [Cat.update, updateFirst_slots hf]
    exact h.slots
  parts := by
    intro q hq
    rcases mem_updateFirst hq with hq | ⟨p, hmem, hfind, rfl⟩
    · exact h.parts q hq
    · exact hp p hfind (h.parts p hmem)

theorem CatFits.addFrame (g : Geometry env) (h : CatFits env c) {p : PartitionState}
    (hp : c.active = some p) {b : BlockHeader} {payload raw : Bytes}
    (hf : FrameOk env c p b payload raw) : CatFits env (c.addFrame b) := by
  have hfit := h.update (f := fun q => addBlock q b (blockHeaderEncodedSize + b.storedSize.toNat)
    b.frameSpan.toNat) (fun _ => rfl) fun q hq hfit => ?_
  · exact ⟨hfit.slots, hfit.parts⟩
  · rw [hp] at hq
    cases hq
    have hroom := hf.room
    have hsize := Geometry.partitionSize_lt env
    have hindex := g.indexBegin_add
    refine ⟨hfit.slot, Nat.le_trans hfit.lower (Nat.le_add_right ..), hroom, fun e he => ?_⟩
    rcases List.mem_append.mp he with he | he
    · obtain ⟨h1, h2⟩ := hfit.entries e he
      exact ⟨h1, Nat.le_trans h2 (Nat.le_add_right ..)⟩
    · rw [List.mem_singleton.mp he]
      have hoff : (UInt64.ofNat p.dataEnd).toNat = p.dataEnd :=
        UInt64.toNat_ofNat_of_lt' (Nat.lt_of_le_of_lt hfit.upper (by show _ < 2 ^ 64; omega))
      refine ⟨?_, ?_⟩
      · show partitionHeaderRegionSize ≤ (UInt64.ofNat p.dataEnd).toNat
        rw [hoff]
        exact hfit.lower
      · show (UInt64.ofNat p.dataEnd).toNat + (UInt32.ofNat b.frameSpan.toNat).toNat ≤
          p.dataEnd + b.frameSpan.toNat
        rw [hoff, UInt32.ofNat_toNat]

theorem CatFits.sealed (h : CatFits env c) (p : PartitionState) : CatFits env (c.sealed env p) :=
  h.update (fun _ => rfl) fun _ _ hfit => ⟨hfit.slot, hfit.lower, hfit.upper, hfit.entries⟩

theorem CatFits.install (g : Geometry env) (h : CatFits env c) {hd : PartitionHeader}
    (hs : hd.slot < env.volume.partitionCount) : CatFits env (c.install hd) where
  slots := by
    refine (((List.mergeSort_perm _ _).map _).nodup_iff).mpr ?_
    rw [List.map_append, List.nodup_append]
    refine ⟨?_, by simp, ?_⟩
    · exact h.slots.sublist ((List.filter_sublist ..).map _)
    · intro a ha b hb
      obtain ⟨q, hq, rfl⟩ := List.mem_map.mp ha
      obtain ⟨r, hr, rfl⟩ := List.mem_map.mp hb
      rw [List.mem_singleton.mp hr]
      simpa using (List.mem_filter.mp hq).2
  parts := by
    intro q hq
    rcases List.mem_append.mp (mem_sortPartitions.mp hq) with hq | hq
    · exact h.parts q (List.mem_filter.mp hq).1
    · rw [List.mem_singleton.mp hq]
      exact ⟨hs, Nat.le_refl _, Nat.le_of_lt g.header_lt_indexBegin, fun e he => by cases he⟩

end

/-! ## What open finds fits -/

theorem acceptFooter_bounds {env : Env} {h : PartitionHeader} {bs : Bytes} {f : PartitionFooter}
    (hf : acceptFooter env h bs = .ok f) :
    partitionHeaderRegionSize ≤ f.dataEnd.toNat ∧ f.dataEnd.toNat ≤ env.indexBegin := by
  unfold acceptFooter at hf
  obtain ⟨f', _, hf⟩ := bind_ok_inv hf
  split at hf
  · cases hf
  · rename_i hc
    cases hf
    push Not at hc
    exact ⟨hc.2.2.2.2.2.2.1, hc.2.2.2.2.2.2.2.1⟩

theorem chainEntries_bounds {env : Env} (g : Geometry env) {m : Image} {h : PartitionHeader}
    {limit : Nat} (hl : limit ≤ env.indexBegin) {st st' : ScanState}
    {fs : List (BlockHeader × Bytes)} (hc : Chain env m h limit st fs st') :
    ∀ e ∈ chainEntries st.cursor fs, st.cursor ≤ e.offset.toNat ∧
      e.offset.toNat + e.frameSpan.toNat ≤ st'.cursor := by
  induction hc with
  | nil st => exact fun e he => by cases he
  | @cons st st' b x fs hf hc ih =>
    have hsize := Geometry.partitionSize_lt env
    have hindex := g.indexBegin_add
    have hin := hf.inside
    have hle : st.cursor + b.frameSpan.toNat ≤ st'.cursor := hc.cursor_le
    intro e he
    rcases List.mem_cons.mp he with rfl | he
    · have hoff : (blockEntry st.cursor b).offset.toNat = st.cursor :=
        UInt64.toNat_ofNat_of_lt' (by show _ < 2 ^ 64; omega)
      rw [hoff]
      exact ⟨Nat.le_refl _, hle⟩
    · obtain ⟨h1, h2⟩ := ih e he
      exact ⟨Nat.le_trans (Nat.le_add_right ..) h1, h2⟩

section
variable {env : Env} (g : Geometry env) {m : Image} (hm : env.volume.volumeSize.toNat ≤ m.size)
include g hm

theorem slotState_fits {slot : UInt32} (hs : slot < env.volume.partitionCount) {p : PartitionState}
    (hp : slotState env m slot = some p) : PartFits env p := by
  have hslot := slotState_slot hp
  cases hsealed : p.isSealed with
  | true =>
    obtain ⟨f, hf, -⟩ := slotState_sealed hp hsealed
    have hstate := slotState_of_sealed (slotState_header hp) hf
    have heq : p = sealedState p.header f := Option.some.inj (hp.symm.trans hstate)
    unfold slotFooter at hf
    obtain ⟨h1, h2⟩ := acceptFooter_bounds hf
    rw [heq]
    exact ⟨by rw [← hslot] at hs; exact hs, h1, h2, fun e he => by cases he⟩
  | false =>
    obtain ⟨fs, st, hopen, hc, -⟩ := slotState_open g hm hs hp hsealed
    have hend : p.dataEnd = st.cursor := by
      rw [hopen, openState_dataEnd, hc.cursor_eq]
    have hlim := hc.cursor_limit (Nat.le_of_lt g.header_lt_indexBegin)
    refine ⟨by rw [hslot]; exact hs, ?_, by rw [hend]; exact hlim, fun e he => ?_⟩
    · rw [hend]
      exact hc.cursor_le
    · rw [hopen, openState_activeIndex] at he
      rw [hend]
      exact chainEntries_bounds g (Nat.le_refl _) hc e he

theorem openedCat_fits (id : UInt64 × UInt64) : CatFits env (openedCat env m id) where
  slots := by
    have hlist : ((slotStates env m).map fun p => p.header.slot).Nodup := by
      have hsub : ((slotStates env m).map fun p => p.header.slot).Sublist (slotList env) := by
        unfold slotStates
        induction slotList env with
        | nil => exact List.Sublist.refl _
        | cons slot slots ih =>
          cases hp : slotState env m slot with
          | none =>
            rw [List.filterMap_cons_none hp]
            exact ih.cons slot
          | some p =>
            rw [List.filterMap_cons_some hp, List.map_cons, slotState_slot hp]
            exact ih.cons_cons slot
      exact (slotList_nodup env).sublist hsub
    have hperm : ((catalogOf env m).map PartitionState.header).Perm
        ((slotStates env m).map PartitionState.header) := by
      rw [catalogOf_headers]
      exact (List.mergeSort_perm _ _).map _
    have hslots := hperm.map PartitionHeader.slot
    rw [List.map_map, List.map_map] at hslots
    exact hslots.nodup_iff.mpr hlist
  parts := by
    intro p hp
    obtain ⟨q, hq, hpq⟩ := catalogOf_mem hp
    obtain ⟨hslot, hstate⟩ := mem_slotStates.mp hq
    have hfit := slotState_fits g hm hslot hstate
    rcases hpq with rfl | rfl
    · exact hfit
    · exact hfit.cleared

theorem openPhase_fits (id : UInt64 × UInt64) : (openPhase env m id).Fits env := by
  have hfit := openedCat_fits g hm id
  have hcount : (0 : UInt32) < env.volume.partitionCount := by
    have := g.count
    exact Nat.lt_of_lt_of_le (by decide) this
  unfold openPhase
  split
  · trivial
  split
  · exact ⟨hfit, hcount⟩
  · split
    · split
      · trivial
      · exact ⟨hfit, UInt32.mod_lt _ hcount⟩
    · exact hfit

end

/-! ## The regions -/

/-- The region a store in this phase may write to next, from its first byte to behind its last. -/
inductive Region (env : Env) : Phase → Nat → Nat → Prop
  /-- The header region of the slot being created. -/
  | header (c : Cat) (slot : UInt32) (generation : UInt64) :
      Region env (.rotating c slot generation) (env.partitionBase slot)
        (env.partitionBase slot + partitionHeaderRegionSize)
  /-- What is free of the data region of the active slot. -/
  | data {c : Cat} {p : PartitionState} (hp : c.active = some p) :
      Region env (.ready c) (env.partitionBase p.header.slot + p.dataEnd)
        (env.partitionBase p.header.slot + env.indexBegin)
  /-- The index region of the active slot. -/
  | index {c : Cat} {p : PartitionState} (hp : c.active = some p) :
      Region env (.ready c) (env.partitionBase p.header.slot + env.indexBegin)
        (env.partitionBase p.header.slot + env.footerOffset)
  /-- The footer region of the active slot, behind a written index or for an empty one. -/
  | footer {c : Cat} {p : PartitionState} (hp : c.active = some p) :
      Region env (.indexed c) (env.partitionBase p.header.slot + env.footerOffset)
        (env.partitionBase p.header.slot + env.partitionSize)
  | emptyFooter {c : Cat} {p : PartitionState} (hp : c.active = some p) :
      Region env (.ready c) (env.partitionBase p.header.slot + env.footerOffset)
        (env.partitionBase p.header.slot + env.partitionSize)

/-- The catalog of a store in this phase. -/
def Phase.catalog : Phase → List PartitionState
  | .ready c => c.partitions
  | .indexed c => c.partitions
  | .footed c => c.partitions
  | .rotating c _ _ => c.partitions
  | .headed c _ => c.partitions
  | .halted => []

/-- A write of `n` bytes lies in one region of the phase and touches no data of a catalogued
partition. -/
structure Confined (env : Env) (φ : Phase) (off n : Nat) : Prop where
  region : ∃ lo hi, Region env φ lo hi ∧ lo ≤ off ∧ off + n ≤ hi
  outside : ∀ p ∈ φ.catalog, ∀ a, env.partitionBase p.header.slot + partitionHeaderRegionSize ≤ a →
    a < env.partitionBase p.header.slot + p.dataEnd → a < off ∨ off + n ≤ a

section
variable {env : Env} (g : Geometry env)

theorem Cat.active_fits {c : Cat} (h : CatFits env c) {p : PartitionState} (hp : c.active = some p) :
    PartFits env p := h.parts p (Cat.active_spec hp).1

include g

/-- A window of the active slot behind its data touches no data of the catalog. -/
theorem CatFits.outside {c : Cat} (h : CatFits env c) {p : PartitionState} (hp : c.active = some p)
    {o n : Nat} (hlo : p.dataEnd ≤ o) (hhi : o + n ≤ env.partitionSize) :
    ∀ q ∈ c.partitions, ∀ a, env.partitionBase q.header.slot + partitionHeaderRegionSize ≤ a →
      a < env.partitionBase q.header.slot + q.dataEnd →
      a < env.partitionBase p.header.slot + o ∨ env.partitionBase p.header.slot + o + n ≤ a := by
  intro q hq a h1 h2
  have hmem := (Cat.active_spec hp).1
  have hupper := (h.parts q hq).upper
  have hindex := g.indexBegin_add
  by_cases hs : q.header.slot = p.header.slot
  · left
    have heq : q = p := List.inj_on_of_nodup_map h.slots hq hmem hs
    subst heq
    omega
  · rcases Geometry.slots_disjoint env hs with hd | hd
    · omega
    · omega

/-- A window of the header region of any slot touches no data. -/
theorem CatFits.outside_header {c : Cat} (h : CatFits env c) (slot : UInt32) {n : Nat}
    (hn : n ≤ partitionHeaderRegionSize) :
    ∀ q ∈ c.partitions, ∀ a, env.partitionBase q.header.slot + partitionHeaderRegionSize ≤ a →
      a < env.partitionBase q.header.slot + q.dataEnd →
      a < env.partitionBase slot ∨ env.partitionBase slot + n ≤ a := by
  intro q hq a h1 h2
  have hupper := (h.parts q hq).upper
  have hindex := g.indexBegin_add
  have hlt := g.header_lt_indexBegin
  by_cases hs : q.header.slot = slot
  · right
    subst hs
    omega
  · rcases Geometry.slots_disjoint env hs with hd | hd
    · omega
    · omega

/-- **A write of the protocol is confined.** -/
theorem Phase.Write.confined {φ φ' : Phase} {off : Nat} {i : Item} (h : Phase.Write env φ off i φ')
    (hfit : φ.Fits env) : Confined env φ off (i.bytes env).length := by
  have hindex := g.indexBegin_add
  have hfooter := g.footerOffset_eq
  have hfr : partitionFooterRegionSize = 4096 := rfl
  cases h with
  | @frame c p b payload raw hp hs hf =>
    have hp' := Cat.active_fits hfit hp
    have hroom := hf.room
    have hspan := (alignUp_spec hf.span).2.1
    have hlen : (Item.bytes env (.frame b payload raw)).length ≤ b.frameSpan.toNat := by
      rw [Item.bytes_frame_length]
      exact hspan
    refine ⟨⟨_, _, .data hp, Nat.le_refl _, by omega⟩, ?_⟩
    exact CatFits.outside g hfit hp (Nat.le_refl _) (by omega)
  | @index c p hp hs hd hne hlen =>
    have hp' := Cat.active_fits hfit hp
    have hlen' : (Item.bytes env (.index p.activeIndex)).length ≤ env.indexRegionSize := hlen
    refine ⟨⟨_, _, .index hp, Nat.le_refl _, by omega⟩, ?_⟩
    exact CatFits.outside g hfit hp hp'.upper (by omega)
  | @footer c p hp hs hlen =>
    have hp' := Cat.active_fits hfit hp
    have hupper := hp'.upper
    have hlen := Item.bytes_footer_length env (sealFooter env p) p.activeIndex
    refine ⟨⟨_, _, .footer hp, Nat.le_refl _, by omega⟩, ?_⟩
    exact CatFits.outside g hfit hp (by omega) (by omega)
  | @emptyFooter c p hp hs hd hne =>
    have hp' := Cat.active_fits hfit hp
    have hupper := hp'.upper
    have hlen := Item.bytes_footer_length env (sealFooter env p) p.activeIndex
    refine ⟨⟨_, _, .emptyFooter hp, Nat.le_refl _, by omega⟩, ?_⟩
    exact CatFits.outside g hfit hp (by omega) (by omega)
  | @header c slot generation options ho =>
    have hlen := Item.bytes_header_length env (newHeader env slot generation options)
    have hhr : partitionHeaderRegionSize = 4096 := rfl
    refine ⟨⟨_, _, .header c slot generation, Nat.le_refl _, by omega⟩, ?_⟩
    exact CatFits.outside_header g hfit.1 slot (by omega)

theorem Phase.Write.fits {φ φ' : Phase} {off : Nat} {i : Item} (h : Phase.Write env φ off i φ')
    (hfit : φ.Fits env) : φ'.Fits env := by
  cases h with
  | frame hp hs hf => exact CatFits.addFrame g hfit hp hf
  | index hp hs hd hne hlen => exact hfit
  | footer hp hs hlen => exact hfit
  | emptyFooter hp hs hd hne => exact hfit
  | header ho => exact hfit

theorem Phase.Flush.fits {φ φ' : Phase} (h : Phase.Flush env φ φ') (hfit : φ.Fits env) :
    φ'.Fits env := by
  have hcount : (0 : UInt32) < env.volume.partitionCount := Nat.lt_of_lt_of_le (by decide) g.count
  cases h with
  | sync => exact ⟨hfit.slots, hfit.parts⟩
  | @sealed c p hp hs hg => exact ⟨CatFits.sealed hfit p, UInt32.mod_lt _ hcount⟩
  | install => exact CatFits.install g hfit.1 hfit.2

end

/-! ## Every run -/

/-- The process of a run acts for a volume of this geometry, in this phase. -/
structure Acts (env : Env) (x : Sys) (φ : Phase) : Prop where
  geometry : Geometry env
  size : env.volume.volumeSize.toNat ≤ x.disk.durable.size
  conforms : Conforms env x.disk φ x.proc
  fits : φ.Fits env

section
variable {env : Env} {cut : Disk Item → Image → Prop} {assumed : Disk Item → Prop}

/-- An effect is a step of the protocol of the volume the store has opened. -/
theorem Effect.acts {own : Env} (g : Geometry own) {α : Type} {Q : α → Phase → Prop} {φ : Phase}
    {k k' : WriteProg Status Item α} {d d' : Disk Item} (he : Effect env d k d' k')
    (hf : k.Follows (protocol own) Q φ) (hfit : φ.Fits own) :
    ∃ φ', k'.Follows (protocol own) Q φ' ∧ φ'.Fits own ∧ d'.durable.size = d.durable.size := by
  cases he with
  | write off i k =>
    obtain ⟨⟨φ', hw, hk⟩, -⟩ := hf
    exact ⟨φ', hk, hw.fits g hfit, rfl⟩
  | writeFails off i k n st => exact ⟨.halted, hf.2 st, trivial, rfl⟩
  | flush k =>
    obtain ⟨⟨φ', hw, hk⟩, -⟩ := hf
    exact ⟨φ', hk, hw.fits g hfit, Disk.volatile_size ..⟩
  | flushFails k st => exact ⟨.halted, hf.2 st, trivial, rfl⟩

/-- In every reachable state the process acts for the volume of its store. -/
theorem reach_acts (hcut : ∀ d m, cut d m → m.size = d.durable.size) {x : Sys}
    (h : Reach env cut assumed x) : ∃ own φ, Acts own x φ := by
  induction h with
  | @init x h =>
    obtain ⟨o, random, ho⟩ := h.size
    obtain ⟨g, hsize⟩ := formatHeader_geometry h.small h.nonzero ho
    refine ⟨env, .halted, g, Nat.le_of_eq hsize, ?_, trivial⟩
    rw [h.proc]
    refine ⟨rfl, formatProgram_onlyVolume env, fun w hw => ?_⟩
    rw [h.issued] at hw
    cases hw
  | @step x y hx hstep ih =>
    obtain ⟨own, φ, g, hsize, hc, hfit⟩ := ih
    cases hstep with
    | formatEffect hproc he =>
      rw [hproc] at hc
      obtain ⟨rfl, hk, hvol⟩ := hc
      cases he with
      | write off i k =>
        obtain ⟨hoff, rfl, hk⟩ := hk
        refine ⟨own, .halted, g, hsize, ⟨rfl, hk _, fun w hw => ?_⟩, trivial⟩
        rcases List.mem_append.mp hw with hw | hw
        · exact hvol w hw
        · rw [List.mem_singleton.mp hw]
          exact ⟨_, rfl⟩
      | writeFails off i k n st =>
        obtain ⟨hoff, rfl, hk⟩ := hk
        refine ⟨own, .halted, g, hsize, ⟨rfl, hk _, fun w hw => ?_⟩, trivial⟩
        rcases List.mem_append.mp hw with hw | hw
        · exact hvol w hw
        · rw [List.mem_singleton.mp hw]
          exact ⟨_, rfl⟩
      | flush k =>
        refine ⟨own, .halted, g, ?_, ⟨rfl, hk _, hvol⟩, trivial⟩
        exact Nat.le_trans hsize (Nat.le_of_eq (Disk.volatile_size ..).symm)
      | flushFails k st => exact ⟨own, .halted, g, hsize, ⟨rfl, hk _, hvol⟩, trivial⟩
    | formatted r hproc => exact ⟨own, .halted, g, hsize, rfl, trivial⟩
    | @startOpen s o id hproc had hw hfresh hid hrec hwid =>
      obtain ⟨-, g', hsize', ⟨wid, hprep, hs⟩, hnf, hgen, -⟩ := recover_inv hrec
      have hwid' : wid = id := by
        rw [hs] at hwid
        exact hwid
      subst hwid'
      have ho := prepareWriter_ok (o := { o with codecs := env.codecs }) hw hprep
      refine ⟨s.env, openPhase s.env (x.disk.volatile (Item.bytes env)) wid, g', ?_, ?_,
        openPhase_fits g' hsize' wid⟩
      · exact Nat.le_trans hsize' (Nat.le_of_eq (Disk.volatile_size ..))
      · have hf := startWriter_follows (o := { o with codecs := env.codecs }) hid ho hgen
        rw [← hs] at hf
        exact hf
    | openEffect hproc he =>
      rw [hproc] at hc
      obtain ⟨φ', hk, hfit', hd⟩ := he.acts g hc hfit
      exact ⟨own, φ', g, by rw [hd]; exact hsize, hk, hfit'⟩
    | opened s hproc =>
      rw [hproc] at hc
      exact ⟨own, φ, g, hsize, hc rfl, hfit⟩
    | openFailed st s hproc => exact ⟨own, .halted, g, hsize, rfl, trivial⟩
    | call op hproc =>
      rw [hproc] at hc
      exact ⟨own, φ, g, hsize, program_follows op hc, hfit⟩
    | effect hproc he =>
      rw [hproc] at hc
      obtain ⟨φ', hk, hfit', hd⟩ := he.acts g hc hfit
      exact ⟨own, φ', g, by rw [hd]; exact hsize, hk, hfit'⟩
    | returned hproc =>
      rw [hproc] at hc
      exact ⟨own, φ, g, hsize, hc, hfit⟩
    | restart => exact ⟨own, .halted, g, hsize, rfl, trivial⟩
    | powerCut m h =>
      refine ⟨own, .halted, g, ?_, rfl, trivial⟩
      exact Nat.le_trans hsize (Nat.le_of_eq (hcut _ _ h).symm)

/-- The process is about to write an item. -/
def Sys.Writing (x : Sys) (off : Nat) (i : Item) : Prop :=
  match x.proc with
  | .opening k => k.firstWrite = some (off, i)
  | .busy _ k => k.firstWrite = some (off, i)
  | _ => False

/-- What a process is about to write is a step of its phase. -/
theorem Conforms.writing {own : Env} {x : Sys} {φ : Phase} (h : Conforms own x.disk φ x.proc) {off : Nat}
    {i : Item} (hw : x.Writing off i) : ∃ φ', Phase.Write own φ off i φ' := by
  unfold Sys.Writing at hw
  split at hw
  · rename_i hk
    rw [hk] at h
    obtain ⟨k, rfl⟩ := WriteProg.firstWrite_eq_some hw
    obtain ⟨⟨φ', hw, -⟩, -⟩ := h
    exact ⟨φ', hw⟩
  · rename_i hk
    rw [hk] at h
    obtain ⟨k, rfl⟩ := WriteProg.firstWrite_eq_some hw
    obtain ⟨⟨φ', hw, -⟩, -⟩ := h
    exact ⟨φ', hw⟩
  · cases hw

/-- The slots of a volume lie apart inside it, and so do the regions of each slot. -/
structure RegionsApart (env : Env) (size : Nat) (catalog : List PartitionState) : Prop where
  slots : ∀ s t : UInt32, s ≠ t → env.partitionBase s + env.partitionSize ≤ env.partitionBase t ∨
    env.partitionBase t + env.partitionSize ≤ env.partitionBase s
  inside : ∀ slot : UInt32, slot < env.volume.partitionCount →
    volumePrefixSize ≤ env.partitionBase slot ∧
      env.partitionBase slot + env.partitionSize ≤ env.volume.volumeSize.toNat
  volume : env.volume.volumeSize.toNat ≤ size
  regions : partitionHeaderRegionSize < env.indexBegin ∧ env.indexBegin < env.footerOffset ∧
    env.footerOffset < env.partitionSize
  data : ∀ p ∈ catalog, PartFits env p

theorem Phase.Fits.parts {φ : Phase} (h : φ.Fits env) : ∀ p ∈ φ.catalog, PartFits env p := by
  cases φ with
  | ready c => exact CatFits.parts h
  | indexed c => exact CatFits.parts h
  | footed c => exact CatFits.parts h
  | rotating c slot generation => exact CatFits.parts h.1
  | headed c hd => exact CatFits.parts h.1
  | halted => exact fun p hp => by cases hp

theorem Acts.apart {x : Sys} {φ : Phase} (h : Acts env x φ) :
    RegionsApart env x.disk.durable.size φ.catalog where
  slots := fun _ _ hst => Geometry.slots_disjoint env hst
  inside := fun _ hs => ⟨Nat.le_add_right .., h.geometry.slot_end hs⟩
  volume := h.size
  regions := by
    have h1 := h.geometry.header_lt_indexBegin
    have h2 := h.geometry.footerOffset_eq
    have h3 := h.geometry.indexBegin_add
    have h4 := h.geometry.index_min
    simp only [indexEntryEncodedSize] at h4
    simp only [partitionFooterRegionSize] at h3
    omega
  data := h.fits.parts

theorem Item.bytes_length_eq (own : Env) (i : Item) :
    (i.bytes env).length = (i.bytes own).length := by
  cases i with
  | volume v => simp
  | header h => simp
  | frame b payload raw => simp
  | index es => simp
  | footer f es => simp

/-- **Published bytes are immutable and regions never overlap.**  In every state of every run, with
any storage errors, cuts and reopens, the process acts for a volume inside the storage whose slots
and regions lie apart.  What it is about to write lies in one region of its phase, and however
much of it is transferred, no byte of the data of a catalogued partition changes. -/
theorem writes_confined {x : Sys}
    (hx : Reach env (fun d m => d.MixCut (Item.bytes env) m) assumed x) :
    ∃ own φ, Acts own x φ ∧ RegionsApart own x.disk.durable.size φ.catalog ∧
      ∀ off i, x.Writing off i → Confined own φ off (i.bytes env).length ∧
        ∀ n, ∀ p ∈ φ.catalog, ∀ a,
          own.partitionBase p.header.slot + partitionHeaderRegionSize ≤ a →
          a < own.partitionBase p.header.slot + p.dataEnd →
          ((x.disk.issue off i n).volatile (Item.bytes env)).byte a =
            (x.disk.volatile (Item.bytes env)).byte a := by
  obtain ⟨own, φ, ha⟩ := reach_acts (fun d m hm => hm.1) hx
  refine ⟨own, φ, ha, ha.apart, fun off i hw => ?_⟩
  obtain ⟨φ', hstep⟩ := ha.conforms.writing hw
  have hconf := hstep.confined ha.geometry ha.fits
  rw [Item.bytes_length_eq own i]
  refine ⟨hconf, fun n p hp a h1 h2 => Disk.volatile_issue_out _ ?_⟩
  rw [Item.bytes_length_eq own i]
  exact hconf.outside p hp a h1 h2

end

/-- The second frame of the sample run is confined, and however much of it is transferred, the data
behind the flush stays as it is. -/
theorem sample_write_confined : ∃ own φ, Confined own φ 12544 129 ∧
    ∀ n, ∀ p ∈ φ.catalog, ∀ a,
      own.partitionBase p.header.slot + partitionHeaderRegionSize ≤ a →
      a < own.partitionBase p.header.slot + p.dataEnd →
      ((Sample.flushedDisk.issue 12544 (.frame (Sample.block 1 (3, 4) (3, 4)) Sample.record
        Sample.record) n).volatile (Item.bytes Sample.env)).byte a =
        (Sample.flushedDisk.volatile (Item.bytes Sample.env)).byte a := by
  have hx : Reach Sample.env (fun d m => d.MixCut (Item.bytes Sample.env) m)
      (CollisionFreeNow Sample.env)
      ⟨Sample.flushedDisk, [(3, 4)], .busy .publish (Op.publish.program Sample.buffered)⟩ :=
    Sample.reach_buffered.step (.call _ .publish rfl)
  obtain ⟨own, φ, -, -, h⟩ := writes_confined hx
  obtain ⟨hw, hkeeps⟩ := h 12544 (.frame (Sample.block 1 (3, 4) (3, 4)) Sample.record Sample.record) rfl
  rw [Item.bytes_frame_length] at hw
  exact ⟨own, φ, hw, hkeeps⟩

end TFDB
