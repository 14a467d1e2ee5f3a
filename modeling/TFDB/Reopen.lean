import TFDB.Ring
import TFDB.Strict
import TFDB.Fresh

/-!
# Reading the ring back

A volume whose medium holds a ring is read back as that ring, where the image is free of
collisions: every partition of the ring is found in its slot, the scan of the newest one ends
behind its last block, and the other slots are empty.

* `RingInv.catalog` — the catalog `open` builds lists the ring;
* `RingInv.opened` — the phase a writable open starts in fits the ring;
* `Clean` — runs without faults, observed between two calls; `Clean.ring` — the invariant holds
  in all of them.
-/

set_option autoImplicit false

namespace TFDB

open ByteLib Writer

/-! ## Slots of the ring -/

/-- The catalog entry `open` makes of a partition. -/
def RingPartition.recovered (env : Env) (q : RingPartition) : PartitionState :=
  if q.isSealed then sealedState (q.header.written env) (q.footer env)
  else openState (q.header.written env) q.frames

@[simp] theorem RingPartition.recovered_header (env : Env) (q : RingPartition) :
    (q.recovered env).header = q.header.written env := by
  unfold RingPartition.recovered
  split
  · rfl
  · exact openState_header _ _

@[simp] theorem RingPartition.recovered_isSealed (env : Env) (q : RingPartition) :
    (q.recovered env).isSealed = q.isSealed := by
  unfold RingPartition.recovered
  split
  · rename_i h
    rw [h]
    rfl
  · rename_i h
    rw [openState_isSealed]
    exact (Bool.eq_false_iff.mpr h).symm

theorem RingPartition.recovered_stateOf (env : Env) (q : RingPartition) :
    StateOf env q (q.recovered env) := by
  refine ⟨?_, q.recovered_isSealed env, fun ho => ?_, fun hs => ?_⟩
  · rw [q.recovered_header]
    rfl
  · rw [q.recovered_header, RingPartition.recovered, ho]
    rfl
  · rw [RingPartition.recovered, hs]
    rfl

section
variable {env : Env} {prior : Image} {d : Disk Item} (g : Geometry env) (hr : RingInv env prior d)
include g hr

/-- The newest partition, while it is open, has no footer. -/
theorem RingInv.slotFooter_open (hc : CollisionFreeNow env d) {q : RingPartition}
    (hq : q ∈ ringOf d.issued) (ho : q.isSealed = false) {f : PartitionFooter} :
    slotFooter env (d.volatile (Item.bytes env)) (q.header.written env) ≠ .ok f := by
  intro hf
  have hlt := (hr.sound q hq).made.slotOf.lt g
  unfold slotFooter at hf
  obtain ⟨hdec, hhigh, hlow, -, hgen⟩ := acceptFooter_inv hf
  obtain ⟨hck, e16, e24⟩ := decodePartitionFooter_inv hdec
  obtain ⟨f', es, hm, hb⟩ := hc.footer q.header.slot hlt hck (e16.trans hhigh) (e24.trans hlow)
  obtain ⟨hdec', -, hall⟩ := hr.footers _ f' es hm
  have hb' : (d.volatile (Item.bytes env)).window (env.partitionBase q.header.slot +
      env.footerOffset) partitionFooterEncodedSize = encodePartitionFooter f' := hb
  have hff : f = f' := by
    have hdec₂ : decodePartitionFooter ((d.volatile (Item.bytes env)).window
        (env.partitionBase q.header.slot + env.footerOffset) partitionFooterEncodedSize) = .ok f := hdec
    rw [hb', hdec'] at hdec₂
    exact (Except.ok.inj hdec₂).symm
  have hs := hall q hq (hff ▸ hgen)
  rw [ho] at hs
  cases hs

/-- A scan of the newest partition ends behind its last block. -/
theorem RingInv.stuck (hc : CollisionFreeNow env d) {q : RingPartition} (hq : q ∈ ringOf d.issued)
    {st : ScanState}
    (hch : Chain env (d.volatile (Item.bytes env)) q.header env.indexBegin {} q.frames st) :
    Stuck env (d.volatile (Item.bytes env)) q.header env.indexBegin st := by
  intro b x hf
  have hlt := (hr.sound q hq).made.slotOf.lt g
  have hin := hf.inside
  have hge : partitionHeaderRegionSize ≤ st.cursor := hch.cursor_le
  obtain ⟨raw, hraw⟩ := hc.frame q.header.slot hlt st.cursor hge (by omega)
    hf.accepted.cursor_aligned b hf.header hf.accepted.idHigh hf.accepted.idLow
    (by rw [hf.payload_eq]; exact hf.crc)
  have hmem := (hr.frames _ _ _ _ hraw).2 q hq hf.accepted.generation
  have hb : env.partitionBase q.header.slot + st.cursor + b.frameSpan.toNat ≤
      env.partitionBase q.header.slot + st.cursor := (hch.frame_bounds hmem).2
  have hspan := hf.bounds.2
  simp only [blockHeaderEncodedSize] at hspan
  omega

omit g in
/-- The header of a partition is in place. -/
theorem RingInv.slotHeader (g : Geometry env) {q : RingPartition} (hq : q ∈ ringOf d.issued)
    (hv : q.header.options.compressionVersion ≠ 0) :
    slotHeader env (d.volatile (Item.bytes env)) q.header.slot = .ok (q.header.written env) :=
  (hr.sound q hq).made.slotHeader g hv (hr.media q hq).window

/-- The slot of a partition of the ring. -/
theorem RingInv.slotState (hm : env.volume.volumeSize.toNat ≤ prior.size)
    (hc : CollisionFreeNow env d) {q : RingPartition} (hq : q ∈ ringOf d.issued)
    (hv : q.header.options.compressionVersion ≠ 0) :
    slotState env (d.volatile (Item.bytes env)) q.header.slot = some (q.recovered env) := by
  have hh := hr.slotHeader g hq hv
  have hmedia := hr.media q hq
  have hsound := hr.sound q hq
  cases hs : q.isSealed with
  | true =>
    have hf : slotFooter env (d.volatile (Item.bytes env)) (q.header.written env) =
        .ok (q.footer env) := by
      unfold slotFooter
      have hw := hmedia.footer hs
      have hw' : (d.volatile (Item.bytes env)).window (env.partitionBase
          (q.header.written env).slot + env.footerOffset) partitionFooterEncodedSize =
          encodePartitionFooter (q.footer env) := hw
      rw [hw']
      exact (hmedia.sealedBy hsound).accepted g rfl rfl
    rw [slotState_of_sealed hh hf, RingPartition.recovered, hs, if_pos rfl]
  | false =>
    cases hf : slotFooter env (d.volatile (Item.bytes env)) (q.header.written env) with
    | ok f => exact absurd hf (hr.slotFooter_open g hc hq hs)
    | error e =>
      rw [slotState_of_open hh hf, RingPartition.recovered, hs, if_neg Bool.false_ne_true]
      obtain ⟨st, hch⟩ := hmedia.chain
      have hstuck := hr.stuck g hc hq hch
      have hlt : (q.header.written env).slot < env.volume.partitionCount := hsound.made.slotOf.lt g
      obtain ⟨fs, st', corrupt, hrun, hch', hstuck'⟩ := scanPartition_run g
        (by rw [hr.size]; exact hm) hlt 0 env.indexBegin (if_pos rfl)
        (Nat.le_of_lt g.header_lt_indexBegin) (Nat.le_refl _)
      obtain ⟨rfl, rfl⟩ := (hch.header_congr (show (q.header.written env).slot = _ from rfl) rfl rfl).eq_of_stuck
        (hstuck.header_congr rfl rfl rfl) hch' hstuck'
      rw [slotScan_of_run hrun]
      have he := hch.entries
      have hcur := hch.cursor_eq
      simp only [scannedState, openState, ScanState.stop, he, hcur]
      rfl

/-- A slot that no partition of the ring has. -/
theorem RingInv.slotHeader_unused (hc : CollisionFreeNow env d) {slot : UInt32}
    (hs : slot < env.volume.partitionCount) (hun : ∀ q ∈ ringOf d.issued, q.header.slot ≠ slot) :
    ∃ e, TFDB.slotHeader env (d.volatile (Item.bytes env)) slot = .error e := by
  cases hh : TFDB.slotHeader env (d.volatile (Item.bytes env)) slot with
  | error e => exact ⟨e, rfl⟩
  | ok h =>
    exfalso
    unfold TFDB.slotHeader at hh
    obtain ⟨hdec, hhigh, hlow, -, -⟩ := acceptPartitionHeader_inv hh
    obtain ⟨hck, e16, e24⟩ := decodePartitionHeader_inv hdec
    obtain ⟨h', hm, -⟩ := hc.header slot hs hck (e16.trans hhigh) (e24.trans hlow)
    obtain ⟨hoff, q, hq, hqs⟩ := hr.headers _ h' hm
    have hslot := Geometry.partitionBase_inj g.partitionSize_pos hoff
    exact hun q hq (hqs.trans hslot.symm)

/-! ## The catalog -/

omit g hr in
theorem RingPartition.recovered_generation (env : Env) (q : RingPartition) :
    (q.recovered env).header.generation = q.header.generation := by
  rw [q.recovered_header]
  rfl

omit g hr in
theorem Ordered.recovered {qs : List RingPartition} (h : Ordered qs) :
    (qs.map (RingPartition.recovered env)).Pairwise fun a b =>
      a.header.generation < b.header.generation := by
  rw [List.pairwise_map]
  refine h.imp fun hab => ?_
  rw [RingPartition.recovered_generation, RingPartition.recovered_generation]
  exact hab.1

variable (hm : env.volume.volumeSize.toNat ≤ prior.size) (hc : CollisionFreeNow env d)
  (hv : ∀ q ∈ ringOf d.issued, q.header.options.compressionVersion ≠ 0)
include hm hc hv

theorem RingInv.mem_slotStates {p : PartitionState} :
    p ∈ slotStates env (d.volatile (Item.bytes env)) ↔
      p ∈ (ringOf d.issued).map (RingPartition.recovered env) := by
  rw [TFDB.mem_slotStates, List.mem_map]
  constructor
  · rintro ⟨hs, hp⟩
    by_cases hun : ∀ q ∈ ringOf d.issued, q.header.slot ≠ p.header.slot
    · obtain ⟨e, he⟩ := hr.slotHeader_unused g hc hs hun
      rw [slotState_of_error he] at hp
      cases hp
    · push Not at hun
      obtain ⟨q, hq, hqs⟩ := hun
      have hst := hr.slotState g hm hc hq (hv q hq)
      rw [hqs, hp] at hst
      exact ⟨q, hq, (Option.some.inj hst).symm⟩
  · rintro ⟨q, hq, rfl⟩
    rw [RingPartition.recovered_header]
    exact ⟨(hr.sound q hq).made.slotOf.lt g, hr.slotState g hm hc hq (hv q hq)⟩

/-- What `open` finds in the slots, in the order of the generations, is the ring. -/
theorem RingInv.sorted_slotStates : sortPartitions (slotStates env (d.volatile (Item.bytes env))) =
    (ringOf d.issued).map (RingPartition.recovered env) := by
  have horder := @Ordered.recovered env _ hr.order
  refine @List.Perm.eq_of_pairwise _ (fun a b => a.header.generation ≤ b.header.generation) _ _
    ?_ (sortPartitions_sorted _) (horder.imp UInt64.le_of_lt) ?_
  · intro a b ha hb h1 h2
    rw [mem_sortPartitions, hr.mem_slotStates g hm hc hv] at ha
    obtain ⟨q, hq, rfl⟩ := List.mem_map.mp ha
    obtain ⟨q', hq', rfl⟩ := List.mem_map.mp hb
    have heq := UInt64.le_antisymm h1 h2
    rw [RingPartition.recovered_generation, RingPartition.recovered_generation] at heq
    rw [hr.order.unique hq hq' heq]
  · refine (List.mergeSort_perm _ _).trans ?_
    refine (List.perm_ext_iff_of_nodup ?_ ?_).mpr fun p => hr.mem_slotStates g hm hc hv
    · refine (slotList_nodup env).filterMap fun a a' p ha ha' => ?_
      exact (slotState_slot ha).symm.trans (slotState_slot ha')
    · refine horder.imp fun {a b} hlt he => ?_
      rw [he] at hlt
      exact UInt64.lt_irrefl _ hlt

theorem RingInv.generationsOk : GenerationsOk (slotStates env (d.volatile (Item.bytes env))) := by
  constructor
  · intro p hp
    obtain ⟨q, hq, rfl⟩ := List.mem_map.mp ((hr.mem_slotStates g hm hc hv).mp hp)
    rw [RingPartition.recovered_generation]
    exact (hr.sound q hq).made.slotOf.1
  · have hperm : (sortPartitions (slotStates env (d.volatile (Item.bytes env)))).Perm
        (slotStates env (d.volatile (Item.bytes env))) := List.mergeSort_perm _ _
    rw [← (hperm.map _).nodup_iff, hr.sorted_slotStates g hm hc hv]
    refine List.Pairwise.map _ (R := fun a b : PartitionState =>
      a.header.generation < b.header.generation) (fun a b hlt he => ?_) hr.order.recovered
    rw [he] at hlt
    exact UInt64.lt_irrefl _ hlt

/-- The catalog `open` builds. -/
theorem RingInv.catalog : catalogOf env (d.volatile (Item.bytes env)) =
    (ringOf d.issued).map (RingPartition.recovered env) := by
  unfold catalogOf
  rw [hr.sorted_slotStates g hm hc hv]
  rcases List.eq_nil_or_concat (ringOf d.issued) with hnil | ⟨older, q, hqs⟩
  · rw [hnil]
    rfl
  · rw [List.concat_eq_append] at hqs
    have hclosed := hr.closed
    rw [hqs, List.dropLast_concat] at hclosed
    rw [hqs, List.map_append, List.map_singleton, keepLastIndex_append, List.map_map]
    refine congrArg (· ++ _) (List.map_congr_left fun r hrm => ?_)
    simp only [Function.comp, PartitionState.cleared, RingPartition.recovered_isSealed, hclosed r hrm,
      if_true]

theorem RingInv.states : List.Forall₂ (StateOf env) (ringOf d.issued)
    (catalogOf env (d.volatile (Item.bytes env))) := by
  rw [hr.catalog g hm hc hv, List.forall₂_map_right_iff, List.forall₂_same]
  exact fun q _ => q.recovered_stateOf env

theorem RingInv.openedCat (id : UInt64 × UInt64)
    (hd : (slotList env).filter (slotDamaged env (d.volatile (Item.bytes env))) = []) :
    CatIs env (ringOf d.issued) (openedCat env (d.volatile (Item.bytes env)) id) := by
  refine ⟨hr.states g hm hc hv, fun q hq => ?_, hd⟩
  have hlast : (keepLastIndex (sortPartitions (slotStates env (d.volatile (Item.bytes env))))).getLast? =
      some (q.recovered env) := by
    have hcat := hr.catalog g hm hc hv
    unfold catalogOf at hcat
    rw [hcat, List.getLast?_map, hq]
    rfl
  simp only [TFDB.openedCat, openedStore, recoveredStore, Store.cat, hlast,
    RingPartition.recovered_header]
  exact ⟨rfl, rfl⟩

omit hm hc hv in
/-- A slot that is not damaged and belongs to the ring can be read. -/
theorem RingInv.version {q : RingPartition} (hq : q ∈ ringOf d.issued)
    (hd : slotDamaged env (d.volatile (Item.bytes env)) q.header.slot = false) :
    q.header.options.compressionVersion ≠ 0 := by
  have hmade := (hr.sound q hq).made
  have hwin := (hr.media q hq).window
  cases hh : TFDB.slotHeader env (d.volatile (Item.bytes env)) q.header.slot with
  | error e =>
    rw [slotDamaged_of_error hh, slotEvidence_header hmade hwin] at hd
    cases hd
  | ok h =>
    unfold TFDB.slotHeader at hh
    rw [hwin] at hh
    exact (hmade.accepted g hh).2.1

omit hv in
/-- The phase a writable open starts in. -/
theorem RingInv.opened (id : UInt64 × UInt64) :
    RingPhase env d (openPhase env (d.volatile (Item.bytes env)) id) := by
  unfold openPhase
  split
  · trivial
  rename_i hd
  rw [ne_eq, not_not] at hd
  have hv : ∀ q ∈ ringOf d.issued, q.header.options.compressionVersion ≠ 0 := by
    intro q hq
    have hlt := (hr.sound q hq).made.slotOf.lt g
    exact hr.version g hq
      (Bool.eq_false_iff.mpr (List.filter_eq_nil_iff.mp hd _ (mem_slotList.mpr hlt)))
  have hcat := hr.openedCat g hm hc hv id hd
  rcases List.eq_nil_or_concat (ringOf d.issued) with hnil | ⟨older, q, hqs⟩
  · have hlast : (catalogOf env (d.volatile (Item.bytes env))).getLast? = none := by
      rw [hr.catalog g hm hc hv, hnil]
      rfl
    rw [hlast]
    refine ⟨hcat, fun q hq => ?_, slotOf_first⟩
    rw [hnil] at hq
    cases hq
  · rw [List.concat_eq_append] at hqs
    have hlast : (catalogOf env (d.volatile (Item.bytes env))).getLast? = some (q.recovered env) := by
      rw [hr.catalog g hm hc hv, hqs, List.getLast?_map, List.getLast?_concat]
      rfl
    have hq : q ∈ ringOf d.issued := by
      rw [hqs]
      exact List.mem_append_right _ (List.mem_singleton_self _)
    rw [hlast]
    simp only [RingPartition.recovered_isSealed, RingPartition.recovered_header]
    cases hs : q.isSealed with
    | false => exact ⟨hcat, older, q, hqs, hs⟩
    | true =>
      simp only [if_true]
      split
      · trivial
      · rename_i hmax
        have hnext := SlotOf.next g (hr.sound q hq).made.slotOf hmax
        refine ⟨hcat, fun r hrm => ?_, hnext⟩
        have horder := hr.order
        have hclosed := hr.closed
        rw [hqs] at horder hrm hclosed
        rw [List.dropLast_concat] at hclosed
        rcases List.mem_append.mp hrm with hrm | hrm
        · exact ⟨hclosed r hrm, lt_succ64 hmax (UInt64.le_of_lt (horder.last.2 r hrm).1)⟩
        · rw [List.mem_singleton.mp hrm]
          exact ⟨hs, lt_succ64 hmax (UInt64.le_refl _)⟩

end

/-! ## Runs without faults -/

section
variable (env : Env) (prior : Image) (assumed : Disk Item → Prop)

/-- Runs without storage errors and power cuts, observed between two calls: the medium and the
store object, if there is one.  `prior` is what the storage held before `format`. -/
inductive Clean : Disk Item → Option Store → Prop
  | formatted {o : VolumeOptions} {random : Except Status (UInt64 × UInt64)}
      (hformat : formatHeader prior.size o random = .ok env.volume)
      (hid : env.volume.volumeIdHigh ≠ 0 ∨ env.volume.volumeIdLow ≠ 0) (hsize : prior.size < 2 ^ 64) :
      Clean ((formatProgram env.volume).exec (Item.bytes env) { durable := prior }).2 none
  | opened {d d' : Disk Item} {s t : Store} (h : Clean d none) (ha : assumed d) {o : OpenOptions}
      {random : Except Status (UInt64 × UInt64)} (hw : o.writable = true)
      (hcodecs : o.codecs = env.codecs) (hrandom : random ≠ .ok (0, 0))
      (hr : Rd.run (imageSource (d.volatile (Item.bytes env)))
        (recover (d.volatile (Item.bytes env)).size o random) = .ok s)
      (he : (startWriter s).exec (Item.bytes env) d = ((.ok (), t), d')) : Clean d' (some t)
  | openFailed {d d' : Disk Item} {s t : Store} (h : Clean d none) (ha : assumed d) {o : OpenOptions}
      {random : Except Status (UInt64 × UInt64)} (hw : o.writable = true)
      (hcodecs : o.codecs = env.codecs) (hrandom : random ≠ .ok (0, 0))
      (hr : Rd.run (imageSource (d.volatile (Item.bytes env)))
        (recover (d.volatile (Item.bytes env)).size o random) = .ok s) {st : Status}
      (he : (startWriter s).exec (Item.bytes env) d = ((.error st, t), d')) : Clean d' none
  | called {d d' : Disk Item} {s t : Store} (h : Clean d (some s)) (op : Op) {r : Except Status Unit}
      (he : (op.program s).exec (Item.bytes env) d = ((r, t), d')) : Clean d' (some t)
  /-- The store object is destroyed; nothing written is lost. -/
  | destroyed {d : Disk Item} {s : Store} (h : Clean d (some s)) : Clean d none

end

section
variable {env : Env} {prior : Image}

/-- A freshly formatted medium holds an empty ring. -/
theorem RingInv.formatted :
    RingInv env prior ((formatProgram env.volume).exec (Item.bytes env) { durable := prior }).2 := by
  have hv := Item.bytes_volume_length env env.volume
  have hissued : ringOf ((formatProgram env.volume).exec (Item.bytes env) { durable := prior }).2.issued =
      [] := rfl
  have hseen : ((formatProgram env.volume).exec (Item.bytes env) { durable := prior }).2.volatile
      (Item.bytes env) = (prior.write 0 (Item.bytes env (.volume env.volume))).write
        volumeHeaderCopySize (Item.bytes env (.volume env.volume)) := by
    show ((({ durable := prior } : Disk Item).issue 0 (.volume env.volume) _).issue
      volumeHeaderCopySize (.volume env.volume) _).volatile (Item.bytes env) = _
    rw [Disk.issue_volatile, Disk.issue_volatile, List.take_length]
    rfl
  have hout (a : Nat) (ha : volumePrefixSize ≤ a) : (((formatProgram env.volume).exec
      (Item.bytes env) { durable := prior }).2.volatile (Item.bytes env)).byte a = prior.byte a := by
    simp only [volumePrefixSize] at ha
    rw [hseen, Image.write_byte_out, Image.write_byte_out]
    · omega
    · simp only [volumeHeaderCopySize]
      omega
  have hbase (slot : UInt32) : volumePrefixSize ≤ env.partitionBase slot := Nat.le_add_right ..
  constructor
  · rw [hseen]
    rfl
  · rw [hseen, Image.window_write_out (Or.inl (by decide))]
    exact Image.window_write_same _ hv.symm
  · rw [hseen]
    exact Image.window_write_same _ hv.symm
  · rw [hissued]
    exact fun q hq => (by cases hq)
  · rw [hissued]
    exact fun q hq => (by cases hq)
  · rw [hissued]
    exact .nil
  · rw [hissued]
    exact fun q hq => (by cases hq)
  · intro off h hm
    simp [formatProgram, WriteProg.exec] at hm
  · intro off b payload raw hm
    simp [formatProgram, WriteProg.exec] at hm
  · intro off f es hm
    simp [formatProgram, WriteProg.exec] at hm
  · intro slot _
    left
    have := hbase slot
    exact Image.window_congr fun a h1 _ => hout a (by omega)
  · intro slot _ _ a h1 _
    have := hbase slot
    exact hout a (by omega)

/-- What holds between two calls of a run without faults. -/
structure RingState (env : Env) (prior : Image) (d : Disk Item) (so : Option Store) : Prop where
  geometry : Geometry env
  size : env.volume.volumeSize.toNat = prior.size
  ring : RingInv env prior d
  store : ∀ s, so = some s → s.env = env ∧ (s.faulted = true ∨ StoreOk env s) ∧
    RingPhase env d (.ready s.cat)

/-- An undisturbed program keeps the ring, and does not leave the protocol. -/
theorem ring_exec (g : Geometry env) {α : Type} {Q : α → Phase → Prop} {p : WriteProg Status Item α}
    {φ : Phase} {d : Disk Item} (hp : p.Follows (protocol env) Q φ) (hr : RingInv env prior d)
    (hφ : RingPhase env d φ) :
    RingInv env prior (p.exec (Item.bytes env) d).2 ∧
      ∃ φ', RingPhase env (p.exec (Item.bytes env) d).2 φ' ∧ (φ ≠ .halted → φ' ≠ .halted) ∧
        Q (p.exec (Item.bytes env) d).1 φ' := by
  obtain ⟨φ', ⟨hr', hφ', hne⟩, hQ⟩ := hp.exec
    (I := fun d φ' => RingInv env prior d ∧ RingPhase env d φ' ∧ (φ ≠ .halted → φ' ≠ .halted))
    (fun d φ off i φ' hs hi => by
      obtain ⟨h1, h2⟩ := Phase.Write.ring hs g hi.1 hi.2.1
      exact ⟨h1, h2, fun _ => hs.live⟩)
    (fun d φ φ' hs hi => by
      obtain ⟨h1, h2⟩ := Phase.Flush.ring hs g hi.1 hi.2.1
      exact ⟨h1, h2, fun _ => hs.live⟩) ⟨hr, hφ, id⟩
  exact ⟨hr', φ', hφ', hne, hQ⟩

/-- The volume header of a medium with a ring is the formatted one. -/
theorem RingInv.readVolumeHeader {d : Disk Item} (hr : RingInv env prior d) (g : Geometry env)
    (hm : env.volume.volumeSize.toNat ≤ prior.size) :
    Rd.run (imageSource (d.volatile (Item.bytes env))) readVolumeHeader = .ok env.volume :=
  run_readVolumeHeader g (by rw [hr.size]; exact hm) hr.first hr.second

/-- The writing part of an open follows the protocol to a store in order. -/
theorem RingInv.startWriter_follows {d : Disk Item} (hr : RingInv env prior d) (g : Geometry env)
    (hm : env.volume.volumeSize.toNat ≤ prior.size) {o : OpenOptions}
    {random : Except Status (UInt64 × UInt64)} (hw : o.writable = true)
    (hcodecs : o.codecs = env.codecs) (hrandom : random ≠ .ok (0, 0)) {s : Store}
    (hrec : Rd.run (imageSource (d.volatile (Item.bytes env)))
      (recover (d.volatile (Item.bytes env)).size o random) = .ok s) :
    ∃ id, Wr.Follows (protocol env) (fun r t φ => r = .ok () → StoreOk env t ∧ φ = .ready t.cat)
      TFDB.startWriter s (openPhase env (d.volatile (Item.bytes env)) id) := by
  have hm' : env.volume.volumeSize.toNat ≤ (d.volatile (Item.bytes env)).size := by
    rw [hr.size]
    exact hm
  have hvol := hr.readVolumeHeader g hm
  obtain ⟨⟨id, hid, rfl⟩, -, hgen⟩ := recover_ok g hm' (fun v hv => by
    rw [hvol] at hv
    exact (Except.ok.inj hv).symm) hcodecs hrec
  exact ⟨id, @startWriter_follows_ready env (d.volatile (Item.bytes env)) o _
    (prepareWriter_nonzero hw hrandom hid) (prepareWriter_ok hw hid) hgen⟩

/-- The writing part of an open keeps the ring. -/
theorem RingInv.startWriter {d d' : Disk Item} (hr : RingInv env prior d) (g : Geometry env)
    (hm : env.volume.volumeSize.toNat ≤ prior.size) (hc : CollisionFreeNow env d) {o : OpenOptions}
    {random : Except Status (UInt64 × UInt64)} (hw : o.writable = true)
    (hcodecs : o.codecs = env.codecs) (hrandom : random ≠ .ok (0, 0)) {s t : Store}
    (hrec : Rd.run (imageSource (d.volatile (Item.bytes env)))
      (recover (d.volatile (Item.bytes env)).size o random) = .ok s) {r : Except Status Unit}
    (he : (TFDB.startWriter s).exec (Item.bytes env) d = ((r, t), d')) :
    RingInv env prior d' ∧ (r = .ok () → StoreOk env t ∧ RingPhase env d' (.ready t.cat)) := by
  obtain ⟨id, hfollows⟩ := hr.startWriter_follows g hm hw hcodecs hrandom hrec
  obtain ⟨hr', φ, hφ, -, hQ⟩ := ring_exec g hfollows hr (hr.opened g hm hc id)
  rw [he] at hr' hφ hQ
  refine ⟨hr', fun hok => ?_⟩
  obtain ⟨hs, rfl⟩ := hQ hok
  exact ⟨hs, hφ⟩

/-- A call starts from the phase of the catalog. -/
theorem RingState.program_follows {d : Disk Item} {s : Store} (h : RingState env prior d (some s))
    (op : Op) : Wr.Follows (protocol env)
      (fun _ t φ' => (t.faulted = true ∨ StoreOk env t) ∧ AtRest env t φ') op.program s
      (.ready s.cat) :=
  program_follows_rest op (h.store s rfl).1 (h.store s rfl).2.1

/-- **Between two calls of a run without faults the medium holds the ring of the log.** -/
theorem Clean.ring {assumed : Disk Item → Prop} (hassumed : ∀ d, assumed d → CollisionFreeNow env d)
    {d : Disk Item} {so : Option Store} (h : Clean env prior assumed d so) :
    RingState env prior d so := by
  induction h with
  | formatted hformat hid hsize =>
    obtain ⟨g, hsz⟩ := formatHeader_geometry hsize hid hformat
    exact ⟨g, hsz, .formatted, fun s hs => by cases hs⟩
  | opened h ha hw hcodecs hrandom hrec he ih =>
    obtain ⟨hr, hm⟩ := ih.ring.startWriter ih.geometry (Nat.le_of_eq ih.size) (hassumed _ ha) hw
      hcodecs hrandom hrec he
    refine ⟨ih.geometry, ih.size, hr, fun s hs => ?_⟩
    cases hs
    obtain ⟨hok, hφ⟩ := hm rfl
    exact ⟨hok.env_eq, Or.inr hok, hφ⟩
  | openFailed h ha hw hcodecs hrandom hrec he ih =>
    obtain ⟨hr, -⟩ := ih.ring.startWriter ih.geometry (Nat.le_of_eq ih.size) (hassumed _ ha) hw
      hcodecs hrandom hrec he
    exact ⟨ih.geometry, ih.size, hr, fun s hs => by cases hs⟩
  | @called d d' s t h op r he ih =>
    obtain ⟨-, -, hφ⟩ := ih.store s rfl
    obtain ⟨hr, φ', hφ', hne, hok, hrest⟩ :=
      ring_exec ih.geometry (ih.program_follows op) ih.ring hφ
    rw [he] at hr hφ' hok hrest
    refine ⟨ih.geometry, ih.size, hr, fun t' ht => ?_⟩
    cases ht
    rcases hrest with rfl | ⟨henv, rfl⟩
    · exact absurd rfl (hne fun h => (by cases h))
    · exact ⟨henv, hok, hφ'⟩
  | destroyed h ih => exact ⟨ih.geometry, ih.size, ih.ring, fun s hs => by cases hs⟩

/-- What every step of the protocol keeps, on a medium with a ring, holds throughout a run without
faults: of the medium, and of the phase of the store. -/
theorem Clean.kept {assumed : Disk Item → Prop} (hassumed : ∀ d, assumed d → CollisionFreeNow env d)
    {K : Disk Item → Phase → Prop}
    (hformat : K ((formatProgram env.volume).exec (Item.bytes env) { durable := prior }).2 .halted)
    (hopen : ∀ d id, Geometry env → env.volume.volumeSize.toNat ≤ prior.size → RingInv env prior d →
      assumed d → K d .halted → K d (openPhase env (d.volatile (Item.bytes env)) id))
    (hwrite : ∀ d φ off i φ', Geometry env → RingInv env prior d → RingPhase env d φ →
      Phase.Write env φ off i φ' → K d φ → K (d.issue off i (i.bytes env).length) φ')
    (hflush : ∀ d φ φ', Geometry env → RingInv env prior d → RingPhase env d φ →
      Phase.Flush env φ φ' → K d φ → K (d.flush (Item.bytes env)) φ')
    (hhalt : ∀ d φ, K d φ → K d .halted) {d : Disk Item} {so : Option Store}
    (h : Clean env prior assumed d so) : K d .halted ∧ ∀ s, so = some s → K d (.ready s.cat) := by
  have hexec {α : Type} {Q : α → Phase → Prop} {p : WriteProg Status Item α} {φ : Phase}
      {d : Disk Item} (g : Geometry env) (hp : p.Follows (protocol env) Q φ)
      (hr : RingInv env prior d) (hφ : RingPhase env d φ) (hk : K d φ) :
      ∃ φ', K (p.exec (Item.bytes env) d).2 φ' ∧ (φ ≠ .halted → φ' ≠ .halted) ∧
        Q (p.exec (Item.bytes env) d).1 φ' := by
    obtain ⟨φ', ⟨-, -, hk', hne⟩, hQ⟩ := hp.exec (I := fun d φ' => RingInv env prior d ∧
        RingPhase env d φ' ∧ K d φ' ∧ (φ ≠ .halted → φ' ≠ .halted))
      (fun d φ off i φ' hs hi => by
        obtain ⟨h1, h2⟩ := Phase.Write.ring hs g hi.1 hi.2.1
        exact ⟨h1, h2, hwrite d φ off i φ' g hi.1 hi.2.1 hs hi.2.2.1, fun _ => hs.live⟩)
      (fun d φ φ' hs hi => by
        obtain ⟨h1, h2⟩ := Phase.Flush.ring hs g hi.1 hi.2.1
        exact ⟨h1, h2, hflush d φ φ' g hi.1 hi.2.1 hs hi.2.2.1, fun _ => hs.live⟩) ⟨hr, hφ, hk, id⟩
    exact ⟨φ', hk', hne, hQ⟩
  induction h with
  | formatted hformats hid hsize => exact ⟨hformat, fun s hs => by cases hs⟩
  | opened h ha hw hcodecs hrandom hrec he ih =>
    obtain ⟨g, hsize, hr, -⟩ := h.ring hassumed
    have hm := Nat.le_of_eq hsize
    have hc := hassumed _ ha
    obtain ⟨id, hfollows⟩ := hr.startWriter_follows g hm hw hcodecs hrandom hrec
    obtain ⟨φ, hk, -, hQ⟩ := hexec g hfollows hr (hr.opened g hm hc id) (hopen _ id g hm hr ha ih.1)
    rw [he] at hk hQ
    obtain ⟨-, rfl⟩ := hQ rfl
    refine ⟨hhalt _ _ hk, fun s hs => ?_⟩
    cases hs
    exact hk
  | openFailed h ha hw hcodecs hrandom hrec he ih =>
    obtain ⟨g, hsize, hr, -⟩ := h.ring hassumed
    have hm := Nat.le_of_eq hsize
    have hc := hassumed _ ha
    obtain ⟨id, hfollows⟩ := hr.startWriter_follows g hm hw hcodecs hrandom hrec
    obtain ⟨φ, hk, -, -⟩ := hexec g hfollows hr (hr.opened g hm hc id) (hopen _ id g hm hr ha ih.1)
    rw [he] at hk
    exact ⟨hhalt _ _ hk, fun s hs => by cases hs⟩
  | @called d d' s t h op r he ih =>
    have hs := h.ring hassumed
    obtain ⟨φ, hk, hne, -, hrest⟩ := hexec hs.geometry (hs.program_follows op) hs.ring
      (hs.store s rfl).2.2 (ih.2 s rfl)
    rw [he] at hk hrest
    refine ⟨hhalt _ _ hk, fun t' ht => ?_⟩
    cases ht
    rcases hrest with rfl | ⟨-, rfl⟩
    · exact absurd rfl (hne fun h => (by cases h))
    · exact hk
  | destroyed h ih => exact ⟨ih.1, fun s hs => by cases hs⟩

end

end TFDB
