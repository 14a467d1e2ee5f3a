import TFDB.Discipline
import TFDB.Confine
import TFDB.Latch

/-!
# The catalog of a store object

A query works on a snapshot of the catalog.  Whatever image a store was opened on, and whatever the
storage returned to the calls made since then, its partitions are ordered by generation and the
indexes it retains are numbered.

* `OrderedCatalog` — the invariant;
* `ordered_program` — every call keeps it, whether its writes and flushes succeed or fail;
* `opened_ordered`, `Tracked.orderKept` — so it holds of every store object between two calls.
-/

set_option autoImplicit false

namespace TFDB

open ByteLib Writer

/-- The partitions are in the order of their generations, none is newer than the active one, and
their resident indexes are numbered. -/
structure OrderedCatalog (s : Store) : Prop where
  order : s.partitions.Pairwise fun a b => a.header.generation < b.header.generation
  newest : ∀ p ∈ s.partitions, p.header.generation ≤ s.activeGeneration
  numbered : ∀ p ∈ s.partitions, Numbered p.activeIndex

/-- Nothing is asked of the effects. -/
def free : Lts Item Unit where
  write := fun _ _ _ _ => True
  flush := fun _ _ => True
  fail := id

/-- However its effects turn out, the program ends in a store that satisfies `I`. -/
def Keeps (I : Store → Prop) (x : Writer Unit) (s : Store) : Prop :=
  Wr.Follows free (fun _ t _ => I t) x s ()

section
variable {I J : Store → Prop} {s : Store}

theorem Keeps.bind {x : Writer Unit} {f : Unit → Writer Unit} (hx : Keeps I x s)
    (hf : ∀ t, I t → Keeps J (f ()) t) (hJ : ∀ t, I t → J t) : Keeps J (x >>= f) s := by
  refine Wr.follows_bind.mpr (Wr.Follows.mono hx ?_)
  rintro (st | u) t φ hI
  · exact hJ t hI
  · exact hf t hI

theorem keeps_get {f : Store → Writer Unit} : Keeps I (Wr.get >>= f) s ↔ Keeps I (f s) s :=
  Wr.follows_bind

theorem keeps_modify {f : Store → Store} : Keeps I (Wr.modify f) s ↔ I (f s) := Iff.rfl

theorem keeps_ite {c : Prop} [Decidable c] {x y : Writer Unit} :
    Keeps I (if c then x else y) s ↔ (c → Keeps I x s) ∧ (¬ c → Keeps I y s) := Wr.follows_ite

theorem keeps_when {c : Prop} [Decidable c] {x : Writer Unit} :
    Keeps I (Wr.when c x) s ↔ (c → Keeps I x s) ∧ (¬ c → I s) := Wr.follows_when

/-- The same catalog. -/
structure SameCatalog (s t : Store) : Prop where
  partitions : t.partitions = s.partitions
  generation : t.activeGeneration = s.activeGeneration
  slot : t.activeSlot = s.activeSlot

theorem SameCatalog.refl (s : Store) : SameCatalog s s := ⟨rfl, rfl, rfl⟩

theorem SameCatalog.active {t : Store} (h : SameCatalog s t) : t.active = s.active := by
  unfold Store.active
  rw [h.partitions, h.generation, h.slot]

theorem OrderedCatalog.congr {t : Store} (h : OrderedCatalog s) (hc : SameCatalog s t) : OrderedCatalog t := by
  obtain ⟨hp, hg, -⟩ := hc
  obtain ⟨h1, h2, h3⟩ := h
  rw [← hp] at h1 h2 h3
  rw [← hg] at h2
  exact ⟨h1, h2, h3⟩

theorem SameCatalog.trans {t u : Store} (h : SameCatalog s t) (h' : SameCatalog t u) :
    SameCatalog s u :=
  ⟨h'.partitions.trans h.partitions, h'.generation.trans h.generation, h'.slot.trans h.slot⟩

theorem Keeps.mono {x : Writer Unit} (hx : Keeps I x s) (h : ∀ t, I t → J t) : Keeps J x s :=
  Wr.Follows.mono hx fun _ t _ => h t

theorem same_failFault (s : Store) (st : Status) : Keeps (SameCatalog s) (failFault st) s :=
  ⟨rfl, rfl, rfl⟩

theorem same_writeItem (s : Store) (off : Nat) (i : Item) :
    Keeps (SameCatalog s) (writeItem off i) s :=
  ⟨⟨(), trivial, ⟨rfl, rfl, rfl⟩⟩, fun _ => ⟨rfl, rfl, rfl⟩⟩

theorem same_synced (s : Store) (advances : Bool) : SameCatalog s (synced advances s) := by
  cases advances <;> exact ⟨rfl, rfl, rfl⟩

theorem same_syncMedia (s : Store) (advances : Bool) :
    Keeps (SameCatalog s) (syncMedia advances) s :=
  ⟨⟨(), trivial, same_synced s advances⟩, fun _ => ⟨rfl, rfl, rfl⟩⟩

/-- A step that leaves the catalog as it is, and what follows. -/
theorem Keeps.after_same {x : Writer Unit} {f : Unit → Writer Unit} (hx : Keeps (SameCatalog s) x s)
    (hf : ∀ t, SameCatalog s t → Keeps J (f ()) t) (hJ : ∀ t, SameCatalog s t → J t) :
    Keeps J (x >>= f) s := hx.bind hf hJ

end

/-! ## The steps of the writer -/

theorem updateFirst_headers {c : PartitionState → Bool} {f : PartitionState → PartitionState}
    (hf : ∀ p, (f p).header = p.header) : ∀ ps : List PartitionState,
      (updateFirst c f ps).map PartitionState.header = ps.map PartitionState.header
  | [] => rfl
  | p :: ps => by
    simp only [updateFirst]
    split
    · simp [hf]
    · simp [updateFirst_headers hf ps]

/-- Only the index of the active partition changes. -/
theorem OrderedCatalog.updateActive {s : Store} (h : OrderedCatalog s) {f : PartitionState → PartitionState}
    (hf : ∀ p, (f p).header = p.header)
    (hnum : ∀ p, s.active = some p → Numbered p.activeIndex → Numbered (f p).activeIndex) :
    OrderedCatalog (s.updateActive f) := by
  have hheads := updateFirst_headers (c := (·.is s.activeGeneration s.activeSlot)) hf s.partitions
  refine ⟨?_, fun p hp => ?_, fun p hp => ?_⟩
  · have horder := h.order
    rw [← List.pairwise_map (f := PartitionState.header)
      (R := fun a b => a.generation < b.generation)] at horder ⊢
    show ((updateFirst _ _ _).map _).Pairwise _
    rw [hheads]
    exact horder
  · rcases mem_updateFirst hp with hp | ⟨q, hq, -, rfl⟩
    · exact h.newest p hp
    · rw [hf]
      exact h.newest q hq
  · rcases mem_updateFirst hp with hp | ⟨q, hq, hfind, rfl⟩
    · exact h.numbered p hp
    · exact hnum q hfind (h.numbered q hq)

/-- A newer partition is ordered behind the others. -/
theorem OrderedCatalog.install {s : Store} (h : OrderedCatalog s) {hd : PartitionHeader}
    (hnew : ∀ p ∈ s.partitions, p.header.generation < hd.generation) (changed : Bool) :
    OrderedCatalog (installPartition s hd changed) := by
  have hfilter {p : PartitionState} (hp : p ∈ s.partitions.filter fun p => p.header.slot != hd.slot) :
      p ∈ s.partitions := (List.mem_filter.mp hp).1
  have hpair : (s.partitions.filter (fun p => p.header.slot != hd.slot) ++
      [({ header := hd } : PartitionState)]).Pairwise
        fun a b => a.header.generation < b.header.generation := by
    rw [List.pairwise_append]
    refine ⟨h.order.filter _, List.pairwise_singleton .., fun a ha b hb => ?_⟩
    rw [List.mem_singleton.mp hb]
    exact hnew a (hfilter ha)
  have hpartitions : (installPartition s hd changed).partitions =
      s.partitions.filter (fun p => p.header.slot != hd.slot) ++ [{ header := hd }] :=
    List.mergeSort_of_pairwise (hpair.imp fun hab => by
      simpa only [byGeneration, decide_eq_true_eq] using UInt64.le_of_lt hab)
  refine ⟨?_, fun p hp => ?_, fun p hp => ?_⟩
  · rw [hpartitions]
    exact hpair
  · rw [hpartitions] at hp
    rcases List.mem_append.mp hp with hp | hp
    · exact UInt64.le_of_lt (hnew p (hfilter hp))
    · rw [List.mem_singleton.mp hp]
      exact UInt64.le_refl _
  · rw [hpartitions] at hp
    rcases List.mem_append.mp hp with hp | hp
    · exact h.numbered p (hfilter hp)
    · rw [List.mem_singleton.mp hp]
      exact .nil

/-- The active partition has the active generation. -/
theorem active_generation {s : Store} {p : PartitionState} (hp : s.active = some p) :
    p ∈ s.partitions ∧ p.header.generation = s.activeGeneration := by
  refine ⟨List.mem_of_find?_eq_some hp, ?_⟩
  have := List.find?_some hp
  simp only [PartitionState.is, Bool.and_eq_true, beq_iff_eq] at this
  exact this.1

/-- The catalog is in order, and its newest partition the same. -/
structure StillOrdered (s t : Store) : Prop where
  ordered : OrderedCatalog t
  generation : t.activeGeneration = s.activeGeneration

section
variable {s : Store}

theorem OrderedCatalog.same (h : OrderedCatalog s) {t : Store} (hc : SameCatalog s t) : StillOrdered s t :=
  ⟨h.congr hc, hc.generation⟩

theorem ordered_createPartition (h : OrderedCatalog s) {generation : UInt64}
    (hnew : ∀ p ∈ s.partitions, p.header.generation < generation) (slot : UInt32)
    (options : PartitionOptions) : Keeps OrderedCatalog (createPartition slot generation options) s := by
  unfold createPartition
  rw [keeps_ite]
  refine ⟨fun _ => h, fun _ => ?_⟩
  rw [keeps_get]
  cases s.env.validatePartitionOptions options with
  | error st => exact h
  | ok u =>
    refine (same_writeItem s _ _).after_same (fun t ht => ?_) fun t ht => h.congr ht
    refine (same_syncMedia t false).after_same (fun u hu => ?_) fun u hu => h.congr (ht.trans hu)
    rw [keeps_modify]
    refine (h.congr (ht.trans hu)).install (fun p hp => ?_) _
    rw [(ht.trans hu).partitions] at hp
    exact hnew p hp

theorem ordered_sealActiveOnly (h : OrderedCatalog s) : Keeps (StillOrdered s) sealActiveOnly s := by
  unfold sealActiveOnly
  rw [keeps_get]
  cases s.active with
  | none => exact h.same (.refl s)
  | some p =>
    dsimp only
    rw [keeps_ite]
    refine ⟨fun _ => h.same (.refl s), fun _ => ?_⟩
    have hsync : Keeps (SameCatalog s) (Wr.when s.dirty (syncMedia true)) s :=
      keeps_when.mpr ⟨fun _ => same_syncMedia s true, fun _ => .refl s⟩
    refine hsync.after_same (fun t ht => ?_) fun t ht => h.same ht
    unfold writeSeal
    rw [keeps_get, keeps_ite]
    refine ⟨fun _ => (same_failFault t _).mono fun u hu => h.same (ht.trans hu), fun _ => ?_⟩
    have hindex : Keeps (SameCatalog t) (Wr.when (p.activeIndex ≠ []) (writeItem
        (t.env.partitionBase p.header.slot + t.env.indexBegin) (.index p.activeIndex))) t :=
      keeps_when.mpr ⟨fun _ => same_writeItem t _ _, fun _ => .refl t⟩
    refine hindex.after_same (fun u hu => ?_) fun u hu => h.same (ht.trans hu)
    have hu := ht.trans hu
    refine (same_writeItem u _ _).after_same (fun v hv => ?_) fun v hv => h.same (hu.trans hv)
    have hv := hu.trans hv
    refine (same_syncMedia v false).after_same (fun w hw => ?_) fun w hw => h.same (hv.trans hw)
    have hw := hv.trans hw
    rw [keeps_modify]
    exact ⟨(h.congr hw).updateActive (fun _ => rfl) fun _ _ hn => hn, hw.generation⟩

theorem ordered_rotateInternal (h : OrderedCatalog s) (options : PartitionOptions) :
    Keeps OrderedCatalog (rotateInternal options) s := by
  unfold rotateInternal
  rw [keeps_get]
  cases hp : s.active with
  | none => exact h
  | some p =>
    dsimp only
    rw [keeps_ite]
    refine ⟨fun _ => (same_failFault s _).mono fun t ht => h.congr ht, fun hmax => ?_⟩
    refine (ordered_sealActiveOnly h).bind (fun t ht => ?_) fun t ht => ht.ordered
    refine (ordered_createPartition ht.ordered (fun q hq => ?_) _ _).bind (fun u hu => ?_) fun u hu => hu
    · refine lt_succ64 hmax ?_
      rw [(active_generation hp).2, ← ht.generation]
      exact ht.ordered.newest q hq
    · exact hu.congr ⟨rfl, rfl, rfl⟩

theorem ordered_ensureEmptyBuilderCapacity (h : OrderedCatalog s) : Keeps OrderedCatalog ensureEmptyBuilderCapacity s := by
  have hfault (st : Status) : Keeps OrderedCatalog (failFault st) s :=
    (same_failFault s st).mono fun t ht => h.congr ht
  unfold ensureEmptyBuilderCapacity
  rw [keeps_get, keeps_ite]
  refine ⟨fun _ => h, fun _ => ?_⟩
  cases s.active with
  | none => exact h
  | some p =>
    dsimp only
    cases worstSpan s.env with
    | none => exact hfault _
    | some span =>
      dsimp only
      rw [keeps_ite, keeps_ite]
      exact ⟨fun _ => hfault _, fun _ => ⟨fun _ => ordered_rotateInternal h _, fun _ => h⟩⟩

theorem ordered_emitBuilder (h : OrderedCatalog s) : Keeps (StillOrdered s) emitBuilder s := by
  have hfault (st : Status) : Keeps (StillOrdered s) (failFault st) s :=
    (same_failFault s st).mono fun t ht => h.same ht
  unfold emitBuilder
  rw [keeps_get, keeps_ite]
  refine ⟨fun _ => h.same (.refl s), fun _ => ?_⟩
  cases hp : s.active with
  | none => exact hfault _
  | some p =>
    dsimp only
    cases packBuilder s.env p.header.options s.builder with
    | error st => exact hfault st
    | ok stored =>
      dsimp only
      cases alignUp (blockHeaderEncodedSize + stored.payload.length) s.env.quantum with
      | none => exact hfault _
      | some span =>
        dsimp only
        rw [keeps_ite, keeps_ite]
        refine ⟨fun _ => hfault _, fun _ => ⟨fun _ => hfault _, fun _ => ?_⟩⟩
        refine (same_writeItem s _ _).after_same (fun t ht => ?_) fun t ht => h.same ht
        rw [keeps_modify]
        -- the new entry takes the next number of the active partition
        have hordered : OrderedCatalog (t.updateActive (addBlock · (builderBlock s p stored span)
            (blockHeaderEncodedSize + stored.payload.length) span)) := by
          refine (h.congr ht).updateActive (fun _ => rfl) fun q hq hn => ?_
          rw [ht.active, hp] at hq
          obtain rfl := Option.some.inj hq
          exact hn.snoc rfl
        exact ⟨hordered.congr ⟨rfl, rfl, rfl⟩, ht.generation⟩

theorem keeps_guardWritable (h : OrderedCatalog s) {f : Unit → Writer Unit} (hf : Keeps OrderedCatalog (f ()) s) :
    Keeps OrderedCatalog (guardWritable >>= f) s := by
  refine Wr.follows_bind.mpr ?_
  unfold guardWritable
  simp only [Wr.follows_bind, Wr.follows_get, Wr.after_ok, Wr.follows_ite, Wr.follows_fail,
    Wr.after_error, Wr.follows_pure]
  exact ⟨fun _ => h, fun _ => ⟨fun _ => h, fun _ => ⟨fun _ => h, fun _ => hf⟩⟩⟩

theorem ordered_appendImpl (h : OrderedCatalog s) (record : Bytes) (time : Int64) (flags : UInt32)
    (expected : Option AppendContract) :
    Keeps OrderedCatalog (appendImpl record time flags expected) s := by
  unfold appendImpl
  refine keeps_guardWritable h ?_
  rw [keeps_get, keeps_ite, keeps_ite]
  refine ⟨fun _ => h, fun _ => ⟨fun _ => h, fun _ => ?_⟩⟩
  have hemit : Keeps OrderedCatalog (Wr.when (record.length > s.env.maxBlockPayload - s.builder.length)
      emitBuilder) s :=
    keeps_when.mpr ⟨fun _ => (ordered_emitBuilder h).mono fun t ht => ht.ordered, fun _ => h⟩
  refine hemit.bind (fun t ht => ?_) fun _ ht => ht
  refine (ordered_ensureEmptyBuilderCapacity ht).bind (fun u hu => ?_) fun u hu => hu
  rw [keeps_get]
  cases u.active with
  | none => exact hu
  | some p =>
    dsimp only
    rw [keeps_ite]
    exact ⟨fun _ => hu, fun _ => hu.congr ⟨rfl, rfl, rfl⟩⟩

/-- The flush a checkpoint and a close end with. -/
theorem ordered_flush (h : OrderedCatalog s) : Keeps OrderedCatalog (Wr.when s.dirty (syncMedia true)) s :=
  keeps_when.mpr ⟨fun _ => (same_syncMedia s true).mono fun _ ht => h.congr ht, fun _ => h⟩

/-- **Every call keeps the catalog in order**, whatever its writes and flushes return. -/
theorem ordered_program (h : OrderedCatalog s) (op : Op) : Keeps OrderedCatalog op.program s := by
  have hemit : Keeps OrderedCatalog emitBuilder s := (ordered_emitBuilder h).mono fun t ht => ht.ordered
  cases op with
  | append record time flags => exact ordered_appendImpl h record time flags none
  | appendChecked record time expected flags =>
    show Keeps OrderedCatalog (appendChecked record time expected flags) s
    unfold appendChecked
    rw [keeps_ite]
    exact ⟨fun _ => h, fun _ => ordered_appendImpl h record time flags (some expected)⟩
  | publish => exact keeps_guardWritable h hemit
  | checkpoint =>
    refine keeps_guardWritable h (hemit.bind (fun t ht => ?_) fun t ht => ht)
    rw [keeps_get]
    exact ordered_flush ht
  | close =>
    show Keeps OrderedCatalog close s
    unfold close
    rw [keeps_get, keeps_ite, keeps_ite, keeps_ite]
    refine ⟨fun _ => h, fun _ => ⟨fun _ => h.congr ⟨rfl, rfl, rfl⟩, fun _ => ⟨fun _ => h, fun _ => ?_⟩⟩⟩
    refine hemit.bind (fun t ht => ?_) fun t ht => ht
    rw [keeps_get]
    exact (ordered_flush ht).bind (fun u hu => hu.congr ⟨rfl, rfl, rfl⟩) fun u hu => hu
  | rotate next =>
    refine keeps_guardWritable h ?_
    rw [keeps_get]
    cases s.env.validatePartitionOptions next with
    | error st => exact h
    | ok u =>
      refine hemit.bind (fun t ht => ?_) fun t ht => ht
      have hnext : Keeps OrderedCatalog (Wr.modify fun s : Store => { s with nextOptions := next }) t :=
        ht.congr ⟨rfl, rfl, rfl⟩
      exact hnext.bind (fun u hu => ordered_rotateInternal hu next) fun u hu => hu
  | setNext options =>
    refine keeps_guardWritable h ?_
    rw [keeps_get]
    cases s.env.validatePartitionOptions options with
    | error st => exact h
    | ok u => exact h.congr ⟨rfl, rfl, rfl⟩

end

/-! ## Store objects -/

section
variable {env : Env}

/-- Nothing is resident of a sealed partition. -/
theorem slotState_sealed_index {m : Image} {slot : UInt32} {p : PartitionState}
    (hp : slotState env m slot = some p) (hs : p.isSealed = true) : p.activeIndex = [] := by
  unfold slotState at hp
  split at hp
  · split at hp
    · cases hp
      rfl
    · cases hp
      rw [scannedState_isSealed] at hs
      cases hs
  · cases hp

/-- What open recovers of a slot is numbered. -/
theorem slotState_numbered {m : Image} (g : Geometry env) (hm : env.volume.volumeSize.toNat ≤ m.size)
    {slot : UInt32} (hs : slot < env.volume.partitionCount) {p : PartitionState}
    (hp : slotState env m slot = some p) : Numbered p.activeIndex := by
  cases hsealed : p.isSealed with
  | false =>
    obtain ⟨fs, st, hopen, hc, -⟩ := slotState_open g hm hs hp hsealed
    rw [hopen, openState_activeIndex]
    exact hc.numbered
  | true =>
    rw [slotState_sealed_index hp hsealed]
    exact .nil

theorem le_newest {ps : List PartitionState}
    (h : ps.Pairwise fun a b => a.header.generation < b.header.generation) {p q : PartitionState}
    (hq : ps.getLast? = some q) (hp : p ∈ ps) : p.header.generation ≤ q.header.generation := by
  obtain ⟨older, rfl⟩ := List.getLast?_eq_some_iff.mp hq
  rcases List.mem_append.mp hp with hp | hp
  · exact UInt64.le_of_lt ((List.pairwise_append.mp h).2.2 p hp q (List.mem_singleton_self _))
  · rw [List.mem_singleton.mp hp]
    exact UInt64.le_refl _

theorem opened_ordered {m : Image} (g : Geometry env) (hm : env.volume.volumeSize.toNat ≤ m.size)
    (hgen : GenerationsOk (slotStates env m)) (o : OpenOptions) (id : UInt64 × UInt64) :
    OrderedCatalog (openedStore env m o id) := by
  have hheads := catalogOf_headers env m
  have horder : (catalogOf env m).Pairwise fun a b => a.header.generation < b.header.generation := by
    rw [← List.pairwise_map (f := PartitionState.header) (R := fun a b => a.generation < b.generation),
      hheads, List.pairwise_map]
    have hnodup : ((sortPartitions (slotStates env m)).map fun p => p.header.generation).Nodup :=
      ((List.mergeSort_perm _ _).map _).nodup_iff.mpr hgen.2
    refine ((sortPartitions_sorted _).and (List.pairwise_map.mp hnodup)).imp fun hab => ?_
    exact UInt64.lt_of_le_of_ne hab.1 hab.2
  refine ⟨horder, fun p hp => ?_, fun p hp => ?_⟩
  · obtain ⟨q, hq⟩ : ∃ q, (catalogOf env m).getLast? = some q :=
      ⟨_, List.getLast?_eq_some_getLast (List.ne_nil_of_mem hp)⟩
    have hactive : (openedStore env m o id).activeGeneration = q.header.generation := by
      have hq' : (keepLastIndex (sortPartitions (slotStates env m))).getLast? = some q := hq
      simp only [openedStore, recoveredStore, hq']
    rw [hactive]
    exact le_newest horder hq hp
  · obtain ⟨q, hq, rfl | rfl⟩ := catalogOf_mem hp
    · obtain ⟨hslot, hstate⟩ := mem_slotStates.mp hq
      exact slotState_numbered g hm hslot hstate
    · obtain ⟨hslot, hstate⟩ := mem_slotStates.mp hq
      unfold PartitionState.cleared
      split
      · exact slotState_numbered g hm hslot hstate
      · exact .nil

theorem ordered_startWriter {s : Store} (h : OrderedCatalog s) : Keeps OrderedCatalog startWriter s := by
  unfold startWriter
  rw [keeps_get, keeps_ite]
  refine ⟨fun _ => h, fun _ => ?_⟩
  cases hlast : s.partitions.getLast? with
  | none =>
    refine ordered_createPartition h (fun p hp => ?_) _ _
    rw [List.getLast?_eq_none_iff.mp hlast] at hp
    cases hp
  | some newest =>
    dsimp only
    rw [keeps_ite, keeps_ite]
    refine ⟨fun _ => ⟨fun _ => h, fun hmax => ?_⟩, fun _ => h⟩
    exact ordered_createPartition h (fun p hp => lt_succ64 hmax (le_newest h.order hlast hp)) _ _

/-- However the running call ends, its catalog is in order. -/
def OrderKept : Proc → Prop
  | .opening k => k.Follows free (fun r _ => OrderedCatalog r.2) ()
  | .busy _ k => k.Follows free (fun r _ => OrderedCatalog r.2) ()
  | .idle s _ => OrderedCatalog s
  | _ => True

theorem Observed.free {α : Type} {Q : α → Unit → Prop} {d d' : Disk Item} {S S' : Session}
    {k k' : WriteProg Status Item α} (h : Observed env d S k d' k' S')
    (hk : k.Follows TFDB.free Q ()) : k'.Follows TFDB.free Q () := by
  cases h with
  | write off i k =>
    obtain ⟨φ, -, hk⟩ := hk.1
    exact hk
  | writeFails off i k n st => exact hk.2 st
  | flush k =>
    obtain ⟨φ, -, hk⟩ := hk.1
    exact hk
  | flushFails k st => exact hk.2 st

theorem Observe.orderKept {x y : Sys} {S S' : Session} (h : Observe env (x, S) (y, S'))
    (hx : OrderKept x.proc) : OrderKept y.proc := by
  cases h with
  | openEffect x S hp h =>
    rw [hp] at hx
    exact h.free hx
  | opened x S hp =>
    rw [hp] at hx
    exact hx
  | call x S op hp =>
    rw [hp] at hx
    exact ordered_program hx op
  | effect x S hp h =>
    rw [hp] at hx
    exact h.free hx
  | returned x S hp =>
    rw [hp] at hx
    exact hx

theorem Tracked.orderKept {x : Sys} {S : Session} (h : Tracked env x S) : OrderKept x.proc := by
  induction h with
  | opening x hw hrandom he hrec hp =>
    obtain ⟨-, g, hm, ⟨id, hprep, hs⟩, -, hgen, -⟩ := recover_inv hrec
    rw [hp, hs]
    exact ordered_startWriter (opened_ordered g hm hgen _ id)
  | step hx h ih => exact h.orderKept ih

end

end TFDB
