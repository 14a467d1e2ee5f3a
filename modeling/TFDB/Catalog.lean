import TFDB.Recovery

/-!
# The catalog open builds

`catalogOf` is the catalog of an image: the states of its slots in the order of their
generations, older footerless indexes cleared.  `recover_ok` says that this is what every
successful `open` returns, strict or not, and `recover_isOk` when the reading part succeeds.
-/

set_option autoImplicit false

namespace TFDB

open ByteLib

/-- The partitions an image holds, slot by slot. -/
def slotStates (env : Env) (m : Image) : List PartitionState :=
  (slotList env).filterMap (slotState env m)

/-- The catalog of an image. -/
def catalogOf (env : Env) (m : Image) : List PartitionState :=
  keepLastIndex (sortPartitions (slotStates env m))

/-! ## Order of the catalog -/

theorem byGeneration_trans (a b c : PartitionState) (h : byGeneration a b = true)
    (h' : byGeneration b c = true) : byGeneration a c = true := by
  simp only [byGeneration, decide_eq_true_eq] at *
  exact UInt64.le_trans h h'

theorem byGeneration_total (a b : PartitionState) : (byGeneration a b || byGeneration b a) = true := by
  simp only [byGeneration, Bool.or_eq_true, decide_eq_true_eq]
  exact UInt64.le_total _ _

theorem mem_sortPartitions {ps : List PartitionState} {p : PartitionState} :
    p ∈ sortPartitions ps ↔ p ∈ ps := List.mem_mergeSort

theorem sortPartitions_sorted (ps : List PartitionState) :
    (sortPartitions ps).Pairwise fun a b => a.header.generation ≤ b.header.generation := by
  refine (List.pairwise_mergeSort byGeneration_trans byGeneration_total ps).imp fun h => ?_
  simpa only [byGeneration, decide_eq_true_eq] using h

theorem sortPartitions_map {f : PartitionState → PartitionState}
    (hf : ∀ p, (f p).header = p.header) (ps : List PartitionState) :
    sortPartitions (ps.map f) = (sortPartitions ps).map f := by
  refine (List.map_mergeSort fun a _ b _ => ?_).symm
  simp only [byGeneration, hf]

theorem newestOf_le {ps : List PartitionState} {g : UInt64}
    (h : ∀ p ∈ ps, p.header.generation ≤ g) : newestOf ps ≤ g := by
  have hfold : ∀ (qs : List PartitionState) (a : UInt64), a ≤ g →
      (∀ q ∈ qs, q.header.generation ≤ g) →
      qs.foldl (fun a p => max a p.header.generation) a ≤ g := by
    intro qs
    induction qs with
    | nil => exact fun a ha _ => ha
    | cons q qs ih =>
      intro a ha hqs
      refine ih _ ?_ fun q' hq' => hqs q' (List.mem_cons_of_mem _ hq')
      show (if a ≤ q.header.generation then q.header.generation else a) ≤ _
      split
      · exact hqs q (List.mem_cons_self ..)
      · exact ha
  exact hfold ps 0 UInt64.zero_le h

theorem newestOf_sortPartitions (ps : List PartitionState) :
    newestOf (sortPartitions ps) = newestOf ps :=
  UInt64.le_antisymm (newestOf_le fun _ hp => newestOf_ge (mem_sortPartitions.mp hp))
    (newestOf_le fun _ hp => newestOf_ge (mem_sortPartitions.mpr hp))

/-- The last partition of a sorted list is the newest one. -/
theorem newestOf_sorted {ps : List PartitionState} {p : PartitionState}
    (h : (ps ++ [p]).Pairwise fun a b => a.header.generation ≤ b.header.generation) :
    newestOf (ps ++ [p]) = p.header.generation := by
  refine UInt64.le_antisymm (newestOf_le fun q hq => ?_)
    (newestOf_ge (List.mem_append_right ps (List.mem_singleton_self p)))
  rcases List.mem_append.mp hq with hq | hq
  · exact (List.pairwise_append.mp h).2.2 q hq p (List.mem_singleton_self p)
  · rw [List.mem_singleton.mp hq]
    exact UInt64.le_refl _

/-- Dropping the older indexes while slots are recovered changes nothing in the end. -/
theorem keepLastIndex_dropOlderIndexes (ps : List PartitionState) :
    keepLastIndex (sortPartitions (dropOlderIndexes ps)) = keepLastIndex (sortPartitions ps) := by
  rw [dropOlderIndexes_eq, sortPartitions_map (dropBelow_header _), ← newestOf_sortPartitions]
  have hsorted := sortPartitions_sorted ps
  generalize sortPartitions ps = qs at hsorted
  rcases List.eq_nil_or_concat qs with rfl | ⟨front, last, rfl⟩
  · rfl
  · rw [List.concat_eq_append] at hsorted ⊢
    rw [newestOf_sorted hsorted, List.map_append, List.map_singleton, keepLastIndex_append,
      keepLastIndex_append, List.map_map]
    congr 1
    · exact List.map_congr_left fun q _ => dropBelow_cleared _ q
    · simp [dropBelow]

/-! ## Members of the catalog -/

theorem mem_slotList {env : Env} {slot : UInt32} :
    slot ∈ slotList env ↔ slot < env.volume.partitionCount := by
  have hlt := env.volume.partitionCount.toNat_lt
  simp only [slotList, List.mem_map, List.mem_range, Env.partitionCount]
  rw [UInt32.lt_iff_toNat_lt]
  constructor
  · rintro ⟨i, hi, rfl⟩
    rwa [toNat_ofNat32 (by omega)]
  · intro h
    exact ⟨slot.toNat, h, by simp⟩

theorem slotList_nodup (env : Env) : (slotList env).Nodup := by
  refine List.Nodup.map_on ?_ List.nodup_range
  intro a ha b hb h
  have hcount : env.partitionCount < 2 ^ 32 := env.volume.partitionCount.toNat_lt
  have ha' := List.mem_range.mp ha
  have hb' := List.mem_range.mp hb
  have h' := congrArg UInt32.toNat h
  rwa [UInt32.toNat_ofNat_of_lt' (Nat.lt_trans ha' hcount),
    UInt32.toNat_ofNat_of_lt' (Nat.lt_trans hb' hcount)] at h'

theorem mem_slotStates {env : Env} {m : Image} {p : PartitionState} :
    p ∈ slotStates env m ↔
      p.header.slot < env.volume.partitionCount ∧ slotState env m p.header.slot = some p := by
  simp only [slotStates, List.mem_filterMap, mem_slotList]
  constructor
  · rintro ⟨slot, hslot, hp⟩
    obtain rfl := slotState_slot hp
    exact ⟨hslot, hp⟩
  · rintro ⟨hslot, hp⟩
    exact ⟨_, hslot, hp⟩

/-- The catalog: every older partition cleared, and the newest one as its slot holds it. -/
theorem catalogOf_cases (env : Env) (m : Image) :
    (slotStates env m = [] ∧ catalogOf env m = []) ∨
    ∃ older newest, catalogOf env m = older.map PartitionState.cleared ++ [newest] ∧
      sortPartitions (slotStates env m) = older ++ [newest] ∧ newest ∈ slotStates env m ∧
      ∀ p ∈ slotStates env m, p.header.generation ≤ newest.header.generation := by
  have hsorted := sortPartitions_sorted (slotStates env m)
  unfold catalogOf
  rcases List.eq_nil_or_concat (sortPartitions (slotStates env m)) with h | ⟨older, newest, h⟩
  · left
    have hlen : (slotStates env m).length = 0 := by
      have := congrArg List.length h
      simpa [sortPartitions] using this
    rw [h]
    exact ⟨List.length_eq_zero_iff.mp hlen, rfl⟩
  · right
    rw [List.concat_eq_append] at h
    rw [h] at hsorted ⊢
    refine ⟨older, newest, keepLastIndex_append older newest, rfl, ?_, fun p hp => ?_⟩
    · rw [← mem_sortPartitions, h]
      exact List.mem_append_right _ (List.mem_singleton_self _)
    · rw [← mem_sortPartitions, h] at hp
      rw [← newestOf_sorted hsorted]
      exact newestOf_ge hp

theorem catalogOf_headers (env : Env) (m : Image) :
    (catalogOf env m).map PartitionState.header =
      (sortPartitions (slotStates env m)).map PartitionState.header := by
  rcases catalogOf_cases env m with ⟨h1, h2⟩ | ⟨older, newest, h1, h2, -⟩
  · rw [h2, h1]
    simp [sortPartitions]
  · rw [h1, h2]
    simp [Function.comp_def]

/-- A catalogued partition is the state of a slot, with its index or without. -/
theorem catalogOf_mem {env : Env} {m : Image} {p : PartitionState} (hp : p ∈ catalogOf env m) :
    ∃ q ∈ slotStates env m, p = q ∨ p = q.cleared := by
  rcases catalogOf_cases env m with ⟨-, h⟩ | ⟨older, newest, h, hs, hn, -⟩
  · rw [h] at hp
    cases hp
  · rw [h] at hp
    rcases List.mem_append.mp hp with hp | hp
    · obtain ⟨q, hq, rfl⟩ := List.mem_map.mp hp
      refine ⟨q, ?_, Or.inr rfl⟩
      rw [← mem_sortPartitions, hs]
      exact List.mem_append_left _ hq
    · rw [List.mem_singleton.mp hp]
      exact ⟨newest, hn, Or.inl rfl⟩

/-! ## Open -/

/-- The store `open` builds from an image of the volume. -/
def openedStore (env : Env) (m : Image) (o : OpenOptions) (id : UInt64 × UInt64) : Store :=
  recoveredStore env o id ⟨slotStates env m, (slotList env).filter (slotDamaged env m)⟩

@[simp] theorem openedStore_partitions (env : Env) (m : Image) (o : OpenOptions)
    (id : UInt64 × UInt64) : (openedStore env m o id).partitions = catalogOf env m := rfl

/-- What a successful reading part of `open` says about an image of the volume. -/
theorem recover_ok {env : Env} {m : Image} (g : Geometry env)
    (hm : env.volume.volumeSize.toNat ≤ m.size)
    (hv : ∀ v, Rd.run (imageSource m) readVolumeHeader = .ok v → v = env.volume)
    {o : OpenOptions} (ho : o.codecs = env.codecs) {random : Except Status (UInt64 × UInt64)}
    {s : Store} (hrun : Rd.run (imageSource m) (recover m.size o random) = .ok s) :
    (∃ id, prepareWriter env o random = .ok id ∧
      s = openedStore env m o id) ∧
      (∀ slot < env.volume.partitionCount, ¬ SlotFails env m slot) ∧
      GenerationsOk (slotStates env m) := by
  simp only [recover, Rd.run_bind, Rd.run_lift, Rd.run_pure] at hrun
  obtain ⟨v, hvr, hrun⟩ := bind_ok_inv hrun
  obtain rfl := hv v hvr
  obtain ⟨_, _, hrun⟩ := bind_ok_inv hrun
  have henv : ({ volume := env.volume, codecs := o.codecs } : Env) = env := by rw [ho]
  rw [henv] at hrun
  obtain ⟨id, hid, hrun⟩ := bind_ok_inv hrun
  obtain ⟨r, hr, hrun⟩ := bind_ok_inv hrun
  cases hrun
  have hlt : ∀ slot ∈ slotList env, slot < env.volume.partitionCount := fun _ h => mem_slotList.mp h
  obtain ⟨h1, h2, h3, h4⟩ := recoverSlots_run g hm (slotList env) hlt [] (r := {}) rfl
    ⟨fun p hp => (by cases hp), List.nodup_nil⟩ (recoverSlots_any _ _ hr)
  refine ⟨⟨id, hid, ?_⟩, fun slot hs => h1 slot (mem_slotList.mpr hs), h4⟩
  have hcat : keepLastIndex (sortPartitions r.partitions) =
      keepLastIndex (sortPartitions (slotStates env m)) := by
    rw [h3, List.nil_append, keepLastIndex_dropOlderIndexes]
    rfl
  have hcor : r.corruptSlots = (slotList env).filter (slotDamaged env m) := by rw [h2]; rfl
  simp only [openedStore, recoveredStore, hcat, hcor]

/-- When the reading part of `open` succeeds on an image of the volume. -/
theorem recover_isOk {env : Env} {m : Image} (g : Geometry env)
    (hm : env.volume.volumeSize.toNat ≤ m.size)
    (hv : Rd.run (imageSource m) readVolumeHeader = .ok env.volume)
    {o : OpenOptions} (ho : o.codecs = env.codecs) (hst : o.verifyPayloadsOnOpen = false)
    {random : Except Status (UInt64 × UInt64)} {id : UInt64 × UInt64}
    (hid : prepareWriter env o random = .ok id)
    (hnf : ∀ slot < env.volume.partitionCount, ¬ SlotFails env m slot)
    (hgen : GenerationsOk (slotStates env m)) :
    ∃ s, Rd.run (imageSource m) (recover m.size o random) = .ok s := by
  have henv : ({ volume := env.volume, codecs := o.codecs } : Env) = env := by rw [ho]
  obtain ⟨r, hr⟩ := recoverSlots_ok g hm (slotList env) (fun _ h => mem_slotList.mp h) [] (r := {})
    rfl (fun slot hs => hnf slot (mem_slotList.mp hs)) hgen
  refine ⟨recoveredStore env o id r, ?_⟩
  simp only [recover, Rd.run_bind, Rd.run_lift, Rd.run_pure, hv, Rd.bind_ok,
    validateVolumeGeometry_ok g hm, henv, hid, hst, hr]

/-- What a successful reading part of `open` says about any image: it is one of the volume whose
header the image carries. -/
theorem recover_inv {m : Image} {o : OpenOptions} {random : Except Status (UInt64 × UInt64)}
    {s : Store} (hrun : Rd.run (imageSource m) (recover m.size o random) = .ok s) :
    s.env.codecs = o.codecs ∧ Geometry s.env ∧ s.env.volume.volumeSize.toNat ≤ m.size ∧
      (∃ id, prepareWriter s.env o random = .ok id ∧ s = openedStore s.env m o id) ∧
      (∀ slot < s.env.volume.partitionCount, ¬ SlotFails s.env m slot) ∧
      GenerationsOk (slotStates s.env m) ∧
      ∃ r, Rd.run (imageSource m)
        (recoverSlots s.env o.verifyPayloadsOnOpen (slotList s.env) {}) = .ok r := by
  have hrun' := hrun
  simp only [recover, Rd.run_bind, Rd.run_lift, Rd.run_pure] at hrun'
  obtain ⟨v, hvr, hrun'⟩ := bind_ok_inv hrun'
  obtain ⟨_, hval, hrun'⟩ := bind_ok_inv hrun'
  obtain ⟨id, hid, hrun'⟩ := bind_ok_inv hrun'
  obtain ⟨r, hr, hrun'⟩ := bind_ok_inv hrun'
  have henv : s.env = { volume := v, codecs := o.codecs } := by
    cases hrun'
    rfl
  obtain ⟨g, hm⟩ := @geometry_of_validate { volume := v, codecs := o.codecs } _ hval
  obtain ⟨⟨id', hid', hs⟩, hnf, hgen⟩ := recover_ok g hm
    (fun w hw => Except.ok.inj (hw.symm.trans hvr)) rfl hrun
  rw [henv]
  exact ⟨rfl, g, hm, ⟨id', hid', hs⟩, hnf, hgen, r, hr⟩

end TFDB
