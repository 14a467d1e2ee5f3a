import TFDB.Scan

/-!
# What open recovers

The reading part of a non-strict `open`, as a function of the image: `slotState` is what a slot
holds, and the catalog is the list of these states in the order of their generations, with the
index of every footerless partition but the newest cleared (`recoverSlots_run`,
`recover_run`).
-/

set_option autoImplicit false

namespace TFDB

open ByteLib

/-! ## One slot -/

section
variable (env : Env) (m : Image)

/-- The header of a slot. -/
@[irreducible] def slotHeader (slot : UInt32) : Except Status PartitionHeader :=
  acceptPartitionHeader env slot (m.window (env.partitionBase slot) partitionHeaderEncodedSize)

/-- The footer of the partition with header `h`. -/
@[irreducible] def slotFooter (h : PartitionHeader) : Except Status PartitionFooter :=
  acceptFooter env h
    (m.window (env.partitionBase h.slot + env.footerOffset) partitionFooterEncodedSize)

/-- The blocks of the partition with header `h`. -/
@[irreducible] def slotScan (h : PartitionHeader) : Scan :=
  (Rd.run (imageSource m) (scanPartition env h 0)).toOption.getD {}

/-- Data of this volume in a slot without a valid header. -/
@[irreducible] def slotEvidence (slot : UInt32) : Bool :=
  let raw := m.window (env.partitionBase slot) partitionHeaderEncodedSize
  ! raw.all (· == 0) && (headerEvidence env raw ||
    (footerEvidence env slot
        (m.window (env.partitionBase slot + env.footerOffset) partitionFooterEncodedSize) ||
      blockEvidence env slot
        (m.window (env.partitionBase slot + partitionHeaderRegionSize) blockHeaderEncodedSize)))

/-- What a slot holds: the state of the partition with a valid header. -/
def slotState (slot : UInt32) : Option PartitionState :=
  match slotHeader env m slot with
  | .ok h =>
    match slotFooter env m h with
    | .ok f => some (sealedState h f)
    | .error _ => some (scannedState h (slotScan env m h))
  | .error _ => none

/-- The outcome of `recoverPartition` behind a valid header. -/
def slotRecovered (h : PartitionHeader) : Except Status PartitionState :=
  match slotFooter env m h with
  | .ok f => .ok (sealedState h f)
  | .error e =>
    if e.code = .unsupported then .error e
    else .ok (scannedState h (slotScan env m h))

/-- The slot has no valid header and holds data of this volume. -/
def slotDamaged (slot : UInt32) : Bool :=
  match slotHeader env m slot with
  | .ok _ => false
  | .error _ => slotEvidence env m slot

/-- Opening stops at this slot: its header, with evidence, or the footer behind a valid header
is of an unsupported version. -/
def SlotFails (slot : UInt32) : Prop :=
  match slotHeader env m slot with
  | .ok h => ∃ e, slotFooter env m h = .error e ∧ e.code = .unsupported
  | .error e => e.code = .unsupported ∧ slotEvidence env m slot = true

end

section
variable {env : Env} {m : Image} {slot : UInt32} {h : PartitionHeader} {f : PartitionFooter} {e : Status}

theorem slotState_of_error (hh : slotHeader env m slot = .error e) : slotState env m slot = none := by
  rw [slotState, hh]

theorem slotState_of_sealed (hh : slotHeader env m slot = .ok h) (hf : slotFooter env m h = .ok f) :
    slotState env m slot = some (sealedState h f) := by
  rw [slotState, hh]
  simp only [hf]

theorem slotState_of_open (hh : slotHeader env m slot = .ok h) (hf : slotFooter env m h = .error e) :
    slotState env m slot = some (scannedState h (slotScan env m h)) := by
  rw [slotState, hh]
  simp only [hf]

theorem slotDamaged_of_error (hh : slotHeader env m slot = .error e) :
    slotDamaged env m slot = slotEvidence env m slot := by
  rw [slotDamaged, hh]

theorem slotDamaged_of_ok (hh : slotHeader env m slot = .ok h) : slotDamaged env m slot = false := by
  rw [slotDamaged, hh]

theorem slotFails_of_error (hh : slotHeader env m slot = .error e) :
    SlotFails env m slot ↔ e.code = .unsupported ∧ slotEvidence env m slot = true := by
  rw [SlotFails, hh]

theorem slotFails_of_ok (hh : slotHeader env m slot = .ok h) :
    SlotFails env m slot ↔ ∃ e, slotFooter env m h = .error e ∧ e.code = .unsupported := by
  rw [SlotFails, hh]

end

/-- Every error the outcome can be has a code that satisfies `P`. -/
def Codes {α : Type} (P : StatusCode → Prop) (x : Except Status α) : Prop :=
  ∀ e, x = .error e → P e.code

/-- The codes of damaged or foreign bytes: neither an I/O problem nor an overwrite. -/
def MediaCode (c : StatusCode) : Prop := c ≠ .ioError ∧ c ≠ .interrupted ∧ c ≠ .overwritten

instance : DecidablePred MediaCode := fun c =>
  inferInstanceAs (Decidable (c ≠ .ioError ∧ c ≠ .interrupted ∧ c ≠ .overwritten))

theorem MediaCode.not_io {e : Status} (h : MediaCode e.code) : e.isIo = false := by
  simp only [Status.isIo, Bool.or_eq_false_iff, beq_eq_false_iff_ne]
  exact ⟨h.1, h.2.1⟩

section
variable {α β : Type} {P : StatusCode → Prop}

theorem Codes.ok (a : α) : Codes P (.ok a : Except Status α) := by
  intro e h
  cases h

theorem Codes.failWith {c : StatusCode} {text : String} (hc : P c) :
    Codes P (failWith c text : Except Status α) := by
  intro e h
  cases h
  exact hc

theorem Codes.bind {x : Except Status α} {f : α → Except Status β} (hx : Codes P x)
    (hf : ∀ a, Codes P (f a)) : Codes P (x >>= f) := by
  cases x with
  | ok a => exact hf a
  | error e =>
    intro e' h
    cases h
    exact hx e rfl

theorem Codes.ite {c : Prop} [Decidable c] {x y : Except Status α} (hx : Codes P x) (hy : Codes P y) :
    Codes P (if c then x else y) := by
  split
  · exact hx
  · exact hy

theorem Codes.foldlM {f : β → α → Except Status β} (hf : ∀ b a, Codes P (f b a)) :
    ∀ (l : List α) (b : β), Codes P (l.foldlM f b)
  | [], b => Codes.ok b
  | a :: l, b => by
    rw [List.foldlM_cons]
    exact Codes.bind (hf b a) fun b' => Codes.foldlM hf l b'

end

theorem codes_commonCheck (bytes magic : Bytes) (size crcOffset : Nat) :
    Codes MediaCode (commonCheck bytes magic size crcOffset) := by
  unfold commonCheck
  repeat' apply Codes.ite
  all_goals first | exact Codes.failWith (by decide) | exact Codes.ok _

theorem codes_decodeFeature (bytes : Bytes) (acc : FeatureScan) (i : Nat) :
    Codes MediaCode (decodeFeature bytes acc i) := by
  have hrange (f : FeatureDescriptor) (ranges : List (UInt32 × UInt32)) :
      Codes MediaCode (checkConfigRange f ranges) := by
    unfold checkConfigRange
    repeat' apply Codes.ite
    all_goals first | exact Codes.failWith (by decide) | exact Codes.ok _
  have hkind (f : FeatureDescriptor) (acc : FeatureScan) : Codes MediaCode (decodeFeatureKind bytes f acc) := by
    unfold decodeFeatureKind
    repeat' apply Codes.ite
    all_goals first | exact Codes.failWith (by decide) | exact Codes.ok _
  refine Codes.ite (Codes.failWith (by decide)) ?_
  exact Codes.bind (hrange _ _) fun _ => Codes.bind (hkind _ _) fun _ => Codes.ok _

theorem codes_decodePartitionHeader (bytes : Bytes) : Codes MediaCode (decodePartitionHeader bytes) := by
  refine Codes.bind (codes_commonCheck _ _ _ _) fun _ => Codes.ite (Codes.failWith (by decide)) ?_
  refine Codes.ite (Codes.failWith (by decide)) (Codes.bind (Codes.foldlM (codes_decodeFeature bytes) _ _) ?_)
  exact fun _ => Codes.ite (Codes.failWith (by decide)) (Codes.ite (Codes.failWith (by decide)) (Codes.ok _))

theorem codes_acceptPartitionHeader (env : Env) (slot : UInt32) (bytes : Bytes) :
    Codes MediaCode (acceptPartitionHeader env slot bytes) := by
  have hopt (o : PartitionOptions) : Codes MediaCode (env.validatePartitionOptions o) := by
    unfold Env.validatePartitionOptions
    repeat' apply Codes.ite
    all_goals first | exact Codes.failWith (by decide) | exact Codes.ok _
  have hfeat : ∀ fs, Codes MediaCode (checkFeatures env fs) := by
    intro fs
    induction fs with
    | nil => exact Codes.ok _
    | cons f fs ih =>
      unfold checkFeatures
      repeat' apply Codes.ite
      all_goals first | exact Codes.failWith (by decide) | exact ih
  refine Codes.bind (codes_decodePartitionHeader bytes) fun h => Codes.ite (Codes.failWith (by decide)) ?_
  exact Codes.bind (hopt _) fun _ => Codes.bind (hfeat _) fun _ => Codes.ok _

theorem codes_acceptFooter (env : Env) (h : PartitionHeader) (bytes : Bytes) :
    Codes MediaCode (acceptFooter env h bytes) := by
  have hdec : Codes MediaCode (decodePartitionFooter bytes) := by
    refine Codes.bind (codes_commonCheck _ _ _ _) fun _ => ?_
    repeat' apply Codes.ite
    all_goals first | exact Codes.failWith (by decide) | exact Codes.ok _
  exact Codes.bind hdec fun f => Codes.ite (Codes.failWith (by decide)) (Codes.ok _)

/-! ## Clearing indexes -/

/-- A footerless partition without its index. -/
def PartitionState.cleared (p : PartitionState) : PartitionState :=
  if p.isSealed then p else { p with activeIndex := [] }

@[simp] theorem PartitionState.cleared_header (p : PartitionState) : p.cleared.header = p.header := by
  unfold PartitionState.cleared
  split <;> rfl

@[simp] theorem PartitionState.cleared_isSealed (p : PartitionState) :
    p.cleared.isSealed = p.isSealed := by
  unfold PartitionState.cleared
  split <;> rfl

@[simp] theorem PartitionState.cleared_cleared (p : PartitionState) : p.cleared.cleared = p.cleared := by
  unfold PartitionState.cleared
  split
  · rename_i h; simp
  · rename_i h; simp

theorem keepLastIndex_append (ps : List PartitionState) (p : PartitionState) :
    keepLastIndex (ps ++ [p]) = ps.map PartitionState.cleared ++ [p] := by
  induction ps with
  | nil => rfl
  | cons q qs ih =>
    cases qs with
    | nil => simp [keepLastIndex, PartitionState.cleared]
    | cons q' qs' =>
      simp only [List.cons_append, keepLastIndex, List.map_cons] at ih ⊢
      rw [ih]
      rfl

/-- The newest generation of a list. -/
def newestOf (ps : List PartitionState) : UInt64 :=
  ps.foldl (fun g p => max g p.header.generation) 0

theorem max_comm64 (a b : UInt64) : max a b = max b a := by
  show (if a ≤ b then b else a) = if b ≤ a then a else b
  simp only [UInt64.le_iff_toNat_le]
  split <;> split
  · apply UInt64.toNat_inj.mp; omega
  · rfl
  · rfl
  · omega

theorem le_max_left64 (a b : UInt64) : a ≤ max a b := by
  show a ≤ if a ≤ b then b else a
  split
  · assumption
  · exact UInt64.le_refl a

theorem le_max_right64 (a b : UInt64) : b ≤ max a b := by
  rw [max_comm64]
  exact le_max_left64 b a

theorem foldl_max_ge (ps : List PartitionState) (g : UInt64) :
    g ≤ ps.foldl (fun g p => max g p.header.generation) g ∧
      ∀ p ∈ ps, p.header.generation ≤ ps.foldl (fun g p => max g p.header.generation) g := by
  induction ps generalizing g with
  | nil => exact ⟨UInt64.le_refl g, fun p hp => by cases hp⟩
  | cons q qs ih =>
    obtain ⟨h1, h2⟩ := ih (max g q.header.generation)
    refine ⟨UInt64.le_trans (le_max_left64 _ _) h1, fun p hp => ?_⟩
    rcases List.mem_cons.mp hp with rfl | hp
    · exact UInt64.le_trans (le_max_right64 _ _) h1
    · exact h2 p hp

theorem newestOf_ge {ps : List PartitionState} {p : PartitionState} (hp : p ∈ ps) :
    p.header.generation ≤ newestOf ps := (foldl_max_ge ps 0).2 p hp

theorem newestOf_append (ps : List PartitionState) (p : PartitionState) :
    newestOf (ps ++ [p]) = max (newestOf ps) p.header.generation := by
  simp [newestOf]

/-- What `dropOlderIndexes` does to one partition. -/
def dropBelow (newest : UInt64) (p : PartitionState) : PartitionState :=
  if ¬ p.isSealed ∧ p.header.generation ≠ newest then { p with activeIndex := [] } else p

theorem dropOlderIndexes_eq (ps : List PartitionState) :
    dropOlderIndexes ps = ps.map (dropBelow (newestOf ps)) := rfl

@[simp] theorem dropBelow_header (g : UInt64) (p : PartitionState) :
    (dropBelow g p).header = p.header := by
  unfold dropBelow
  split <;> rfl

theorem dropBelow_cleared (g : UInt64) (p : PartitionState) :
    (dropBelow g p).cleared = p.cleared := by
  unfold dropBelow PartitionState.cleared
  split
  · rename_i h; simp [h.1]
  · rfl

theorem newestOf_map {f : PartitionState → PartitionState} (hf : ∀ p, (f p).header = p.header)
    (ps : List PartitionState) : newestOf (ps.map f) = newestOf ps := by
  unfold newestOf
  rw [List.foldl_map]
  simp only [hf]

theorem dropBelow_dropBelow {g g' : UInt64} {p : PartitionState} (h1 : p.header.generation ≤ g)
    (h2 : g ≤ g') : dropBelow g' (dropBelow g p) = dropBelow g' p := by
  unfold dropBelow
  by_cases hs : p.isSealed
  · simp [hs]
  by_cases hg : p.header.generation = g
  · simp [hg]
  · have hlt : p.header.generation ≠ g' := by
      intro he
      apply hg
      rw [he] at h1 ⊢
      exact UInt64.le_antisymm h1 h2
    simp [hs, hg, hlt]

theorem dropOlderIndexes_append (ps : List PartitionState) (p : PartitionState) :
    dropOlderIndexes (dropOlderIndexes ps ++ [p]) = dropOlderIndexes (ps ++ [p]) := by
  have hn : newestOf (dropOlderIndexes ps ++ [p]) = newestOf (ps ++ [p]) := by
    rw [newestOf_append, newestOf_append, dropOlderIndexes_eq, newestOf_map (dropBelow_header _)]
  rw [dropOlderIndexes_eq, hn, dropOlderIndexes_eq, dropOlderIndexes_eq, List.map_append,
    List.map_append, List.map_map]
  congr 1
  refine List.map_congr_left fun q hq => dropBelow_dropBelow (newestOf_ge hq) ?_
  rw [newestOf_append]
  exact le_max_left64 _ _

/-! ## The recovery loop -/

theorem evidence_cases (allZero header rest : Bool) :
    (if allZero = true then .ok false else if header = true then .ok true else .ok rest :
      Except Status Bool) = .ok (!allZero && (header || rest)) := by
  cases allZero <;> cases header <;> rfl

theorem slotScan_of_run {env : Env} {m : Image} {h : PartitionHeader} {scan : Scan}
    (hrun : Rd.run (imageSource m) (scanPartition env h 0) = .ok scan) : slotScan env m h = scan := by
  rw [slotScan, hrun]
  rfl

section
variable {env : Env} {m : Image} (g : Geometry env) (hm : env.volume.volumeSize.toNat ≤ m.size)
include g hm

theorem run_scanPartition {h : PartitionHeader} (hs : h.slot < env.volume.partitionCount) :
    Rd.run (imageSource m) (scanPartition env h 0) = .ok (slotScan env m h) := by
  obtain ⟨fs, st, corrupt, hrun, -, -⟩ := scanPartition_run g hm hs 0
    env.indexBegin (if_pos rfl) (Nat.le_of_lt g.header_lt_indexBegin) (Nat.le_refl _)
  rw [slotScan_of_run hrun]
  exact hrun

theorem run_currentVolumeEvidence {slot : UInt32} (hs : slot < env.volume.partitionCount) :
    Rd.run (imageSource m) (currentVolumeEvidence env slot) = .ok (slotEvidence env m slot) := by
  have hroom := g.room
  have hsum := g.indexBegin_add
  have hfo := g.footerOffset_eq
  have hlt := g.header_lt_indexBegin
  have h1 := slot_read g hm hs (o := 0) (n := partitionHeaderEncodedSize)
    (by simp only [partitionHeaderEncodedSize, partitionHeaderRegionSize] at *; omega)
  have h2 := slot_read g hm hs (o := env.footerOffset) (n := partitionFooterEncodedSize)
    (by simp only [partitionFooterEncodedSize, partitionFooterRegionSize] at *; omega)
  have h3 := slot_read g hm hs (o := partitionHeaderRegionSize) (n := blockHeaderEncodedSize)
    (by simp only [blockHeaderEncodedSize, partitionHeaderRegionSize, partitionFooterRegionSize] at *; omega)
  simp only [Nat.add_zero] at h1
  unfold slotEvidence
  simp only [currentVolumeEvidence, Rd.run_bind, Rd.run_readExact, h1, Rd.bind_ok,
    Rd.run_ite, Rd.run_pure, h2, h3]
  exact evidence_cases _ _ _

/-- What `recoverHeader` finds in a slot. -/
theorem run_recoverHeader {slot : UInt32} (hs : slot < env.volume.partitionCount) :
    Rd.run (imageSource m) (recoverHeader env false slot) =
      match slotHeader env m slot with
      | .ok h => .ok (.valid h)
      | .error e =>
        if slotEvidence env m slot then
          if e.code = .unsupported then .error e else .ok .damaged
        else .ok .empty := by
  simp only [recoverHeader, Rd.run_bind, Rd.run_attempt, Rd.bind_ok, run_readPartitionHeader g hm hs]
  have hio := codes_acceptPartitionHeader env slot
    (m.window (env.partitionBase slot) partitionHeaderEncodedSize)
  unfold slotHeader
  cases hacc : acceptPartitionHeader env slot
      (m.window (env.partitionBase slot) partitionHeaderEncodedSize) with
  | ok h => rfl
  | error e =>
    simp only [(hio e hacc).not_io, Bool.false_eq_true, if_false, Rd.run_bind,
      run_currentVolumeEvidence g hm hs, Rd.bind_ok, Rd.run_ite, Rd.run_fail, Rd.run_pure]

theorem run_recoverPartition {h : PartitionHeader} (hs : h.slot < env.volume.partitionCount) :
    Rd.run (imageSource m) (recoverPartition env false h) =
      slotRecovered env m h := by
  simp only [recoverPartition, Rd.run_bind, Rd.run_attempt, Rd.bind_ok, run_readFooter g hm hs]
  have hio := codes_acceptFooter env h
    (m.window (env.partitionBase h.slot + env.footerOffset) partitionFooterEncodedSize)
  unfold slotRecovered slotFooter
  cases hacc : acceptFooter env h
      (m.window (env.partitionBase h.slot + env.footerOffset) partitionFooterEncodedSize) with
  | ok f => rfl
  | error e =>
    simp only [(hio e hacc).not_io, Bool.false_or, beq_iff_eq, Rd.run_ite, Rd.run_fail, Rd.run_bind,
      run_scanPartition g hm hs, Rd.bind_ok]
    rfl

end

/-- What an accepted header satisfies. -/
theorem acceptPartitionHeader_inv {env : Env} {slot : UInt32} {bs : Bytes} {h : PartitionHeader}
    (hh : acceptPartitionHeader env slot bs = .ok h) :
    decodePartitionHeader bs = .ok h ∧ h.volumeIdHigh = env.volume.volumeIdHigh ∧
      h.volumeIdLow = env.volume.volumeIdLow ∧ h.slot = slot ∧
      env.validatePartitionOptions h.options = .ok () := by
  unfold acceptPartitionHeader at hh
  obtain ⟨h', hd, hh⟩ := bind_ok_inv hh
  split at hh
  · simp at hh
  rename_i hid
  simp only [not_or, ne_eq, not_not] at hid
  obtain ⟨u, hu, hh⟩ := bind_ok_inv hh
  obtain ⟨_, _, hh⟩ := bind_ok_inv hh
  cases u
  cases hh
  exact ⟨hd, hid.1, hid.2.1, hid.2.2.1, hu⟩

theorem slotHeader_slot {env : Env} {m : Image} {slot : UInt32} {h : PartitionHeader}
    (hh : slotHeader env m slot = .ok h) : h.slot = slot := by
  unfold slotHeader at hh
  exact (acceptPartitionHeader_inv hh).2.2.2.1

@[simp] theorem scannedState_header (h : PartitionHeader) (scan : Scan) :
    (scannedState h scan).header = h := by
  have hfold : ∀ (es : List IndexEntry) (p : PartitionState),
      (es.foldl (fun p e =>
        { p with
          aggregateFlags := p.aggregateFlags ||| e.flags
          hasTime := true
          minTimeNs := if p.hasTime then min p.minTimeNs e.minTimeNs else e.minTimeNs
          maxTimeNs := if p.hasTime then max p.maxTimeNs e.maxTimeNs else e.maxTimeNs }) p).header =
        p.header := by
    intro es
    induction es with
    | nil => exact fun p => rfl
    | cons e es ih => exact fun p => (ih _).trans rfl
  exact hfold _ _

theorem slotState_header {env : Env} {m : Image} {slot : UInt32} {p : PartitionState}
    (hp : slotState env m slot = some p) : slotHeader env m slot = .ok p.header := by
  unfold slotState at hp
  split at hp
  · rename_i h hh
    split at hp
    · cases hp
      exact hh
    · cases hp
      rw [scannedState_header]
      exact hh
  · cases hp

theorem slotState_slot {env : Env} {m : Image} {slot : UInt32} {p : PartitionState}
    (hp : slotState env m slot = some p) : p.header.slot = slot :=
  slotHeader_slot (slotState_header hp)

/-- The generations of a list of partitions are nonzero and pairwise different. -/
def GenerationsOk (ps : List PartitionState) : Prop :=
  (∀ p ∈ ps, p.header.generation ≠ 0) ∧ (ps.map fun p => p.header.generation).Nodup

theorem GenerationsOk.snoc {ps : List PartitionState} {p : PartitionState} (h : GenerationsOk ps)
    (h0 : p.header.generation ≠ 0) (hd : ∀ q ∈ ps, q.header.generation ≠ p.header.generation) :
    GenerationsOk (ps ++ [p]) := by
  refine ⟨fun q hq => ?_, ?_⟩
  · rcases List.mem_append.mp hq with hq | hq
    · exact h.1 q hq
    · rw [List.mem_singleton.mp hq]
      exact h0
  · rw [List.map_append, List.nodup_append]
    refine ⟨h.2, List.nodup_singleton _, fun a ha b hb => ?_⟩
    obtain ⟨q, hq, rfl⟩ := List.mem_map.mp ha
    rw [List.mem_singleton.mp hb]
    exact hd q hq

theorem any_dropOlderIndexes (ps : List PartitionState) (c : UInt64 → Bool) :
    ((dropOlderIndexes ps).any fun p => c p.header.generation) =
      ps.any fun p => c p.header.generation := by
  rw [dropOlderIndexes_eq, List.any_map]
  congr 1
  funext p
  simp

section
variable {env : Env} {m : Image} (g : Geometry env) (hm : env.volume.volumeSize.toNat ≤ m.size)
include g hm

/-- A slot without a valid header. -/
theorem run_recoverSlots_error {slot : UInt32} (hs : slot < env.volume.partitionCount)
    (slots : List UInt32) (r : Recovery) {e : Status} (hh : slotHeader env m slot = .error e) :
    Rd.run (imageSource m) (recoverSlots env false (slot :: slots) r) =
      if slotEvidence env m slot then
        if e.code = .unsupported then .error e
        else Rd.run (imageSource m) (recoverSlots env false slots
          { r with corruptSlots := r.corruptSlots ++ [slot] })
      else Rd.run (imageSource m) (recoverSlots env false slots r) := by
  simp only [recoverSlots, Rd.run_bind, run_recoverHeader g hm hs, hh]
  split
  · split
    · rfl
    · rfl
  · rfl

/-- A slot with a valid header. -/
theorem run_recoverSlots_ok {slot : UInt32} (hs : slot < env.volume.partitionCount)
    (slots : List UInt32) (r : Recovery) {h : PartitionHeader} (hh : slotHeader env m slot = .ok h) :
    Rd.run (imageSource m) (recoverSlots env false (slot :: slots) r) =
      if h.generation = 0 then .error ⟨.corrupt, "partition generation zero is reserved"⟩
      else if r.partitions.any fun p => p.header.generation == h.generation then
        .error ⟨.corrupt, "duplicate partition generation"⟩
      else
        (slotRecovered env m h).bind fun p =>
        Rd.run (imageSource m) (recoverSlots env false slots
          { r with partitions := dropOlderIndexes (r.partitions ++ [p]) }) := by
  have hslot : h.slot < env.volume.partitionCount := by
    rw [slotHeader_slot hh]
    exact hs
  simp only [recoverSlots, Rd.run_bind, run_recoverHeader g hm hs, hh, Rd.bind_ok, Rd.run_ite,
    Rd.run_fail, run_recoverPartition g hm hslot]

/-- What a successful recovery of some slots returns. -/
theorem recoverSlots_run (slots : List UInt32) (hs : ∀ slot ∈ slots, slot < env.volume.partitionCount)
    (ps : List PartitionState) {r r' : Recovery} (hr : r.partitions = dropOlderIndexes ps)
    (hps : GenerationsOk ps)
    (hrun : Rd.run (imageSource m) (recoverSlots env false slots r) = .ok r') :
    (∀ slot ∈ slots, ¬ SlotFails env m slot) ∧
      r'.corruptSlots = r.corruptSlots ++ slots.filter (slotDamaged env m) ∧
      r'.partitions = dropOlderIndexes (ps ++ slots.filterMap (slotState env m)) ∧
      GenerationsOk (ps ++ slots.filterMap (slotState env m)) := by
  induction slots generalizing r ps with
  | nil =>
    simp only [recoverSlots, Rd.run_pure, Except.ok.injEq] at hrun
    subst hrun
    simpa using ⟨hr, hps⟩
  | cons slot slots ih =>
    have hslot := hs slot (List.mem_cons_self ..)
    have hrest : ∀ s ∈ slots, s < env.volume.partitionCount :=
      fun s h => hs s (List.mem_cons_of_mem _ h)
    cases hh : slotHeader env m slot with
    | error e =>
      have hstate := slotState_of_error hh
      have hdam := slotDamaged_of_error hh
      rw [run_recoverSlots_error g hm hslot slots r hh] at hrun
      by_cases hev : slotEvidence env m slot = true
      · rw [if_pos hev] at hrun
        by_cases hu : e.code = .unsupported
        · rw [if_pos hu] at hrun
          cases hrun
        · rw [if_neg hu] at hrun
          have hnf : ¬ SlotFails env m slot := fun h => hu ((slotFails_of_error hh).mp h).1
          obtain ⟨h1, h2, h3, h4⟩ := ih hrest ps
            (r := { r with corruptSlots := r.corruptSlots ++ [slot] }) hr hps hrun
          refine ⟨(List.forall_mem_cons (p := fun s => ¬ SlotFails env m s)).mpr ⟨hnf, h1⟩, ?_, ?_, ?_⟩
          · rw [h2, List.filter_cons, hdam, if_pos hev]
            simp
          · rw [h3, List.filterMap_cons_none hstate]
          · rw [List.filterMap_cons_none hstate]
            exact h4
      · rw [if_neg hev] at hrun
        have hnf : ¬ SlotFails env m slot := fun h => hev ((slotFails_of_error hh).mp h).2
        obtain ⟨h1, h2, h3, h4⟩ := ih hrest ps hr hps hrun
        refine ⟨(List.forall_mem_cons (p := fun s => ¬ SlotFails env m s)).mpr ⟨hnf, h1⟩, ?_, ?_, ?_⟩
        · rw [h2, List.filter_cons, hdam, if_neg hev]
        · rw [h3, List.filterMap_cons_none hstate]
        · rw [List.filterMap_cons_none hstate]
          exact h4
    | ok h =>
      have hdam := slotDamaged_of_ok hh
      rw [run_recoverSlots_ok g hm hslot slots r hh] at hrun
      by_cases h0 : h.generation = 0
      · rw [if_pos h0] at hrun
        cases hrun
      rw [if_neg h0] at hrun
      by_cases hdup : (r.partitions.any fun p => p.header.generation == h.generation) = true
      · rw [if_pos hdup] at hrun
        cases hrun
      rw [if_neg hdup] at hrun
      -- the partition this slot contributes
      have push (p : PartitionState) (hp : slotState env m slot = some p) (hnf : ¬ SlotFails env m slot)
          (hrun : Rd.run (imageSource m) (recoverSlots env false slots
            { r with partitions := dropOlderIndexes (r.partitions ++ [p]) }) = .ok r') :
          (∀ s ∈ slot :: slots, ¬ SlotFails env m s) ∧
            r'.corruptSlots = r.corruptSlots ++ (slot :: slots).filter (slotDamaged env m) ∧
            r'.partitions = dropOlderIndexes (ps ++ (slot :: slots).filterMap (slotState env m)) ∧
            GenerationsOk (ps ++ (slot :: slots).filterMap (slotState env m)) := by
        have hph : p.header = h := Except.ok.inj ((slotState_header hp).symm.trans hh)
        have hnew : GenerationsOk (ps ++ [p]) := by
          refine hps.snoc (by rw [hph]; exact h0) fun q hq heq => hdup ?_
          rw [hr, any_dropOlderIndexes ps (· == h.generation)]
          exact List.any_eq_true.mpr ⟨q, hq, by rw [heq, hph]; exact beq_self_eq_true _⟩
        obtain ⟨h1, h2, h3, h4⟩ := ih hrest (ps ++ [p])
          (r := { r with partitions := dropOlderIndexes (r.partitions ++ [p]) })
          (by rw [hr]; exact dropOlderIndexes_append ps p) hnew hrun
        refine ⟨(List.forall_mem_cons (p := fun s => ¬ SlotFails env m s)).mpr ⟨hnf, h1⟩, ?_, ?_, ?_⟩
        · rw [h2, List.filter_cons, hdam]
          rfl
        · rw [h3, List.filterMap_cons_some hp, List.append_assoc]
          rfl
        · rw [List.filterMap_cons_some hp]
          simpa using h4
      cases hf : slotFooter env m h with
      | ok f =>
        rw [slotRecovered, hf] at hrun
        refine push (sealedState h f) (slotState_of_sealed hh hf) ?_ hrun
        rw [slotFails_of_ok hh, hf]
        rintro ⟨e, he, -⟩
        cases he
      | error e =>
        rw [slotRecovered, hf] at hrun
        by_cases hu : e.code = .unsupported
        · simp only [if_pos hu, Rd.bind_error] at hrun
          cases hrun
        · simp only [if_neg hu, Rd.bind_ok] at hrun
          refine push (scannedState h (slotScan env m h)) (slotState_of_open hh hf) ?_ hrun
          rw [slotFails_of_ok hh, hf]
          rintro ⟨e', he, hu'⟩
          cases he
          exact hu hu'

/-- Recovery of some slots succeeds if no slot stops it and the generations are in order. -/
theorem recoverSlots_ok (slots : List UInt32) (hs : ∀ slot ∈ slots, slot < env.volume.partitionCount)
    (ps : List PartitionState) {r : Recovery} (hr : r.partitions = dropOlderIndexes ps)
    (hnf : ∀ slot ∈ slots, ¬ SlotFails env m slot)
    (hgen : GenerationsOk (ps ++ slots.filterMap (slotState env m))) :
    ∃ r', Rd.run (imageSource m) (recoverSlots env false slots r) = .ok r' := by
  induction slots generalizing r ps with
  | nil => exact ⟨r, rfl⟩
  | cons slot slots ih =>
    have hslot := hs slot (List.mem_cons_self ..)
    have hrest : ∀ s ∈ slots, s < env.volume.partitionCount :=
      fun s h => hs s (List.mem_cons_of_mem _ h)
    have hnf0 := hnf slot (List.mem_cons_self ..)
    have hnfr : ∀ s ∈ slots, ¬ SlotFails env m s := fun s h => hnf s (List.mem_cons_of_mem _ h)
    cases hh : slotHeader env m slot with
    | error e =>
      rw [List.filterMap_cons_none (slotState_of_error hh)] at hgen
      rw [run_recoverSlots_error g hm hslot slots r hh]
      split
      · rename_i hev
        rw [if_neg fun hu => hnf0 ((slotFails_of_error hh).mpr ⟨hu, hev⟩)]
        exact ih hrest ps (r := { r with corruptSlots := r.corruptSlots ++ [slot] }) hr hnfr hgen
      · exact ih hrest ps hr hnfr hgen
    | ok h =>
      obtain ⟨p, hp, hrec⟩ : ∃ p, slotState env m slot = some p ∧ slotRecovered env m h = .ok p := by
        cases hf : slotFooter env m h with
        | ok f =>
          refine ⟨_, slotState_of_sealed hh hf, ?_⟩
          rw [slotRecovered, hf]
        | error e =>
          refine ⟨_, slotState_of_open hh hf, ?_⟩
          rw [slotRecovered, hf]
          exact if_neg fun hu => hnf0 ((slotFails_of_ok hh).mpr ⟨e, hf, hu⟩)
      have hph : p.header = h := Except.ok.inj ((slotState_header hp).symm.trans hh)
      rw [List.filterMap_cons_some hp] at hgen
      rw [run_recoverSlots_ok g hm hslot slots r hh, hrec, if_neg, if_neg, Rd.bind_ok]
      · refine ih hrest (ps ++ [p])
          (r := { r with partitions := dropOlderIndexes (r.partitions ++ [p]) }) ?_ hnfr (by simpa using hgen)
        rw [hr]
        exact dropOlderIndexes_append ps p
      · rw [hr, any_dropOlderIndexes ps (· == h.generation)]
        intro hdup
        obtain ⟨q, hq, heq⟩ := List.any_eq_true.mp hdup
        have hnd := hgen.2
        rw [List.map_append, List.map_cons, hph, List.nodup_append] at hnd
        exact hnd.2.2 _ (List.mem_map_of_mem hq) _ (List.mem_cons_self ..) (by simpa using heq)
      · rw [← hph]
        exact hgen.1 p (List.mem_append_right _ (List.mem_cons_self ..))

end

/-! ## Strict verification changes no result -/

section
variable {env : Env} {src : Source Status}

theorem recoverHeader_strict {slot : UInt32} {x : SlotHeader}
    (h : Rd.run src (recoverHeader env true slot) = .ok x) :
    Rd.run src (recoverHeader env false slot) = .ok x := by
  simp only [recoverHeader, Rd.run_bind, Rd.run_attempt, Rd.bind_ok] at h ⊢
  cases hr : Rd.run src (readPartitionHeader env slot) with
  | ok hd =>
    rw [hr] at h
    exact h
  | error e =>
    rw [hr] at h
    simp only [Rd.run_ite, Rd.run_bind, Rd.run_fail, Rd.run_pure] at h ⊢
    split at h
    · cases h
    rename_i hio
    rw [if_neg hio]
    obtain ⟨ev, hev, h⟩ := bind_ok_inv h
    rw [hev]
    simp only [Rd.bind_ok]
    split at h
    · split at h
      · cases h
      · rename_i hst
        cases h
    · rename_i hne
      rw [if_neg hne]
      exact h

theorem recoverPartition_strict {h : PartitionHeader} {p : PartitionState}
    (hr : Rd.run src (recoverPartition env true h) = .ok p) :
    Rd.run src (recoverPartition env false h) = .ok p := by
  simp only [recoverPartition, Rd.run_bind, Rd.run_attempt, Rd.bind_ok] at hr ⊢
  cases hf : Rd.run src (readFooter env h) with
  | ok f =>
    rw [hf] at hr
    simp only [if_true, Rd.run_bind, Rd.run_pure] at hr
    obtain ⟨_, _, hr⟩ := bind_ok_inv hr
    exact hr
  | error e =>
    rw [hf] at hr
    simp only [Rd.run_ite, Rd.run_fail, Rd.run_bind, if_true, Rd.run_pure] at hr ⊢
    split at hr
    · cases hr
    rename_i hcode
    rw [if_neg hcode]
    obtain ⟨scan, hscan, hr⟩ := bind_ok_inv hr
    obtain ⟨_, _, hr⟩ := bind_ok_inv hr
    rw [hscan]
    exact hr

theorem recoverSlots_strict (slots : List UInt32) {r r' : Recovery}
    (h : Rd.run src (recoverSlots env true slots r) = .ok r') :
    Rd.run src (recoverSlots env false slots r) = .ok r' := by
  induction slots generalizing r with
  | nil => exact h
  | cons slot slots ih =>
    simp only [recoverSlots, Rd.run_bind] at h ⊢
    obtain ⟨x, hx, h⟩ := bind_ok_inv h
    rw [recoverHeader_strict hx]
    cases x with
    | empty => exact ih h
    | damaged => exact ih h
    | valid hd =>
      simp only [Rd.bind_ok, Rd.run_ite, Rd.run_fail, Rd.run_bind] at h ⊢
      split at h
      · cases h
      rename_i h0
      rw [if_neg h0]
      split at h
      · cases h
      rename_i hdup
      rw [if_neg hdup]
      obtain ⟨p, hp, h⟩ := bind_ok_inv h
      rw [recoverPartition_strict hp]
      exact ih h

theorem recoverSlots_any (strict : Bool) (slots : List UInt32) {r r' : Recovery}
    (h : Rd.run src (recoverSlots env strict slots r) = .ok r') :
    Rd.run src (recoverSlots env false slots r) = .ok r' := by
  cases strict with
  | false => exact h
  | true => exact recoverSlots_strict slots h

end

end TFDB
