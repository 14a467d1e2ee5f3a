import TFDB.LiveCatalog

/-!
# Invariants of the mutating functions

The mutating functions change the store in few ways: a block is written, a partition is created or
sealed, a flush succeeds, a record is accepted.  An invariant of a store and of what an observer
has seen is kept by every call as soon as it is kept by each of these.

* `Maintained` — the changes, each with the effects it is made of;
* `maintained_program`, `maintained_startWriter` — every call, and the writing part of open.
-/

set_option autoImplicit false

namespace TFDB

open ByteLib Writer

/-- Does a partition with these options begin another time domain? -/
def Store.leavesDomain (s : Store) (options : PartitionOptions) : Bool :=
  s.active.elim false fun p => decide (p.header.options.timeDomainId ≠ options.timeDomainId)

/-- The effects of creating a partition, and the store behind them. -/
def Creates {Φ : Type} (L : Lts Item Φ) (I : Store → Φ → Prop) (s : Store) (φ : Φ) (hd : PartitionHeader) :
    Prop :=
  ∃ φ₁, L.write φ (s.env.partitionBase hd.slot) (.header hd) φ₁ ∧ ∃ φ₂, L.flush φ₁ φ₂ ∧
    I (installPartition (synced false s) hd (s.leavesDomain hd.options)) φ₂

/-- The changes of a store keep the invariant `I`; `note` is what the observer makes of an accepted
record.  Nothing is asked of a store with a fault. -/
structure Maintained {Φ : Type} (L : Lts Item Φ) (note : Φ → AcceptedRecord → Φ)
    (I : Store → Φ → Prop) : Prop where
  ordered : ∀ s φ, I s φ → OrderedCatalog s
  fits : ∀ s φ, I s φ → s.builder.length ≤ s.env.maxBlockPayload
  emit : ∀ s φ p stored span, I s φ → s.builder ≠ [] → s.active = some p →
    packBuilder s.env p.header.options s.builder = .ok stored →
    ∃ φ', L.write φ (s.env.partitionBase p.header.slot + p.dataEnd)
        (.frame (builderBlock s p stored span) stored.payload s.builder) φ' ∧
      I (publishBlock s (builderBlock s p stored span)
        (blockHeaderEncodedSize + stored.payload.length) span) φ'
  create : ∀ s φ slot generation options, I s φ →
    (∀ p ∈ s.partitions, p.header.generation < generation) →
    Creates L I s φ (newHeader s.env slot generation options)
  sync : ∀ s φ, I s φ → ∃ φ', L.flush φ φ' ∧ I (synced true s) φ'
  seals : ∀ s φ p, I s φ → s.active = some p →
    (∃ φ₁, L.write φ (s.env.partitionBase p.header.slot + s.env.indexBegin) (.index p.activeIndex) φ₁ ∧
      I s φ₁) ∧
    ∃ φ₁, L.write φ (s.env.partitionBase p.header.slot + s.env.footerOffset)
        (.footer (sealFooter s.env p) p.activeIndex) φ₁ ∧
      ∃ φ₂, L.flush φ₁ φ₂ ∧ I (markSealed (sealFooter s.env p) (synced false s)) φ₂
  count : ∀ s φ, I s φ → I (countRotation s) φ
  next : ∀ s φ options, I s φ → I { s with nextOptions := options } φ
  closed : ∀ s φ, I s φ → I { s with closed := true } φ
  accept : ∀ s φ p (r : AcceptedRecord), I s φ → s.active = some p → r.record ≠ [] →
    s.builder.length + r.record.length ≤ s.env.maxBlockPayload →
    I (acceptRecord s p.header.options r.record r.time r.flags) (note φ r)

section
variable {Φ : Type} {L : Lts Item Φ} {note : Φ → AcceptedRecord → Φ} {I : Store → Φ → Prop}
  {α : Type} {Q : Except Status α → Store → Φ → Prop} {s : Store} {φ : Φ}

/-- An error is fine if it latched a fault or kept the invariant. -/
def AcceptsErrors (I : Store → Φ → Prop) (Q : Except Status α → Store → Φ → Prop) : Prop :=
  ∀ st t φ, (t.faulted = false → I t φ) → Q (.error st) t φ

theorem AcceptsErrors.after {β : Type} {Q : Except Status β → Store → Φ → Prop}
    (hQ : AcceptsErrors I Q) (f : α → Writer β) : AcceptsErrors I (Wr.After L Q f) :=
  fun st t φ h => hQ st t φ h

theorem maintained_failFault (hQ : AcceptsErrors I Q) (st : Status) :
    Wr.Follows L Q (failFault st) s φ := by
  simp only [failFault, Wr.follows_bind, Wr.follows_modify, Wr.after_ok, Wr.follows_fail]
  exact hQ _ _ _ fun h => by cases h

end

section
variable {Φ : Type} {L : Lts Item Φ} {note : Φ → AcceptedRecord → Φ} {I : Store → Φ → Prop}
  {Q : Except Status Unit → Store → Φ → Prop} {s : Store} {φ : Φ}

theorem maintained_writeItem (hQ : AcceptsErrors I Q) {off : Nat} {i : Item} {φ' : Φ}
    (hw : L.write φ off i φ') (hok : Q (.ok ()) s φ') : Wr.Follows L Q (writeItem off i) s φ := by
  simp only [writeItem, Wr.follows_bind, Wr.follows_tryWrite, Wr.after_ok]
  exact ⟨⟨φ', hw, hok⟩, fun e => maintained_failFault hQ e⟩

theorem maintained_syncMedia (hQ : AcceptsErrors I Q) {advances : Bool} {φ' : Φ} (hw : L.flush φ φ')
    (hok : Q (.ok ()) (synced advances s) φ') : Wr.Follows L Q (syncMedia advances) s φ := by
  simp only [syncMedia, Wr.follows_bind, Wr.follows_tryFlush, Wr.after_ok, Wr.follows_modify]
  exact ⟨⟨φ', hw, hok⟩, fun e => maintained_failFault hQ e⟩

/-- The invariant holds of a store without a fault that has this builder. -/
structure StillHolds (I : Store → Φ → Prop) (s : Store) (t : Store) (φ : Φ) : Prop where
  holds : I t φ
  live : t.faulted = false
  env : t.env = s.env
  builder : t.builder = s.builder

theorem maintained_createPartition (hQ : AcceptsErrors I Q) (herr : ∀ st, Q (.error st) s φ)
    (hl : s.faulted = false) {slot : UInt32} {generation : UInt64} {options : PartitionOptions}
    (h : Creates L I s φ (newHeader s.env slot generation options))
    (hok : ∀ t φ', StillHolds I s t φ' → Q (.ok ()) t φ') :
    Wr.Follows L Q (createPartition slot generation options) s φ := by
  simp only [createPartition, Wr.follows_ite, Wr.follows_fail]
  refine ⟨fun _ => herr _, fun _ => ?_⟩
  simp only [Wr.follows_bind, Wr.follows_get, Wr.after_ok]
  cases s.env.validatePartitionOptions options with
  | error st => exact herr st
  | ok u =>
    obtain ⟨φ₁, hw, φ₂, hf, hdone⟩ := h
    simp only [Wr.follows_bind]
    refine maintained_writeItem (hQ.after _) hw ?_
    simp only [Wr.after_ok, Wr.follows_bind]
    refine maintained_syncMedia (hQ.after _) hf ?_
    simp only [Wr.after_ok, Wr.follows_modify]
    refine hok _ _ ⟨?_, hl, rfl, rfl⟩
    unfold Store.leavesDomain at hdone
    cases hact : s.active with
    | none =>
      rw [hact] at hdone
      exact hdone
    | some p =>
      rw [hact] at hdone
      exact hdone

/-- The writing part of `open` ends in a store that satisfies the invariant, if the newest partition
found without a footer and every partition it may create do. -/
theorem maintained_startWriter (hordered : OrderedCatalog s) (hl : s.faulted = false)
    (hfound : ∀ p, s.partitions.getLast? = some p → p.isSealed = false → I s φ)
    (hcreate : ∀ slot generation, (∀ p ∈ s.partitions, p.header.generation < generation) →
      Creates L I s φ (newHeader s.env slot generation s.nextOptions)) :
    Wr.Follows L (fun r t φ' => t.faulted = false → r = .ok () → I t φ') startWriter s φ := by
  have hQ : AcceptsErrors I fun (r : Except Status Unit) t φ' =>
      t.faulted = false → r = .ok () → I t φ' := fun _ _ _ _ _ hr => by cases hr
  have hcreates (slot : UInt32) (generation : UInt64)
      (hnew : ∀ p ∈ s.partitions, p.header.generation < generation) :
      Wr.Follows L (fun r t φ' => t.faulted = false → r = .ok () → I t φ')
        (createPartition slot generation s.nextOptions) s φ :=
    maintained_createPartition hQ (fun _ _ hr => by cases hr) hl (hcreate slot generation hnew)
      fun t φ' ht _ _ => ht.holds
  simp only [startWriter, Wr.follows_bind, Wr.follows_get, Wr.after_ok, Wr.follows_ite,
    Wr.follows_fail]
  refine ⟨fun _ _ hr => (by cases hr), fun _ => ?_⟩
  cases hlast : s.partitions.getLast? with
  | none =>
    refine hcreates 0 1 fun p hp => ?_
    rw [List.getLast?_eq_none_iff.mp hlast] at hp
    cases hp
  | some newest =>
    simp only [Wr.follows_ite, Wr.follows_fail, Wr.follows_pure]
    refine ⟨fun _ => ⟨fun _ _ hr => (by cases hr), fun hmax => ?_⟩, fun hs _ _ => ?_⟩
    · exact hcreates _ _ fun p hp => lt_succ64 hmax (le_newest hordered.order hlast hp)
    · exact hfound newest hlast (by simpa using hs)

variable (hI : Maintained L note I)
include hI

theorem maintained_writeSeal (hQ : AcceptsErrors I Q) (h : I s φ) (hl : s.faulted = false)
    {p : PartitionState} (hp : s.active = some p)
    (hok : ∀ t φ', StillHolds I s t φ' → t.activeGeneration = s.activeGeneration → Q (.ok ()) t φ') :
    Wr.Follows L Q (writeSeal p) s φ := by
  have tail (φ : Φ) (h : I s φ) : Wr.Follows L Q (do
      writeItem (s.env.partitionBase p.header.slot + s.env.footerOffset)
        (.footer (sealFooter s.env p) p.activeIndex)
      syncMedia false
      Wr.modify (markSealed (sealFooter s.env p))) s φ := by
    obtain ⟨-, φ₁, hw, φ₂, hf, hdone⟩ := hI.seals s φ p h hp
    simp only [Wr.follows_bind]
    refine maintained_writeItem (hQ.after _) hw ?_
    simp only [Wr.after_ok, Wr.follows_bind]
    refine maintained_syncMedia (hQ.after _) hf ?_
    simp only [Wr.after_ok, Wr.follows_modify]
    exact hok _ _ ⟨hdone, hl, rfl, rfl⟩ rfl
  simp only [writeSeal, Wr.follows_bind, Wr.follows_get, Wr.after_ok, Wr.follows_ite]
  refine ⟨fun _ => maintained_failFault hQ _, fun _ => ?_⟩
  simp only [Wr.follows_when]
  refine ⟨fun _ => ?_, fun _ => tail φ h⟩
  obtain ⟨⟨φ₁, hw, h₁⟩, -⟩ := hI.seals s φ p h hp
  exact maintained_writeItem (hQ.after _) hw (tail φ₁ h₁)

theorem maintained_sealActiveOnly (hQ : AcceptsErrors I Q) (h : I s φ) (hl : s.faulted = false)
    (hok : ∀ t φ', StillHolds I s t φ' → t.activeGeneration = s.activeGeneration → Q (.ok ()) t φ') :
    Wr.Follows L Q sealActiveOnly s φ := by
  simp only [sealActiveOnly, Wr.follows_bind, Wr.follows_get, Wr.after_ok]
  cases hp : s.active with
  | none => exact hQ _ _ _ fun _ => h
  | some p =>
    simp only [Wr.follows_ite, Wr.follows_fail]
    refine ⟨fun _ => hQ _ _ _ fun _ => h, fun _ => ?_⟩
    simp only [Wr.follows_bind, Wr.follows_when]
    refine ⟨fun _ => ?_, fun _ => maintained_writeSeal hI hQ h hl hp hok⟩
    obtain ⟨φ', hf, hdone⟩ := hI.sync s φ h
    refine maintained_syncMedia (hQ.after _) hf ?_
    refine maintained_writeSeal (s := synced true s) hI hQ hdone hl hp fun t φ' ht hg => ?_
    exact hok t φ' ⟨ht.holds, ht.live, ht.env, ht.builder⟩ hg

theorem maintained_rotateInternal (hQ : AcceptsErrors I Q) (h : I s φ) (hl : s.faulted = false)
    (options : PartitionOptions) (hok : ∀ t φ', StillHolds I s t φ' → Q (.ok ()) t φ') :
    Wr.Follows L Q (rotateInternal options) s φ := by
  simp only [rotateInternal, Wr.follows_bind, Wr.follows_get, Wr.after_ok]
  cases hp : s.active with
  | none => exact hQ _ _ _ fun _ => h
  | some p =>
    simp only [Wr.follows_ite]
    refine ⟨fun _ => maintained_failFault hQ _, fun hmax => ?_⟩
    simp only [Wr.follows_bind]
    refine maintained_sealActiveOnly hI (hQ.after _) h hl fun t φ₁ ht hg => ?_
    simp only [Wr.after_ok, Wr.follows_bind]
    refine maintained_createPartition (hQ.after _) (fun st => hQ _ _ _ fun _ => ht.holds) ht.live ?_
      fun u φ₂ hu => ?_
    · rw [← ht.env]
      refine hI.create t φ₁ _ _ options ht.holds fun q hq => lt_succ64 hmax ?_
      rw [(active_generation hp).2, ← hg]
      exact (hI.ordered t φ₁ ht.holds).newest q hq
    · simp only [Wr.after_ok, Wr.follows_modify]
      exact hok _ _ ⟨hI.count u φ₂ hu.holds, hu.live, hu.env.trans ht.env,
        hu.builder.trans ht.builder⟩

theorem maintained_ensureEmptyBuilderCapacity (hQ : AcceptsErrors I Q) (h : I s φ)
    (hl : s.faulted = false) (hok : ∀ t φ', StillHolds I s t φ' → Q (.ok ()) t φ') :
    Wr.Follows L Q ensureEmptyBuilderCapacity s φ := by
  simp only [ensureEmptyBuilderCapacity, Wr.follows_bind, Wr.follows_get, Wr.after_ok,
    Wr.follows_ite, Wr.follows_pure]
  refine ⟨fun _ => hok _ _ ⟨h, hl, rfl, rfl⟩, fun _ => ?_⟩
  cases s.active with
  | none => exact hQ _ _ _ fun _ => h
  | some p =>
    dsimp only
    cases worstSpan s.env with
    | none => exact maintained_failFault hQ _
    | some span =>
      simp only [Wr.follows_ite, Wr.follows_pure]
      refine ⟨fun _ => maintained_failFault hQ _, fun _ => ⟨fun _ => ?_, fun _ => ?_⟩⟩
      · exact maintained_rotateInternal hI hQ h hl _ hok
      · exact hok _ _ ⟨h, hl, rfl, rfl⟩

theorem maintained_emitBuilder (hQ : AcceptsErrors I Q) (h : I s φ) (hl : s.faulted = false)
    (hok : ∀ t φ', I t φ' → t.faulted = false → t.env = s.env → t.builder = [] → Q (.ok ()) t φ') :
    Wr.Follows L Q emitBuilder s φ := by
  simp only [emitBuilder, Wr.follows_bind, Wr.follows_get, Wr.after_ok, Wr.follows_ite,
    Wr.follows_pure]
  refine ⟨fun hb => hok _ _ h hl rfl hb, fun hb => ?_⟩
  cases hp : s.active with
  | none => exact maintained_failFault hQ _
  | some p =>
    dsimp only
    cases hpack : packBuilder s.env p.header.options s.builder with
    | error st => exact maintained_failFault hQ _
    | ok stored =>
      dsimp only
      cases alignUp (blockHeaderEncodedSize + stored.payload.length) s.env.quantum with
      | none => exact maintained_failFault hQ _
      | some span =>
        simp only [Wr.follows_ite]
        refine ⟨fun _ => maintained_failFault hQ _, fun _ => ⟨fun _ => maintained_failFault hQ _,
          fun _ => ?_⟩⟩
        obtain ⟨φ', hw, hdone⟩ := hI.emit s φ p stored span h hb hp hpack
        simp only [Wr.follows_bind]
        refine maintained_writeItem (hQ.after _) hw ?_
        simp only [Wr.after_ok, Wr.follows_modify]
        exact hok _ _ hdone hl rfl rfl

omit hI in
theorem maintained_guardWritable (herr : ∀ st, Q (.error st) s φ)
    (hok : s.faulted = false → Q (.ok ()) s φ) : Wr.Follows L Q guardWritable s φ := by
  simp only [guardWritable, Wr.follows_bind, Wr.follows_get, Wr.after_ok, Wr.follows_ite,
    Wr.follows_fail, Wr.follows_pure]
  refine ⟨fun _ => herr _, fun _ => ⟨fun _ => herr _, fun _ => ⟨fun _ => herr _, fun hf => hok ?_⟩⟩⟩
  simpa using hf

/-- The builder is emitted first if the record does not fit behind it. -/
theorem maintained_makeRoom (hQ : AcceptsErrors I Q) (h : I s φ) (hl : s.faulted = false)
    {record : Bytes} (hrec : record.length ≤ s.env.maxBlockPayload) {f : Unit → Writer Unit}
    (hf : ∀ t φ', I t φ' → t.faulted = false →
      t.builder.length + record.length ≤ t.env.maxBlockPayload → Wr.Follows L Q (f ()) t φ') :
    Wr.Follows L Q (Wr.when (record.length > s.env.maxBlockPayload - s.builder.length) emitBuilder >>= f)
      s φ := by
  rw [Wr.follows_bind, Wr.follows_when]
  have hfits := hI.fits s φ h
  refine ⟨fun _ => ?_, fun hroom => hf s φ h hl (by omega)⟩
  refine maintained_emitBuilder hI (hQ.after _) h hl fun t φ' ht htl he hb => hf t φ' ht htl ?_
  rw [hb, he, List.length_nil, Nat.zero_add]
  exact hrec

theorem maintained_appendImpl (hQ : AcceptsErrors I Q) (h : s.faulted = false → I s φ)
    (record : Bytes) (time : Int64) (flags : UInt32) (expected : Option AppendContract)
    (hok : ∀ t φ', I t (note φ' ⟨record, time, flags, expected⟩) → Q (.ok ()) t φ') :
    Wr.Follows L Q (appendImpl record time flags expected) s φ := by
  rw [appendImpl, Wr.follows_bind]
  refine maintained_guardWritable (fun st => hQ _ _ _ h) fun hl => ?_
  simp only [Wr.after_ok]
  rw [Wr.follows_bind, Wr.follows_get, Wr.after_ok]
  simp only [Wr.follows_ite, Wr.follows_fail]
  refine ⟨fun _ => hQ _ _ _ h, fun hne => ⟨fun _ => hQ _ _ _ h, fun hrec => ?_⟩⟩
  refine maintained_makeRoom hI hQ (h hl) hl (Nat.not_lt.mp hrec) fun t φ₁ ht htl hroom => ?_
  simp only [Wr.follows_bind]
  refine maintained_ensureEmptyBuilderCapacity hI (hQ.after _) ht htl fun u φ₂ hu => ?_
  simp only [Wr.after_ok, Wr.follows_bind, Wr.follows_get]
  cases hp : u.active with
  | none => exact hQ _ _ _ fun _ => hu.holds
  | some p =>
    simp only [Wr.follows_ite, Wr.follows_fail, Wr.follows_set]
    refine ⟨fun _ => hQ _ _ _ fun _ => hu.holds, fun _ => hok _ _ ?_⟩
    refine hI.accept u φ₂ p ⟨record, time, flags, expected⟩ hu.holds hp hne ?_
    rw [hu.builder, hu.env]
    exact hroom

/-- The flush behind an emitted builder. -/
theorem maintained_flushDirty (hQ : AcceptsErrors I Q) (h : I s φ)
    (hok : ∀ t φ', I t φ' → Q (.ok ()) t φ') :
    Wr.Follows L Q (Wr.when s.dirty (syncMedia true)) s φ := by
  simp only [Wr.follows_when]
  refine ⟨fun _ => ?_, fun _ => hok _ _ h⟩
  obtain ⟨φ', hf, hdone⟩ := hI.sync s φ h
  exact maintained_syncMedia hQ hf (hok _ _ hdone)

end

/-- What the observer makes of a result. -/
def noteResult {Φ : Type} (note : Φ → AcceptedRecord → Φ) (φ : Φ) (op : Op) : Except Status Unit → Φ
  | .ok () => op.submits.elim φ (note φ)
  | .error _ => φ

/-- **Every call keeps the invariant**, whatever the storage answers. -/
theorem maintained_program {Φ : Type} {L : Lts Item Φ} {note : Φ → AcceptedRecord → Φ}
    {I : Store → Φ → Prop} (hI : Maintained L note I) {s : Store} {φ : Φ}
    (h : s.faulted = false → I s φ) (op : Op) :
    Wr.Follows L (fun r t φ' => t.faulted = false → I t (noteResult note φ' op r)) op.program s φ := by
  have hQ : AcceptsErrors I fun r t φ' => t.faulted = false → I t (noteResult note φ' op r) :=
    fun _ _ _ ht => ht
  have hsame (t : Store) (φ' : Φ) (hop : op.submits = none) (ht : I t φ') :
      I t (noteResult note φ' op (.ok ())) := by
    simp only [noteResult, hop]
    exact ht
  cases op with
  | append record time flags =>
    exact maintained_appendImpl hI hQ h record time flags none fun t φ' ht _ => ht
  | appendChecked record time expected flags =>
    simp only [Op.program, appendChecked, Wr.follows_ite, Wr.follows_fail]
    exact ⟨fun _ => h, fun _ =>
      maintained_appendImpl hI hQ h record time flags (some expected) fun t φ' ht _ => ht⟩
  | publish =>
    simp only [Op.program, publish, Wr.follows_bind]
    refine maintained_guardWritable (fun _ => h) fun hl => ?_
    exact maintained_emitBuilder hI hQ (h hl) hl fun t φ' ht _ _ _ _ => hsame t φ' rfl ht
  | checkpoint =>
    simp only [Op.program, checkpoint, Wr.follows_bind]
    refine maintained_guardWritable (fun _ => h) fun hl => ?_
    simp only [Wr.after_ok, Wr.follows_bind]
    refine maintained_emitBuilder hI (hQ.after _) (h hl) hl fun t φ' ht _ _ _ => ?_
    exact maintained_flushDirty hI hQ ht fun u φ₂ hu _ => hsame u φ₂ rfl hu
  | close =>
    have hclosed (t : Store) (φ' : Φ) (ht : t.faulted = false → I t φ') :
        t.faulted = false → I { t with closed := true } (noteResult note φ' .close (.ok ())) :=
      fun hf => hsame _ _ rfl (hI.closed t φ' (ht hf))
    simp only [Op.program, close, Wr.follows_bind, Wr.follows_get, Wr.after_ok, Wr.follows_ite,
      Wr.follows_pure, Wr.follows_modify, Wr.follows_fail]
    refine ⟨fun _ hf => hsame _ _ rfl (h hf), fun _ => ⟨fun _ => hclosed s φ h, fun _ =>
      ⟨fun _ => h, fun hf => ?_⟩⟩⟩
    have hl : s.faulted = false := by simpa using hf
    refine maintained_emitBuilder hI (hQ.after _) (h hl) hl fun t φ' ht _ _ _ => ?_
    simp only [Wr.after_ok, Wr.follows_bind, Wr.follows_get]
    exact maintained_flushDirty hI (hQ.after _) ht fun u φ₂ hu => hclosed u φ₂ fun _ => hu
  | rotate next =>
    simp only [Op.program, rotate, Wr.follows_bind]
    refine maintained_guardWritable (fun _ => h) fun hl => ?_
    simp only [Wr.after_ok, Wr.follows_bind, Wr.follows_get]
    cases s.env.validatePartitionOptions next with
    | error st => exact h
    | ok u =>
      simp only [Wr.follows_bind]
      refine maintained_emitBuilder hI (hQ.after _) (h hl) hl fun t φ' ht htl _ _ => ?_
      simp only [Wr.after_ok, Wr.follows_bind, Wr.follows_modify]
      refine maintained_rotateInternal (s := { t with nextOptions := next }) hI hQ
        (hI.next t φ' next ht) htl next fun u φ₂ hu _ => hsame u φ₂ rfl hu.holds
  | setNext options =>
    simp only [Op.program, setNextPartitionOptions, Wr.follows_bind]
    refine maintained_guardWritable (fun _ => h) fun hl => ?_
    simp only [Wr.after_ok, Wr.follows_bind, Wr.follows_get]
    cases s.env.validatePartitionOptions options with
    | error st => exact h
    | ok u => exact fun _ => hsame { s with nextOptions := options } φ rfl (hI.next s φ options (h hl))

end TFDB
