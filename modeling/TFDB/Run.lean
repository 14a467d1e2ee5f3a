import TFDB.Catalog

/-!
# Runs as runs of the protocol

`PSys` is a run seen from the medium: the disk, the writer IDs and the phase of the write
protocol.  `PStep` is one step of it.

* `openPhase` — the phase a writable open starts in, a function of the image it finds;
* `startWriter_follows` — the writing part of `open` follows the protocol from there;
* `reach_simulated` — every reachable state of the system is a state of such a run, and what its
  process still has to do follows the protocol.

The invariants of the medium are proved over `PReach`.
-/

set_option autoImplicit false

namespace TFDB

open ByteLib Writer

/-! ## The phase an open starts in -/

/-- The catalog of a store opened on an image. -/
def openedCat (env : Env) (m : Image) (id : UInt64 × UInt64) : Cat :=
  (openedStore env m {} id).cat

/-- What a writable open does next on an image: refuse, create a partition, or go on with the
newest one. -/
def openPhase (env : Env) (m : Image) (id : UInt64 × UInt64) : Phase :=
  if (slotList env).filter (slotDamaged env m) ≠ [] then .halted
  else
    match (catalogOf env m).getLast? with
    | none => .rotating (openedCat env m id) 0 1
    | some p =>
      if p.isSealed then
        if p.header.generation = 0xffffffffffffffff then .halted
        else .rotating (openedCat env m id) ((p.header.slot + 1) % env.volume.partitionCount)
          (p.header.generation + 1)
      else .ready (openedCat env m id)

@[simp] theorem openedStore_cat (env : Env) (m : Image) (o : OpenOptions) (id : UInt64 × UInt64) :
    (openedStore env m o id).cat = openedCat env m id := rfl

/-- The newest partition of a recovered catalog is the active one. -/
theorem openedCat_active {env : Env} {m : Image} (id : UInt64 × UInt64)
    (hgen : GenerationsOk (slotStates env m)) {p : PartitionState}
    (hp : (catalogOf env m).getLast? = some p) : (openedCat env m id).active = some p := by
  have hc : (openedCat env m id).generation = p.header.generation ∧
      (openedCat env m id).slot = p.header.slot := by
    have hp' : (keepLastIndex (sortPartitions (slotStates env m))).getLast? = some p := hp
    simp only [openedCat, openedStore, recoveredStore, Store.cat, hp']
    exact ⟨trivial, trivial⟩
  refine find?_of_unique (List.mem_of_getLast? hp) ?_ fun q hq hqc => ?_
  · simp only [PartitionState.is, hc.1, hc.2, beq_self_eq_true, Bool.and_self]
  · simp only [PartitionState.is, hc.1, hc.2, Bool.and_eq_true, beq_iff_eq] at hqc
    have hq : q ∈ catalogOf env m := hq
    rcases catalogOf_cases env m with ⟨-, h⟩ | ⟨older, newest, h, hs, -, -⟩
    · rw [h] at hq
      cases hq
    · rw [h, List.getLast?_append] at hp
      have hpn : newest = p := by simpa using hp
      subst hpn
      rw [h] at hq
      rcases List.mem_append.mp hq with hq | hq
      · -- an older partition has another generation
        exfalso
        obtain ⟨r, hr, rfl⟩ := List.mem_map.mp hq
        have hperm : (older ++ [newest]).Perm (slotStates env m) := by
          rw [← hs]
          exact List.mergeSort_perm _ _
        have hnd := (hperm.map fun p => p.header.generation).nodup_iff.mpr hgen.2
        rw [List.map_append, List.nodup_append] at hnd
        exact hnd.2.2 _ (List.mem_map_of_mem hr) _ (List.mem_singleton_self _) (by simpa using hqc.1)
      · exact List.mem_singleton.mp hq

/-- What holds of a store that has just been opened. -/
theorem openedStore_ok {env : Env} {m : Image} {o : OpenOptions} {id : UInt64 × UInt64}
    (hid : id ≠ (0, 0)) (ho : env.validatePartitionOptions o.nextPartition = .ok ())
    (ha : ∃ p, (openedStore env m o id).active = some p ∧ p.isSealed = false) :
    StoreOk env (openedStore env m o id) where
  env_eq := rfl
  next := ho
  builder_le := Nat.zero_le _
  records_le := Nat.le_refl _
  records_pos := fun h => absurd rfl h
  times := fun h => absurd rfl h
  writer := hid
  active := ha

/-- The writing part of `open` follows the protocol to a store in order. -/
theorem startWriter_follows_ready {env : Env} {m : Image} {o : OpenOptions} {id : UInt64 × UInt64}
    (hid : id ≠ (0, 0)) (ho : env.validatePartitionOptions o.nextPartition = .ok ())
    (hgen : GenerationsOk (slotStates env m)) :
    Wr.Follows (protocol env) (fun r t φ => r = .ok () → StoreOk env t ∧ φ = .ready t.cat)
      startWriter (openedStore env m o id) (openPhase env m id) := by
  have hcreate (slot : UInt32) (generation : UInt64) (h0 : generation ≠ 0) :
      Wr.Follows (protocol env) (fun r t φ => r = .ok () → StoreOk env t ∧ φ = .ready t.cat)
        (createPartition slot generation o.nextPartition) (openedStore env m o id)
        (.rotating (openedCat env m id) slot generation) := by
    refine follows_createPartition (s := openedStore env m o id) ?_ rfl h0 ho fun changed _ => ?_
    · intro st s' φ' _ _ hr
      cases hr
    have hact := Cat.active_install (openedStore env m o id).cat
      (newHeader env slot generation o.nextPartition)
    refine ⟨?_, rfl⟩
    exact ⟨rfl, ho, Nat.zero_le _, Nat.le_refl _, fun h => absurd rfl h, fun h => absurd rfl h, hid,
      _, hact, rfl⟩
  simp only [startWriter, Wr.follows_bind, Wr.follows_get, Wr.after_ok, Wr.follows_ite, Wr.follows_fail]
  refine ⟨fun _ hr => (by cases hr), fun hcor => ?_⟩
  have hcor' : ¬ ((slotList env).filter (slotDamaged env m) ≠ []) := hcor
  rw [openPhase, if_neg hcor', openedStore_partitions]
  cases hlast : (catalogOf env m).getLast? with
  | none => exact hcreate 0 1 (by decide)
  | some p =>
    simp only [Wr.follows_ite, Wr.follows_fail, Wr.follows_pure]
    refine ⟨fun hs => ⟨fun hmax hr => (by cases hr), fun hmax => ?_⟩, fun hs _ => ?_⟩
    · rw [if_pos hs, if_neg hmax]
      refine hcreate _ _ fun h0 => hmax ?_
      have : p.header.generation = p.header.generation + 1 - 1 := by simp
      rw [this, h0]
      rfl
    · rw [if_neg hs]
      exact ⟨openedStore_ok hid ho ⟨p, openedCat_active id hgen hlast, by simpa using hs⟩, rfl⟩

/-- **The writing part of `open` follows the protocol.** -/
theorem startWriter_follows {env : Env} {m : Image} {o : OpenOptions} {id : UInt64 × UInt64}
    (hid : id ≠ (0, 0)) (ho : env.validatePartitionOptions o.nextPartition = .ok ())
    (hgen : GenerationsOk (slotStates env m)) :
    Wr.Follows (protocol env) (fun r t φ => r = .ok () → Matches env t φ) startWriter
      (openedStore env m o id) (openPhase env m id) :=
  (startWriter_follows_ready hid ho hgen).mono fun _ _ _ h hr => Or.inr (h hr)

/-! ## Steps -/

/-- A run seen from the medium. -/
structure PSys where
  disk : Disk Item
  writers : List (UInt64 × UInt64) := []
  phase : Phase

/-- What the machine sees. -/
def PSys.seen (env : Env) (x : PSys) : Image := x.disk.volatile (Item.bytes env)

section
variable (env : Env) (cut : Disk Item → Image → Prop) (assumed : Disk Item → Prop)

inductive PStep : PSys → PSys → Prop
  /-- `format` writes a copy of the volume header. -/
  | format (x : PSys) (hφ : x.phase = .halted) (off n : Nat) (hoff : off = 0 ∨ off = volumeHeaderCopySize) :
      PStep x { x with disk := x.disk.issue off (.volume env.volume) n }
  | formatFlush (x : PSys) (hφ : x.phase = .halted)
      (hvol : ∀ w ∈ x.disk.issued, ∃ v, w.2 = .volume v) :
      PStep x { x with disk := x.disk.flush (Item.bytes env) }
  | write (x : PSys) {off : Nat} {i : Item} {φ : Phase} (h : Phase.Write env x.phase off i φ) :
      PStep x { x with disk := x.disk.issue off i (i.bytes env).length, phase := φ }
  | writeFails (x : PSys) {off : Nat} {i : Item} {φ : Phase} (n : Nat)
      (h : Phase.Write env x.phase off i φ) :
      PStep x { x with disk := x.disk.issue off i n, phase := .halted }
  | flush (x : PSys) {φ : Phase} (h : Phase.Flush env x.phase φ) :
      PStep x { x with disk := x.disk.flush (Item.bytes env), phase := φ }
  /-- The process ends, or a failed operation stops it. -/
  | halt (x : PSys) : PStep x { x with phase := .halted }
  | powerCut (x : PSys) (m : Image) (h : cut x.disk m) :
      PStep x { x with disk := x.disk.restart m, phase := .halted }
  | startOpen (x : PSys) (id : UInt64 × UInt64) (hφ : x.phase = .halted) (hassumed : assumed x.disk)
      (hfresh : id ∉ x.writers) (hid : id ≠ (0, 0))
      (hnf : ∀ slot < env.volume.partitionCount, ¬ SlotFails env (x.seen env) slot)
      (hgen : GenerationsOk (slotStates env (x.seen env))) :
      PStep x { x with
        writers := x.writers ++ [id]
        phase := openPhase env (x.seen env) id }

inductive PReach : PSys → Prop
  | init {x : Sys} (h : Initial env x) : PReach ⟨x.disk, [], .halted⟩
  | step {x y : PSys} (hx : PReach x) (h : PStep env cut assumed x y) : PReach y

end

/-! ## Simulation -/

section
variable {env : Env} {cut : Disk Item → Image → Prop} {assumed : Disk Item → Prop}

/-- The program only writes copies of the volume header. -/
def OnlyVolume (env : Env) {α : Type} : WriteProg Status Item α → Prop
  | .done _ => True
  | .write off i k => (off = 0 ∨ off = volumeHeaderCopySize) ∧ i = .volume env.volume ∧
      ∀ r, OnlyVolume env (k r)
  | .flush k => ∀ r, OnlyVolume env (k r)

theorem formatProgram_onlyVolume (env : Env) : OnlyVolume env (formatProgram env.volume) := by
  refine ⟨Or.inl rfl, rfl, fun r => ?_⟩
  cases r with
  | error e => trivial
  | ok u =>
    refine ⟨Or.inr rfl, rfl, fun r => ?_⟩
    cases r with
    | error e => trivial
    | ok u => exact fun r => trivial

/-- What the process still has to do follows the protocol. -/
def Conforms (env : Env) (d : Disk Item) (φ : Phase) : Proc → Prop
  | .formatting k => φ = .halted ∧ OnlyVolume env k ∧ ∀ w ∈ d.issued, ∃ v, w.2 = Item.volume v
  | .down => φ = .halted
  | .opening k => k.Follows (protocol env) (fun r φ' => r.1 = .ok () → Matches env r.2 φ') φ
  | .busy _ k => k.Follows (protocol env) (fun r φ' => Matches env r.2 φ') φ
  | .idle s _ => Matches env s φ

theorem PReach.geometry {x : PSys} (h : PReach env cut assumed x) : Geometry env := by
  induction h with
  | init h =>
    obtain ⟨o, random, ho⟩ := h.size
    exact (formatHeader_geometry h.small h.nonzero ho).1
  | step _ _ ih => exact ih

theorem PReach.size {x : PSys} (hcut : ∀ d m, cut d m → d.MixCut (Item.bytes env) m)
    (h : PReach env cut assumed x) : env.volume.volumeSize.toNat = x.disk.durable.size := by
  induction h with
  | init h =>
    obtain ⟨o, random, ho⟩ := h.size
    exact (formatHeader_geometry h.small h.nonzero ho).2
  | step _ hstep ih =>
    cases hstep with
    | formatFlush hφ hvol => rw [ih]; exact (Disk.volatile_size _ _).symm
    | flush h => rw [ih]; exact (Disk.volatile_size _ _).symm
    | powerCut m h => rw [ih]; exact (hcut _ _ h).1.symm
    | _ => exact ih

theorem PReach.seen_size {x : PSys} (hcut : ∀ d m, cut d m → d.MixCut (Item.bytes env) m)
    (h : PReach env cut assumed x) : env.volume.volumeSize.toNat ≤ (x.seen env).size := by
  rw [h.size hcut]
  exact Nat.le_of_eq (Disk.volatile_size _ _).symm

/-- No phase writes a volume header. -/
theorem Phase.Write.not_volume {φ φ' : Phase} {off : Nat} {i : Item} (h : Phase.Write env φ off i φ')
    (v : VolumeHeader) : i ≠ .volume v := by
  cases h <;> exact fun hi => by cases hi

theorem PReach.volumes {x : PSys} (h : PReach env cut assumed x) :
    ∀ off v, (off, Item.volume v) ∈ x.disk.issued → v = env.volume := by
  induction h with
  | init h =>
    intro off v hv
    rw [h.issued] at hv
    cases hv
  | step _ hstep ih =>
    cases hstep with
    | format hφ off n hoff =>
      intro o v hv
      rcases List.mem_append.mp hv with hv | hv
      · exact ih o v hv
      · cases List.mem_singleton.mp hv
        rfl
    | write h =>
      intro o v hv
      rcases List.mem_append.mp hv with hv | hv
      · exact ih o v hv
      · exact absurd (Prod.mk.inj (List.mem_singleton.mp hv)).2.symm (h.not_volume v)
    | writeFails n h =>
      intro o v hv
      rcases List.mem_append.mp hv with hv | hv
      · exact ih o v hv
      · exact absurd (Prod.mk.inj (List.mem_singleton.mp hv)).2.symm (h.not_volume v)
    | _ => exact ih

/-- The volume header a reader finds, where no copy collides. -/
theorem readVolumeHeader_eq {env : Env} {m : Image} {issued : List (Nat × Item)}
    (hv : ∀ off v, (off, Item.volume v) ∈ issued → v = env.volume) (hc : CollisionFree env issued m)
    {v : VolumeHeader} (h : Rd.run (imageSource m) readVolumeHeader = .ok v) : v = env.volume := by
  have hcopy {off : Nat} (hoff : off = 0 ∨ off = volumeHeaderCopySize) {v : VolumeHeader}
      (hd : (imageSource m off volumeHeaderEncodedSize).bind decodeVolumeHeader = .ok v) :
      v = env.volume := by
    obtain ⟨bs, hbs, hd⟩ := bind_ok_inv hd
    have hw : bs = m.window off volumeHeaderEncodedSize := by
      unfold imageSource at hbs
      split at hbs
      · simp at hbs
      · exact (Except.ok.inj hbs).symm
    rw [hw] at hd
    exact hv off v (hc.volume off hoff v hd)
  simp only [readVolumeHeader, Rd.run_bind, Rd.run_attempt, Rd.run_readExact, Rd.bind_ok] at h
  have hsel : selectVolumeHeader
      ((imageSource m 0 volumeHeaderEncodedSize).bind decodeVolumeHeader)
      ((imageSource m volumeHeaderCopySize volumeHeaderEncodedSize).bind decodeVolumeHeader) = .ok v := by
    split at h
    · cases h
    · exact h
  unfold selectVolumeHeader at hsel
  split at hsel
  · rename_i a b ha hb
    split at hsel
    · cases hsel
      exact hcopy (Or.inl rfl) ha
    · simp at hsel
  · rename_i a e ha hb
    cases hsel
    exact hcopy (Or.inl rfl) ha
  · rename_i e b ha hb
    cases hsel
    exact hcopy (Or.inr rfl) hb
  · rename_i a b ha hb
    split at hsel
    · cases hsel
    split at hsel
    · cases hsel
    split at hsel
    · cases hsel
    split at hsel
    · cases hsel
    · simp at hsel

theorem prepareWriter_ok {o : OpenOptions} (hw : o.writable = true)
    {random : Except Status (UInt64 × UInt64)} {id : UInt64 × UInt64}
    (h : prepareWriter env o random = .ok id) :
    env.validatePartitionOptions o.nextPartition = .ok () := by
  rw [prepareWriter, if_pos hw] at h
  obtain ⟨chosen, _, h⟩ := bind_ok_inv h
  obtain ⟨u, hu, _⟩ := bind_ok_inv h
  cases u
  exact hu

theorem prepareWriter_nonzero {o : OpenOptions} (hw : o.writable = true)
    {random : Except Status (UInt64 × UInt64)} (hr : random ≠ .ok (0, 0)) {id : UInt64 × UInt64}
    (h : prepareWriter env o random = .ok id) : id ≠ (0, 0) := by
  rw [prepareWriter, if_pos hw] at h
  obtain ⟨chosen, hc, h⟩ := bind_ok_inv h
  obtain ⟨u, -, h⟩ := bind_ok_inv h
  cases h
  unfold chooseId at hc
  split at hc
  · rename_i hne
    split at hc
    · simp at hc
    · cases hc
      rintro he
      obtain ⟨h1, h2⟩ := Prod.mk.inj he
      rcases hne with hne | hne
      · exact hne h1
      · exact hne h2
  · intro he
    rw [he] at hc
    exact hr hc

/-- A successful effect is a step of the protocol, a failed one halts it. -/
theorem Effect.follows {α : Type} {Q : α → Phase → Prop} {x : PSys} {k k' : WriteProg Status Item α}
    {d' : Disk Item} (he : Effect env x.disk k d' k') (hf : k.Follows (protocol env) Q x.phase) :
    ∃ φ, PStep env cut assumed x { x with disk := d', phase := φ } ∧ k'.Follows (protocol env) Q φ := by
  cases he with
  | write off i k =>
    obtain ⟨⟨φ, hw, hk⟩, -⟩ := hf
    exact ⟨φ, .write x hw, hk⟩
  | writeFails off i k n st =>
    obtain ⟨⟨φ, hw, -⟩, hk⟩ := hf
    exact ⟨.halted, .writeFails x n hw, hk st⟩
  | flush k =>
    obtain ⟨⟨φ, hw, hk⟩, -⟩ := hf
    exact ⟨φ, .flush x hw, hk⟩
  | flushFails k st => exact ⟨.halted, .halt x, hf.2 st⟩

/-- **Every reachable state is a state of a protocol run**, and its process conforms to the
phase. -/
theorem reach_simulated (hcut : ∀ d m, cut d m → d.MixCut (Item.bytes env) m)
    (hassumed : ∀ d, assumed d → CollisionFreeNow env d) {x : Sys} (h : Reach env cut assumed x) :
    ∃ φ, PReach env cut assumed ⟨x.disk, x.writers, φ⟩ ∧ Conforms env x.disk φ x.proc := by
  induction h with
  | @init x h =>
    refine ⟨.halted, ?_, ?_⟩
    · rw [h.writers]
      exact .init h
    · rw [h.proc]
      refine ⟨rfl, formatProgram_onlyVolume env, fun w hw => ?_⟩
      rw [h.issued] at hw
      cases hw
  | @step x y hx hstep ih =>
    obtain ⟨φ, hp, hc⟩ := ih
    cases hstep with
    | @formatEffect k k' d' hproc he =>
      rw [hproc] at hc
      obtain ⟨rfl, hk, hvol⟩ := hc
      cases he with
      | write off i k =>
        obtain ⟨hoff, rfl, hk⟩ := hk
        refine ⟨.halted, .step hp (.format _ rfl off _ hoff), rfl, hk _, fun w hw => ?_⟩
        rcases List.mem_append.mp hw with hw | hw
        · exact hvol w hw
        · rw [List.mem_singleton.mp hw]
          exact ⟨_, rfl⟩
      | writeFails off i k n st =>
        obtain ⟨hoff, rfl, hk⟩ := hk
        refine ⟨.halted, .step hp (.format _ rfl off n hoff), rfl, hk _, fun w hw => ?_⟩
        rcases List.mem_append.mp hw with hw | hw
        · exact hvol w hw
        · rw [List.mem_singleton.mp hw]
          exact ⟨_, rfl⟩
      | flush k => exact ⟨.halted, .step hp (.formatFlush _ rfl hvol), rfl, hk _, hvol⟩
      | flushFails k st => exact ⟨.halted, hp, rfl, hk _, hvol⟩
    | formatted r hproc =>
      rw [hproc] at hc
      exact ⟨.halted, .step hp (.halt _), rfl⟩
    | @startOpen s o id hproc had hw hfresh hid hrec hwid =>
      rw [hproc] at hc
      obtain rfl : φ = .halted := hc
      have g := hp.geometry
      have hsz := hp.seen_size hcut
      obtain ⟨⟨wid, hprep, hs⟩, hnf, hgen⟩ := recover_ok (o := { o with codecs := env.codecs }) g hsz
        (fun v hv => readVolumeHeader_eq hp.volumes (hassumed _ had) hv) rfl hrec
      have hwid' : wid = id := by
        rw [hs] at hwid
        exact hwid
      subst hwid'
      have ho := prepareWriter_ok (o := { o with codecs := env.codecs }) hw hprep
      refine ⟨openPhase env (PSys.seen env ⟨x.disk, x.writers, .halted⟩) wid, ?_, ?_⟩
      · have : PStep env cut assumed ⟨x.disk, x.writers, .halted⟩ _ :=
          .startOpen ⟨x.disk, x.writers, .halted⟩ wid rfl had hfresh
          hid hnf hgen
        rw [hs]
        exact .step hp this
      · rw [hs]
        exact startWriter_follows (o := { o with codecs := env.codecs }) hid ho hgen
    | openEffect hproc he =>
      rw [hproc] at hc
      obtain ⟨φ', hs, hk⟩ := he.follows (x := ⟨x.disk, x.writers, φ⟩) hc
      exact ⟨φ', .step hp hs, hk⟩
    | opened s hproc =>
      rw [hproc] at hc
      exact ⟨φ, hp, hc rfl⟩
    | openFailed st s hproc => exact ⟨.halted, .step hp (.halt _), rfl⟩
    | call op hproc =>
      rw [hproc] at hc
      exact ⟨φ, hp, program_follows op hc⟩
    | effect hproc he =>
      rw [hproc] at hc
      obtain ⟨φ', hs, hk⟩ := he.follows (x := ⟨x.disk, x.writers, φ⟩) hc
      exact ⟨φ', .step hp hs, hk⟩
    | returned hproc =>
      rw [hproc] at hc
      exact ⟨φ, hp, hc⟩
    | restart => exact ⟨.halted, .step hp (.halt _), rfl⟩
    | powerCut m h => exact ⟨.halted, .step hp (.powerCut _ m h), rfl⟩

end

end TFDB
