import TFDB.Latch

/-!
# Rejected appends

An append that is refused may have moved a whole block to the medium and changed partitions first,
since the contract of the active partition is checked last.  It loses and adds no record.

* `Runs` — a call from its start to its end, with the storage operations it attempts;
* `Spends` — a program that accepts nothing, with a bound on the frames and headers it writes;
* `spends_emitBuilder`, `spends_ensureEmptyBuilderCapacity` — the steps in front of the last check;
* `rejected_append` — what a refused append leaves.
-/

set_option autoImplicit false

namespace TFDB

open ByteLib Writer

/-! ## Calls -/

/-- A storage operation that a call attempts. -/
inductive StorageOp
  | write (off : Nat) (i : Item)
  | flush
  | failed

namespace StorageOp

def isFrame : StorageOp → Bool
  | write _ (.frame ..) => true
  | _ => false

def isHeader : StorageOp → Bool
  | write _ (.header _) => true
  | _ => false

end StorageOp

/-- What the storage is asked to do. -/
def tracing : Lts Item (List StorageOp) where
  write es off i es' := es' = es ++ [.write off i]
  flush es es' := es' = es ++ [.flush]
  fail es := es ++ [.failed]

/-- The rest of a program run to its end. -/
inductive Runs (env : Env) {α : Type} : Disk Item → Session → WriteProg Status Item α →
    List StorageOp → Disk Item → Session → α → Prop
  | done (d : Disk Item) (S : Session) (a : α) : Runs env d S (.done a) [] d S a
  | write {d d' : Disk Item} {S S' : Session} {off : Nat} {i : Item}
      {k : Except Status Unit → WriteProg Status Item α} {es : List StorageOp} {a : α}
      (h : Runs env (d.issue off i (i.bytes env).length) (S.wrote off i) (k (.ok ())) es d' S' a) :
      Runs env d S (.write off i k) (.write off i :: es) d' S' a
  | writeFails {d d' : Disk Item} {S S' : Session} {off : Nat} {i : Item}
      {k : Except Status Unit → WriteProg Status Item α} {es : List StorageOp} {a : α} (n : Nat)
      (st : Status) (h : Runs env (d.issue off i n) S (k (.error st)) es d' S' a) :
      Runs env d S (.write off i k) (.failed :: es) d' S' a
  | flush {d d' : Disk Item} {S S' : Session} {k : Except Status Unit → WriteProg Status Item α}
      {es : List StorageOp} {a : α}
      (h : Runs env (d.flush (Item.bytes env)) S.flushed (k (.ok ())) es d' S' a) :
      Runs env d S (.flush k) (.flush :: es) d' S' a
  | flushFails {d d' : Disk Item} {S S' : Session} {k : Except Status Unit → WriteProg Status Item α}
      {es : List StorageOp} {a : α} (st : Status) (h : Runs env d S (k (.error st)) es d' S' a) :
      Runs env d S (.flush k) (.failed :: es) d' S' a

section
variable {env : Env} {α : Type} {d d' : Disk Item} {S S' : Session} {k : WriteProg Status Item α}
  {es : List StorageOp} {a : α}

/-- A run attempts what its program asks for. -/
theorem Runs.traced (h : Runs env d S k es d' S' a) {Q : α → List StorageOp → Prop}
    {tr : List StorageOp} (hk : k.Follows tracing Q tr) : Q a (tr ++ es) := by
  induction h generalizing tr with
  | done d S a =>
    rw [List.append_nil]
    exact hk
  | write _ ih =>
    obtain ⟨⟨tr', rfl, hk⟩, -⟩ := hk
    simpa using ih hk
  | writeFails n st _ ih => simpa [tracing] using ih (hk.2 st)
  | flush _ ih =>
    obtain ⟨⟨tr', rfl, hk⟩, -⟩ := hk
    simpa using ih hk
  | flushFails st _ ih => simpa [tracing] using ih (hk.2 st)

theorem Session.wrote_accepted (S : Session) (off : Nat) (i : Item) :
    (S.wrote off i).accepted = S.accepted := by
  cases i with
  | frame b payload raw => simp [Session.accepted, Session.wrote]
  | header h => rfl
  | volume v => rfl
  | index es => rfl
  | footer f es => rfl

/-- The blocks after a run: one more for each frame. -/
theorem Runs.session (h : Runs env d S k es d' S' a) : S'.accepted = S.accepted ∧
    S.blocks <+: S'.blocks ∧ S'.blocks.length = S.blocks.length + es.countP StorageOp.isFrame := by
  induction h with
  | done d S a => exact ⟨rfl, List.prefix_rfl, rfl⟩
  | @write _ _ S S' off i _ es _ _ ih =>
    obtain ⟨h1, h2, h3⟩ := ih
    refine ⟨h1.trans (S.wrote_accepted off i), (S.extends_wrote off i).blocks.trans h2, ?_⟩
    rw [h3]
    cases i with
    | frame b payload raw =>
      simp only [Session.wrote, List.length_append, List.length_singleton]
      rw [List.countP_cons_of_pos rfl]
      omega
    | header hd => rfl
    | volume v => rfl
    | index es => rfl
    | footer f es => rfl
  | writeFails n st _ ih => exact ih
  | flush _ ih => exact ih
  | flushFails st _ ih => exact ih

end

/-- What is left of a call is a part of the run of its store. -/
theorem Runs.finish {env : Env} {d d' : Disk Item} {S S' : Session}
    {k : WriteProg Status Item (Except Status Unit × Store)} {es : List StorageOp}
    {a : Except Status Unit × Store} (h : Runs env d S k es d' S' a) {x : Sys} {op : Op}
    (hx : Tracked env { x with disk := d, proc := .busy op k } S) :
    Tracked env { x with disk := d', proc := .idle a.2 (some (op, a.1)) } (S'.returned op a.1) := by
  induction h with
  | done d S a => exact .step hx (.returned _ _ rfl)
  | write _ ih => exact ih (.step hx (.effect _ _ rfl (.write ..)))
  | writeFails n st _ ih => exact ih (.step hx (.effect _ _ rfl (.writeFails _ _ _ n st)))
  | flush _ ih => exact ih (.step hx (.effect _ _ rfl (.flush _)))
  | flushFails st _ ih => exact ih (.step hx (.effect _ _ rfl (.flushFails _ st)))

/-- A call of a store that waits for one is a part of its run. -/
theorem Runs.tracked {env : Env} {x : Sys} {S S' : Session} {s t : Store}
    {last : Option (Op × Except Status Unit)} (hx : Tracked env x S) (hp : x.proc = .idle s last)
    {op : Op} {es : List StorageOp} {d' : Disk Item} {r : Except Status Unit}
    (h : Runs env x.disk S (op.program s) es d' S' (r, t)) :
    Tracked env { x with disk := d', proc := .idle t (some (op, r)) } (S'.returned op r) :=
  h.finish (.step hx (.call x S op hp))

/-! ## Programs that accept nothing -/

/-- What a program may spend: frames and headers it writes, rotations it counts. -/
structure Cost where
  frames : Nat := 0
  headers : Nat := 0
  rotations : Nat := 0

namespace Cost

def none : Cost := {}
def frame : Cost := { frames := 1 }
def header : Cost := { headers := 1 }
def rotation : Cost := { headers := 1, rotations := 1 }

/-- Two costs one after the other are within a third. -/
structure Fits (c e k : Cost) : Prop where
  frames : c.frames + e.frames ≤ k.frames
  headers : c.headers + e.headers ≤ k.headers
  rotations : c.rotations + e.rotations ≤ k.rotations

theorem Fits.none_left (c : Cost) : Fits none c c :=
  ⟨Nat.le_of_eq (Nat.zero_add _), Nat.le_of_eq (Nat.zero_add _), Nat.le_of_eq (Nat.zero_add _)⟩

theorem Fits.none_right (c : Cost) : Fits c none c := ⟨Nat.le_refl _, Nat.le_refl _, Nat.le_refl _⟩

/-- One cost is within another. -/
abbrev Within (c k : Cost) : Prop := Fits none c k

theorem Within.none (k : Cost) : Within none k := ⟨Nat.zero_le _, Nat.zero_le _, Nat.zero_le _⟩

theorem Fits.left {c e k : Cost} (h : Fits c e k) : Within c k := by
  obtain ⟨h1, h2, h3⟩ := h
  refine ⟨?_, ?_, ?_⟩
  all_goals
    simp only [Cost.none]
    omega

end Cost

/-- Nothing was accepted between two states of a store, and few blocks and headers were written. -/
structure Spent (s t : Store) (es : List StorageOp) (k : Cost) : Prop where
  accepted : t.metrics.acceptedRecords = s.metrics.acceptedRecords
  bytes : t.metrics.acceptedPayloadBytes = s.metrics.acceptedPayloadBytes
  anomalies : t.metrics.timeAnomalies = s.metrics.timeAnomalies
  undurable : t.haveUndurableRecords = s.haveUndurableRecords ∨
    (t.haveUndurableRecords = false ∧ StorageOp.flush ∈ es)
  frames : es.countP StorageOp.isFrame ≤ k.frames
  headers : es.countP StorageOp.isHeader ≤ k.headers
  rotations : ∃ n ≤ k.rotations, t.metrics.rotations = s.metrics.rotations + UInt64.ofNat n

/-- A change of the store that concerns none of the counters. -/
theorem Spent.of_metrics {s t : Store} (hm : t.metrics = s.metrics)
    (hu : t.haveUndurableRecords = s.haveUndurableRecords) : Spent s t [] .none := by
  refine ⟨?_, ?_, ?_, .inl hu, Nat.le_refl _, Nat.le_refl _, 0, Nat.le_refl _, ?_⟩
  all_goals rw [hm]
  exact (UInt64.add_zero _).symm

theorem Spent.refl (s : Store) : Spent s s [] .none := .of_metrics rfl rfl

theorem Spent.trans {s t u : Store} {es es' : List StorageOp} {c e k : Cost} (h : Spent s t es c)
    (h' : Spent t u es' e) (hk : Cost.Fits c e k) : Spent s u (es ++ es') k where
  accepted := h'.accepted.trans h.accepted
  bytes := h'.bytes.trans h.bytes
  anomalies := h'.anomalies.trans h.anomalies
  undurable := by
    rcases h'.undurable with h2 | ⟨h2, hm⟩
    · rcases h.undurable with h1 | ⟨h1, hm⟩
      · exact .inl (h2.trans h1)
      · exact .inr ⟨h2.trans h1, List.mem_append_left _ hm⟩
    · exact .inr ⟨h2, List.mem_append_right _ hm⟩
  frames := by
    rw [List.countP_append]
    exact Nat.le_trans (Nat.add_le_add h.frames h'.frames) hk.frames
  headers := by
    rw [List.countP_append]
    exact Nat.le_trans (Nat.add_le_add h.headers h'.headers) hk.headers
  rotations := by
    obtain ⟨n, hn, h1⟩ := h.rotations
    obtain ⟨n', hn', h2⟩ := h'.rotations
    refine ⟨n + n', Nat.le_trans (Nat.add_le_add hn hn') hk.rotations, ?_⟩
    rw [h2, h1, UInt64.ofNat_add, UInt64.add_assoc]

theorem Spent.mono {s t : Store} {es : List StorageOp} {c k : Cost} (h : Spent s t es c)
    (hk : Cost.Within c k) : Spent s t es k :=
  (Spent.refl s).trans h hk

/-- However the storage answers, the program accepts nothing. -/
def Spends (k : Cost) {α : Type} (x : Writer α) : Prop :=
  ∀ s tr, Wr.Follows tracing (fun _ t tr' => ∃ es, tr' = tr ++ es ∧ Spent s t es k) x s tr

/-- The same of its errors only. -/
def SpendsFailing (k : Cost) {α : Type} (x : Writer α) : Prop :=
  ∀ s tr, Wr.Follows tracing (fun r t tr' => (∃ st, r = .error st) →
    ∃ es, tr' = tr ++ es ∧ Spent s t es k) x s tr

section
variable {α β : Type} {c e k : Cost}

theorem Spends.failing {x : Writer α} (h : Spends k x) : SpendsFailing k x :=
  fun s tr => (h s tr).mono fun _ _ _ hq _ => hq

theorem spends_fail (k : Cost) (st : Status) : Spends k (Wr.fail st : Writer α) :=
  fun s tr => ⟨[], (List.append_nil tr).symm, (Spent.refl s).mono (.none k)⟩

theorem spends_pure (k : Cost) (v : α) : Spends k (pure v : Writer α) :=
  fun s tr => ⟨[], (List.append_nil tr).symm, (Spent.refl s).mono (.none k)⟩

theorem spends_get : Spends .none (Wr.get : Writer Store) :=
  fun s tr => ⟨[], (List.append_nil tr).symm, .refl s⟩

theorem spends_modify {f : Store → Store} (hf : ∀ s, Spent s (f s) [] k) :
    Spends k (Wr.modify f : Writer Unit) :=
  fun s tr => ⟨[], (List.append_nil tr).symm, hf s⟩

theorem Spends.bind {x : Writer α} {f : α → Writer β} (hx : Spends c x) (hf : ∀ v, Spends e (f v))
    (hk : Cost.Fits c e k) : Spends k (x >>= f) := by
  intro s tr
  rw [Wr.follows_bind]
  refine (hx s tr).mono ?_
  rintro r t tr' ⟨es, rfl, hs⟩
  cases r with
  | error st => exact ⟨es, rfl, hs.mono hk.left⟩
  | ok v =>
    rw [Wr.after_ok]
    refine (hf v t (tr ++ es)).mono ?_
    rintro r u tr' ⟨es', rfl, hs'⟩
    exact ⟨es ++ es', List.append_assoc .., hs.trans hs' hk⟩

/-- Only the last part of a program may accept. -/
theorem Spends.bindFailing {x : Writer α} {f : α → Writer β} (hx : Spends c x)
    (hf : ∀ v, SpendsFailing e (f v)) (hk : Cost.Fits c e k) : SpendsFailing k (x >>= f) := by
  intro s tr
  rw [Wr.follows_bind]
  refine (hx s tr).mono ?_
  rintro r t tr' ⟨es, rfl, hs⟩
  cases r with
  | error st => exact fun _ => ⟨es, rfl, hs.mono hk.left⟩
  | ok v =>
    rw [Wr.after_ok]
    refine (hf v t (tr ++ es)).mono ?_
    intro r u tr' hq he
    obtain ⟨es', rfl, hs'⟩ := hq he
    exact ⟨es ++ es', List.append_assoc .., hs.trans hs' hk⟩

/-- The store is looked at first. -/
theorem Spends.get {f : Store → Writer β} (hf : ∀ s, Spends k (f s)) : Spends k (Wr.get >>= f) :=
  spends_get.bind hf (.none_left k)

theorem SpendsFailing.get {f : Store → Writer β} (hf : ∀ s, SpendsFailing k (f s)) :
    SpendsFailing k (Wr.get >>= f) :=
  spends_get.bindFailing hf (.none_left k)

theorem Spends.ite {p : Prop} [Decidable p] {x y : Writer α} (hx : Spends k x) (hy : Spends k y) :
    Spends k (if p then x else y) := by
  split
  · exact hx
  · exact hy

theorem SpendsFailing.ite {p : Prop} [Decidable p] {x y : Writer α} (hx : SpendsFailing k x)
    (hy : SpendsFailing k y) : SpendsFailing k (if p then x else y) := by
  split
  · exact hx
  · exact hy

theorem Spends.when {p : Prop} [Decidable p] {x : Writer Unit} (hx : Spends k x) :
    Spends k (Wr.when p x) :=
  hx.ite (spends_pure k ())

end

/-! ## The functions of the store -/

theorem spends_failFault {α : Type} (k : Cost) (st : Status) : Spends k (failFault st : Writer α) := by
  unfold failFault
  refine (spends_modify (k := .none) fun s => ?_).bind (fun _ => spends_fail k st) (.none_left k)
  exact .of_metrics rfl rfl

/-- A failed operation in front of a program. -/
theorem Spends.failed {α : Type} {k : Cost} {x : Writer α} (h : Spends k x) (s : Store)
    (tr : List StorageOp) :
    Wr.Follows tracing (fun _ t tr' => ∃ es, tr' = tr ++ es ∧ Spent s t es k) x s
      (tracing.fail tr) := by
  refine (h s (tr ++ [.failed])).mono ?_
  rintro r t tr' ⟨es, rfl, hk⟩
  have hfailed : Spent s s [.failed] .none := { Spent.refl s with undurable := .inl rfl }
  exact ⟨[.failed] ++ es, List.append_assoc .., hfailed.trans hk (.none_left k)⟩

/-- A write: one frame or one header at most. -/
theorem spends_writeItem (off : Nat) (i : Item) {k : Cost}
    (ha : (StorageOp.write off i).isFrame = true → 1 ≤ k.frames)
    (hb : (StorageOp.write off i).isHeader = true → 1 ≤ k.headers) : Spends k (writeItem off i) := by
  intro s tr
  simp only [writeItem, Wr.follows_bind, Wr.follows_tryWrite, Wr.after_ok]
  refine ⟨⟨_, rfl, ?_⟩, fun st => (spends_failFault k st).failed s tr⟩
  refine ⟨[.write off i], rfl, rfl, rfl, rfl, .inl rfl, ?_, ?_, 0, Nat.zero_le _,
    (UInt64.add_zero _).symm⟩
  · rw [List.countP_singleton]
    split
    · exact ha ‹_›
    · exact Nat.zero_le _
  · rw [List.countP_singleton]
    split
    · exact hb ‹_›
    · exact Nat.zero_le _

/-- A flush clears the flag of undurable records or keeps it. -/
theorem spends_syncMedia (advances : Bool) : Spends .none (syncMedia advances) := by
  have hzero (n : UInt64) : ∃ m ≤ Cost.none.rotations, n = n + UInt64.ofNat m :=
    ⟨0, Nat.le_refl _, (UInt64.add_zero _).symm⟩
  intro s tr
  unfold syncMedia
  rw [Wr.follows_bind, Wr.follows_tryFlush]
  refine ⟨⟨_, rfl, [.flush], rfl, ?_⟩, fun st => ?_⟩
  · cases advances with
    | false => exact ⟨rfl, rfl, rfl, .inl rfl, Nat.le_refl _, Nat.le_refl _, hzero _⟩
    | true =>
      exact ⟨rfl, rfl, rfl, .inr ⟨rfl, List.mem_singleton_self _⟩, Nat.le_refl _, Nat.le_refl _,
        hzero _⟩
  · rw [Wr.after_ok]
    refine Spends.failed ?_ s tr
    refine (spends_modify (k := .none) fun s => ?_).bind (fun _ => spends_failFault .none st)
      (.none_left _)
    exact ⟨rfl, rfl, rfl, .inl rfl, Nat.le_refl _, Nat.le_refl _, hzero _⟩

theorem spends_createPartition (slot : UInt32) (generation : UInt64) (options : PartitionOptions) :
    Spends .header (createPartition slot generation options) := by
  unfold createPartition
  refine (spends_fail _ _).ite (.get fun s => ?_)
  dsimp only
  cases s.env.validatePartitionOptions options with
  | error st => exact spends_fail _ st
  | ok u =>
    refine (spends_writeItem _ _ (fun h => by cases h) fun _ => Nat.le_refl _).bind (fun _ => ?_)
      (.none_right .header)
    refine (spends_syncMedia false).bind (fun _ => spends_modify fun t => ?_) (.none_left .none)
    exact .of_metrics rfl rfl

theorem spends_writeSeal (p : PartitionState) : Spends .none (writeSeal p) := by
  unfold writeSeal
  refine .get fun s => (spends_failFault _ _).ite ?_
  have hindex := spends_writeItem (k := .none) (s.env.partitionBase p.header.slot + s.env.indexBegin)
    (.index p.activeIndex) (fun h => by cases h) (fun h => by cases h)
  refine hindex.when.bind (fun _ => ?_) (.none_left .none)
  refine (spends_writeItem (k := .none) _ _ (fun h => by cases h) (fun h => by cases h)).bind
    (fun _ => ?_) (.none_left .none)
  refine (spends_syncMedia false).bind (fun _ => spends_modify fun t => ?_) (.none_left .none)
  exact .of_metrics rfl rfl

theorem spends_sealActiveOnly : Spends .none sealActiveOnly := by
  unfold sealActiveOnly
  refine .get fun s => ?_
  cases s.active with
  | none => exact spends_fail _ _
  | some p =>
    exact (spends_fail _ _).ite ((spends_syncMedia true).when.bind (fun _ => spends_writeSeal p)
      (.none_left .none))

/-- A rotation writes one header. -/
theorem spends_rotateInternal (options : PartitionOptions) :
    Spends .rotation (rotateInternal options) := by
  have hcount : Spends { rotations := 1 } (Wr.modify countRotation : Writer Unit) :=
    spends_modify fun s => ⟨rfl, rfl, rfl, .inl rfl, Nat.le_refl _, Nat.le_refl _, 1, Nat.le_refl _, rfl⟩
  unfold rotateInternal
  refine .get fun s => ?_
  cases s.active with
  | none => exact spends_fail _ _
  | some p =>
    refine (spends_failFault _ _).ite (spends_sealActiveOnly.bind (fun _ => ?_) (.none_left _))
    exact (spends_createPartition _ _ _).bind (fun _ => hcount)
      ⟨Nat.le_refl _, Nat.le_refl _, Nat.le_refl _⟩

theorem spends_ensureEmptyBuilderCapacity : Spends .rotation ensureEmptyBuilderCapacity := by
  unfold ensureEmptyBuilderCapacity
  refine .get fun s => (spends_pure _ ()).ite ?_
  cases s.active with
  | none => exact spends_fail _ _
  | some p =>
    dsimp only
    cases worstSpan s.env with
    | none => exact spends_failFault _ _
    | some span =>
      exact (spends_failFault _ _).ite ((spends_rotateInternal _).ite (spends_pure _ ()))

/-- The builder becomes one block. -/
theorem spends_emitBuilder : Spends .frame emitBuilder := by
  unfold emitBuilder
  refine .get fun s => (spends_pure _ ()).ite ?_
  cases s.active with
  | none => exact spends_failFault _ _
  | some p =>
    dsimp only
    cases packBuilder s.env p.header.options s.builder with
    | error st => exact spends_failFault _ st
    | ok stored =>
      dsimp only
      cases alignUp (blockHeaderEncodedSize + stored.payload.length) s.env.quantum with
      | none => exact spends_failFault _ _
      | some span =>
        refine (spends_failFault _ _).ite ((spends_failFault _ _).ite ?_)
        refine (spends_writeItem _ _ (fun _ => Nat.le_refl _) (fun h => by cases h)).bind (fun _ => ?_)
          (.none_right .frame)
        exact spends_modify fun t => ⟨rfl, rfl, rfl, .inl rfl, Nat.le_refl _, Nat.le_refl _, 0,
          Nat.le_refl _, (UInt64.add_zero _).symm⟩

/-- What a refused append may spend. -/
def Cost.append : Cost := { frames := 1, headers := 1, rotations := 1 }

theorem spends_guardWritable : Spends .none guardWritable := by
  unfold guardWritable
  refine .get fun s => (spends_fail _ _).ite ((spends_fail _ _).ite ((spends_fail _ _).ite ?_))
  exact spends_pure _ ()

/-- An append that fails accepts nothing: only its last step does. -/
theorem spends_appendImpl (record : Bytes) (time : Int64) (recordFlags : UInt32)
    (expected : Option AppendContract) :
    SpendsFailing .append (appendImpl record time recordFlags expected) := by
  unfold appendImpl
  refine spends_guardWritable.bindFailing (fun _ => .get fun s => ?_) (.none_left _)
  refine (spends_fail _ _).failing.ite ((spends_fail _ _).failing.ite ?_)
  refine spends_emitBuilder.when.bindFailing (e := .rotation) (fun _ => ?_)
    ⟨Nat.le_refl _, Nat.le_refl _, Nat.le_refl _⟩
  refine spends_ensureEmptyBuilderCapacity.bindFailing (fun _ => .get fun t => ?_) (.none_right _)
  cases t.active with
  | none => exact (spends_fail _ _).failing
  | some p =>
    refine (spends_fail _ _).failing.ite fun u tr => ?_
    rintro ⟨st, hst⟩
    cases hst

/-! ## Rejected appends -/

/-- The checks in front of `emit_builder`. -/
def RefusedAtOnce (s : Store) (op : Op) (r : AcceptedRecord) : Prop :=
  ZeroContract op ∨ s.writable = false ∨ s.closed = true ∨ s.faulted = true ∨ r.record = [] ∨
    s.env.maxBlockPayload < r.record.length

/-- A guard that fails ends the call with the store as it was. -/
theorem guardWritable_refused {s : Store}
    (h : s.writable = false ∨ s.closed = true ∨ s.faulted = true) :
    ∃ st, guardWritable s = .done (.error st, s) := by
  show ∃ st, (if ¬ s.writable = true then _ else _ : Writer Unit) s = _
  split
  · exact ⟨_, rfl⟩
  · rename_i hw
    split
    · exact ⟨_, rfl⟩
    · rename_i hc
      split
      · exact ⟨_, rfl⟩
      · rename_i hf
        rcases h with h | h | h
        · exact absurd h (by simpa using hw)
        · exact absurd h hc
        · exact absurd h hf

theorem appendImpl_refused {s : Store} {record : Bytes} (time : Int64) (recordFlags : UInt32)
    (expected : Option AppendContract) (h : s.writable = false ∨ s.closed = true ∨
      s.faulted = true ∨ record = [] ∨ s.env.maxBlockPayload < record.length) :
    ∃ st, appendImpl record time recordFlags expected s = .done (.error st, s) := by
  by_cases hg : s.writable = false ∨ s.closed = true ∨ s.faulted = true
  · obtain ⟨st, hst⟩ := guardWritable_refused hg
    refine ⟨st, ?_⟩
    show WriteProg.bind (guardWritable s) _ = _
    rw [hst]
    rfl
  · have hok : guardWritable s = .done (.ok (), s) := by
      rw [not_or, not_or] at hg
      show (if ¬ s.writable = true then _ else _ : Writer Unit) s = _
      rw [if_neg (by simpa using hg.1), if_neg hg.2.1, if_neg hg.2.2]
      rfl
    have hrec : record = [] ∨ s.env.maxBlockPayload < record.length := by tauto
    show ∃ st, WriteProg.bind (guardWritable s) _ = _
    rw [hok]
    show ∃ st, (if record = [] then _ else _ : Writer Unit) s = _
    split
    · exact ⟨_, rfl⟩
    · rename_i hne
      rw [if_pos (hrec.resolve_left hne)]
      exact ⟨_, rfl⟩

/-- A call that is refused at once does nothing. -/
theorem RefusedAtOnce.program {s : Store} {op : Op} {r : AcceptedRecord} (hop : op.submits = some r)
    (h : RefusedAtOnce s op r) : ∃ st, op.program s = .done (.error st, s) := by
  by_cases hz : ZeroContract op
  · exact ⟨_, hz.program s⟩
  cases op with
  | append record time flags =>
    obtain rfl := Option.some.inj hop
    exact appendImpl_refused time flags none (h.resolve_left hz)
  | appendChecked record time expected flags =>
    obtain rfl := Option.some.inj hop
    have hrest := h.resolve_left hz
    unfold ZeroContract at hz
    have hprog : (Op.appendChecked record time expected flags).program s =
        appendImpl record time flags (some expected) s := by
      show (if _ then _ else _ : Writer Unit) s = _
      rw [if_neg hz]
    rw [hprog]
    exact appendImpl_refused time flags (some expected) hrest
  | _ => cases hop

/-- An append that fails has spent at most one block and one rotation. -/
theorem program_spends {op : Op} {r : AcceptedRecord} (hop : op.submits = some r) :
    SpendsFailing .append op.program := by
  cases op with
  | append record time flags => exact spends_appendImpl record time flags none
  | appendChecked record time expected flags =>
    exact (spends_fail _ _).failing.ite (spends_appendImpl record time flags (some expected))
  | _ => cases hop

/-- **A rejected append loses and adds nothing.**  Whatever made it fail, the records of the blocks
followed by those of the builder are the same as before, and so are the counters; the flag of
undurable records is the same or was cleared by a flush.  At most one block was written and one
partition created, and a call refused by the checks in front of `emit_builder` did nothing. -/
theorem rejected_append {env : Env} {x : Sys} {S S' : Session} {s t : Store}
    {last : Option (Op × Except Status Unit)} (hx : Tracked env x S) (hp : x.proc = .idle s last)
    {op : Op} {r : AcceptedRecord} (hop : op.submits = some r) {es : List StorageOp} {d' : Disk Item}
    {st : Status} (h : Runs env x.disk S (op.program s) es d' S' (.error st, t)) :
    Tracked env { x with disk := d', proc := .idle t (some (op, .error st)) } S' ∧
      (Books s S ∧ Books t S' ∧ S'.accepted = S.accepted ∧ S.blocks <+: S'.blocks ∧
        S'.blocks.length = S.blocks.length + es.countP StorageOp.isFrame) ∧
      Spent s t es .append ∧
      (RefusedAtOnce s op r → es = [] ∧ d' = x.disk ∧ S' = S ∧ t = s) := by
  have hafter := h.tracked hx hp
  have hbooks : Books s S := by
    have hk := hx.keeps.1
    rw [hp] at hk
    exact hk
  refine ⟨hafter, ⟨hbooks, hafter.keeps.1, h.session⟩, ?_, fun hr => ?_⟩
  · obtain ⟨es', he, hs⟩ := h.traced (program_spends hop s []) ⟨st, rfl⟩
    rw [show es = es' from he]
    exact hs
  · obtain ⟨st', hst⟩ := hr.program hop
    rw [hst] at h
    cases h
    exact ⟨rfl, rfl, rfl, rfl⟩

namespace Sample

/-- A record that does not go into the builder of the sample store. -/
def large : Bytes := List.replicate 128 7

/-- The append that emits the builder first. -/
def emitting : WriteProg Status Item (Except Status Unit × Store) :=
  (Op.append large 0 0).program buffered

def secondFrame : Item := .frame (block 1 (3, 4) (3, 4)) record record

def twoEntries : Item :=
  .index [blockEntry 4096 (block 0 (0, 0) (3, 4)), blockEntry 4352 (block 1 (3, 4) (3, 4))]

def rotatingSession : Session := { followedSession with synced := 2, flushes := 3 }

/-- The store behind a rotation whose first write failed. -/
def stranded : Store := { Writer.synced true followed with faulted := true, faultStatus := short }

set_option maxRecDepth 2000 in
theorem emitting_frame : emitting.firstWrite = some (12544, secondFrame) := rfl

set_option maxRecDepth 2000 in
theorem emitting_flush : emitting.next (.ok ()) = .flush (emitting.next (.ok ())).next := rfl

set_option maxRecDepth 2000 in
theorem emitting_index :
    ((emitting.next (.ok ())).next (.ok ())).firstWrite = some (12800, twoEntries) := rfl

set_option maxRecDepth 2000 in
theorem emitting_fails : ((emitting.next (.ok ())).next (.ok ())).next (.error short) =
    .done (.error short, stranded) := rfl

/-- The frame is written and flushed, and the write of the index fails behind three bytes. -/
theorem emitting_runs : Runs env flushedDisk bufferedSession emitting
    [.write 12544 secondFrame, .flush, .failed]
    ((followedDisk.flush (Item.bytes env)).issue 12800 twoEntries 3) rotatingSession
    (.error short, stranded) := by
  rw [WriteProg.firstWrite_next emitting_frame]
  apply Runs.write
  rw [emitting_flush]
  apply Runs.flush
  rw [WriteProg.firstWrite_next emitting_index]
  apply Runs.writeFails 3 short
  rw [emitting_fails]
  exact Runs.done ..

end Sample

/-- An append to the sample store emits the block of the record in the builder, and the index write
of the rotation fails.  Both records are still accounted for, and one block was spent. -/
theorem rejected_append_sample : Books Sample.stranded Sample.rotatingSession ∧
    Sample.rotatingSession.accepted = [Sample.firstRecord, Sample.firstRecord] ∧
    Spent Sample.buffered Sample.stranded [.write 12544 Sample.secondFrame, .flush, .failed]
      .append := by
  obtain ⟨-, ⟨-, hbooks, haccepted, -⟩, hspent, -⟩ :=
    rejected_append Sample.tracked_buffered rfl rfl Sample.emitting_runs
  exact ⟨hbooks, haccepted, hspent⟩

end TFDB
