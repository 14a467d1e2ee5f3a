import TFDB.Faults
import TFDB.Ledger

/-!
# The first fault

A store object from its writable open on, over every run of calls and every schedule of storage
and codec errors.

* `Standing` — what a store is between two calls: live, faulted or closed;
* `Tracked.sound` — every running call stops at its first failed operation, and every store
  between two calls has its standing;
* `first_fault_latched` — the first fault is returned, kept and returned by every later call, and
  nothing is written any more; an error that is not latched leaves a live store.
-/

set_option autoImplicit false

namespace TFDB

open ByteLib Writer

/-! ## Stores that do nothing any more -/

/-- A checked append without a contract, which is refused before the store is looked at. -/
def ZeroContract : Op → Prop
  | .appendChecked _ _ expected _ =>
    expected.recordFormatId = 0 ∨ expected.recordFormatVersion = 0 ∨ expected.timeDomainId = 0
  | _ => False

section
variable {s : Store} {st : Status}

theorem Latched.guardWritable (h : Latched st s) (f : Unit → Writer Unit) :
    (guardWritable >>= f) s = .done (.error st, s) := by
  have hguard : Writer.guardWritable s = .done (.error st, s) := by
    show (if ¬ s.writable = true then _ else _ : Writer Unit) s = _
    rw [if_neg (not_not.mpr h.up.writable), if_neg (by rw [h.up.opened]; decide),
      if_pos h.faulted, h.status]
    rfl
  show WriteProg.bind (Writer.guardWritable s) _ = _
  rw [hguard]
  rfl

/-- A faulted store returns its fault and does nothing. -/
theorem Latched.program (h : Latched st s) {op : Op} (hop : ¬ ZeroContract op) :
    op.program s = .done (.error st, s) := by
  cases op with
  | append record time flags => exact h.guardWritable _
  | appendChecked record time expected flags =>
    unfold ZeroContract at hop
    show (if _ then _ else _ : Writer Unit) s = _
    rw [if_neg hop]
    exact h.guardWritable _
  | publish => exact h.guardWritable _
  | checkpoint => exact h.guardWritable _
  | close =>
    show (if s.closed = true then _ else _ : Writer Unit) s = _
    rw [if_neg (by rw [h.up.opened]; decide), if_neg (not_not.mpr h.up.writable), if_pos h.faulted,
      h.status]
    rfl
  | rotate next => exact h.guardWritable _
  | setNext options => exact h.guardWritable _

theorem ZeroContract.program {op : Op} (hop : ZeroContract op) (s : Store) :
    op.program s = .done (.error ⟨.invalidArgument,
      "checked append requires a nonzero partition contract"⟩, s) := by
  cases op with
  | appendChecked record time expected flags =>
    unfold ZeroContract at hop
    show (if _ then _ else _ : Writer Unit) s = _
    rw [if_pos hop]
    rfl
  | _ => exact hop.elim

theorem closed_guardWritable (h : s.closed = true) (f : Unit → Writer Unit) :
    ∃ e, (guardWritable >>= f) s = .done (.error e, s) := by
  have hguard : ∃ e, Writer.guardWritable s = .done (.error e, s) := by
    show ∃ e, (if ¬ s.writable = true then _ else _ : Writer Unit) s = _
    rw [if_pos h]
    split
    · exact ⟨_, rfl⟩
    · exact ⟨_, rfl⟩
  obtain ⟨e, he⟩ := hguard
  refine ⟨e, ?_⟩
  show WriteProg.bind (Writer.guardWritable s) _ = _
  rw [he]
  rfl

/-- A closed store does nothing. -/
theorem closed_program (h : s.closed = true) (op : Op) : ∃ r, op.program s = .done (r, s) := by
  by_cases hz : ZeroContract op
  · exact ⟨_, hz.program s⟩
  have hguard (f : Unit → Writer Unit) : ∃ r, (guardWritable >>= f) s = .done (r, s) := by
    obtain ⟨e, he⟩ := closed_guardWritable h f
    exact ⟨_, he⟩
  cases op with
  | append record time flags => exact hguard _
  | appendChecked record time expected flags =>
    unfold ZeroContract at hz
    have hprog : (Op.appendChecked record time expected flags).program s =
        appendImpl record time flags (some expected) s := by
      show (if _ then _ else _ : Writer Unit) s = _
      rw [if_neg hz]
    rw [hprog]
    exact hguard _
  | publish => exact hguard _
  | checkpoint => exact hguard _
  | close =>
    refine ⟨.ok (), ?_⟩
    show (if s.closed = true then _ else _ : Writer Unit) s = _
    rw [if_pos h]
    rfl
  | rotate next => exact hguard _
  | setNext options => exact hguard _

end

/-! ## The states of a store object -/

/-- A store between two calls. -/
inductive Standing (env : Env) (s : Store) : Prop
  | live (h : Live env s)
  | faulted {st : Status} (h : Latched st s)
  | closed (h : s.closed = true)

/-- What a call can return and leave. -/
inductive Finished (env : Env) (op : Op) : Except Status Unit → Store → Prop
  | accepted {t : Store} (h : Live env t) : Finished env op (.ok ()) t
  | refused {t : Store} {st : Status} (h : Live env t) (hr : Refused env op st) :
      Finished env op (.error st) t
  | latched {t : Store} {st : Status} (h : Latched st t) : Finished env op (.error st) t
  | misused {t : Store} {st : Status} {r : Except Status Unit} (h : Latched st t)
      (hz : ZeroContract op) : Finished env op r t
  | closed {t : Store} {r : Except Status Unit} (h : t.closed = true) : Finished env op r t

section
variable {env : Env}

theorem Ended.finished {s t : Store} {op : Op} {r : Except Status Unit} (h : Ended env s op r t) :
    Finished env op r t := by
  cases h with
  | accepted h _ => exact .accepted h
  | closed _ h => exact .closed h
  | refused h _ hr => exact .refused h hr
  | faulted h _ => exact .latched h

theorem Finished.standing {op : Op} {r : Except Status Unit} {t : Store}
    (h : Finished env op r t) : Standing env t := by
  cases h with
  | accepted h => exact .live h
  | refused h _ => exact .live h
  | latched h => exact .faulted h
  | misused h _ => exact .faulted h
  | closed h => exact .closed h

/-- A call that can no longer go wrong unnoticed: a failed operation ends it with its error. -/
def Watched (env : Env) : Proc → Prop
  | .opening k => k.Stops (fun e r => r.1 = .error e ∧ Latched e r.2)
      fun r => r.1 = .ok () → Live env r.2
  | .busy op k => k.Stops (fun e r => r.1 = .error e ∧ Latched e r.2)
      fun r => Finished env op r.1 r.2
  | .idle s _ => Standing env s
  | _ => True

theorem Standing.program (g : Geometry env) {s : Store} (h : Standing env s) (op : Op) :
    Wr.Stops Latched (Finished env op) op.program s := by
  cases h with
  | live h => exact (stops_program g h op).mono fun r t => Ended.finished
  | @faulted st h =>
    unfold Wr.Stops
    by_cases hz : ZeroContract op
    · rw [hz.program s]
      exact .misused h hz
    · rw [h.program hz]
      exact .latched h
  | closed h =>
    obtain ⟨r, hr⟩ := closed_program h op
    unfold Wr.Stops
    rw [hr]
    exact .closed h

theorem stops_startWriter {m : Image} {o : OpenOptions} {id : UInt64 × UInt64}
    (hw : o.writable = true) (hid : id ≠ (0, 0))
    (ho : env.validatePartitionOptions o.nextPartition = .ok ())
    (hgen : GenerationsOk (slotStates env m)) :
    Wr.Stops Latched (fun r t => r = .ok () → Live env t) startWriter (openedStore env m o id) := by
  have hup : Up (openedStore env m o id) := ⟨hw, rfl⟩
  have hcreate (slot : UInt32) (generation : UInt64) (h0 : generation ≠ 0) :
      Wr.Stops Latched (fun r t => r = .ok () → Live env t)
        (createPartition slot generation o.nextPartition) (openedStore env m o id) := by
    refine stops_createPartition rfl hup h0 ho fun changed _ => ?_
    have hact := Cat.active_install (openedStore env m o id).cat
      (newHeader env slot generation o.nextPartition)
    exact ⟨⟨rfl, ho, Nat.zero_le _, Nat.le_refl _, fun h => absurd rfl h, fun h => absurd rfl h, hid,
      _, hact, rfl⟩, ⟨hw, rfl⟩, rfl⟩
  simp only [startWriter, Wr.stops_get_bind, Wr.stops_ite, Wr.stops_fail]
  refine ⟨fun _ hr => (by cases hr), fun _ => ?_⟩
  rw [openedStore_partitions]
  cases hlast : (catalogOf env m).getLast? with
  | none => exact hcreate 0 1 (by decide)
  | some p =>
    simp only [Wr.stops_ite, Wr.stops_fail, Wr.stops_pure]
    refine ⟨fun hs => ⟨fun _ hr => (by cases hr), fun hmax => ?_⟩, fun hs _ => ?_⟩
    · refine hcreate _ _ fun h0 => hmax ?_
      have : p.header.generation = p.header.generation + 1 - 1 := by simp
      rw [this, h0]
      rfl
    · exact ⟨openedStore_ok hid ho ⟨p, openedCat_active id hgen hlast, by simpa using hs⟩, hup, rfl⟩

/-- The next state of a watched program. -/
theorem Observed.stops {α : Type} {E : Status → α → Prop} {Q : α → Prop} {d d' : Disk Item}
    {S S' : Session} {k k' : WriteProg Status Item α} (h : Observed env d S k d' k' S')
    (hk : k.Stops E Q) (hE : ∀ e a, E e a → Q a) : k'.Stops E Q := by
  cases h with
  | write off i k => exact hk.2
  | writeFails off i k n st =>
    obtain ⟨a, ha, he⟩ := hk.1 st
    rw [ha]
    exact hE st a he
  | flush k => exact hk.2
  | flushFails k st =>
    obtain ⟨a, ha, he⟩ := hk.1 st
    rw [ha]
    exact hE st a he

theorem Observe.watched (g : Geometry env) {x y : Sys} {S S' : Session}
    (h : Observe env (x, S) (y, S')) (hx : Watched env x.proc) : Watched env y.proc := by
  cases h with
  | openEffect _ _ hp h =>
    rw [hp] at hx
    refine h.stops hx ?_
    rintro e ⟨r, t⟩ ⟨hr, -⟩ hok
    rw [hr] at hok
    cases hok
  | opened _ _ hp =>
    rw [hp] at hx
    exact .live (hx rfl)
  | call _ _ op hp =>
    rw [hp] at hx
    exact hx.program g op
  | @effect _ _ op _ _ _ _ hp h =>
    rw [hp] at hx
    refine h.stops hx ?_
    rintro e ⟨r, t⟩ ⟨hr, hl⟩
    show Finished env op r t
    rw [show r = .error e from hr]
    exact .latched hl
  | returned _ _ hp =>
    rw [hp] at hx
    exact Finished.standing hx

theorem Tracked.geometry {x : Sys} {S : Session} (h : Tracked env x S) : Geometry env := by
  induction h with
  | opening x hw hrandom he hrec hp =>
    obtain ⟨-, g, -⟩ := recover_inv hrec
    rw [he] at g
    exact g
  | step hx h ih => exact ih

/-- Every call of a store is watched, and between two calls the store has its standing. -/
theorem Tracked.watched {x : Sys} {S : Session} (h : Tracked env x S) : Watched env x.proc := by
  induction h with
  | opening x hw hrandom he hrec hp =>
    obtain ⟨-, -, -, ⟨id, hprep, hs⟩, -, hgen, -⟩ := recover_inv hrec
    rw [he] at hs hprep hgen
    rw [hp, hs]
    exact stops_startWriter hw (prepareWriter_nonzero hw hrandom hprep) (prepareWriter_ok hw hprep) hgen
  | step hx h ih => exact h.watched hx.geometry ih

/-! ## Later calls -/

/-- A store that does not accept records any more, with what its calls return. -/
def Stays (st : Status) (s : Store) (d : Disk Item) (y : Sys) : Prop :=
  y.disk = d ∧
    ((∃ last, y.proc = .idle s last) ∨
      ∃ op r, y.proc = .busy op (.done (r, s)) ∧ (¬ ZeroContract op → r = .error st))

/-- A faulted store stays as it is: it returns its fault from every call and writes nothing. -/
theorem Latched.stays {st : Status} {s : Store} (hl : Latched st s) {d : Disk Item} {x y : Sys}
    {S S' : Session} (hx : Stays st s d x) (h : Observe env (x, S) (y, S')) : Stays st s d y := by
  obtain ⟨hd, hidle | ⟨op, r, hbusy, hr⟩⟩ := hx
  · obtain ⟨last, hlast⟩ := hidle
    cases h with
    | openEffect _ _ hp h =>
      rw [hlast] at hp
      cases hp
    | opened _ _ hp =>
      rw [hlast] at hp
      cases hp
    | call _ _ op hp =>
      rw [hlast] at hp
      cases hp
      refine ⟨hd, Or.inr ?_⟩
      by_cases hz : ZeroContract op
      · exact ⟨op, _, congrArg (Proc.busy op) (hz.program s), fun h => absurd hz h⟩
      · exact ⟨op, _, congrArg (Proc.busy op) (hl.program hz), fun _ => rfl⟩
    | effect _ _ hp h =>
      rw [hlast] at hp
      cases hp
    | returned _ _ hp =>
      rw [hlast] at hp
      cases hp
  · cases h with
    | openEffect _ _ hp h =>
      rw [hbusy] at hp
      cases hp
    | opened _ _ hp =>
      rw [hbusy] at hp
      cases hp
    | call _ _ op hp =>
      rw [hbusy] at hp
      cases hp
    | effect _ _ hp h =>
      rw [hbusy] at hp
      cases hp
      cases h
    | returned _ _ hp =>
      rw [hbusy] at hp
      cases hp
      exact ⟨hd, Or.inl ⟨_, rfl⟩⟩

theorem Latched.later {st : Status} {s : Store} (hl : Latched st s) {x : Sys} {S : Session}
    (hx : Stays st s x.disk x) {y : Sys} {S' : Session} (h : Later env (x, S) (y, S')) :
    Stays st s x.disk y := by
  generalize hb : (y, S') = b at h
  induction h generalizing y S' with
  | refl =>
    cases hb
    exact hx
  | @tail c b _ hstep ih =>
    obtain ⟨z, T⟩ := c
    subst hb
    exact hl.stays (ih rfl) hstep

/-! ## The first fault -/

/-- Every error of the program is latched. -/
def Latches (x : Writer Unit) (s : Store) : Prop :=
  Wr.Stops Latched (fun r t => ∀ st, r = .error st → Latched st t) x s

/-- The store takes records: an append of a valid one succeeds, or latches a fault of its own. -/
def Takes (env : Env) (s : Store) : Prop :=
  ∀ record time flags, record ≠ [] → record.length ≤ env.maxBlockPayload →
    Wr.Stops Latched (fun r t => (r = .ok () ∧ Live env t) ∨
      ∃ st, r = .error st ∧ Latched st t ∧ Cause env s st) (append record time flags) s

theorem Live.takes (g : Geometry env) {s : Store} (hl : Live env s) : Takes env s := by
  intro record time flags hne hle
  refine stops_appendImpl g hl record time flags none (fun t ht _ => Or.inl ⟨rfl, ht⟩) ?_ ?_ ?_ ?_
  · exact fun h => absurd h hne
  · exact fun h => absurd hle (Nat.not_le.mpr h)
  · exact fun t _ _ h => absurd rfl h
  · exact fun st t ht hc => Or.inr ⟨st, rfl, ht, hc⟩

theorem Live.latches_emitBuilder (g : Geometry env) {s : Store} (hl : Live env s) :
    Latches emitBuilder s := by
  refine stops_emitBuilder g hl (fun t _ _ _ _ st h => (by cases h)) fun st t ht _ st' h => ?_
  cases h
  exact ht

theorem Live.latches_sealActiveOnly {s : Store} (hl : Live env s) : Latches sealActiveOnly s := by
  obtain ⟨p, hp, hs⟩ := hl.ok.active
  refine stops_sealActiveOnly hl.ok.env_eq hl.up hp hs (fun t _ st h => (by cases h))
    fun st t ht _ st' h => ?_
  cases h
  exact ht

theorem Up.latches_createPartition {s : Store} (hup : Up s) (he : s.env = env) (slot : UInt32)
    {generation : UInt64} {options : PartitionOptions} (hg : generation ≠ 0)
    (ho : env.validatePartitionOptions options = .ok ()) :
    Latches (createPartition slot generation options) s :=
  stops_createPartition he hup hg ho fun _ st h => (by cases h)

theorem Up.latches_syncMedia {s : Store} (hup : Up s) (advances : Bool) :
    Latches (syncMedia advances) s := stops_syncMedia hup fun st h => (by cases h)

/-- What is true of faults in a state of a store object. -/
structure FaultsKept (env : Env) (x : Sys) (S : Session) : Prop where
  /-- A failed write ends the running call with its error, which is latched. -/
  write : ∀ op off i k, x.proc = .busy op (.write off i k) → ∀ st, ∃ t,
    k (.error st) = .done (.error st, t) ∧ Latched st t
  flush : ∀ op k, x.proc = .busy op (.flush k) → ∀ st, ∃ t,
    k (.error st) = .done (.error st, t) ∧ Latched st t
  /-- The functions a call is made of latch all their errors. -/
  emit : ∀ s, Live env s → Latches emitBuilder s
  sealing : ∀ s, Live env s → Latches sealActiveOnly s
  creation : ∀ s, Up s → s.env = env → ∀ slot generation options, generation ≠ 0 →
    env.validatePartitionOptions options = .ok () → Latches (createPartition slot generation options) s
  sync : ∀ s, Up s → ∀ advances, Latches (syncMedia advances) s
  /-- An error of a call on an open store is latched, or it refuses an argument and the store
  still takes records. -/
  returned : ∀ op st t, x.proc = .busy op (.done (.error st, t)) → t.closed = false →
    Latched st t ∨ (Refused env op st ∧ Live env t ∧ Takes env t) ∨
      (ZeroContract op ∧ t.faulted = true)
  /-- A faulted store returns its fault from every later call and writes nothing. -/
  later : ∀ s last st, x.proc = .idle s last → Latched st s →
    ∀ y S', Later env (x, S) (y, S') → Stays st s x.disk y
  /-- A store between two calls is live, faulted or closed. -/
  standing : ∀ s last, x.proc = .idle s last → Standing env s

/-- **The first fault is latched.**  In every state of a store object, opened for writing on any
image, after any calls and any storage and codec errors. -/
theorem first_fault_latched {x : Sys} {S : Session} (hx : Tracked env x S) : FaultsKept env x S := by
  have g := hx.geometry
  have hw := hx.watched
  refine ⟨?_, ?_, fun s hl => hl.latches_emitBuilder g, fun s hl => hl.latches_sealActiveOnly,
    fun s hup he slot generation options hg ho => hup.latches_createPartition he slot hg ho,
    fun s hup advances => hup.latches_syncMedia advances, ?_, ?_, ?_⟩
  · intro op off i k hp st
    rw [hp] at hw
    obtain ⟨⟨r, t⟩, hk, hr, hl⟩ := hw.1 st
    cases hr
    exact ⟨t, hk, hl⟩
  · intro op k hp st
    rw [hp] at hw
    obtain ⟨⟨r, t⟩, hk, hr, hl⟩ := hw.1 st
    cases hr
    exact ⟨t, hk, hl⟩
  · intro op st t hp hopen
    rw [hp] at hw
    have hfin : Finished env op (.error st) t := hw
    cases hfin with
    | refused hl hr => exact Or.inr (Or.inl ⟨hr, hl, hl.takes g⟩)
    | latched hl => exact Or.inl hl
    | misused hl hz => exact Or.inr (Or.inr ⟨hz, hl.faulted⟩)
    | closed hc =>
      rw [hopen] at hc
      cases hc
  · intro s last st hp hl y S' hlater
    exact hl.later ⟨rfl, Or.inl ⟨last, hp⟩⟩ hlater
  · intro s last hp
    rw [hp] at hw
    exact hw

end

namespace Sample

def short : Status := ⟨.ioError, "short write"⟩

/-- A publish whose frame is cut off behind a hundred bytes. -/
def cutOff : Disk Item :=
  flushedDisk.issue 12544 (.frame (block 1 (3, 4) (3, 4)) record record) 100

end Sample

/-- A publish of the sample store fails behind a hundred bytes of its frame.  The store keeps this
fault, and nothing later touches the storage. -/
theorem sample_faults_kept : ∃ t, Latched Sample.short t ∧
    ∀ y S', Later Sample.env (⟨Sample.cutOff, [(3, 4)],
        .idle t (some (.publish, .error Sample.short))⟩, Sample.bufferedSession) (y, S') →
      Stays Sample.short t Sample.cutOff y := by
  have hfirst : (Op.publish.program Sample.buffered).firstWrite =
      some (12544, .frame (Sample.block 1 (3, 4) (3, 4)) Sample.record Sample.record) := rfl
  obtain ⟨k, hk⟩ := WriteProg.firstWrite_eq_some hfirst
  have hbusy := Sample.tracked_buffered.step (.call _ _ .publish rfl)
  rw [hk] at hbusy
  obtain ⟨t, hfails, hl⟩ := (first_fault_latched hbusy).write _ _ _ _ rfl Sample.short
  have hfailed := hbusy.step (.effect _ _ rfl (.writeFails _ _ _ 100 Sample.short))
  rw [hfails] at hfailed
  have hidle := hfailed.step (.returned _ _ rfl)
  exact ⟨t, hl, (first_fault_latched hidle).later _ _ _ rfl hl⟩

end TFDB
