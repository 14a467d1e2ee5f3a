import TFDB.Lib.Medium
import TFDB.Exact

/-!
# The memory storage and its crashes

`MemoryStorage` keeps a volatile and a durable image and the writes between them, and stands in for
a device in the crash tests.

* `MemoryInv.step` — the volatile image is the durable one overlaid with the writes since the last
  successful flush or crash, and the pending writes are those of the current epoch;
* `selectWrites_ok`, `crashMaterialize_out` — which bytes a partial crash may change;
* `crash_model` — what each crash leaves, after any calls.
-/

set_option autoImplicit false

namespace TFDB

open ByteLib

/-! ## The storage -/

inductive StorageOperation
  | read | write | flush
  deriving DecidableEq

structure StorageCounters where
  readCalls : UInt64 := 0
  writeCalls : UInt64 := 0
  flushCalls : UInt64 := 0
  readBytes : UInt64 := 0
  writeBytes : UInt64 := 0

/-- A fault of one call: an error, or a short transfer. -/
structure FaultRule where
  operation : StorageOperation := .write
  call : UInt64 := 0
  transferBeforeError : Nat := 0
  result : StatusCode := .ioError

/-- One line of the log of calls. -/
structure StorageEvent where
  operation : StorageOperation := .read
  call : UInt64 := 0
  offset : UInt64 := 0
  requested : Nat := 0
  transferred : Nat := 0
  result : StatusCode := .ok

/-- A part of a pending write, by its call number. -/
structure WriteFragment where
  writeCall : UInt64 := 0
  offsetInWrite : UInt64 := 0
  length : UInt64 := 0

/-- A transferred write that no flush has covered. -/
structure DirtyWrite where
  call : UInt64 := 0
  offset : UInt64 := 0
  bytes : Bytes := []

/-- The write of a pending entry, at its place in the image. -/
def DirtyWrite.placed (w : DirtyWrite) : Nat × Bytes := (w.offset.toNat, w.bytes)

/-- What a reader sees, what survives a crash, and the writes in between. -/
structure MemoryStorage where
  volatile : Image
  durable : Image
  writable : Bool := true
  faults : List FaultRule := []
  dirtyWrites : List DirtyWrite := []
  events : List StorageEvent := []
  counters : StorageCounters := {}

/-- What a fault rule leaves of a transfer of `n` bytes: an error transfers nothing. -/
def injected (fault : Option FaultRule) (text : String) (n : Nat) : IoResult :=
  match fault with
  | none => { transferred := n }
  | some f =>
    if f.result = .ok then { transferred := min f.transferBeforeError n }
    else { status := ⟨f.result, text⟩ }

theorem injected_le (fault : Option FaultRule) (text : String) (n : Nat) :
    (injected fault text n).transferred ≤ n := by
  unfold injected
  split
  · exact Nat.le_refl n
  · split
    · exact Nat.min_le_right _ _
    · exact Nat.zero_le n

namespace MemoryStorage

/-- A new storage of `size` zero bytes. -/
def start (size : UInt64) (writable : Bool) : MemoryStorage where
  volatile := { size := size.toNat, byte := fun _ => 0 }
  durable := { size := size.toNat, byte := fun _ => 0 }
  writable := writable

/-- The first rule for the call. -/
def matchingFault (s : MemoryStorage) (operation : StorageOperation) (call : UInt64) :
    Option FaultRule :=
  s.faults.find? fun rule => rule.operation == operation && rule.call == call

/-- `read_at` with a buffer of the length given; a null buffer with a length is `none`.  The bytes
are those put into the buffer. -/
def readAt (s : MemoryStorage) (offset : UInt64) (output : Option Nat) :
    IoResult × Bytes × MemoryStorage :=
  match output with
  | none => ({ status := ⟨.invalidArgument, "null non-empty memory read buffer"⟩ }, [], s)
  | some n =>
    let call := s.counters.readCalls + 1
    let result : IoResult :=
      if s.volatile.size < offset.toNat ∨ s.volatile.size - offset.toNat < n then
        { status := ⟨.outOfRange, "memory read outside image"⟩ }
      else injected (s.matchingFault .read call) "injected read fault" n
    (result, s.volatile.window offset.toNat result.transferred,
      { s with
        counters := { s.counters with
          readCalls := call
          readBytes := s.counters.readBytes + UInt64.ofNat result.transferred }
        events := s.events ++ [⟨.read, call, offset, n, result.transferred, result.status.code⟩] })

/-- The answer of `write_at` to `n` bytes under the call number given. -/
def writeResult (s : MemoryStorage) (call offset : UInt64) (n : Nat) : IoResult :=
  if s.writable = false then { status := ⟨.ioError, "memory storage is read-only"⟩ }
  else if s.volatile.size < offset.toNat ∨ s.volatile.size - offset.toNat < n then
    { status := ⟨.noSpace, "memory write outside image"⟩ }
  else injected (s.matchingFault .write call) "injected write fault" n

/-- `write_at`; the input of a null view with a length is `none`. -/
def writeAt (s : MemoryStorage) (offset : UInt64) (input : Option Bytes) :
    IoResult × MemoryStorage :=
  match input with
  | none => ({ status := ⟨.invalidArgument, "null non-empty memory write buffer"⟩ }, s)
  | some bytes =>
    let call := s.counters.writeCalls + 1
    let result := s.writeResult call offset bytes.length
    let written := bytes.take result.transferred
    (result,
      { s with
        volatile := if result.transferred = 0 then s.volatile
          else s.volatile.write offset.toNat written
        dirtyWrites := if result.transferred = 0 then s.dirtyWrites
          else s.dirtyWrites ++ [{ call := call, offset := offset, bytes := written }]
        counters := { s.counters with
          writeCalls := call
          writeBytes := s.counters.writeBytes + UInt64.ofNat result.transferred }
        events := s.events ++
          [⟨.write, call, offset, bytes.length, result.transferred, result.status.code⟩] })

/-- The status of `flush`. -/
def flushResult (s : MemoryStorage) (call : UInt64) : Status :=
  match s.matchingFault .flush call with
  | none => {}
  | some fault => if fault.result = .ok then {} else ⟨fault.result, "injected flush fault"⟩

/-- `flush`: the volatile image becomes durable, unless a fault is injected. -/
def flush (s : MemoryStorage) : Status × MemoryStorage :=
  let call := s.counters.flushCalls + 1
  let status := s.flushResult call
  (status,
    { s with
      durable := if status.isOk then s.volatile else s.durable
      dirtyWrites := if status.isOk then [] else s.dirtyWrites
      counters := { s.counters with flushCalls := call }
      events := s.events ++ [⟨.flush, call, 0, 0, 0, status.code⟩] })

def addFault (s : MemoryStorage) (rule : FaultRule) : MemoryStorage :=
  { s with faults := s.faults ++ [rule] }

def clearFaults (s : MemoryStorage) : MemoryStorage := { s with faults := [] }

/-- A crash that loses every pending write. -/
def crashDiscardVolatile (s : MemoryStorage) : MemoryStorage :=
  { s with volatile := s.durable, dirtyWrites := [] }

/-- A crash that keeps every pending write. -/
def crashPersistAllDirty (s : MemoryStorage) : MemoryStorage :=
  let durable := s.dirtyWrites.foldl (fun m w => m.write w.offset.toNat w.bytes) s.durable
  { s with durable := durable, volatile := durable, dirtyWrites := [] }

/-- The pending write a fragment names: the first one of that call. -/
def named (s : MemoryStorage) (f : WriteFragment) : Option DirtyWrite :=
  s.dirtyWrites.find? fun w => w.call == f.writeCall

/-- The first loop of `crash_materialize`: the write behind each fragment. -/
def selectWrites (s : MemoryStorage) : List WriteFragment → Except Status (List DirtyWrite)
  | [] => .ok []
  | f :: fs =>
    match s.named f with
    | none => failWith .invalidArgument "invalid dirty write fragment"
    | some w =>
      if w.bytes.length < f.offsetInWrite.toNat ∨
          w.bytes.length - f.offsetInWrite.toNat < f.length.toNat then
        failWith .invalidArgument "invalid dirty write fragment"
      else
        let destination := w.offset + f.offsetInWrite
        if s.durable.size < destination.toNat ∨
            s.durable.size - destination.toNat < f.length.toNat then
          failWith .outOfRange "dirty fragment outside image"
        else (s.selectWrites fs).map (w :: ·)

/-- A fragment of a write, at its place in the image. -/
def piece (p : WriteFragment × DirtyWrite) : Nat × Bytes :=
  ((p.2.offset + p.1.offsetInWrite).toNat,
    slice p.2.bytes p.1.offsetInWrite.toNat p.1.length.toNat)

/-- A crash that keeps the fragments named. -/
def crashMaterialize (s : MemoryStorage) (fragments : List WriteFragment) :
    Status × MemoryStorage :=
  match s.selectWrites fragments with
  | .error e => (e, s)
  | .ok selected =>
    let materialized :=
      (fragments.zip selected).foldl (fun m p => m.write (piece p).1 (piece p).2) s.durable
    ({}, { s with durable := materialized, volatile := materialized, dirtyWrites := [] })

/-- `reset_counters`: the writes of the earlier epoch are no longer pending. -/
def resetCounters (s : MemoryStorage) : MemoryStorage :=
  { s with counters := {}, events := [], dirtyWrites := [] }

/-- What was transferred is a part of the input that fits. -/
theorem writeAt_fits (s : MemoryStorage) (offset : UInt64) (bytes : Bytes)
    (hzero : (s.writeAt offset (some bytes)).1.transferred ≠ 0) :
    (s.writeAt offset (some bytes)).1.transferred ≤ bytes.length ∧
      offset.toNat + bytes.length ≤ s.volatile.size := by
  simp only [writeAt, writeResult] at hzero ⊢
  split at hzero
  · exact absurd rfl hzero
  · split at hzero
    · exact absurd rfl hzero
    · rename_i hwritable hrange
      rw [if_neg hwritable, if_neg hrange]
      exact ⟨injected_le _ _ _, by omega⟩

/-- The selected writes are those the fragments name, and the fragments lie in them. -/
theorem selectWrites_ok {s : MemoryStorage} : ∀ {fragments : List WriteFragment}
    {selected : List DirtyWrite}, s.selectWrites fragments = .ok selected →
    ∀ p ∈ fragments.zip selected, p.1 ∈ fragments ∧ s.named p.1 = some p.2 ∧
      p.1.offsetInWrite.toNat + p.1.length.toNat ≤ p.2.bytes.length := by
  intro fragments
  induction fragments with
  | nil =>
    intro selected _ p hp
    cases hp
  | cons f fs ih =>
    intro selected h p hp
    rw [selectWrites] at h
    split at h
    · cases h
    · rename_i w hname
      split at h
      · cases h
      · rename_i hin
        dsimp only at h
        split at h
        · cases h
        · cases hrest : s.selectWrites fs with
          | error e =>
            rw [hrest] at h
            cases h
          | ok ws =>
            rw [hrest] at h
            cases h
            rcases List.mem_cons.mp hp with rfl | hp
            · refine ⟨List.mem_cons_self .., hname, ?_⟩
              dsimp only
              omega
            · obtain ⟨hf, hrest⟩ := ih hrest p hp
              exact ⟨List.mem_cons_of_mem _ hf, hrest⟩

/-- A refusal is an error. -/
theorem selectWrites_error {s : MemoryStorage} : ∀ {fragments : List WriteFragment} {e : Status},
    s.selectWrites fragments = .error e → e.isOk = false := by
  intro fragments
  induction fragments with
  | nil =>
    intro e h
    cases h
  | cons f fs ih =>
    intro e h
    rw [selectWrites] at h
    split at h
    · cases h
      rfl
    · split at h
      · cases h
        rfl
      · dsimp only at h
        split at h
        · cases h
          rfl
        · cases hrest : s.selectWrites fs with
          | error e' =>
            rw [hrest] at h
            cases h
            exact ih hrest
          | ok ws =>
            rw [hrest] at h
            cases h

/-- A partial crash is refused, or leaves one image with the selected pieces on the durable one. -/
theorem crashMaterialize_cases (s : MemoryStorage) (fragments : List WriteFragment) :
    (∃ e : Status, e.isOk = false ∧ s.crashMaterialize fragments = (e, s)) ∨
    ∃ selected, s.selectWrites fragments = .ok selected ∧ ∃ m,
      m = (fragments.zip selected).foldl (fun m p => m.write (piece p).1 (piece p).2) s.durable ∧
      s.crashMaterialize fragments = ({}, { s with durable := m, volatile := m, dirtyWrites := [] }) := by
  unfold crashMaterialize
  cases hsel : s.selectWrites fragments with
  | error e =>
    left
    exact ⟨e, selectWrites_error hsel, rfl⟩
  | ok selected =>
    right
    exact ⟨selected, rfl, _, rfl, rfl⟩

end MemoryStorage

/-! ## Runs -/

/-- The calls of a run. -/
inductive StorageCall
  | readAt (offset : UInt64) (output : Option Nat)
  | writeAt (offset : UInt64) (input : Option Bytes)
  | flush
  | addFault (rule : FaultRule)
  | clearFaults
  | resetCounters
  | crashDiscardVolatile
  | crashPersistAllDirty
  | crashMaterialize (fragments : List WriteFragment)

/-- The state after a call. -/
def MemoryStorage.step (s : MemoryStorage) : StorageCall → MemoryStorage
  | .readAt offset output => (s.readAt offset output).2.2
  | .writeAt offset input => (s.writeAt offset input).2
  | .flush => s.flush.2
  | .addFault rule => s.addFault rule
  | .clearFaults => s.clearFaults
  | .resetCounters => s.resetCounters
  | .crashDiscardVolatile => s.crashDiscardVolatile
  | .crashPersistAllDirty => s.crashPersistAllDirty
  | .crashMaterialize fragments => (s.crashMaterialize fragments).2

/-- What the results of the calls tell: the writes transferred since the last successful flush or
crash, those before and those after the last `reset_counters`. -/
structure Unflushed where
  dropped : List (Nat × Bytes) := []
  epoch : List (Nat × Bytes) := []

/-- All of them, in call order. -/
def Unflushed.all (h : Unflushed) : List (Nat × Bytes) := h.dropped ++ h.epoch

def Unflushed.after (h : Unflushed) (s : MemoryStorage) : StorageCall → Unflushed
  | .writeAt offset input =>
    let n := (s.writeAt offset input).1.transferred
    if n = 0 then h else { h with epoch := h.epoch ++ [(offset.toNat, (input.getD []).take n)] }
  | .flush => if s.flush.1.isOk then {} else h
  | .crashDiscardVolatile => {}
  | .crashPersistAllDirty => {}
  | .crashMaterialize fragments => if (s.crashMaterialize fragments).1.isOk then {} else h
  | .resetCounters => { dropped := h.all }
  | .readAt _ _ => h
  | .addFault _ => h
  | .clearFaults => h

/-- A run from a new storage, with what its results tell. -/
def MemoryStorage.run (size : UInt64) (writable : Bool) (calls : List StorageCall) :
    MemoryStorage × Unflushed :=
  calls.foldl (fun p c => (p.1.step c, p.2.after p.1 c)) (start size writable, {})

/-- The relation between the two images, the pending writes and the results of the calls. -/
structure MemoryInv (s : MemoryStorage) (h : Unflushed) : Prop where
  bounded : s.durable.size < 2 ^ 64
  overlaid : s.volatile = s.durable.overlay h.all
  pending : s.dirtyWrites.map DirtyWrite.placed = h.epoch
  inside : ∀ w ∈ s.dirtyWrites, w.offset.toNat + w.bytes.length ≤ s.durable.size

namespace MemoryInv

variable {s : MemoryStorage} {h : Unflushed}

theorem size (hi : MemoryInv s h) : s.volatile.size = s.durable.size := by
  rw [hi.overlaid, Image.overlay_size]

theorem start (size : UInt64) (writable : Bool) :
    MemoryInv (MemoryStorage.start size writable) {} where
  bounded := size.toNat_lt
  overlaid := rfl
  pending := rfl
  inside := fun _ hw => (by cases hw)

/-- Whenever both images are the same and nothing is pending. -/
theorem settled {s' : MemoryStorage} (hsame : s'.volatile = s'.durable) (hnone : s'.dirtyWrites = [])
    (hb : s'.durable.size < 2 ^ 64) : MemoryInv s' {} where
  bounded := hb
  overlaid := hsame
  pending := by
    rw [hnone]
    rfl
  inside := by
    intro w hw
    rw [hnone] at hw
    cases hw

/-- Calls that touch neither image nor the pending writes. -/
theorem untouched (hi : MemoryInv s h) {s' : MemoryStorage} (hv : s'.volatile = s.volatile)
    (hd : s'.durable = s.durable) (hw : s'.dirtyWrites = s.dirtyWrites) : MemoryInv s' h where
  bounded := by
    rw [hd]
    exact hi.bounded
  overlaid := by
    rw [hv, hd]
    exact hi.overlaid
  pending := by
    rw [hw]
    exact hi.pending
  inside := by
    rw [hw, hd]
    exact hi.inside

/-- A transferred write is the last of both lists. -/
theorem writeAt (hi : MemoryInv s h) (offset : UInt64) (input : Option Bytes) :
    MemoryInv (s.step (.writeAt offset input)) (h.after s (.writeAt offset input)) := by
  cases input with
  | none => exact hi
  | some bytes =>
    by_cases hzero : (s.writeAt offset (some bytes)).1.transferred = 0
    · simp only [Unflushed.after, if_pos hzero]
      exact hi.untouched (if_pos hzero) rfl (if_pos hzero)
    · simp only [Unflushed.after, if_neg hzero, Option.getD_some]
      have hvolatile : (s.step (.writeAt offset (some bytes))).volatile = s.volatile.write offset.toNat
          (bytes.take (s.writeAt offset (some bytes)).1.transferred) := if_neg hzero
      have hdirty : (s.step (.writeAt offset (some bytes))).dirtyWrites = s.dirtyWrites ++
          [{ call := s.counters.writeCalls + 1
             offset := offset
             bytes := bytes.take (s.writeAt offset (some bytes)).1.transferred }] := if_neg hzero
      have hdurable : (s.step (.writeAt offset (some bytes))).durable = s.durable := rfl
      have hfits := s.writeAt_fits offset bytes hzero
      generalize (s.writeAt offset (some bytes)).1.transferred = n at hfits hvolatile hdirty ⊢
      constructor
      · exact hi.bounded
      · rw [hvolatile, hdurable, hi.overlaid, Unflushed.all, Unflushed.all, ← List.append_assoc,
          Image.overlay_append _ _ [_]]
        rfl
      · rw [hdirty, List.map_append, hi.pending]
        rfl
      · intro w hw
        rw [hdirty] at hw
        rw [hdurable]
        rcases List.mem_append.mp hw with hw | hw
        · exact hi.inside w hw
        · rw [List.mem_singleton.mp hw]
          have hsize := hi.size
          simp only [List.length_take]
          omega

/-- One call. -/
theorem step (hi : MemoryInv s h) (c : StorageCall) : MemoryInv (s.step c) (h.after s c) := by
  cases c with
  | readAt offset output =>
    cases output with
    | none => exact hi
    | some n => exact hi.untouched rfl rfl rfl
  | writeAt offset input => exact hi.writeAt offset input
  | flush =>
    by_cases hok : s.flush.1.isOk = true
    · simp only [Unflushed.after, if_pos hok]
      refine settled ?_ (if_pos hok) ?_
      · exact (if_pos hok).symm
      · have hd : (s.step .flush).durable = s.volatile := if_pos hok
        rw [hd, hi.size]
        exact hi.bounded
    · simp only [Unflushed.after, if_neg hok]
      exact hi.untouched rfl (if_neg hok) (if_neg hok)
  | addFault rule => exact hi.untouched rfl rfl rfl
  | clearFaults => exact hi.untouched rfl rfl rfl
  | resetCounters =>
    constructor
    · exact hi.bounded
    · have hall : (h.after s .resetCounters).all = h.all := List.append_nil _
      rw [hall]
      exact hi.overlaid
    · rfl
    · intro w hw
      cases hw
  | crashDiscardVolatile => exact settled rfl rfl hi.bounded
  | crashPersistAllDirty =>
    refine settled rfl rfl ?_
    have hsize := Image.overlay_size s.durable (s.dirtyWrites.map DirtyWrite.placed)
    rw [Image.overlay, List.foldl_map] at hsize
    exact hsize ▸ hi.bounded
  | crashMaterialize fragments =>
    rcases s.crashMaterialize_cases fragments with ⟨e, he, heq⟩ | ⟨selected, -, m, hm, heq⟩
    · simp only [Unflushed.after, MemoryStorage.step, heq, he]
      exact hi
    · simp only [Unflushed.after, MemoryStorage.step, heq]
      refine settled rfl rfl ?_
      have hsize := Disk.foldl_write_size MemoryStorage.piece (fragments.zip selected) s.durable
      rw [← hm] at hsize
      exact hsize ▸ hi.bounded

/-- Any run. -/
theorem run (size : UInt64) (writable : Bool) (calls : List StorageCall) :
    MemoryInv (MemoryStorage.run size writable calls).1 (MemoryStorage.run size writable calls).2 := by
  have hall : ∀ (cs : List StorageCall) (p : MemoryStorage × Unflushed), MemoryInv p.1 p.2 →
      MemoryInv (cs.foldl (fun p c => (p.1.step c, p.2.after p.1 c)) p).1
        (cs.foldl (fun p c => (p.1.step c, p.2.after p.1 c)) p).2 := by
    intro cs
    induction cs with
    | nil => exact fun _ hp => hp
    | cons c cs ih => exact fun p hp => ih _ (hp.step c)
  exact hall calls _ (start size writable)

end MemoryInv

/-! ## The crashes -/

/-- The byte at `a` lies in a fragment of a pending write. -/
def MemoryStorage.InFragment (s : MemoryStorage) (fragments : List WriteFragment) (a : Nat) : Prop :=
  ∃ f ∈ fragments, ∃ w, s.named f = some w ∧
    f.offsetInWrite.toNat + f.length.toNat ≤ w.bytes.length ∧
    w.offset.toNat + f.offsetInWrite.toNat ≤ a ∧
    a < w.offset.toNat + f.offsetInWrite.toNat + f.length.toNat

/-- A partial crash changes the durable image inside the named fragments only. -/
theorem crashMaterialize_out {s : MemoryStorage} {h : Unflushed} (hi : MemoryInv s h)
    {fragments : List WriteFragment} (hok : (s.crashMaterialize fragments).1.isOk = true) {a : Nat}
    (ha : ¬ s.InFragment fragments a) :
    (s.crashMaterialize fragments).2.durable.byte a = s.durable.byte a := by
  rcases s.crashMaterialize_cases fragments with ⟨e, he, heq⟩ | ⟨selected, hsel, m, hm, heq⟩
  · rw [heq, he] at hok
    cases hok
  rw [heq, hm]
  rcases Disk.foldl_write_mix MemoryStorage.piece (fragments.zip selected) s.durable a with
    hsame | ⟨p, hp, h1, h2, -⟩
  · exact hsame
  · exfalso
    apply ha
    obtain ⟨hf, hname, hin⟩ := MemoryStorage.selectWrites_ok hsel p hp
    have hplace := hi.inside _ (List.mem_of_find?_eq_some hname)
    have hb := hi.bounded
    have hadd : (p.2.offset + p.1.offsetInWrite).toNat =
        p.2.offset.toNat + p.1.offsetInWrite.toNat := by
      rw [UInt64.toNat_add]
      exact Nat.mod_eq_of_lt (by omega)
    simp only [MemoryStorage.piece, hadd, slice_length hin] at h1 h2
    exact ⟨p.1, hf, p.2, hname, hin, h1, h2⟩

/-- What the crashes of a storage leave, against the results of the calls before. -/
structure CrashModel (s : MemoryStorage) (h : Unflushed) : Prop where
  /-- The volatile image is the durable one with every write since the last flush or crash. -/
  overlaid : s.volatile = s.durable.overlay h.all
  /-- `crash_persist_all_dirty` persists the writes of the epoch, in order. -/
  persisted : s.crashPersistAllDirty.durable = s.durable.overlay h.epoch
  /-- That is the volatile image exactly when no write dropped before is visible beside them. -/
  persisted_iff : s.crashPersistAllDirty.durable = s.volatile ↔
    ∀ a, Image.Covers h.epoch a ∨ s.durable.byte a = (s.durable.overlay h.dropped).byte a
  /-- In particular when no write was dropped. -/
  persisted_all : h.dropped = [] → s.crashPersistAllDirty.durable = s.volatile
  /-- A refused partial crash changes nothing. -/
  refused : ∀ fragments, (s.crashMaterialize fragments).1.isOk = false →
    (s.crashMaterialize fragments).2 = s
  /-- A partial crash leaves one image, changed only inside the named fragments. -/
  materialized : ∀ fragments, (s.crashMaterialize fragments).1.isOk = true →
    (s.crashMaterialize fragments).2.volatile = (s.crashMaterialize fragments).2.durable ∧
    (s.crashMaterialize fragments).2.dirtyWrites = [] ∧
    ∀ a, ¬ s.InFragment fragments a →
      (s.crashMaterialize fragments).2.durable.byte a = s.durable.byte a

theorem MemoryInv.crashModel {s : MemoryStorage} {h : Unflushed} (hi : MemoryInv s h) :
    CrashModel s h := by
  have hpersist : s.crashPersistAllDirty.durable = s.durable.overlay h.epoch := by
    rw [← hi.pending, Image.overlay, List.foldl_map]
    rfl
  have hvolatile : s.volatile = (s.durable.overlay h.dropped).overlay h.epoch := by
    rw [hi.overlaid, Unflushed.all, Image.overlay_append]
  have hiff : s.crashPersistAllDirty.durable = s.volatile ↔
      ∀ a, Image.Covers h.epoch a ∨ s.durable.byte a = (s.durable.overlay h.dropped).byte a := by
    rw [hpersist, hvolatile]
    exact Image.overlay_eq_iff (Image.overlay_size _ _).symm h.epoch
  refine ⟨hi.overlaid, hpersist, hiff, ?_, ?_, ?_⟩
  · intro hnone
    apply hiff.mpr
    intro a
    right
    rw [hnone, Image.overlay_nil]
  · intro fragments hrefused
    rcases s.crashMaterialize_cases fragments with ⟨e, -, heq⟩ | ⟨selected, -, m, -, heq⟩
    · rw [heq]
    · rw [heq] at hrefused
      cases hrefused
  · intro fragments hok
    have hout (a : Nat) (ha : ¬ s.InFragment fragments a) := crashMaterialize_out hi hok ha
    rcases s.crashMaterialize_cases fragments with ⟨e, he, heq⟩ | ⟨selected, -, m, -, heq⟩
    · rw [heq, he] at hok
      cases hok
    · refine ⟨?_, ?_, hout⟩
      · rw [heq]
      · rw [heq]

/-- **The crash model.**  After any calls, the volatile image is the durable one overlaid with the
writes transferred since the last successful flush or crash; a crash that persists everything
pending leaves the volatile image, but for the writes that `reset_counters` dropped; and a partial
crash changes nothing if it is refused, and only the named fragments otherwise. -/
theorem crash_model (size : UInt64) (writable : Bool) (calls : List StorageCall) :
    CrashModel (MemoryStorage.run size writable calls).1 (MemoryStorage.run size writable calls).2 :=
  (MemoryInv.run size writable calls).crashModel

/-- A write that `reset_counters` drops does not survive the crash that persists everything. -/
theorem reset_loses_write : ¬ ∀ (size : UInt64) (writable : Bool) (calls : List StorageCall),
    (MemoryStorage.run size writable calls).1.crashPersistAllDirty.durable =
      (MemoryStorage.run size writable calls).1.volatile := by
  intro hall
  have h := congrArg (fun m => m.byte 0) (hall 1 true [.writeAt 0 (some [7]), .resetCounters])
  revert h
  decide

end TFDB
