import TFDB.Lib.Medium

/-!
# Programs that read, and programs that write

Two free monads over a byte medium, generic in the error type `ε`:

* `ReadProg` — positional reads only.  `run` executes a program on a source of bytes.
* `WriteProg` — writes of items and flushes.  `exec` executes a program with every
  operation successful.

`Reads` bounds the windows a reading program may ask for and what it may return, whatever the
reads return; a program only depends on the bytes of those windows (`run_congr`).

`Follows` is the refinement rule for writing programs: every effect of the program is a
step of a labelled transition system, and a failed operation sends the system where its
`fail` says.
-/

set_option autoImplicit false

namespace ByteLib

variable {ε : Type}

/-! ## Reading programs -/

/-- A source of bytes: what a read of `n` bytes at `off` returns. -/
abbrev Source (ε : Type) := Nat → Nat → Except ε Bytes

inductive ReadProg (ε α : Type) : Type where
  | done (a : α)
  | read (off n : Nat) (k : Except ε Bytes → ReadProg ε α)

namespace ReadProg

variable {α β : Type}

protected def bind : ReadProg ε α → (α → ReadProg ε β) → ReadProg ε β
  | done a, f => f a
  | read off n k, f => read off n fun r => (k r).bind f

/-- Execution on a fixed source. -/
def run (src : Source ε) : ReadProg ε α → α
  | done a => a
  | read off n k => run src (k (src off n))

/-- Every window the program may read satisfies `P`, and every value it may return `Q`. -/
def Reads (P : Nat → Nat → Prop) (Q : α → Prop) : ReadProg ε α → Prop
  | done a => Q a
  | read off n k => P off n ∧ ∀ r, Reads P Q (k r)

theorem run_bind (src : Source ε) (p : ReadProg ε α) (f : α → ReadProg ε β) :
    run src (p.bind f) = run src (f (run src p)) := by
  induction p with
  | done a => rfl
  | read off n k ih => exact ih _

instance : Monad (ReadProg ε) where
  pure := done
  bind := ReadProg.bind

@[simp] theorem run_pure (src : Source ε) (a : α) : run src (pure a : ReadProg ε α) = a := (rfl)

@[simp] theorem run_bind' (src : Source ε) (p : ReadProg ε α) (f : α → ReadProg ε β) :
    run src (p >>= f) = run src (f (run src p)) := run_bind src p f

theorem Reads.bind {P : Nat → Nat → Prop} {Q : α → Prop} {R : β → Prop} {p : ReadProg ε α}
    {f : α → ReadProg ε β} (hp : p.Reads P Q) (hf : ∀ a, Q a → (f a).Reads P R) :
    (p.bind f).Reads P R := by
  induction p with
  | done a => exact hf a hp
  | read off n k ih => exact ⟨hp.1, fun r => ih r (hp.2 r)⟩

/-- A program only depends on the windows it reads. -/
theorem run_congr {P : Nat → Nat → Prop} {Q : α → Prop} {p : ReadProg ε α} (hp : p.Reads P Q)
    {a b : Source ε} (h : ∀ off n, P off n → a off n = b off n) : run a p = run b p := by
  induction p with
  | done a => rfl
  | read off n k ih =>
    simp only [run]
    rw [h off n hp.1]
    exact ih _ (hp.2 _)

end ReadProg

/-! ## Reading programs that may fail -/

/-- A reading program with an early exit. -/
def Rd (ε α : Type) : Type := ReadProg ε (Except ε α)

namespace Rd

variable {α β : Type}

protected def bind (x : Rd ε α) (f : α → Rd ε β) : Rd ε β :=
  ReadProg.bind x fun
    | .ok a => f a
    | .error e => .done (.error e)

instance : Monad (Rd ε) where
  pure a := ReadProg.done (.ok a)
  bind := Rd.bind

/-- Leave the program with an error. -/
def fail (e : ε) : Rd ε α := ReadProg.done (.error e)

/-- Read exactly `n` bytes at `off`, or leave with the error of the source. -/
def readExact (off n : Nat) : Rd ε Bytes := ReadProg.read off n .done

/-- A pure computation that may fail. -/
def lift (x : Except ε α) : Rd ε α := ReadProg.done x

/-- Run a program and hand its outcome to the rest instead of leaving on an error. -/
def attempt (x : Rd ε α) : Rd ε (Except ε α) := ReadProg.bind x fun r => .done (.ok r)

def run (src : Source ε) (x : Rd ε α) : Except ε α := ReadProg.run src x

/-- The program with its outcome as a value. -/
def outcome (x : Rd ε α) : ReadProg ε (Except ε α) := x

@[simp] theorem run_outcome (src : Source ε) (x : Rd ε α) :
    ReadProg.run src (outcome x) = run src x := (rfl)

-- The proofs below are in brackets so that `simp` keeps them as rewriting steps: checked as
-- definitional unfoldings they would make the kernel evaluate the bytes that were read.

@[simp] theorem run_pure (src : Source ε) (a : α) : run src (pure a) = .ok a := (rfl)
@[simp] theorem run_fail (src : Source ε) (e : ε) : run src (fail e : Rd ε α) = .error e := (rfl)
@[simp] theorem run_readExact (src : Source ε) (off n : Nat) :
    run src (readExact off n) = src off n := (rfl)
@[simp] theorem run_lift (src : Source ε) (x : Except ε α) : run src (lift x) = x := (rfl)

@[simp] theorem bind_ok (a : α) (f : α → Except ε β) : Except.bind (.ok a) f = f a := (rfl)
@[simp] theorem bind_error (e : ε) (f : α → Except ε β) : Except.bind (.error e) f = .error e := (rfl)

@[simp] theorem run_bind (src : Source ε) (x : Rd ε α) (f : α → Rd ε β) :
    run src (x >>= f) = (run src x).bind fun a => run src (f a) := by
  refine (ReadProg.run_bind (α := Except ε α) src x _).trans ?_
  show _ = Except.bind (ReadProg.run src x) _
  cases ReadProg.run src x <;> rfl

@[simp] theorem run_attempt (src : Source ε) (x : Rd ε α) :
    run src (attempt x) = .ok (run src x) :=
  ReadProg.run_bind (α := Except ε α) src x _

@[simp] theorem run_ite (src : Source ε) (c : Prop) [Decidable c] (x y : Rd ε α) :
    run src (if c then x else y) = if c then run src x else run src y := by
  split <;> rfl

/-- Every window the program may read satisfies `P`, and every value it may return `Q`. -/
def Reads (P : Nat → Nat → Prop) (Q : α → Prop) (x : Rd ε α) : Prop :=
  ReadProg.Reads P (fun r => ∀ a, r = .ok a → Q a) x

section
variable {P : Nat → Nat → Prop} {Q : α → Prop} {R : β → Prop}

theorem Reads.pure {a : α} (h : Q a) : Reads P Q (pure a : Rd ε α) := by
  intro b hb
  cases hb
  exact h

theorem Reads.fail (e : ε) : Reads P Q (fail e : Rd ε α) := fun _ h => (by cases h)

theorem Reads.lift {x : Except ε α} (h : ∀ a, x = .ok a → Q a) : Reads P Q (lift x) := h

theorem Reads.readExact {off n : Nat} (h : P off n) :
    Reads P (fun _ => True) (readExact off n : Rd ε Bytes) := ⟨h, fun _ _ _ => trivial⟩

theorem Reads.bind {x : Rd ε α} {f : α → Rd ε β} (hx : Reads P Q x)
    (hf : ∀ a, Q a → Reads P R (f a)) : Reads P R (x >>= f) := by
  refine ReadProg.Reads.bind hx fun r hr => ?_
  cases r with
  | ok a => exact hf a (hr a rfl)
  | error e => exact fun _ h => (by cases h)

theorem Reads.attempt {x : Rd ε α} (hx : Reads P Q x) :
    Reads P (fun r => ∀ a, r = .ok a → Q a) (attempt x) := by
  refine ReadProg.Reads.bind hx fun r hr => ?_
  intro b hb
  cases hb
  exact hr

theorem Reads.ite {c : Prop} [Decidable c] {x y : Rd ε α} (hx : c → Reads P Q x)
    (hy : ¬ c → Reads P Q y) : Reads P Q (if c then x else y) := by
  split
  · exact hx ‹_›
  · exact hy ‹_›

/-- A program only depends on the windows it reads. -/
theorem run_congr {x : Rd ε α} (hx : Reads P Q x) {a b : Source ε}
    (h : ∀ off n, P off n → a off n = b off n) : run a x = run b x :=
  ReadProg.run_congr hx h

end

end Rd

/-! ## Writing programs -/

inductive WriteProg (ε ι α : Type) : Type where
  | done (a : α)
  | write (off : Nat) (i : ι) (k : Except ε Unit → WriteProg ε ι α)
  | flush (k : Except ε Unit → WriteProg ε ι α)

namespace WriteProg

variable {ι α β : Type}

protected def bind : WriteProg ε ι α → (α → WriteProg ε ι β) → WriteProg ε ι β
  | done a, f => f a
  | write off i k, f => write off i fun r => (k r).bind f
  | flush k, f => flush fun r => (k r).bind f

/-- The write the program starts with, if it starts with one. -/
def firstWrite : WriteProg ε ι α → Option (Nat × ι)
  | write off i _ => some (off, i)
  | _ => none

/-- The program behind its first operation, which returned `r`. -/
def next (p : WriteProg ε ι α) (r : Except ε Unit) : WriteProg ε ι α :=
  match p with
  | done a => done a
  | write _ _ k => k r
  | flush k => k r

theorem firstWrite_next {p : WriteProg ε ι α} {off : Nat} {i : ι}
    (h : p.firstWrite = some (off, i)) : p = write off i p.next := by
  cases p with
  | done a => cases h
  | write off' i' k =>
    cases h
    rfl
  | flush k => cases h

theorem firstWrite_eq_some {p : WriteProg ε ι α} {off : Nat} {i : ι}
    (h : p.firstWrite = some (off, i)) : ∃ k, p = write off i k :=
  ⟨_, firstWrite_next h⟩

/-- Execution with every operation successful. -/
def exec (enc : ι → Bytes) : WriteProg ε ι α → Disk ι → α × Disk ι
  | done a, d => (a, d)
  | write off i k, d => exec enc (k (.ok ())) (d.issue off i (enc i).length)
  | flush k, d => exec enc (k (.ok ())) (d.flush enc)

theorem exec_bind (enc : ι → Bytes) (p : WriteProg ε ι α) (f : α → WriteProg ε ι β) (d : Disk ι) :
    exec enc (p.bind f) d = exec enc (f (exec enc p d).1) (exec enc p d).2 := by
  induction p generalizing d with
  | done a => rfl
  | write off i k ih => exact ih _ _
  | flush k ih => exact ih _ _

end WriteProg

/-- A labelled transition system over writes and flushes; `fail` is where a failed operation
leaves it. -/
structure Lts (ι Φ : Type) where
  write : Φ → Nat → ι → Φ → Prop
  flush : Φ → Φ → Prop
  fail : Φ → Φ

namespace WriteProg

variable {ι Φ α β : Type}

/-- Every effect of the program is a step of the system, from `φ` on; the program ends in a
result and a state related by `Q`. -/
def Follows (L : Lts ι Φ) (Q : α → Φ → Prop) : WriteProg ε ι α → Φ → Prop
  | done a, φ => Q a φ
  | write off i k, φ =>
      (∃ φ', L.write φ off i φ' ∧ Follows L Q (k (.ok ())) φ') ∧
        ∀ e, Follows L Q (k (.error e)) (L.fail φ)
  | flush k, φ =>
      (∃ φ', L.flush φ φ' ∧ Follows L Q (k (.ok ())) φ') ∧
        ∀ e, Follows L Q (k (.error e)) (L.fail φ)

theorem Follows.mono {L : Lts ι Φ} {Q R : α → Φ → Prop} (h : ∀ a φ, Q a φ → R a φ) :
    ∀ {p : WriteProg ε ι α} {φ : Φ}, p.Follows L Q φ → p.Follows L R φ
  | done a, φ, hp => h a φ hp
  | write _ _ _, _, ⟨⟨φ', hs, hp⟩, he⟩ => ⟨⟨φ', hs, hp.mono h⟩, fun e => (he e).mono h⟩
  | flush _, _, ⟨⟨φ', hs, hp⟩, he⟩ => ⟨⟨φ', hs, hp.mono h⟩, fun e => (he e).mono h⟩

theorem follows_bind {L : Lts ι Φ} {Q : β → Φ → Prop} {f : α → WriteProg ε ι β}
    {p : WriteProg ε ι α} {φ : Φ} :
    (p.bind f).Follows L Q φ ↔ p.Follows L (fun a φ' => (f a).Follows L Q φ') φ := by
  induction p generalizing φ with
  | done a => exact Iff.rfl
  | write off i k ih => simp only [WriteProg.bind, Follows, ih]
  | flush k ih => simp only [WriteProg.bind, Follows, ih]

/-- What the steps of the system keep holds at the end of an undisturbed program. -/
theorem Follows.exec {L : Lts ι Φ} {Q : α → Φ → Prop} {enc : ι → Bytes} {I : Disk ι → Φ → Prop}
    (hw : ∀ d φ off i φ', L.write φ off i φ' → I d φ → I (d.issue off i (enc i).length) φ')
    (hf : ∀ d φ φ', L.flush φ φ' → I d φ → I (d.flush enc) φ') {p : WriteProg ε ι α} {φ : Φ}
    {d : Disk ι} (hp : p.Follows L Q φ) (hi : I d φ) :
    ∃ φ', I (p.exec enc d).2 φ' ∧ Q (p.exec enc d).1 φ' := by
  induction p generalizing φ d with
  | done a => exact ⟨φ, hi, hp⟩
  | write off i k ih =>
    obtain ⟨⟨φ', hs, hk⟩, -⟩ := hp
    exact ih _ hk (hw d φ off i φ' hs hi)
  | flush k ih =>
    obtain ⟨⟨φ', hs, hk⟩, -⟩ := hp
    exact ih _ hk (hf d φ φ' hs hi)

end WriteProg

/-! ## Writing programs with a state and an early exit -/

/-- A writing program over a state `σ`; an error keeps the state reached. -/
def Wr (ε ι σ α : Type) : Type := σ → WriteProg ε ι (Except ε α × σ)

namespace Wr

variable {ι σ α β : Type}

protected def bind (x : Wr ε ι σ α) (f : α → Wr ε ι σ β) : Wr ε ι σ β := fun s =>
  WriteProg.bind (x s) fun
    | (.ok a, s') => f a s'
    | (.error e, s') => .done (.error e, s')

instance : Monad (Wr ε ι σ) where
  pure a := fun s => .done (.ok a, s)
  bind := Wr.bind

def fail (e : ε) : Wr ε ι σ α := fun s => .done (.error e, s)
def get : Wr ε ι σ σ := fun s => .done (.ok s, s)
def set (s : σ) : Wr ε ι σ Unit := fun _ => .done (.ok (), s)
def modify (f : σ → σ) : Wr ε ι σ Unit := fun s => .done (.ok (), f s)

/-- Run a program only under a condition. -/
def when (c : Prop) [Decidable c] (x : Wr ε ι σ Unit) : Wr ε ι σ Unit := if c then x else pure ()

/-- Write an item; the outcome is a value. -/
def tryWrite (off : Nat) (i : ι) : Wr ε ι σ (Except ε Unit) := fun s =>
  .write off i fun r => .done (.ok r, s)

/-- Flush; the outcome is a value. -/
def tryFlush : Wr ε ι σ (Except ε Unit) := fun s => .flush fun r => .done (.ok r, s)

/-- Behind an undisturbed program that returns, the rest runs. -/
theorem exec_bind_ok {enc : ι → Bytes} {x : Wr ε ι σ α} {f : α → Wr ε ι σ β} {s s' : σ} {a : α}
    {d d' : Disk ι} (hx : (x s).exec enc d = ((.ok a, s'), d')) :
    ((x >>= f) s).exec enc d = (f a s').exec enc d' := by
  refine (WriteProg.exec_bind enc (x s) _ d).trans ?_
  rw [hx]

/-- An undisturbed program that returns has run its parts. -/
theorem exec_bind_inv {enc : ι → Bytes} {x : Wr ε ι σ α} {f : α → Wr ε ι σ β} {s t : σ} {b : β}
    {d d' : Disk ι} (h : ((x >>= f) s).exec enc d = ((.ok b, t), d')) :
    ∃ a u e, (x s).exec enc d = ((.ok a, u), e) ∧ (f a u).exec enc e = ((.ok b, t), d') := by
  have hbind : ((x >>= f) s).exec enc d = _ := WriteProg.exec_bind enc (x s) _ d
  rw [hbind] at h
  cases hx : (x s).exec enc d with
  | mk r e =>
    obtain ⟨r, u⟩ := r
    rw [hx] at h
    cases r with
    | ok a => exact ⟨a, u, e, rfl, h⟩
    | error st => cases h

/-! ## Rules for following a transition system

`Follows L Q x s φ` is computed by the rules below from the program: each is an equivalence,
so that rewriting with them turns the statement about a program into the conditions on its
effects. -/

section
variable {Φ : Type} {L : Lts ι Φ} {Q : Except ε α → σ → Φ → Prop} {s : σ} {φ : Φ}

/-- From store state `s` and system state `φ`, every effect of `x` is a step of the system
and its end satisfies `Q`. -/
def Follows (L : Lts ι Φ) (Q : Except ε α → σ → Φ → Prop) (x : Wr ε ι σ α) (s : σ) (φ : Φ) : Prop :=
  WriteProg.Follows L (fun r φ' => Q r.1 r.2 φ') (x s) φ

theorem Follows.mono {R : Except ε α → σ → Φ → Prop} {x : Wr ε ι σ α}
    (hx : Follows L Q x s φ) (h : ∀ r s' φ', Q r s' φ' → R r s' φ') : Follows L R x s φ :=
  WriteProg.Follows.mono (Q := fun (r : Except ε α × σ) φ' => Q r.1 r.2 φ')
    (fun r φ' => h r.1 r.2 φ') hx

@[simp] theorem follows_pure {a : α} : Follows L Q (pure a) s φ ↔ Q (.ok a) s φ := Iff.rfl

@[simp] theorem follows_fail {e : ε} : Follows L Q (fail e) s φ ↔ Q (.error e) s φ := Iff.rfl

@[simp] theorem follows_get {Q : Except ε σ → σ → Φ → Prop} :
    Follows L Q get s φ ↔ Q (.ok s) s φ := Iff.rfl

@[simp] theorem follows_set {Q : Except ε Unit → σ → Φ → Prop} {s' : σ} :
    Follows L Q (set s') s φ ↔ Q (.ok ()) s' φ := Iff.rfl

@[simp] theorem follows_modify {Q : Except ε Unit → σ → Φ → Prop} {f : σ → σ} :
    Follows L Q (modify f) s φ ↔ Q (.ok ()) (f s) φ := Iff.rfl

@[simp] theorem follows_tryWrite {Q : Except ε (Except ε Unit) → σ → Φ → Prop} {off : Nat} {i : ι} :
    Follows L Q (tryWrite off i) s φ ↔
      (∃ φ', L.write φ off i φ' ∧ Q (.ok (.ok ())) s φ') ∧
        ∀ e, Q (.ok (.error e)) s (L.fail φ) := Iff.rfl

@[simp] theorem follows_tryFlush {Q : Except ε (Except ε Unit) → σ → Φ → Prop} :
    Follows L Q tryFlush s φ ↔
      (∃ φ', L.flush φ φ' ∧ Q (.ok (.ok ())) s φ') ∧
        ∀ e, Q (.ok (.error e)) s (L.fail φ) := Iff.rfl

/-- What follows a program: the rest after a result, nothing after an error. -/
def After (L : Lts ι Φ) (Q : Except ε β → σ → Φ → Prop) (f : α → Wr ε ι σ β) :
    Except ε α → σ → Φ → Prop
  | .ok a, s, φ => Follows L Q (f a) s φ
  | .error e, s, φ => Q (.error e) s φ

@[simp] theorem after_ok {Q : Except ε β → σ → Φ → Prop} {f : α → Wr ε ι σ β} {a : α} :
    After L Q f (.ok a) s φ ↔ Follows L Q (f a) s φ := Iff.rfl

@[simp] theorem after_error {Q : Except ε β → σ → Φ → Prop} {f : α → Wr ε ι σ β} {e : ε} :
    After L Q f (.error e) s φ ↔ Q (.error e) s φ := Iff.rfl

@[simp] theorem follows_bind {Q : Except ε β → σ → Φ → Prop} {x : Wr ε ι σ α}
    {f : α → Wr ε ι σ β} :
    Follows L Q (x >>= f) s φ ↔ Follows L (After L Q f) x s φ := by
  refine WriteProg.follows_bind.trans ?_
  have h : (fun (r : Except ε α × σ) φ' => WriteProg.Follows L (fun r φ' => Q r.1 r.2 φ')
      (match r with
        | (.ok a, s') => f a s'
        | (.error e, s') => .done (.error e, s')) φ') =
      fun r φ' => After L Q f r.1 r.2 φ' := by
    funext r φ'
    obtain ⟨r, s'⟩ := r
    cases r <;> rfl
  exact iff_of_eq (congrArg (fun P => WriteProg.Follows L P (x s) φ) h)

@[simp] theorem follows_ite {c : Prop} [Decidable c] {x y : Wr ε ι σ α} :
    Follows L Q (if c then x else y) s φ ↔
      (c → Follows L Q x s φ) ∧ (¬ c → Follows L Q y s φ) := by
  split
  · rename_i h; simp [h]
  · rename_i h; simp [h]

@[simp] theorem follows_when {Q : Except ε Unit → σ → Φ → Prop} {c : Prop} [Decidable c]
    {x : Wr ε ι σ Unit} :
    Follows L Q (when c x) s φ ↔ (c → Follows L Q x s φ) ∧ (¬ c → Q (.ok ()) s φ) := by
  simp only [when, follows_ite, follows_pure]

end

end Wr

end ByteLib
