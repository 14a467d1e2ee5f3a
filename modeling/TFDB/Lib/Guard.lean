import TFDB.Lib.Program

/-!
# Programs that stop at the first failed operation

`Stops L Q x s` says of a writing program: a failed write or flush ends it at once, with the
error of that operation and in a state that `L` allows for it; an undisturbed run ends in a
result and a state related by `Q`.

The rules follow the constructs of a program.  A failed operation behind a bind ends the whole
bind, so the rule for it needs nothing about the rest.
-/

set_option autoImplicit false

namespace ByteLib

variable {ε ι α β : Type}

namespace WriteProg

/-- A failed operation ends the program with a result that `E` allows; an undisturbed end
satisfies `Q`. -/
def Stops (E : ε → α → Prop) (Q : α → Prop) : WriteProg ε ι α → Prop
  | done a => Q a
  | write _ _ k => (∀ e, ∃ a, k (.error e) = done a ∧ E e a) ∧ Stops E Q (k (.ok ()))
  | flush k => (∀ e, ∃ a, k (.error e) = done a ∧ E e a) ∧ Stops E Q (k (.ok ()))

theorem Stops.mono {E E' : ε → α → Prop} {Q Q' : α → Prop} (hE : ∀ e a, E e a → E' e a)
    (hQ : ∀ a, Q a → Q' a) {p : WriteProg ε ι α} (hp : p.Stops E Q) : p.Stops E' Q' := by
  induction p with
  | done a => exact hQ a hp
  | write off i k ih =>
    refine ⟨fun e => ?_, ih _ hp.2⟩
    obtain ⟨a, ha, he⟩ := hp.1 e
    exact ⟨a, ha, hE e a he⟩
  | flush k ih =>
    refine ⟨fun e => ?_, ih _ hp.2⟩
    obtain ⟨a, ha, he⟩ := hp.1 e
    exact ⟨a, ha, hE e a he⟩

theorem Stops.bind {E : ε → α → Prop} {E' : ε → β → Prop} {Q : β → Prop} {f : α → WriteProg ε ι β}
    (hE : ∀ e a, E e a → ∃ b, f a = done b ∧ E' e b) {p : WriteProg ε ι α}
    (hp : p.Stops E fun a => (f a).Stops E' Q) : (p.bind f).Stops E' Q := by
  induction p with
  | done a => exact hp
  | write off i k ih =>
    refine ⟨fun e => ?_, ih _ hp.2⟩
    obtain ⟨a, ha, he⟩ := hp.1 e
    obtain ⟨b, hb, he⟩ := hE e a he
    refine ⟨b, ?_, he⟩
    show (k (.error e)).bind f = done b
    rw [ha]
    exact hb
  | flush k ih =>
    refine ⟨fun e => ?_, ih _ hp.2⟩
    obtain ⟨a, ha, he⟩ := hp.1 e
    obtain ⟨b, hb, he⟩ := hE e a he
    refine ⟨b, ?_, he⟩
    show (k (.error e)).bind f = done b
    rw [ha]
    exact hb

/-- The end of an undisturbed run. -/
theorem Stops.exec {E : ε → α → Prop} {Q : α → Prop} {p : WriteProg ε ι α} (hp : p.Stops E Q)
    (enc : ι → Bytes) (d : Disk ι) : Q (p.exec enc d).1 := by
  induction p generalizing d with
  | done a => exact hp
  | write off i k ih => exact ih _ hp.2 _
  | flush k ih => exact ih _ hp.2 _

end WriteProg

namespace Wr

variable {σ : Type} {L : ε → σ → Prop} {Q : Except ε α → σ → Prop} {s : σ}

/-- A failed operation ends the program with its error in a state that `L` allows; an
undisturbed end satisfies `Q`. -/
def Stops (L : ε → σ → Prop) (Q : Except ε α → σ → Prop) (x : Wr ε ι σ α) (s : σ) : Prop :=
  WriteProg.Stops (fun e r => r.1 = .error e ∧ L e r.2) (fun r => Q r.1 r.2) (x s)

theorem Stops.mono {R : Except ε α → σ → Prop} {x : Wr ε ι σ α} (hx : Stops L Q x s)
    (h : ∀ r t, Q r t → R r t) : Stops L R x s :=
  WriteProg.Stops.mono (fun _ _ he => he) (fun r hr => h r.1 r.2 hr) hx

@[simp] theorem stops_pure {a : α} : Stops L Q (pure a : Wr ε ι σ α) s ↔ Q (.ok a) s := Iff.rfl

@[simp] theorem stops_fail {e : ε} : Stops L Q (fail e : Wr ε ι σ α) s ↔ Q (.error e) s := Iff.rfl

@[simp] theorem stops_set {Q : Except ε Unit → σ → Prop} {t : σ} :
    Stops L Q (set t : Wr ε ι σ Unit) s ↔ Q (.ok ()) t := Iff.rfl

@[simp] theorem stops_modify {Q : Except ε Unit → σ → Prop} {f : σ → σ} :
    Stops L Q (modify f : Wr ε ι σ Unit) s ↔ Q (.ok ()) (f s) := Iff.rfl

@[simp] theorem stops_get_bind {f : σ → Wr ε ι σ α} :
    Stops L Q (get >>= f) s ↔ Stops L Q (f s) s := Iff.rfl

@[simp] theorem stops_modify_bind {g : σ → σ} {f : Unit → Wr ε ι σ α} :
    Stops L Q (modify g >>= f) s ↔ Stops L Q (f ()) (g s) := Iff.rfl

@[simp] theorem stops_pure_bind {a : β} {f : β → Wr ε ι σ α} :
    Stops L Q ((pure a : Wr ε ι σ β) >>= f) s ↔ Stops L Q (f a) s := Iff.rfl

@[simp] theorem stops_ite {c : Prop} [Decidable c] {x y : Wr ε ι σ α} :
    Stops L Q (if c then x else y) s ↔ (c → Stops L Q x s) ∧ (¬ c → Stops L Q y s) := by
  split
  · rename_i h
    simp [h]
  · rename_i h
    simp [h]

/-- What follows a program: the rest after a result, nothing after an error. -/
def Behind (L : ε → σ → Prop) (Q : Except ε β → σ → Prop) (f : α → Wr ε ι σ β) :
    Except ε α → σ → Prop
  | .ok a, s => Stops L Q (f a) s
  | .error e, s => Q (.error e) s

theorem stops_bind {Q : Except ε β → σ → Prop} {x : Wr ε ι σ α} {f : α → Wr ε ι σ β}
    (hx : Stops L (Behind L Q f) x s) : Stops L Q (x >>= f) s := by
  refine WriteProg.Stops.bind (α := Except ε α × σ) ?_ (WriteProg.Stops.mono (fun _ _ he => he) ?_ hx)
  · rintro e ⟨r, t⟩ ⟨hr, hl⟩
    cases hr
    exact ⟨_, rfl, rfl, hl⟩
  · rintro ⟨r, t⟩ hr
    cases r with
    | ok a => exact hr
    | error e => exact hr

theorem stops_when {Q : Except ε Unit → σ → Prop} {c : Prop} [Decidable c] {x : Wr ε ι σ Unit} :
    Stops L Q (when c x) s ↔ (c → Stops L Q x s) ∧ (¬ c → Q (.ok ()) s) := by
  simp only [when, stops_ite, stops_pure]

end Wr

end ByteLib
