import TFDB.Lib.Program

/-!
# Observers of writing programs

* `Lts.prod` — two systems side by side; a program that follows both follows their product;
* `WriteProg.observe` — what an observer of the writes knows at the end of an undisturbed program;
* `Follows.exec_observed` — what holds of the medium, the system and the observer together.
-/

set_option autoImplicit false

namespace ByteLib

/-- Two systems side by side. -/
def Lts.prod {ι Φ Ψ : Type} (L : Lts ι Φ) (M : Lts ι Ψ) : Lts ι (Φ × Ψ) where
  write x off i y := L.write x.1 off i y.1 ∧ M.write x.2 off i y.2
  flush x y := L.flush x.1 y.1 ∧ M.flush x.2 y.2
  fail x := (L.fail x.1, M.fail x.2)

namespace WriteProg

variable {ε ι Φ Ψ α Ω : Type}

theorem Follows.prod {L : Lts ι Φ} {M : Lts ι Ψ} {Q : α → Φ → Prop} {R : α → Ψ → Prop} :
    ∀ {p : WriteProg ε ι α} {φ : Φ} {ψ : Ψ}, p.Follows L Q φ → p.Follows M R ψ →
      p.Follows (L.prod M) (fun a x => Q a x.1 ∧ R a x.2) (φ, ψ)
  | done _, _, _, hp, hq => ⟨hp, hq⟩
  | write _ _ _, _, _, ⟨⟨φ', h1, hp⟩, hpe⟩, ⟨⟨ψ', h2, hq⟩, hqe⟩ =>
    ⟨⟨(φ', ψ'), ⟨h1, h2⟩, hp.prod hq⟩, fun e => (hpe e).prod (hqe e)⟩
  | flush _, _, _, ⟨⟨φ', h1, hp⟩, hpe⟩, ⟨⟨ψ', h2, hq⟩, hqe⟩ =>
    ⟨⟨(φ', ψ'), ⟨h1, h2⟩, hp.prod hq⟩, fun e => (hpe e).prod (hqe e)⟩

/-- What an observer of the writes knows at the end, with every operation successful. -/
def observe (see : Ω → ι → Ω) : WriteProg ε ι α → Ω → Ω
  | done _, o => o
  | write _ i k, o => observe see (k (.ok ())) (see o i)
  | flush k, o => observe see (k (.ok ())) o

/-- What the steps of the system keep, of the medium and of the observer, holds at the end of an
undisturbed program. -/
theorem Follows.exec_observed {L : Lts ι Φ} {Q : α → Φ → Prop} {enc : ι → Bytes} (see : Ω → ι → Ω)
    {I : Disk ι → Φ → Ω → Prop}
    (hw : ∀ d φ off i φ' o, L.write φ off i φ' → I d φ o →
      I (d.issue off i (enc i).length) φ' (see o i))
    (hf : ∀ d φ φ' o, L.flush φ φ' → I d φ o → I (d.flush enc) φ' o)
    {p : WriteProg ε ι α} {φ : Φ} {d : Disk ι} {o : Ω} (hp : p.Follows L Q φ) (hi : I d φ o) :
    ∃ φ', I (p.exec enc d).2 φ' (p.observe see o) ∧ Q (p.exec enc d).1 φ' := by
  induction p generalizing φ d o with
  | done a => exact ⟨φ, hi, hp⟩
  | write off i k ih =>
    obtain ⟨⟨φ', hs, hk⟩, -⟩ := hp
    exact ih _ hk (hw d φ off i φ' o hs hi)
  | flush k ih =>
    obtain ⟨⟨φ', hs, hk⟩, -⟩ := hp
    exact ih _ hk (hf d φ φ' o hs hi)

end WriteProg

end ByteLib
