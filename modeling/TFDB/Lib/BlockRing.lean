import Mathlib.Data.List.ModifyLast

/-!
# A ring of blocks

Values enter a builder.  The builder becomes a block of the newest generation, a new generation
begins when the builder is empty, and only the newest generations are kept.

* `BlockRing` — the blocks of all generations, and the builder;
* `BlockRing.Run` — the states it can reach when only blocks that fit are published;
* `Run.records`, `Run.cut` — no value is lost, repeated or moved, and every block fits;
* `numbered`, `generationsKept` — what is left of the newest generations.
-/

set_option autoImplicit false

namespace ByteLib

structure BlockRing (ρ : Type) where
  generations : List (List (List ρ)) := []
  builder : List ρ := []

namespace BlockRing

variable {ρ : Type}

/-- All values in the order of their blocks, and those in the builder. -/
def records (R : BlockRing ρ) : List ρ := R.generations.flatten.flatten ++ R.builder

def accept (R : BlockRing ρ) (rs : List ρ) : BlockRing ρ := { R with builder := R.builder ++ rs }

/-- The builder becomes a block of the newest generation. -/
def publish (R : BlockRing ρ) : BlockRing ρ where
  generations := R.generations.modifyLast (· ++ [R.builder])

/-- A new generation begins. -/
def rotate (R : BlockRing ρ) : BlockRing ρ := { R with generations := R.generations ++ [[]] }

/-- The builder is lost. -/
def discard (R : BlockRing ρ) : BlockRing ρ := { R with builder := [] }

/-- The states that are reached, with the values that were accepted and not lost. -/
inductive Run (fits : List ρ → Prop) : BlockRing ρ → List ρ → Prop
  | start : Run fits {} []
  | accept {R rs} (h : Run fits R rs) (xs : List ρ) : Run fits (R.accept xs) (rs ++ xs)
  | publish {R rs} (h : Run fits R rs) (hg : R.generations ≠ []) (hb : R.builder ≠ [])
      (hf : fits R.builder) : Run fits R.publish rs
  | rotate {R rs} (h : Run fits R rs) (hb : R.builder = []) : Run fits R.rotate rs
  | discard {R rs} (h : Run fits R rs) : Run fits R.discard R.generations.flatten.flatten

section
variable {fits : List ρ → Prop} {R : BlockRing ρ} {rs : List ρ}

theorem publish_records (hg : R.generations ≠ []) : R.publish.records = R.records := by
  obtain ⟨older, gen, he⟩ := List.eq_nil_or_concat R.generations |>.resolve_left hg
  rw [List.concat_eq_append] at he
  simp [publish, records, he, List.modifyLast_concat]

theorem rotate_records : R.rotate.records = R.records := by
  simp [BlockRing.records, BlockRing.rotate]

/-- Nothing else that was accepted is lost, repeated or moved. -/
theorem Run.records (h : Run fits R rs) : R.records = rs := by
  induction h with
  | start => rfl
  | accept h xs ih => simp [← ih, BlockRing.records, BlockRing.accept]
  | publish h hg hb hf ih => rw [publish_records hg, ih]
  | rotate h hb ih => rw [rotate_records, ih]
  | discard h ih => simp [BlockRing.records, BlockRing.discard]

/-- Every block has a value, and fits. -/
theorem Run.cut (h : Run fits R rs) : ∀ gen ∈ R.generations, ∀ block ∈ gen, block ≠ [] ∧ fits block := by
  induction h with
  | start => exact fun gen hg => (by cases hg)
  | accept h xs ih => exact ih
  | @publish R rs h hg hb hf ih =>
    obtain ⟨older, gen, he⟩ := List.eq_nil_or_concat R.generations |>.resolve_left hg
    rw [List.concat_eq_append] at he
    have hnew : R.publish.generations = older ++ [gen ++ [R.builder]] := by
      simp [BlockRing.publish, he, List.modifyLast_concat]
    rw [hnew]
    rw [he] at ih
    intro g hgm block hblock
    rcases List.mem_append.mp hgm with hgm | hgm
    · exact ih g (List.mem_append_left _ hgm) block hblock
    · rw [List.mem_singleton.mp hgm] at hblock
      rcases List.mem_append.mp hblock with hblock | hblock
      · exact ih gen (List.mem_append_right _ (List.mem_singleton_self _)) block hblock
      · rw [List.mem_singleton.mp hblock]
        exact ⟨hb, hf⟩
  | rotate h hb ih =>
    intro g hgm block hblock
    rcases List.mem_append.mp hgm with hgm | hgm
    · exact ih g hgm block hblock
    · rw [List.mem_singleton.mp hgm] at hblock
      cases hblock
  | discard h ih => exact ih

end

/-! ## What is kept -/

section
variable {β : Type}

/-- The numbers of the newest generations, at most `count` of them; the first generation is 1. -/
def generationsKept (count : Nat) (gens : List β) : List Nat :=
  (List.range' 1 gens.length).drop (gens.length - count)

/-- The blocks of the newest generations, each with the number of its generation and its own. -/
def numbered (count : Nat) (gens : List (List β)) : List (Nat × Nat × β) :=
  ((gens.zipIdx 1).drop (gens.length - count)).flatMap fun gen =>
    gen.1.zipIdx.map fun block => (gen.2, block.2, block.1)

end

end BlockRing

end ByteLib
