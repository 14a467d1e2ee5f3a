import TFDB.Lib.Bytes

/-!
# Status values

The outcome type of every operation: a code and a diagnostic text.  An operation of the
source that returns a `Status` and fills outputs is an `Except Status` here; `Status` as a
value of its own stays where the source stores one (the latched fault, the detail of a gap
event).
-/

set_option autoImplicit false

namespace TFDB

inductive StatusCode
  | ok | invalidArgument | outOfRange | ioError | interrupted | noSpace | corrupt
  | unsupported | notFound | busy | overwritten | generationExhausted | closed | internalError
  deriving DecidableEq, Repr

structure Status where
  code : StatusCode := .ok
  message : String := ""
  deriving DecidableEq, Repr

namespace Status

def isOk (s : Status) : Bool := s.code == .ok

/-- The codes that abort recovery and queries instead of becoming a gap. -/
def isIo (s : Status) : Bool := s.code == .ioError || s.code == .interrupted

end Status

/-- Leave with an error. -/
def failWith {α : Type} (code : StatusCode) (message : String) : Except Status α :=
  .error ⟨code, message⟩

/-- The status of an outcome. -/
def statusOf {α : Type} : Except Status α → Status
  | .ok _ => {}
  | .error e => e

@[simp] theorem failWith_ne_ok {α : Type} {c : StatusCode} {m : String} {a : α} :
    failWith c m ≠ .ok a := by
  simp [failWith]

@[simp] theorem failWith_eq_error {α : Type} {c : StatusCode} {m : String} {e : Status} :
    (failWith c m : Except Status α) = .error e ↔ e = ⟨c, m⟩ := by
  simp [failWith, eq_comm]

theorem bind_ok_inv {α β : Type} {x : Except Status α} {f : α → Except Status β} {b : β}
    (h : x.bind f = .ok b) : ∃ a, x = .ok a ∧ f a = .ok b := by
  cases x with
  | ok a => exact ⟨a, rfl, h⟩
  | error e => cases h

end TFDB
