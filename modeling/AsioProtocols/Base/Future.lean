import Mathlib.Logic.Function.Basic

/-!
# Futures with synchronous callbacks

A future is pending until it is settled, once, with an outcome; callbacks
attached while it is pending run when it settles, in the order they were
attached and before the settling call returns. Callbacks are data here: `tasks`
lists descriptions of type `κ`, `settle` returns the ones to run and the caller
runs them. Settling a future that is already settled is an error, `none`.
-/

namespace AsioProtocols

/-- How a future settles. The text of a failure is a byte string. -/
inductive Outcome (α : Type)
  | done (value : α)
  | failed (err : List UInt8)
  | cancelled
  deriving DecidableEq, Repr

/-- A future of an `α`; `outcome` is `none` while it is pending. -/
structure Future (α κ : Type) where
  outcome : Option (Outcome α) := none
  tasks : List κ := []
  deriving Repr

namespace Future

variable {α κ : Type}

/-- Settled in any of the three ways. -/
def isReady (f : Future α κ) : Bool := f.outcome.isSome

/-- `f` with one more callback waiting for it. -/
def attach (f : Future α κ) (k : κ) : Future α κ := { f with tasks := f.tasks ++ [k] }

/-- Settle a pending future; the callbacks to run come back in order. -/
def settle (f : Future α κ) (o : Outcome α) : Option (Future α κ × List κ) :=
  match f.outcome with
  | none => some ({ outcome := some o, tasks := [] }, f.tasks)
  | some _ => none

@[simp] theorem isReady_attach (f : Future α κ) (k : κ) : (f.attach k).isReady = f.isReady := rfl

@[simp] theorem outcome_attach (f : Future α κ) (k : κ) : (f.attach k).outcome = f.outcome := rfl

@[simp] theorem tasks_attach (f : Future α κ) (k : κ) : (f.attach k).tasks = f.tasks ++ [k] := rfl

theorem not_isReady_iff (f : Future α κ) : f.isReady = false ↔ f.outcome = none := by
  cases h : f.outcome <;> simp [isReady, h]

/-- Settling succeeds exactly on a pending future, and what it does there. -/
theorem settle_eq_some_iff {f g : Future α κ} {o : Outcome α} {ks : List κ} :
    f.settle o = some (g, ks) ↔
      f.outcome = none ∧ g = { outcome := some o, tasks := [] } ∧ ks = f.tasks := by
  cases h : f.outcome <;> simp [settle, h, eq_comm]

theorem settle_of_pending {f : Future α κ} (h : f.outcome = none) (o : Outcome α) :
    f.settle o = some ({ outcome := some o, tasks := [] }, f.tasks) := by
  simp [settle, h]

end Future

end AsioProtocols
