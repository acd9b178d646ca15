import Mathlib.Logic.Function.Basic
import AsioProtocols.Base.Bytes
import AsioProtocols.Base.Future
import AsioProtocols.Http.ConnectionPool

/-!
# The futures of the responses

Every response has a `completion()` future, made with it, and a
`current_completion()` future that `response::reset()` replaces
(`http/response.h`). Those futures, numbered in the order they are made, are the
*attempts*; the callback on an attempt is the client's
`completion_handler(endpoint, res, retry)`, recorded as the pair `(res, retry)`.

`history` is a history variable: who settled which attempt, what `on_completion`
was asked and answered, and which attempt settled `completion()`.
-/

namespace AsioProtocols

abbrev AttemptId := Nat

/-- What the slots of `on_completion` answer: `true`, `false` (retry), or an
exception. -/
inductive Verdict
  | accept
  | retry
  | throw (what : Bytes)
  deriving DecidableEq, Repr

/-- The history of the futures: connection `c` settled attempt `a` of response
`r`; `on_completion` was called with a retry number; `completion()` was settled
on account of attempt `a`. -/
inductive Deed
  | settled (c : ConnId) (r : RespId) (a : AttemptId)
  | asked (r : RespId) (a : AttemptId) (retry : Nat) (v : Verdict)
  | completed (r : RespId) (a : AttemptId)
  deriving DecidableEq, Repr

/-- The futures of all responses. Nothing in the program attaches a callback to
a `completion()`, so its outcome is all there is of it. -/
structure Completions where
  attempts : AttemptId → Future Nat (RespId × Nat) := fun _ => {}
  nattempts : Nat := 0
  current : RespId → AttemptId := fun _ => 0
  completion : RespId → Option (Outcome Nat) := fun _ => none
  nresponses : Nat := 0
  history : List Deed := []

namespace Completions

/-- `res->current_completion()->is_ready()` -/
def isReady (k : Completions) (r : RespId) : Bool := (k.attempts (k.current r)).isReady

/-- The futures of a new response, and the handler for retry 0
(client.h, lines 97-101). -/
def create (k : Completions) : Completions × RespId :=
  ({ k with
      attempts := Function.update k.attempts k.nattempts (Future.attach {} (k.nresponses, 0))
      nattempts := k.nattempts + 1
      current := Function.update k.current k.nresponses k.nattempts
      completion := Function.update k.completion k.nresponses none
      nresponses := k.nresponses + 1 }, k.nresponses)

/-- `reset()` makes a new attempt, and the handler for the next retry goes on it
(client.h, lines 71-72). -/
def reset (k : Completions) (r : RespId) (retry : Nat) : Completions :=
  { k with
      attempts := Function.update k.attempts k.nattempts (Future.attach {} (r, retry))
      nattempts := k.nattempts + 1
      current := Function.update k.current r k.nattempts }

/-- Connection `c` settles `res->current_completion()`; the handlers to run come
back. -/
def settle (k : Completions) (c : ConnId) (r : RespId) (o : Outcome Nat) :
    Option (Completions × List (RespId × Nat)) :=
  match (k.attempts (k.current r)).settle o with
  | none => none
  | some (f, tasks) =>
    some ({ k with
      attempts := Function.update k.attempts (k.current r) f
      history := k.history ++ [.settled c r (k.current r)] }, tasks)

/-- `on_completion` is called. -/
def ask (k : Completions) (r : RespId) (a : AttemptId) (retry : Nat) (v : Verdict) :
    Completions :=
  { k with history := k.history ++ [.asked r a retry v] }

/-- `res->completion()` is settled; an error when it already is. -/
def complete (k : Completions) (r : RespId) (a : AttemptId) (o : Outcome Nat) :
    Option Completions :=
  match k.completion r with
  | some _ => none
  | none =>
    some { k with
      completion := Function.update k.completion r (some o)
      history := k.history ++ [.completed r a] }

end Completions

/-! ## The history of one response or attempt -/

/-- The note that attempt `a` was settled. -/
def Deed.settles (a : AttemptId) : Deed → Bool
  | .settled _ _ b => b == a
  | _ => false

/-- The note that `completion()` of `r` was settled. -/
def Deed.completes (r : RespId) : Deed → Bool
  | .completed s _ => s == r
  | _ => false

/-- The retry number of a call of `on_completion` for `r`. -/
def Deed.retryOf (r : RespId) : Deed → Option Nat
  | .asked s _ n _ => if s = r then some n else none
  | _ => none

/-- The retry numbers `on_completion` was called with for `r`, in order. -/
def retries (r : RespId) (history : List Deed) : List Nat := history.filterMap (Deed.retryOf r)

section retries

variable (r s : RespId) (history : List Deed) (a : AttemptId)

@[simp] theorem retries_settled (c : ConnId) :
    retries r (history ++ [.settled c s a]) = retries r history := by
  simp [retries, List.filterMap_cons, Deed.retryOf]

@[simp] theorem retries_completed :
    retries r (history ++ [.completed s a]) = retries r history := by
  simp [retries, List.filterMap_cons, Deed.retryOf]

theorem retries_asked (n : Nat) (v : Verdict) :
    retries r (history ++ [.asked r a n v]) = retries r history ++ [n] := by
  simp [retries, Deed.retryOf]

theorem retries_asked_of_ne {r s : RespId} (h : r ≠ s) (n : Nat) (v : Verdict) :
    retries s (history ++ [.asked r a n v]) = retries s history := by
  simp [retries, Deed.retryOf, h]

end retries

end AsioProtocols
