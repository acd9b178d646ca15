import Mathlib.Computability.StateTransition

/-!
# A stream in segments

A reader has two moves: `arrive s a` is what it is once `a` has come in behind what it has,
and `handle s` what its handler makes of what is there, or `none` where it waits for more.
Segments come in when they like, and handlers run late. `TakesIn` collects the runs that
take in a given stream.

A reader is `Patient` if that makes no difference: a handler that runs before the rest of
the stream comes in leads where it leads behind it (`late`), and handlers come to an end
(`ends`). Then all runs that take in the same stream are led to one state, by their
handlers alone (`Patient.outcome`).
-/

namespace AsioProtocols

open StateTransition

variable {σ β : Type*} {arrive : σ → List β → σ} {handle : σ → Option σ}

/-- `t` is reached from `s` by taking `a` in, in some segments, and by handlers. -/
inductive TakesIn (arrive : σ → List β → σ) (handle : σ → Option σ) : σ → List β → σ → Prop
  | refl (s : σ) : TakesIn arrive handle s [] s
  | arrive {s t : σ} {a : List β} (run : TakesIn arrive handle s a t) (b : List β) :
      TakesIn arrive handle s (a ++ b) (arrive t b)
  | handle {s t u : σ} {a : List β} (run : TakesIn arrive handle s a t)
      (handled : handle t = some u) : TakesIn arrive handle s a u

/-- It makes no difference when segments come in and when handlers run. -/
structure Patient (arrive : σ → List β → σ) (handle : σ → Option σ) (Inv : σ → Prop)
    (μ : σ → Nat) : Prop where
  nil : ∀ {s}, Inv s → arrive s [] = s
  append : ∀ {s}, Inv s → ∀ a b, arrive (arrive s a) b = arrive s (a ++ b)
  arrives : ∀ {s}, Inv s → ∀ a, Inv (arrive s a)
  handles : ∀ {s t}, Inv s → handle s = some t → Inv t
  late : ∀ {s t}, Inv s → handle s = some t → ∀ a,
    eval handle (arrive s a) = eval handle (arrive t a)
  ends : ∀ {s t}, Inv s → handle s = some t → μ t < μ s

namespace Patient

variable {Inv : σ → Prop} {μ : σ → Nat} {s t : σ} {a : List β}

/-- **What a run makes of a stream is in the stream**: it leads where the stream leads when
all of it has come in at once. -/
theorem eval_eq (h : Patient arrive handle Inv μ) (run : TakesIn arrive handle s a t) (hs : Inv s) :
    Inv t ∧ ∀ b, eval handle (arrive s (a ++ b)) = eval handle (arrive t b) := by
  induction run with
  | refl => exact ⟨hs, fun b => rfl⟩
  | @arrive t a _ b ih =>
    obtain ⟨ht, heval⟩ := ih
    refine ⟨h.arrives ht b, fun c => ?_⟩
    rw [List.append_assoc, heval, h.append ht]
  | handle _ handled ih =>
    obtain ⟨ht, heval⟩ := ih
    exact ⟨h.handles ht handled, fun b => (heval b).trans (h.late ht handled b)⟩

/-- Handlers come to an end. -/
theorem exists_end (h : Patient arrive handle Inv μ) (hs : Inv s) :
    ∃ z, Inv z ∧ Reaches handle s z ∧ handle z = none := by
  induction hn : μ s using Nat.strongRecOn generalizing s with
  | _ n ih =>
    cases hstep : handle s with
    | none => exact ⟨s, hs, .refl, hstep⟩
    | some t =>
      obtain ⟨z, hz, hreaches, hend⟩ := ih (μ t) (hn ▸ h.ends hs hstep) (h.handles hs hstep) rfl
      exact ⟨z, hz, .head hstep hreaches, hend⟩

/-- **One outcome**: however a stream is cut, and whenever the handlers run, the handlers
that are left lead to the same state. -/
theorem outcome (h : Patient arrive handle Inv μ) (hs : Inv s) (a : List β) :
    ∃ z, Inv z ∧ handle z = none ∧ ∀ t, TakesIn arrive handle s a t → Reaches handle t z := by
  obtain ⟨z, hinv, hreaches, hend⟩ := h.exists_end (h.arrives hs a)
  refine ⟨z, hinv, hend, fun t run => ?_⟩
  obtain ⟨ht, heval⟩ := h.eval_eq run hs
  have hz : z ∈ eval handle (arrive s (a ++ [])) := by
    rw [List.append_nil]
    exact mem_eval.mpr ⟨hreaches, hend⟩
  rw [heval, h.nil ht] at hz
  exact (mem_eval.mp hz).1

end Patient

end AsioProtocols
