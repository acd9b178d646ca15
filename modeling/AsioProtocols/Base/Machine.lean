import Mathlib.Data.List.Basic

/-!
# Runs of a state machine

A state machine is a step function `step : σ → ε → Option σ`: the state after
an event, or `none` where the event cannot happen. `Run step ok s t` says that
`t` is reached from `s` by events that each satisfy `ok` in the state they
happen in; the plain runs are those with `ok` everywhere true.

`Run.invariant` is the induction every safety theorem goes through: a property
that one step preserves holds at the end of every run. `Run.of_exec` turns the
evaluation of a concrete list of events into a run.

`Run.simulated` is the induction of a refinement: seen through an abstraction, each step
is a step of another machine or leaves its state alone.

`recorded step record` is the machine with a history that its steps write and never read.

`Concludes step stop P s` is about all runs at once: whatever happens from `s` on, a
state that satisfies `stop` is reached, and `P` holds there. `Concludes.of_measure`
proves it from an invariant, a step that is left, and a measure; `Concludes.never`
refutes it by an invariant that keeps away from the end.
-/

namespace AsioProtocols

variable {σ ε : Type*}

/-- `t` is reached from `s` by events that satisfy `ok` where they happen. -/
inductive Run (step : σ → ε → Option σ) (ok : σ → ε → Prop) : σ → σ → Prop
  | refl (s : σ) : Run step ok s s
  | tail {s t u : σ} {e : ε} (run : Run step ok s t) (allowed : ok t e)
      (stepped : step t e = some u) : Run step ok s u

/-- Every event is allowed: the side condition of the plain runs. -/
def anyEvent (_ : σ) (_ : ε) : Prop := True

namespace Run

variable {step : σ → ε → Option σ} {ok ok' : σ → ε → Prop} {s t u : σ}

/-- **The induction over a run**: what holds at the start and is preserved by
every allowed step holds at the end. -/
theorem invariant {P : σ → Prop} (run : Run step ok s t) (start : P s)
    (preserved : ∀ {t u : σ} {e : ε}, P t → ok t e → step t e = some u → P u) : P t := by
  induction run with
  | refl => exact start
  | tail _ allowed stepped ih => exact preserved ih allowed stepped

/-- Another side condition allows the run if it follows where an invariant holds. -/
theorem mono_of_invariant {P : σ → Prop} (run : Run step ok s t) (start : P s)
    (preserved : ∀ {t u : σ} {e : ε}, P t → ok t e → step t e = some u → P u)
    (h : ∀ {t u : σ} {e : ε}, P t → ok t e → step t e = some u → ok' t e) : Run step ok' s t := by
  induction run with
  | refl => exact .refl _
  | tail run allowed stepped ih =>
    exact .tail ih (h (run.invariant start preserved) allowed stepped) stepped

theorem trans (first : Run step ok s t) (second : Run step ok t u) : Run step ok s u := by
  induction second with
  | refl => exact first
  | tail _ allowed stepped ih => exact .tail ih allowed stepped

/-- **Forward simulation**, where an invariant holds: the run is one of the other machine,
seen through the abstraction. -/
theorem simulated {σ' ε' : Type*} {step' : σ' → ε' → Option σ'} {P : σ → Prop}
    (run : Run step ok s t) (abs : σ → σ') (start : P s)
    (preserved : ∀ {t u : σ} {e : ε}, P t → ok t e → step t e = some u → P u)
    (simulates : ∀ {t u : σ} {e : ε}, P t → ok t e → step t e = some u →
      abs u = abs t ∨ ∃ e', step' (abs t) e' = some (abs u)) :
    Run step' anyEvent (abs s) (abs t) := by
  induction run with
  | refl => exact .refl _
  | tail run allowed stepped ih =>
    have hP := run.invariant start preserved
    rcases simulates hP allowed stepped with hsame | ⟨e', hstep⟩
    · exact hsame ▸ ih
    · exact ih.tail trivial hstep

end Run

/-- The machine with a history: a step from `s` to `t` by `e` turns the history `h` into
`record s e t h`. -/
def recorded {η : Type*} (step : σ → ε → Option σ) (record : σ → ε → σ → η → η) (s : σ × η)
    (e : ε) : Option (σ × η) :=
  (step s.1 e).map fun t => (t, record s.1 e t s.2)

/-- The induction over a run with a history: `P` is about the states alone. -/
theorem Run.invariant_recorded {η : Type*} {step : σ → ε → Option σ} {record : σ → ε → σ → η → η}
    {ok : σ × η → ε → Prop} {s t : σ × η} {P : σ → Prop} {Q : σ → η → Prop}
    (run : Run (recorded step record) ok s t) (start : P s.1 ∧ Q s.1 s.2)
    (states : ∀ {s t : σ} {e : ε}, P s → step s e = some t → P t)
    (history : ∀ {s t : σ} {h : η} {e : ε}, P s → Q s h → ok (s, h) e → step s e = some t →
      Q t (record s e t h)) : P t.1 ∧ Q t.1 t.2 := by
  refine run.invariant (P := fun s => P s.1 ∧ Q s.1 s.2) start ?_
  rintro ⟨s, h⟩ t e ⟨hP, hQ⟩ allowed stepped
  obtain ⟨u, hu, rfl⟩ := Option.map_eq_some_iff.mp stepped
  exact ⟨states hP hu, history hP hQ allowed hu⟩

/-- Every run from `s` can go on until it satisfies `stop`, comes to that, and
satisfies `P` when it does. -/
inductive Concludes (step : σ → ε → Option σ) (stop P : σ → Prop) : σ → Prop
  | stopped {s : σ} (stops : stop s) (holds : P s) : Concludes step stop P s
  | going {s : σ} (goesOn : ¬ stop s) (possible : ∃ e t, step s e = some t)
      (later : ∀ e t, step s e = some t → Concludes step stop P t) : Concludes step stop P s

namespace Concludes

variable {step : σ → ε → Option σ} {stop P : σ → Prop} {s : σ}

/-- **Coming to an end**, by an invariant that leaves a step to take and a measure
that every step makes smaller. -/
theorem of_measure (Inv : σ → Prop) (μ : σ → Nat)
    (holds : ∀ s, Inv s → stop s → P s)
    (possible : ∀ s, Inv s → ¬ stop s → ∃ e t, step s e = some t)
    (preserved : ∀ s e t, Inv s → ¬ stop s → step s e = some t → Inv t ∧ (stop t ∨ μ t < μ s))
    (start : Inv s) : Concludes step stop P s := by
  induction hn : μ s using Nat.strongRecOn generalizing s with
  | _ n ih =>
    by_cases hstop : stop s
    · exact .stopped hstop (holds s start hstop)
    · refine .going hstop (possible s start hstop) fun e t hstep => ?_
      obtain ⟨hinv, hend | hlt⟩ := preserved s e t start hstop hstep
      · exact .stopped hend (holds t hinv hend)
      · exact ih (μ t) (hn ▸ hlt) hinv rfl

/-- Where there is no step, the end has come. -/
theorem of_stuck (h : Concludes step stop P s) (stuck : ∀ e, step s e = none) : stop s ∧ P s := by
  cases h with
  | stopped stops holds => exact ⟨stops, holds⟩
  | going _ possible _ =>
    obtain ⟨e, t, hstep⟩ := possible
    rw [stuck e] at hstep
    cases hstep

/-- What holds at the end of every run follows from what holds there. -/
theorem mono {Q : σ → Prop} (h : Concludes step stop P s) (hPQ : ∀ s, P s → Q s) :
    Concludes step stop Q s := by
  induction h with
  | stopped stops holds => exact .stopped stops (hPQ _ holds)
  | going goesOn possible _ ih => exact .going goesOn possible ih

/-- A run of a machine that makes fewer steps ends where the other machine can end. -/
theorem meet {step' : σ → ε → Option σ} {Q : σ → Prop} (h : Concludes step stop P s)
    (h' : Concludes step' stop Q s) (fewer : ∀ s e t, step' s e = some t → step s e = some t) :
    ∃ t, stop t ∧ P t ∧ Q t := by
  induction h' with
  | stopped stops holds =>
    cases h with
    | stopped _ holds' => exact ⟨_, stops, holds', holds⟩
    | going goesOn _ _ => exact absurd stops goesOn
  | going goesOn possible _ ih =>
    cases h with
    | stopped stops _ => exact absurd stops goesOn
    | going _ _ later =>
      obtain ⟨e, t, hstep⟩ := possible
      exact ih e t hstep (later e t (fewer _ e t hstep))

/-- **Never coming to an end**, by an invariant that keeps away from it. -/
theorem never (Inv : σ → Prop) (away : ∀ s, Inv s → ¬ stop s)
    (preserved : ∀ s e t, Inv s → step s e = some t → Inv t) (start : Inv s) :
    ¬ Concludes step stop P s := by
  intro h
  induction h with
  | stopped stops _ => exact away _ start stops
  | going _ possible _ ih =>
    obtain ⟨e, t, hstep⟩ := possible
    exact ih e t hstep (preserved _ e t start hstep)

theorem of_stop (h : Concludes step stop P s) (hstop : stop s) : P s := by
  cases h with
  | stopped _ holds => exact holds
  | going goesOn _ _ => exact absurd hstop goesOn

end Concludes

/-- The state after a list of events, `none` as soon as one cannot happen. -/
def exec (step : σ → ε → Option σ) (s : σ) : List ε → Option σ
  | [] => some s
  | e :: es => (step s e).bind (exec step · es)

/-- What evaluates is a run, provided each of its events is allowed anywhere. -/
theorem Run.of_exec_mem {step : σ → ε → Option σ} {ok : σ → ε → Prop} :
    ∀ {s t : σ} (es : List ε), (∀ e ∈ es, ∀ s, ok s e) → exec step s es = some t → Run step ok s t
  | s, t, [], _, hex => by
    obtain rfl : s = t := by simpa [exec] using hex
    exact .refl _
  | s, t, e :: es, h, hex => by
    obtain ⟨m, hm, hrest⟩ := Option.bind_eq_some_iff.mp hex
    have later := of_exec_mem es (fun e he => h e (List.mem_cons_of_mem _ he)) hrest
    exact (Run.tail (.refl s) (h e List.mem_cons_self s) hm).trans later

/-- What evaluates is a run where every event is allowed. -/
theorem Run.of_exec {step : σ → ε → Option σ} {ok : σ → ε → Prop} (h : ∀ s e, ok s e) {s t : σ}
    (es : List ε) (hex : exec step s es = some t) : Run step ok s t :=
  of_exec_mem es (fun e _ s => h s e) hex

/-- A step function that refuses the events `ok` does not allow. -/
def guarded (step : σ → ε → Option σ) (ok : σ → ε → Prop) [∀ s e, Decidable (ok s e)]
    (s : σ) (e : ε) : Option σ :=
  if ok s e then step s e else none

/-- Evaluation under the guard gives a run with the side condition. -/
theorem Run.of_guarded {step : σ → ε → Option σ} {ok : σ → ε → Prop}
    [∀ s e, Decidable (ok s e)] :
    ∀ {s t : σ} (es : List ε), exec (guarded step ok) s es = some t → Run step ok s t
  | s, t, [], hex => by
    obtain rfl : s = t := by simpa [exec] using hex
    exact .refl _
  | s, t, e :: es, hex => by
    obtain ⟨m, hm, hrest⟩ := Option.bind_eq_some_iff.mp hex
    obtain ⟨hok, hstep⟩ := Option.ite_none_right_eq_some.mp hm
    exact (Run.tail (.refl s) hok hstep).trans (of_guarded es hrest)

end AsioProtocols
