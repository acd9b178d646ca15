import AsioProtocols.Base.Future
import Mathlib.Data.List.InsertIdx
import Mathlib.Data.List.Nodup

/-!
# Operations that owe a future each

A call makes a future and starts an operation whose handlers are to settle it, or settles it
at once. `Promises` keeps the futures in the order in which they were made, and the operations
outstanding, each with the number of its future. An operation can be followed by another for
the same future (`next`) or end and settle it (`finish`).

What one wants of it (`Honest`) is said of a diary, the calls made and what the handlers were
told: nothing is outstanding for a future that is settled, one operation is for each that is
not, every future is settled at most once, and with the verdict on what its own handler was
told. Each operation keeps it, whatever the order; and `finish` never finds its future
settled (`Honest.finish_isSome`).
-/

namespace AsioProtocols

/-- Futures of an `α`; an operation outstanding carries a `ρ`. -/
structure Promises (α ρ : Type) where
  futures : List (Future α Empty) := []
  outstanding : List (Nat × ρ) := []

/-- The calls made, and what was told to the handlers, each with the number of its future. -/
structure Diary (κ τ : Type) where
  calls : List κ := []
  told : List (Nat × τ) := []

namespace Diary

variable {κ τ : Type}

def call (d : Diary κ τ) (c : κ) : Diary κ τ := { d with calls := d.calls ++ [c] }

def tell (d : Diary κ τ) (n : Nat) (x : τ) : Diary κ τ := { d with told := d.told ++ [(n, x)] }

/-- The calls made before keep their numbers. -/
theorem getElem?_call {d : Diary κ τ} {n : Nat} {c : κ} (h : d.calls[n]? = some c) (c' : κ) :
    (d.call c').calls[n]? = some c := by
  rw [call, List.getElem?_append_left (List.getElem?_eq_some_iff.mp h).1]
  exact h

end Diary

namespace Promises

variable {α ρ κ τ : Type}

/-- What became of the future numbered `n`. -/
def outcome (l : Promises α ρ) (n : Nat) : Option (Outcome α) := l.futures[n]?.bind Future.outcome

/-- The futures that have an operation outstanding. -/
def owed (l : Promises α ρ) : List Nat := l.outstanding.map Prod.fst

/-- A call that starts an operation. -/
def start (l : Promises α ρ) (x : ρ) : Promises α ρ where
  futures := l.futures ++ [{}]
  outstanding := l.outstanding ++ [(l.futures.length, x)]

/-- A call that settles its future before it returns. -/
def refuse (l : Promises α ρ) (o : Outcome α) : Promises α ρ :=
  { l with futures := l.futures ++ [{ outcome := some o }] }

/-- The handler at `i` starts another operation for the same future. -/
def next (l : Promises α ρ) (i : Nat) (x : ρ) : Option (Promises α ρ) := do
  let op ← l.outstanding[i]?
  some { l with outstanding := l.outstanding.set i (op.1, x) }

/-- The handler at `i` settles its future. -/
def finish (l : Promises α ρ) (i : Nat) (o : Outcome α) : Option (Promises α ρ) := do
  let op ← l.outstanding[i]?
  let f ← l.futures[op.1]?
  let settled ← f.settle o
  some { futures := l.futures.set op.1 settled.1, outstanding := l.outstanding.eraseIdx i }

/-- **What a caller relies on**, where `verdict c x` is how the future of the call `c` is to
settle when its handler is told `x`. -/
structure Honest (verdict : κ → τ → Outcome α) (l : Promises α ρ) (d : Diary κ τ) : Prop where
  numbered : d.calls.length = l.futures.length
  single : l.owed.Nodup
  owed_iff : ∀ n, n ∈ l.owed ↔ n < l.futures.length ∧ l.outcome n = none
  known : ∀ p ∈ d.told, p.1 < l.futures.length
  once : (d.told.map Prod.fst).Nodup
  settled_iff : ∀ n o, l.outcome n = some o ↔
    ∃ c x, d.calls[n]? = some c ∧ (n, x) ∈ d.told ∧ o = verdict c x

variable {verdict : κ → τ → Outcome α} {l l' : Promises α ρ} {d : Diary κ τ} {i n : Nat}
  {o : Outcome α}

/-! ## What each operation does to a future -/

theorem outcome_append {f : Future α Empty} {ops : List (Nat × ρ)} :
    outcome { futures := l.futures ++ [f], outstanding := ops } n =
      if n = l.futures.length then f.outcome else l.outcome n := by
  unfold outcome
  rcases Nat.lt_trichotomy n l.futures.length with h | h | h
  · rw [List.getElem?_append_left h, if_neg (by omega)]
  · simp [h]
  · rw [List.getElem?_eq_none (by simp; omega), if_neg (by omega), List.getElem?_eq_none (by omega)]

theorem outcome_of_length_le (h : l.futures.length ≤ n) : l.outcome n = none := by
  rw [outcome, List.getElem?_eq_none h, Option.bind_none]

/-- A future is pending when its operation starts. -/
@[simp] theorem outcome_start (x : ρ) : (l.start x).outcome n = l.outcome n := by
  rw [start, outcome_append]
  split_ifs with h
  · rw [outcome_of_length_le (Nat.le_of_eq h.symm)]
  · rfl

theorem outcome_refuse : (l.refuse o).outcome n =
    if n = l.futures.length then some o else l.outcome n := by
  rw [refuse, outcome_append]

/-- **The inversion of `next`.** -/
theorem next_eq_some {x : ρ} (h : l.next i x = some l') : ∃ m y, l.outstanding[i]? = some (m, y) ∧
    l' = { l with outstanding := l.outstanding.set i (m, x) } := by
  obtain ⟨⟨m, y⟩, hop, h⟩ := Option.bind_eq_some_iff.mp h
  exact ⟨m, y, hop, (Option.some.inj h).symm⟩

/-- **The inversion of `finish`.** The future was pending. -/
theorem finish_eq_some (h : l.finish i o = some l') : ∃ m x, l.outstanding[i]? = some (m, x) ∧
    m < l.futures.length ∧ l.outcome m = none ∧
    l' = { futures := l.futures.set m { outcome := some o }
           outstanding := l.outstanding.eraseIdx i } := by
  obtain ⟨⟨m, x⟩, hop, h⟩ := Option.bind_eq_some_iff.mp h
  obtain ⟨f, hf, h⟩ := Option.bind_eq_some_iff.mp h
  obtain ⟨⟨g, ks⟩, hsettle, h⟩ := Option.bind_eq_some_iff.mp h
  obtain ⟨hpending, rfl, -⟩ := Future.settle_eq_some_iff.mp hsettle
  refine ⟨m, x, hop, (List.getElem?_eq_some_iff.mp hf).1, ?_, (Option.some.inj h).symm⟩
  rw [outcome, hf]
  exact hpending

theorem owed_set {m : Nat} {x y : ρ} (hop : l.outstanding[i]? = some (m, y)) :
    ({ l with outstanding := l.outstanding.set i (m, x) } : Promises α ρ).owed = l.owed := by
  obtain ⟨hi, hget⟩ := List.getElem?_eq_some_iff.mp hop
  have hi' : i < (l.outstanding.map Prod.fst).length := by simpa using hi
  have hm : (l.outstanding.map Prod.fst)[i] = m := by simp [hget]
  simp only [owed, List.map_set]
  rw [← hm, List.set_getElem_self]

/-- What is owed once the operation at `i` is over. -/
theorem mem_owed_eraseIdx {m k : Nat} {x : ρ} {futures : List (Future α Empty)}
    (hsingle : l.owed.Nodup) (hop : l.outstanding[i]? = some (m, x)) :
    k ∈ owed { futures, outstanding := l.outstanding.eraseIdx i } ↔ k ≠ m ∧ k ∈ l.owed := by
  obtain ⟨hi, hget⟩ := List.getElem?_eq_some_iff.mp hop
  have hi' : i < l.owed.length := by simpa [owed] using hi
  have hm : l.owed[i] = m := by simp [owed, hget]
  have herase : (l.outstanding.eraseIdx i).map Prod.fst = l.owed.erase m := by
    rw [← hm, hsingle.erase_getElem, owed, ← List.eraseIdx_map]
  rw [owed, herase, hsingle.mem_erase_iff]

theorem outcome_set {m : Nat} {ops : List (Nat × ρ)} (hm : m < l.futures.length) :
    outcome { futures := l.futures.set m { outcome := some o }, outstanding := ops } n =
      if n = m then some o else l.outcome n := by
  unfold outcome
  by_cases h : n = m
  · subst h
    simp [hm]
  · rw [if_neg h, List.getElem?_set_ne (Ne.symm h)]

/-- **What `finish` does** to the other futures and operations. -/
theorem finish_spec {m k : Nat} {x : ρ} (hop : l.outstanding[i]? = some (m, x))
    (h : l.finish i o = some l') : l.outcome m = none ∧
      l'.outstanding = l.outstanding.eraseIdx i ∧
      l'.outcome k = if k = m then some o else l.outcome k := by
  obtain ⟨m', x', hop', hm, hpending, rfl⟩ := finish_eq_some h
  obtain ⟨rfl, rfl⟩ := Prod.mk.inj (Option.some.inj (hop.symm.trans hop'))
  exact ⟨hpending, rfl, outcome_set hm⟩

/-! ## What stays -/

theorem settled_refuse {o' : Outcome α} (h : l.outcome n = some o') :
    (l.refuse o).outcome n = some o' := by
  rw [outcome_refuse, if_neg, h]
  -- the future that is made now has no outcome before
  rintro rfl
  rw [outcome_of_length_le (Nat.le_refl _)] at h
  cases h

theorem settled_next {x : ρ} {o' : Outcome α} (h : l.outcome n = some o')
    (hnext : l.next i x = some l') : l'.outcome n = some o' := by
  obtain ⟨m, y, -, rfl⟩ := next_eq_some hnext
  exact h

theorem settled_finish {o' : Outcome α} (h : l.outcome n = some o')
    (hfinish : l.finish i o = some l') : l'.outcome n = some o' := by
  obtain ⟨m, x, -, hm, hpending, rfl⟩ := finish_eq_some hfinish
  rw [outcome_set hm, if_neg, h]
  rintro rfl
  rw [hpending] at h
  cases h

/-- Another operation is still outstanding. -/
theorem mem_outstanding_next {x : ρ} {p : Nat × ρ} (h : p ∈ l.outstanding)
    (hother : l.outstanding[i]? ≠ some p) (hnext : l.next i x = some l') :
    p ∈ l'.outstanding := by
  obtain ⟨m, y, -, rfl⟩ := next_eq_some hnext
  obtain ⟨j, hj⟩ := List.mem_iff_getElem?.mp h
  have hne : i ≠ j := by
    rintro rfl
    exact hother hj
  exact List.mem_of_getElem? ((List.getElem?_set_ne hne).trans hj)

theorem mem_outstanding_finish {p : Nat × ρ} (h : p ∈ l.outstanding)
    (hother : l.outstanding[i]? ≠ some p) (hfinish : l.finish i o = some l') :
    p ∈ l'.outstanding := by
  obtain ⟨m, x, -, -, -, rfl⟩ := finish_eq_some hfinish
  obtain ⟨j, hj⟩ := List.mem_iff_getElem?.mp h
  refine List.mem_eraseIdx_iff_getElem?.mpr ⟨j, ?_, hj⟩
  rintro rfl
  exact hother hj

namespace Honest

theorem empty : Honest verdict ({} : Promises α ρ) ({} : Diary κ τ) where
  numbered := rfl
  single := List.nodup_nil
  owed_iff := by simp [owed]
  known := by simp
  once := List.nodup_nil
  settled_iff := by simp [outcome]

/-- The handlers of a pending future were told nothing that ends it. -/
theorem untold (h : Honest verdict l d) (hnone : l.outcome n = none) :
    n ∉ d.told.map Prod.fst := by
  intro hmem
  obtain ⟨⟨m, x⟩, hx, rfl⟩ := List.mem_map.mp hmem
  have hm : m < d.calls.length := by
    rw [h.numbered]
    exact h.known _ hx
  have hsettled := (h.settled_iff m _).mpr ⟨_, x, List.getElem?_eq_getElem hm, hx, rfl⟩
  rw [hnone] at hsettled
  cases hsettled

/-- The number of a call that is made now is new. -/
theorem fresh (h : Honest verdict l d) : l.futures.length ∉ l.owed := by
  intro hmem
  exact absurd ((h.owed_iff _).mp hmem).1 (Nat.lt_irrefl _)

/-- Of the calls made before, one more call changes nothing. -/
theorem getElem?_call (h : Honest verdict l d) (c : κ) : (d.call c).calls[n]? =
    if n = l.futures.length then some c else d.calls[n]? := by
  rw [← h.numbered, Diary.call]
  rcases Nat.lt_trichotomy n d.calls.length with hn | hn | hn
  · rw [List.getElem?_append_left hn, if_neg (by omega)]
  · simp [hn]
  · rw [List.getElem?_eq_none (by simp; omega), if_neg (by omega), List.getElem?_eq_none (by omega)]

/-- **A call** that starts an operation. -/
theorem start (h : Honest verdict l d) (c : κ) (x : ρ) :
    Honest verdict (l.start x) (d.call c) where
  numbered := by simp [Diary.call, Promises.start, h.numbered]
  single := by
    simp only [owed, Promises.start, List.map_append, List.map_cons, List.map_nil]
    exact List.nodup_append.mpr ⟨h.single, by simp, by
      rintro a ha b hb rfl
      rw [List.mem_singleton] at hb
      exact h.fresh (hb ▸ ha)⟩
  owed_iff n := by
    have howed : n ∈ (l.start x).owed ↔ n ∈ l.owed ∨ n = l.futures.length := by
      simp [owed, Promises.start]
    rw [howed, h.owed_iff, Promises.start, outcome_append, List.length_append,
      List.length_singleton]
    split_ifs with hn
    · simp [hn]
    · constructor
      · rintro (⟨hlt, hnone⟩ | hn')
        · exact ⟨by omega, hnone⟩
        · exact absurd hn' hn
      · rintro ⟨hlt, hnone⟩
        exact .inl ⟨by omega, hnone⟩
  known p hp := by
    have := h.known p hp
    simp only [Promises.start, List.length_append]
    omega
  once := h.once
  settled_iff n o := by
    rw [Promises.start, outcome_append]
    simp only [h.getElem?_call c]
    split_ifs with hn
    · constructor
      · rintro ⟨⟩
      · rintro ⟨c', y, -, hy, -⟩
        exact absurd (h.known _ hy) (by simp [hn])
    · exact h.settled_iff n o

/-- **A call** that is over when it returns. -/
theorem refuse (h : Honest verdict l d) (c : κ) (x : τ) :
    Honest verdict (l.refuse (verdict c x)) ((d.call c).tell l.futures.length x) where
  numbered := by simp [Diary.call, Diary.tell, Promises.refuse, h.numbered]
  single := h.single
  owed_iff n := by
    have howed : n ∈ (l.refuse (verdict c x)).owed ↔ n ∈ l.owed := Iff.rfl
    rw [howed, h.owed_iff, Promises.refuse, outcome_append, List.length_append,
      List.length_singleton]
    split_ifs with hn
    · simp [hn]
    · constructor
      · rintro ⟨hlt, hnone⟩
        exact ⟨by omega, hnone⟩
      · rintro ⟨hlt, hnone⟩
        exact ⟨by omega, hnone⟩
  known p hp := by
    simp only [Promises.refuse, List.length_append, List.length_singleton]
    rcases List.mem_append.mp hp with hp | hp
    · have := h.known p hp
      omega
    · rw [List.mem_singleton.mp hp]
      exact Nat.lt_succ_self _
  once := by
    simp only [Diary.tell, Diary.call, List.map_append, List.map_cons, List.map_nil]
    exact List.nodup_append.mpr ⟨h.once, by simp, by
      rintro a ha b hb rfl
      rw [List.mem_singleton] at hb
      subst hb
      exact h.untold (outcome_of_length_le (Nat.le_refl _)) ha⟩
  settled_iff n o := by
    rw [Promises.refuse, outcome_append]
    have hcalls := h.getElem?_call (n := n) c
    simp only [Diary.tell, hcalls, List.mem_append, List.mem_singleton, Prod.mk.injEq]
    split_ifs with hn
    · constructor
      · intro ho
        exact ⟨c, x, rfl, .inr ⟨hn, rfl⟩, (Option.some.inj ho).symm⟩
      · rintro ⟨c', y, hc, hy | ⟨-, rfl⟩, rfl⟩
        · exact absurd (h.known _ hy) (by simp [hn])
        · rw [Option.some.inj hc]
    · rw [h.settled_iff]
      simp [hn, Diary.call]

/-- **A handler goes on** with another operation. -/
theorem next {x : ρ} (h : Honest verdict l d) (hnext : l.next i x = some l') :
    Honest verdict l' d := by
  obtain ⟨m, y, hop, rfl⟩ := next_eq_some hnext
  have howed := owed_set (x := x) hop
  exact {
    numbered := h.numbered
    single := by
      rw [howed]
      exact h.single
    owed_iff n := by
      rw [howed]
      exact h.owed_iff n
    known := h.known
    once := h.once
    settled_iff := h.settled_iff }

/-- **A handler settles its future**, with the verdict on what it was told. -/
theorem finish {m : Nat} {x : ρ} {c : κ} {y : τ} (h : Honest verdict l d)
    (hop : l.outstanding[i]? = some (m, x)) (hcall : d.calls[m]? = some c)
    (hfinish : l.finish i (verdict c y) = some l') : Honest verdict l' (d.tell m y) := by
  obtain ⟨m', x', hop', hm, hpending, rfl⟩ := finish_eq_some hfinish
  obtain ⟨rfl, rfl⟩ := Prod.mk.inj (Option.some.inj (hop.symm.trans hop'))
  exact {
    numbered := by simpa [Diary.tell] using h.numbered
    single := by
      rw [owed, ← List.eraseIdx_map]
      exact h.single.eraseIdx _
    owed_iff n := by
      rw [mem_owed_eraseIdx h.single hop, h.owed_iff, outcome_set hm, List.length_set]
      split_ifs with hn <;> simp [hn]
    known p hp := by
      rw [List.length_set]
      rcases List.mem_append.mp hp with hp | hp
      · exact h.known p hp
      · rw [List.mem_singleton.mp hp]
        exact hm
    once := by
      simp only [Diary.tell, List.map_append, List.map_cons, List.map_nil]
      exact List.nodup_append.mpr ⟨h.once, by simp, by
        rintro a ha b hb rfl
        rw [List.mem_singleton] at hb
        subst hb
        exact h.untold hpending ha⟩
    settled_iff n o := by
      rw [outcome_set hm]
      simp only [Diary.tell, List.mem_append, List.mem_singleton, Prod.mk.injEq]
      split_ifs with hn
      · subst hn
        constructor
        · intro ho
          exact ⟨c, y, hcall, .inr ⟨rfl, rfl⟩, (Option.some.inj ho).symm⟩
        · rintro ⟨c', y', hc, hy | ⟨-, rfl⟩, rfl⟩
          · exact absurd (List.mem_map_of_mem (f := Prod.fst) hy) (h.untold hpending)
          · rw [Option.some.inj (hcall.symm.trans hc)]
      · rw [h.settled_iff]
        simp [hn] }

/-- **Nothing is settled twice.** A handler that settles its future finds it pending. -/
theorem finish_isSome (h : Honest verdict l d) (hi : i < l.outstanding.length) (o : Outcome α) :
    (l.finish i o).isSome := by
  have hop := List.getElem?_eq_getElem hi
  have hmem : l.outstanding[i].1 ∈ l.owed := List.mem_map_of_mem (List.getElem_mem hi)
  obtain ⟨hlt, hnone⟩ := (h.owed_iff _).mp hmem
  have hfuture := List.getElem?_eq_getElem hlt
  rw [outcome, hfuture, Option.bind_some] at hnone
  simp [Promises.finish, hop, hfuture, Future.settle_of_pending hnone]

/-- The call of an operation that is outstanding. -/
theorem call_of_outstanding (h : Honest verdict l d) {m : Nat} {x : ρ}
    (hop : l.outstanding[i]? = some (m, x)) : ∃ c, d.calls[m]? = some c := by
  have hmem : m ∈ l.owed := List.mem_map_of_mem (f := Prod.fst) (List.mem_of_getElem? hop)
  have hm : m < d.calls.length := by
    rw [h.numbered]
    exact ((h.owed_iff m).mp hmem).1
  exact ⟨_, List.getElem?_eq_getElem hm⟩

end Honest

end Promises

end AsioProtocols
