import Mathlib.Data.List.Nodup
import AsioProtocols.Http.ConnectionPool

/-!
# What `remove` takes out of the pool

`remove(conn)` is meant to drop the entries that are of no use any more, and
`erase` is given one iterator only. It then drops what it should in a pool with
exactly one such entry (`removesDead_iff`). With none, which is the case when
the connection never got established, `erase` is applied to the end iterator;
with several, all but one of them stay, as moved-from or repeated entries.

`Entries` says what is in `connections_` as long as `erase` is kept from the end
iterator: distinct futures made by `connect()`, each pending or done with its own
connection. Under it at most one entry matches the predicate of `remove(conn)`, so
the erase is the intended one exactly when some entry does (`prune_connections`).
-/

namespace AsioProtocols

namespace Pool

section

variable (p : Pool) (c : ConnId)

/-- An entry that is of no use: null, failed, cancelled, or done with `c`. -/
def Useless (e : Option FutId) : Prop :=
  e = none ∨ ∃ f, e = some f ∧ ((∃ err, (p.opened f).outcome = some (.failed err)) ∨
    (p.opened f).outcome = some .cancelled ∨ (p.opened f).outcome = some (.done c))

/-- The predicate of the `remove_if` says just that. -/
theorem dead_iff_useless (e : Option FutId) : p.dead c e = true ↔ p.Useless c e := by
  unfold Useless dead
  cases e with
  | none => simp
  | some f =>
    rcases hf : (p.opened f).outcome with _ | ⟨d⟩ | _ | _
    · simp [hf]
    · simp [hf]
    · simp [hf]
    · simp [hf]

instance : DecidablePred (p.Useless c) := fun e => decidable_of_iff _ (p.dead_iff_useless c e)

theorem filter_useful :
    p.connections.filter (fun e => ¬ p.Useless c e) = p.connections.filter fun e => !p.dead c e := by
  refine List.filter_congr fun e _ => ?_
  by_cases hdead : p.dead c e = true
  · simp [hdead, (p.dead_iff_useless c e).mp hdead]
  · simp [hdead, mt (p.dead_iff_useless c e).mpr hdead]

variable (eraseEnd : List (Option FutId) → List (Option FutId)) (valid : ConnId → Bool)

/-- The useless entries leave and the others stay in their order, and the
iterator given to `erase` is not the end iterator. -/
structure RemovesDead : Prop where
  connections : (p.prune eraseEnd valid c).connections =
    p.connections.filter fun e => ¬ p.Useless c e
  notAtEnd : (removeIf (p.dead c) none p.connections).2 ≠ []

/-- **`remove` does what it should** exactly if one entry is useless. -/
theorem removesDead_iff :
    p.RemovesDead c eraseEnd valid ↔ p.connections.countP (p.dead c) = 1 := by
  have htail := removeIf_tail_length (p.dead c) none p.connections
  constructor
  · intro h
    have hconn := h.connections
    rw [filter_useful] at hconn
    exact (eraseAt_removeIf_eq_filter_iff eraseEnd h.notAtEnd).mp hconn
  · intro hone
    refine ⟨?_, ?_⟩
    · rw [filter_useful]
      exact eraseAt_removeIf_of_count_one eraseEnd hone
    · intro hnil
      rw [hone, hnil] at htail
      cases htail

/-- One connection, which failed to be established: its entry is pending, and
`erase` is applied to the end iterator. Two null entries: one of them stays. -/
theorem not_removesDead :
    ¬ ({ connections := [some 0] } : Pool).RemovesDead 0 id (fun _ => true) ∧
      ¬ ({ connections := [none, none] } : Pool).RemovesDead 0 id (fun _ => true) := by
  constructor
  · intro h
    exact absurd h.notAtEnd (by decide)
  · intro h
    exact absurd h.connections (by decide)

end

/-! ## The entries that `connect()` makes -/

/-- The entries of `connections_`. -/
structure Entries (p : Pool) : Prop where
  nodup : p.connections.Nodup
  made : ∀ e ∈ p.connections, ∃ f, f < p.created ∧ e = some f
  outcome : ∀ f, (p.opened f).outcome = none ∨ (p.opened f).outcome = some (.done f)

theorem Entries.empty : Entries {} where
  nodup := List.nodup_nil
  made := fun _ h => absurd h List.not_mem_nil
  outcome := fun _ => .inl rfl

/-- A connection that `connect()` makes next has no entry yet. -/
theorem Entries.fresh {p : Pool} (h : Entries p) : some p.created ∉ p.connections := by
  intro hmem
  obtain ⟨f, hf, he⟩ := h.made _ hmem
  cases he
  exact Nat.lt_irrefl _ hf

/-- The predicate of `remove(conn)` finds only the entry of `conn` itself. -/
theorem Entries.dead_iff {p : Pool} (h : Entries p) {e : Option FutId}
    (he : e ∈ p.connections) (c : ConnId) :
    p.dead c e = true ↔ e = some c ∧ (p.opened c).outcome = some (.done c) := by
  obtain ⟨f, -, rfl⟩ := h.made e he
  rcases h.outcome f with ho | ho
  · constructor
    · intro hd
      simp [dead, ho] at hd
    · rintro ⟨hfc, hc⟩
      cases hfc
      rw [ho] at hc
      cases hc
  · constructor
    · intro hd
      have hfc : f = c := by simpa [dead, ho] using hd
      subst hfc
      exact ⟨rfl, ho⟩
    · rintro ⟨hfc, -⟩
      cases hfc
      simp [dead, ho]

theorem Entries.countP_dead {p : Pool} (h : Entries p) {c : ConnId}
    (hit : ∃ e ∈ p.connections, p.dead c e = true) :
    p.connections.countP (p.dead c) = 1 := by
  obtain ⟨e, he, hd⟩ := hit
  obtain ⟨rfl, ho⟩ := (h.dead_iff he c).mp hd
  have hcount : p.connections.countP (p.dead c) = p.connections.count (some c) := by
    refine List.countP_congr fun e' he' => ?_
    rw [h.dead_iff he' c, beq_iff_eq]
    exact ⟨fun hx => hx.1, fun hx => ⟨hx, ho⟩⟩
  rw [hcount]
  exact List.count_eq_one_of_mem h.nodup he

/-- **The erase of `remove(conn)` where an entry matches**: it takes out the
entry of `conn` and nothing else. -/
theorem prune_connections {p : Pool} (h : Entries p)
    (eraseEnd : List (Option FutId) → List (Option FutId)) (valid : ConnId → Bool) {c : ConnId}
    (hit : ∃ e ∈ p.connections, p.dead c e = true) :
    (p.prune eraseEnd valid c).connections = p.connections.filter (fun e => !p.dead c e) ∧
      (p.prune eraseEnd valid c).connections.length + 1 = p.connections.length := by
  have hone := h.countP_dead hit
  have hconn : (p.prune eraseEnd valid c).connections
      = p.connections.filter (fun e => !p.dead c e) :=
    eraseAt_removeIf_of_count_one eraseEnd hone
  refine ⟨hconn, ?_⟩
  have hlen := List.length_eq_countP_add_countP (p.dead c) (l := p.connections)
  rw [hone] at hlen
  rw [hconn, ← List.countP_eq_length_filter, hlen, Nat.add_comm]
  congr 1
  exact List.countP_congr fun e _ => by simp

theorem Entries.prune {p : Pool} (h : Entries p)
    (eraseEnd : List (Option FutId) → List (Option FutId)) (valid : ConnId → Bool) {c : ConnId}
    (hit : ∃ e ∈ p.connections, p.dead c e = true) :
    Entries (p.prune eraseEnd valid c) := by
  have hconn := (prune_connections h eraseEnd valid hit).1
  refine ⟨?_, fun e he => ?_, h.outcome⟩
  · rw [hconn]
    exact h.nodup.filter _
  · rw [hconn] at he
    exact h.made e (List.mem_of_mem_filter he)

/-- A new connection adds one entry, whichever caller `connect()` has. -/
theorem Entries.connect {p q : Pool} (h : Entries p)
    (hconn : q.connections = p.connections ++ [some p.created])
    (hcreated : q.created = p.created + 1)
    (hopened : ∀ f, (q.opened f).outcome = if f = p.created then none else (p.opened f).outcome) :
    Entries q where
  nodup := by
    rw [hconn]
    exact h.nodup.append (List.nodup_singleton _)
      (List.disjoint_singleton.mpr h.fresh)
  made := by
    intro e he
    rw [hconn] at he
    rw [hcreated]
    rcases List.mem_append.mp he with he | he
    · obtain ⟨f, hf, rfl⟩ := h.made e he
      exact ⟨f, Nat.lt_succ_of_lt hf, rfl⟩
    · exact ⟨p.created, Nat.lt_succ_self _, List.mem_singleton.mp he⟩
  outcome := by
    intro f
    rw [hopened f]
    by_cases hf : f = p.created
    · exact .inl (if_pos hf)
    · rw [if_neg hf]
      exact h.outcome f

theorem Entries.replace {p : Pool} (h : Entries p) : Entries p.replace :=
  h.connect rfl rfl fun f => by
    by_cases hf : f = p.created <;> simp [hf]

/-- `Entries` reads only three fields. -/
theorem Entries.of_eq {p q : Pool} (h : Entries p) (hconn : q.connections = p.connections)
    (hcreated : q.created = p.created) (hopened : q.opened = p.opened) : Entries q where
  nodup := hconn ▸ h.nodup
  made := by rw [hconn, hcreated]; exact h.made
  outcome := by rw [hopened]; exact h.outcome

end Pool

end AsioProtocols
