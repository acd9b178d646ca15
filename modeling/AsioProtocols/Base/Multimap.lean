import Mathlib.Data.List.Basic

/-!
# Ordered multimaps

The entries of a multimap in the order they were added, with a relation `same` that
says which keys are one key. `lookup` is the value of the first entry under a key,
and `set` replaces that value, or adds an entry if there is none. `set_cases` says
what `set` does to the list, and `lookup_add` and `lookup_set` what becomes of the
lookups.
-/

namespace AsioProtocols

abbrev Multimap (κ υ : Type*) := List (κ × υ)

namespace Multimap

variable {κ υ : Type*}

/-- One entry more. -/
def add (m : Multimap κ υ) (k : κ) (v : υ) : Multimap κ υ := m ++ [(k, v)]

section same

variable (same : κ → κ → Bool)

/-- The value of the first entry under `k`. -/
def lookup (m : Multimap κ υ) (k : κ) : Option υ := (m.find? fun e => same e.1 k).map Prod.snd

/-- The first entry under `k` gets the value `v`, if need be a new one. -/
def set (k : κ) (v : υ) : Multimap κ υ → Multimap κ υ
  | [] => [(k, v)]
  | e :: m => if same e.1 k then (e.1, v) :: m else e :: set k v m

/-- **What `set` does**: one value changes, or one entry is added at the end. -/
theorem set_cases (k : κ) (v : υ) (m : Multimap κ υ) :
    (∃ before e after, m = before ++ e :: after ∧ (∀ d ∈ before, same d.1 k = false) ∧
      same e.1 k = true ∧ set same k v m = before ++ (e.1, v) :: after) ∨
    ((∀ d ∈ m, same d.1 k = false) ∧ set same k v m = m ++ [(k, v)]) := by
  induction m with
  | nil => exact .inr ⟨fun d hd => absurd hd List.not_mem_nil, rfl⟩
  | cons e m ih =>
    rw [set]
    by_cases he : same e.1 k = true
    · rw [if_pos he]
      exact .inl ⟨[], e, m, rfl, fun d hd => absurd hd List.not_mem_nil, he, rfl⟩
    · rw [if_neg he]
      have hother : ∀ before : Multimap κ υ, (∀ d ∈ before, same d.1 k = false) →
          ∀ d ∈ e :: before, same d.1 k = false := by
        intro before hbefore d hd
        rcases List.mem_cons.mp hd with rfl | hd
        · exact Bool.eq_false_iff.mpr he
        · exact hbefore d hd
      rcases ih with ⟨before, f, after, rfl, hbefore, hf, hset⟩ | ⟨hnone, hset⟩
      · exact .inl ⟨e :: before, f, after, rfl, hother before hbefore, hf, by rw [hset]; rfl⟩
      · exact .inr ⟨hother m hnone, by rw [hset]; rfl⟩

variable {same}

/-- A new entry is seen if there was none. -/
theorem lookup_add (m : Multimap κ υ) (k k' : κ) (v : υ) :
    lookup same (add m k v) k' =
      (lookup same m k').or (if same k k' then some v else none) := by
  rw [lookup, lookup, add, List.find?_append, Option.map_or, List.find?_singleton]
  by_cases h : same k k' = true
  · rw [if_pos h, if_pos h]
    rfl
  · rw [if_neg h, if_neg h]
    rfl

/-- The key that was set has the new value, the others keep theirs. -/
theorem lookup_set {γ : Type*} {view : κ → γ} (hview : ∀ a b, same a b = true ↔ view a = view b)
    (m : Multimap κ υ) (k k' : κ) (v : υ) :
    lookup same (set same k v m) k' = if same k k' then some v else lookup same m k' := by
  induction m with
  | nil =>
    rw [set, lookup, List.find?_singleton]
    split <;> rfl
  | cons e m ih =>
    have hcongr : same e.1 k = true → same e.1 k' = same k k' := by
      intro he
      rw [Bool.eq_iff_iff, hview, hview, (hview _ _).mp he]
    rw [set]
    by_cases he : same e.1 k = true
    · rw [if_pos he, lookup, lookup, List.find?_cons, List.find?_cons, hcongr he]
      cases same k k' <;> rfl
    · rw [if_neg he, lookup, lookup, List.find?_cons, List.find?_cons]
      cases hek : same e.1 k' with
      | true =>
        -- an entry under `k'` in front, which is then another key than `k`
        have hk : ¬ same k k' = true := by
          rw [hview, ← (hview _ _).mp hek, eq_comm, ← hview]
          exact he
        rw [if_neg hk]
      | false => exact ih

end same

end Multimap

end AsioProtocols
