import Mathlib.Data.List.Count
import Mathlib.Data.List.Nodup

/-!
# `std::remove_if` and the one-iterator `erase` of a vector

`removeIf p` follows the in-place algorithm: the kept elements move to the
front in order, each move leaves its source in the moved-from state, and the
slots from the returned position on are the *tail*, as long as the number of
elements removed. `eraseAt` is `erase(it)` with a single iterator: it takes one
element out. At the end iterator the language gives the call no meaning at all;
what happens to the vector there is a parameter, `eraseEnd`. Where something is
relied on of it, that is `TakesAtMostOne`.
-/

namespace AsioProtocols

variable {α : Type*}

/-- The slots between the write and the read position after a move over the
first of them: the source slot, now `moved`, joins at the end. -/
def refill (moved : α) : List α → List α
  | [] => []
  | _ :: rest => rest ++ [moved]

@[simp] theorem length_refill (moved : α) (gap : List α) :
    (refill moved gap).length = gap.length := by
  cases gap <;> simp [refill]

/-- The loop of `remove_if`, with the slots between the write and the read
position in `gap`: an element to remove joins the gap, a kept one is moved over
its first slot. -/
def removeIfFrom (p : α → Bool) (moved : α) : List α → List α → List α × List α
  | gap, [] => ([], gap)
  | gap, x :: xs =>
    if p x then removeIfFrom p moved (gap ++ [x]) xs
    else
      let r := removeIfFrom p moved (refill moved gap) xs
      (x :: r.1, r.2)

/-- `std::remove_if`: the kept elements, and the tail behind them. -/
def removeIf (p : α → Bool) (moved : α) (xs : List α) : List α × List α :=
  removeIfFrom p moved [] xs

/-- `v.erase(it)` where `it` points behind `kept`: drops the first element of
the tail. An empty tail means `it` is the end iterator. -/
def eraseAt (eraseEnd : List α → List α) : List α × List α → List α
  | (kept, []) => eraseEnd kept
  | (kept, _ :: rest) => kept ++ rest

/-- What is relied on of the call at the end iterator: it takes out one element, like
any other `erase`, whichever that is, or none. -/
def TakesAtMostOne (eraseEnd : List α → List α) : Prop :=
  ∀ xs, xs.length ≤ (eraseEnd xs).length + 1

/-- Dropping the last element does so: nothing is moved and the size goes down by one. -/
theorem takesAtMostOne_dropLast : TakesAtMostOne (List.dropLast (α := α)) := by
  intro xs
  rw [List.length_dropLast]
  omega

theorem removeIfFrom_kept (p : α → Bool) (moved : α) :
    ∀ gap xs, (removeIfFrom p moved gap xs).1 = xs.filter (fun x => !p x)
  | gap, [] => rfl
  | gap, x :: xs => by
    by_cases hx : p x
    · simp [removeIfFrom, hx, removeIfFrom_kept p moved _ xs]
    · simp [removeIfFrom, hx, removeIfFrom_kept p moved _ xs]

theorem removeIfFrom_tail_length (p : α → Bool) (moved : α) :
    ∀ gap xs, (removeIfFrom p moved gap xs).2.length = gap.length + xs.countP p
  | gap, [] => rfl
  | gap, x :: xs => by
    by_cases hx : p x
    · rw [removeIfFrom, if_pos hx, removeIfFrom_tail_length p moved _ xs,
        List.countP_cons_of_pos hx, List.length_append, List.length_singleton]
      omega
    · rw [removeIfFrom, if_neg hx, List.countP_cons_of_neg hx]
      exact (removeIfFrom_tail_length p moved _ xs).trans (by rw [length_refill])

/-- The kept elements are those `p` rejects, in their order. -/
theorem removeIf_kept (p : α → Bool) (moved : α) (xs : List α) :
    (removeIf p moved xs).1 = xs.filter (fun x => !p x) :=
  removeIfFrom_kept p moved [] xs

/-- The tail is as long as the number of elements `p` accepts. -/
theorem removeIf_tail_length (p : α → Bool) (moved : α) (xs : List α) :
    (removeIf p moved xs).2.length = xs.countP p :=
  (removeIfFrom_tail_length p moved [] xs).trans (Nat.zero_add _)

/-- `remove_if` loses no slot. -/
theorem length_removeIf (p : α → Bool) (moved : α) (xs : List α) :
    (removeIf p moved xs).1.length + (removeIf p moved xs).2.length = xs.length := by
  have hsplit := List.length_eq_countP_add_countP p (l := xs)
  have hneg : xs.countP (fun x => !p x) = xs.countP (fun x => decide ¬p x = true) :=
    List.countP_congr fun x _ => by simp
  rw [removeIf_kept, removeIf_tail_length, ← List.countP_eq_length_filter, hneg]
  omega

/-- **However many elements there are to remove**, `erase(remove_if(..))` makes the
vector one shorter, at most. -/
theorem length_le_eraseAt_removeIf {eraseEnd : List α → List α} (hend : TakesAtMostOne eraseEnd)
    (p : α → Bool) (moved : α) (xs : List α) :
    xs.length ≤ (eraseAt eraseEnd (removeIf p moved xs)).length + 1 := by
  have hlen := length_removeIf p moved xs
  rcases hr : removeIf p moved xs with ⟨kept, _ | ⟨y, rest⟩⟩
  · -- nothing to remove: everything is kept, and the iterator is the end iterator
    have hkept : kept.length = xs.length := by simpa [hr] using hlen
    exact hkept ▸ hend kept
  · have hparts : kept.length + (rest.length + 1) = xs.length := by simpa [hr] using hlen
    show xs.length ≤ (kept ++ rest).length + 1
    rw [List.length_append]
    omega

/-- With exactly one element to remove, `erase(remove_if(..))` removes it and
nothing else, whatever the end iterator would have done. -/
theorem eraseAt_removeIf_of_count_one {p : α → Bool} {moved : α} {xs : List α}
    (eraseEnd : List α → List α) (h : xs.countP p = 1) :
    eraseAt eraseEnd (removeIf p moved xs) = xs.filter (fun x => !p x) := by
  have hlen := removeIf_tail_length p moved xs
  have hkept := removeIf_kept p moved xs
  rcases hr : removeIf p moved xs with ⟨kept, tail⟩
  rw [hr] at hlen hkept
  match tail, hlen with
  | [y], _ =>
    show kept ++ [] = _
    rw [List.append_nil]
    exact hkept
  | [], hlen => simp [h] at hlen
  | _ :: _ :: _, hlen => simp [h] at hlen

/-- Where the iterator is not the end iterator, `erase(remove_if(..))` takes out
what it is meant to exactly when there is one element to remove: of a longer
tail, the rest stays in the vector. -/
theorem eraseAt_removeIf_eq_filter_iff {p : α → Bool} {moved : α} {xs : List α}
    (eraseEnd : List α → List α) (hfound : (removeIf p moved xs).2 ≠ []) :
    eraseAt eraseEnd (removeIf p moved xs) = xs.filter (fun x => !p x) ↔ xs.countP p = 1 := by
  constructor
  · intro heq
    have hlen := removeIf_tail_length p moved xs
    have hkept := removeIf_kept p moved xs
    rcases hr : removeIf p moved xs with ⟨kept, _ | ⟨y, rest⟩⟩
    · exact absurd (by rw [hr]) hfound
    · rw [hr] at heq hlen hkept
      -- nothing stays behind the kept elements
      have hrest : rest = [] := by
        have heq : kept ++ rest = kept := heq.trans hkept.symm
        simpa using heq
      rw [← hlen, hrest]
      rfl
  · exact eraseAt_removeIf_of_count_one eraseEnd

end AsioProtocols
