import AsioProtocols.Base.Bytes

/-!
# Pieces between delimiters

`CutAt d s pieces rest` says that `s`, cut at its leftmost occurrences of `d` that do not
overlap, falls into the pieces in front of an occurrence and the rest behind the last one.
There is at most one such cut (`CutAt.unique`), and a text that follows is cut together with the
rest (`CutAt.append`).

A reader who has found no `d` may forget all but the last `|d| - 1` characters:
`find_append_of_none` says that what it finds from there on is what it would have found.
-/

namespace AsioProtocols

variable {α : Type*} [DecidableEq α]

/-- **`s` cut at the leftmost occurrences of `d`**, none overlapping another. -/
structure CutAt (d s : List α) (pieces : List (List α)) (rest : List α) : Prop where
  whole : s = pieces.flatMap (· ++ d) ++ rest
  leftmost : ∀ p ∈ pieces, find d (p ++ d) = some p.length
  done : find d rest = none

section

variable {d s t rest rest' : List α} {pieces pieces' : List (List α)}

/-- Nothing to cut. -/
theorem CutAt.of_none (h : find d s = none) : CutAt d s [] s where
  whole := rfl
  leftmost _ hp := absurd hp List.not_mem_nil
  done := h

/-- An occurrence lies within the text, and is the leftmost one of the text it ends. -/
theorem find_eq_some {i : Nat} (hd : d ≠ []) (h : find d s = some i) :
    s = s.take i ++ d ++ s.drop (i + d.length) ∧ (s.take i).length = i ∧
      find d (s.take i ++ d) = some i := by
  obtain ⟨behind, hs⟩ := find_eq_some_split h
  have hpos := List.length_pos_iff.mpr hd
  have hlen := congrArg List.length hs
  rw [List.length_append, List.length_append, List.length_take] at hlen
  have htake : (s.take i).length = i := by
    rw [List.length_take]
    omega
  have hbehind : s.drop (i + d.length) = behind := by
    have hsplit : (s.take i ++ d).length = i + d.length := by rw [List.length_append, htake]
    calc s.drop (i + d.length) = (s.take i ++ d ++ behind).drop (s.take i ++ d).length := by
          rw [← hs, hsplit]
      _ = behind := List.drop_left
  obtain ⟨j, hj, -⟩ := find_append_isSome d (s.take i) []
  rw [List.append_nil] at hj
  have hsame := find_append_of_some behind hj
  rw [← hs, h] at hsame
  exact ⟨hbehind ▸ hs, htake, hj.trans hsame.symm⟩

/-- The first piece ends at the leftmost occurrence. -/
theorem CutAt.of_some {i : Nat} (hd : d ≠ []) (h : find d s = some i)
    (hbehind : CutAt d (s.drop (i + d.length)) pieces rest) :
    CutAt d s (s.take i :: pieces) rest := by
  obtain ⟨hs, htake, hleft⟩ := find_eq_some hd h
  constructor
  · rw [List.flatMap_cons, List.append_assoc, ← hbehind.whole]
    exact hs
  · intro p hp
    rcases List.mem_cons.mp hp with rfl | hp
    · rw [htake]
      exact hleft
    · exact hbehind.leftmost p hp
  · exact hbehind.done

/-- **More text**: the rest and what follows are cut on. -/
theorem CutAt.append (h : CutAt d s pieces rest) (h' : CutAt d (rest ++ t) pieces' rest') :
    CutAt d (s ++ t) (pieces ++ pieces') rest' := by
  constructor
  · rw [List.flatMap_append, List.append_assoc, ← h'.whole, h.whole, List.append_assoc]
  · intro p hp
    rcases List.mem_append.mp hp with hp | hp
    · exact h.leftmost p hp
    · exact h'.leftmost p hp
  · exact h'.done

/-- The leftmost occurrence is behind the first piece. -/
theorem CutAt.find_cons {p : List α} (h : CutAt d s (p :: pieces) rest) :
    find d s = some p.length := by
  have hs := h.whole
  rw [List.flatMap_cons, List.append_assoc] at hs
  rw [hs]
  exact find_append_of_some _ (h.leftmost p List.mem_cons_self)

theorem CutAt.find_nil (h : CutAt d s [] rest) : find d s = none := by
  rw [h.whole]
  exact h.done

/-- The first piece, and the cut behind its occurrence. -/
theorem CutAt.tail {p : List α} (h : CutAt d s (p :: pieces) rest) :
    s.take p.length = p ∧ CutAt d (s.drop (p.length + d.length)) pieces rest := by
  have hs : s = p ++ (d ++ (pieces.flatMap (· ++ d) ++ rest)) := by
    rw [h.whole, List.flatMap_cons]
    simp only [List.append_assoc]
  refine ⟨by rw [hs, List.take_left], ?_, fun q hq => h.leftmost q (List.mem_cons_of_mem p hq),
    h.done⟩
  rw [hs, ← List.drop_drop, List.drop_left, List.drop_left]

/-- **There is one cut.** -/
theorem CutAt.unique : ∀ {pieces pieces' : List (List α)} {s : List α},
    CutAt d s pieces rest → CutAt d s pieces' rest' → pieces = pieces' ∧ rest = rest'
  | [], [], s, h, h' => ⟨rfl, h.whole.symm.trans h'.whole⟩
  | [], p :: pieces', s, h, h' => by
    have hsome := h'.find_cons
    rw [h.find_nil] at hsome
    cases hsome
  | p :: pieces, [], s, h, h' => by
    have hsome := h.find_cons
    rw [h'.find_nil] at hsome
    cases hsome
  | p :: pieces, p' :: pieces', s, h, h' => by
    have hlen : p.length = p'.length := Option.some.inj (h.find_cons.symm.trans h'.find_cons)
    obtain ⟨hp, htail⟩ := h.tail
    obtain ⟨hp', htail'⟩ := h'.tail
    rw [hlen] at hp htail
    obtain ⟨hpieces, hrest⟩ := CutAt.unique htail htail'
    exact ⟨by rw [← hp, hp', hpieces], hrest⟩

/-- **What may be forgotten**: where `d` does not occur, and all but the last `|d| - 1`
characters are in `front`, it is found behind `front`. -/
theorem find_append_of_none {front kept : List α} (hkept : d.length ≤ kept.length + 1)
    (t : List α) (h : find d (front ++ kept) = none) :
    find d (front ++ (kept ++ t)) = (find d (kept ++ t)).map (front.length + ·) := by
  induction front with
  | nil => simp
  | cons x front ih =>
    rw [List.cons_append, find] at h
    by_cases hp : d <+: x :: (front ++ kept)
    · rw [if_pos hp] at h
      cases h
    · rw [if_neg hp, Option.map_eq_none_iff] at h
      -- an occurrence at `x` would end before `t`
      have hp' : ¬ d <+: x :: (front ++ (kept ++ t)) := by
        intro hp'
        refine hp (List.prefix_of_prefix_length_le hp' ⟨t, by simp⟩ ?_)
        rw [List.length_cons, List.length_append]
        omega
      rw [List.cons_append, find, if_neg hp', ih h, Option.map_map]
      refine congrArg (Option.map · _) (funext fun i => ?_)
      rw [Function.comp_apply, List.length_cons]
      omega

end

end AsioProtocols
