import Mathlib.Data.List.DropRight
import Mathlib.Data.List.Infix
import Mathlib.Data.List.TakeDrop

/-!
# Byte strings

A `std::string` or a character buffer is a list of bytes. `find` is
`std::string::find` from the start: the index of the leftmost occurrence.
`trim` is `boost::algorithm::trim` in the C locale.
-/

namespace AsioProtocols

abbrev Byte := UInt8
abbrev Bytes := List UInt8

/-- The byte of an ASCII character. -/
def ch (c : Char) : Byte := UInt8.ofNat c.toNat

/-- The bytes of an ASCII literal. -/
def ascii (s : String) : Bytes := s.toList.map ch

/-! ## Letters -/

/-- `tolower` in the C locale. -/
def toLower (b : Byte) : Byte := if 65 ≤ b ∧ b ≤ 90 then b + 32 else b

/-- `toupper` in the C locale. -/
def toUpper (b : Byte) : Byte := if 97 ≤ b ∧ b ≤ 122 then b - 32 else b

/-! ## Cutting -/

/-- A string is cut at the first occurrence of a character in one way. -/
theorem append_cons_inj {α : Type*} {b : α} : ∀ {a a' t t' : List α}, b ∉ a → b ∉ a' →
    a ++ b :: t = a' ++ b :: t' → a = a' ∧ t = t'
  | [], [], _, _, _, _, heq => ⟨rfl, (List.cons.inj heq).2⟩
  | [], c :: _, _, _, _, h', heq => absurd ((List.cons.inj heq).1 ▸ List.mem_cons_self) h'
  | c :: _, [], _, _, h, _, heq => absurd ((List.cons.inj heq).1 ▸ List.mem_cons_self) h
  | c :: a, c' :: a', t, t', h, h', heq => by
    obtain ⟨rfl, hrest⟩ := List.cons.inj heq
    obtain ⟨ha, ht⟩ := append_cons_inj (fun hb => h (List.mem_cons_of_mem c hb))
      (fun hb => h' (List.mem_cons_of_mem c hb)) hrest
    exact ⟨congrArg (c :: ·) ha, ht⟩

/-! ## Searching -/

section find

variable {α : Type*} [DecidableEq α]

/-- The index of the leftmost occurrence of `d`. -/
def find (d : List α) : List α → Option Nat
  | [] => if d = [] then some 0 else none
  | x :: xs => if d <+: x :: xs then some 0 else (find d xs).map (· + 1)

theorem find_of_prefix {d s : List α} (h : d <+: s) : find d s = some 0 := by
  cases s with
  | nil => simp [find, List.prefix_nil.mp h]
  | cons x xs => simp [find, h]

/-- Where `find` finds, the string splits around the occurrence. -/
theorem find_eq_some_split {d : List α} :
    ∀ {s : List α} {i : Nat}, find d s = some i → ∃ rest, s = s.take i ++ d ++ rest
  | [], i, h => by
    rw [find] at h
    obtain ⟨rfl, hi⟩ := Option.ite_none_right_eq_some.mp h
    exact ⟨[], by simp⟩
  | x :: xs, i, h => by
    rw [find] at h
    by_cases hp : d <+: x :: xs
    · rw [if_pos hp] at h
      cases h
      obtain ⟨rest, hrest⟩ := hp
      exact ⟨rest, by simp [hrest]⟩
    · rw [if_neg hp] at h
      obtain ⟨j, hj, rfl⟩ := Option.map_eq_some_iff.mp h
      obtain ⟨rest, hrest⟩ := find_eq_some_split hj
      refine ⟨rest, ?_⟩
      rw [List.take_succ_cons, List.cons_append, List.cons_append]
      exact congrArg (x :: ·) hrest

/-- An occurrence anywhere is found, at its place or before it. -/
theorem find_append_isSome (d : List α) :
    ∀ s rest : List α, ∃ i, find d (s ++ d ++ rest) = some i ∧ i ≤ s.length
  | [], rest => ⟨0, by simpa using find_of_prefix (List.prefix_append d rest), Nat.le_refl _⟩
  | x :: xs, rest => by
    by_cases hp : d <+: x :: xs ++ d ++ rest
    · exact ⟨0, find_of_prefix hp, Nat.zero_le _⟩
    · obtain ⟨i, hi, hle⟩ := find_append_isSome d xs rest
      refine ⟨i + 1, ?_, Nat.succ_le_succ hle⟩
      rw [List.cons_append, List.cons_append] at hp ⊢
      rw [find, if_neg hp, hi]
      rfl

/-- More input behind does not move the leftmost occurrence. -/
theorem find_append_of_some {d : List α} :
    ∀ {s : List α} {i : Nat} (t : List α), find d s = some i → find d (s ++ t) = some i
  | [], i, t, h => by
    rw [find] at h
    obtain ⟨rfl, hi⟩ := Option.ite_none_right_eq_some.mp h
    cases hi
    exact find_of_prefix List.nil_prefix
  | x :: xs, i, t, h => by
    rw [find] at h
    by_cases hp : d <+: x :: xs
    · rw [if_pos hp] at h
      cases h
      exact find_of_prefix (hp.trans (List.prefix_append _ _))
    · rw [if_neg hp] at h
      obtain ⟨j, hj, rfl⟩ := Option.map_eq_some_iff.mp h
      have ih := find_append_of_some t hj
      by_cases hp' : d <+: x :: xs ++ t
      · -- a new occurrence at the front would reach past the one already there
        obtain ⟨rest, hrest⟩ := find_eq_some_split hj
        have hlen : d.length ≤ xs.length := by
          have := congrArg List.length hrest
          simp only [List.length_append] at this
          omega
        exact absurd (List.prefix_of_prefix_length_le hp' (List.prefix_append (x :: xs) t)
          (Nat.le_succ_of_le hlen)) hp
      · rw [List.cons_append] at hp' ⊢
        rw [find, if_neg hp', ih]
        rfl

/-- There is no occurrence before the leftmost one. -/
theorem find_take {d : List α} (hd : d ≠ []) :
    ∀ {s : List α} {i : Nat}, find d s = some i → find d (s.take i) = none
  | [], i, h => by
    rw [find, if_neg hd] at h
    cases h
  | x :: xs, i, h => by
    rw [find] at h
    by_cases hp : d <+: x :: xs
    · rw [if_pos hp] at h
      cases h
      rw [List.take_zero, find, if_neg hd]
    · rw [if_neg hp] at h
      obtain ⟨j, hj, rfl⟩ := Option.map_eq_some_iff.mp h
      have hp' : ¬ d <+: x :: xs.take j := fun hp' =>
        hp (hp'.trans (List.cons_prefix_cons.mpr ⟨rfl, List.take_prefix j xs⟩))
      rw [List.take_succ_cons, find, if_neg hp', find_take hd hj]
      rfl

/-- The leftmost occurrence of a text whose first character does not occur before. -/
theorem find_fresh {b : α} {d : List α} :
    ∀ {s : List α} (t : List α), b ∉ s → find (b :: d) (s ++ (b :: d) ++ t) = some s.length
  | [], t, _ => find_of_prefix (List.prefix_append (b :: d) t)
  | x :: xs, t, h => by
    rw [List.mem_cons, not_or] at h
    have hp : ¬ b :: d <+: x :: (xs ++ (b :: d) ++ t) :=
      fun hp => h.1 (List.cons_prefix_cons.mp hp).1
    rw [List.cons_append, List.cons_append, find, if_neg hp, find_fresh t h.2]
    rfl

/-- A text whose first character does not occur is not found. -/
theorem find_of_not_mem {b : α} {d : List α} : ∀ {s : List α}, b ∉ s → find (b :: d) s = none
  | [], _ => rfl
  | x :: xs, h => by
    rw [List.mem_cons, not_or] at h
    have hp : ¬ b :: d <+: x :: xs := fun hp => h.1 (List.cons_prefix_cons.mp hp).1
    rw [find, if_neg hp, find_of_not_mem h.2]
    rfl

end find

/-- The leftmost occurrence of a byte that does not occur before. -/
theorem find_byte {b : Byte} {s : Bytes} (t : Bytes) (h : b ∉ s) :
    find [b] (s ++ b :: t) = some s.length := by
  simpa using find_fresh (d := []) t h

/-- The text behind it. -/
theorem drop_byte (b : Byte) (s t : Bytes) : (s ++ b :: t).drop (s.length + 1) = t := by
  rw [← List.drop_drop, List.drop_left]
  rfl

/-- The text before the leftmost occurrence of a byte, and the text behind it. -/
theorem splitAt_byte {b : Byte} :
    ∀ {s : Bytes} (t : Bytes), b ∉ s →
      (s ++ b :: t).takeWhile (· != b) = s ∧ (s ++ b :: t).dropWhile (· != b) = b :: t
  | [], t, _ => by simp
  | x :: xs, t, h => by
    rw [List.mem_cons, not_or] at h
    obtain ⟨htake, hdrop⟩ := splitAt_byte t h.2
    have hx : (x != b) = true := by simpa [bne_iff_ne] using fun he => h.1 he.symm
    simp [hx, htake, hdrop]

/-- `find` finds exactly the texts that occur. -/
theorem find_eq_none_iff {d s : Bytes} : find d s = none ↔ ¬ d <:+: s := by
  constructor
  · rintro h ⟨before, after, rfl⟩
    obtain ⟨i, hi, -⟩ := find_append_isSome d before after
    rw [h] at hi
    cases hi
  · intro h
    rcases hi : find d s with _ | i
    · rfl
    · obtain ⟨rest, hs⟩ := find_eq_some_split hi
      exact absurd ⟨s.take i, rest, hs.symm⟩ h

/-- The text before the first `b`, and the text behind it. -/
def cut (b : Byte) (s : Bytes) : Bytes × Bytes :=
  (s.takeWhile (· != b), (s.dropWhile (· != b)).drop 1)

theorem cut_append {b : Byte} {s : Bytes} (t : Bytes) (h : b ∉ s) : cut b (s ++ b :: t) = (s, t) := by
  obtain ⟨htake, hdrop⟩ := splitAt_byte t h
  rw [cut, htake, hdrop]
  rfl

/-- A text that holds `b` is cut there. -/
theorem exists_cut {b : Byte} {s : Bytes} (h : b ∈ s) :
    s = (cut b s).1 ++ b :: (cut b s).2 ∧ b ∉ (cut b s).1 := by
  obtain ⟨front, back, rfl, hfront⟩ := List.eq_append_cons_of_mem h
  rw [cut_append back hfront]
  exact ⟨rfl, hfront⟩

/-- Cutting as the parsers do it, by the index of the first occurrence. -/
theorem find_byte_of_mem {b : Byte} {s : Bytes} (h : b ∈ s) :
    find [b] s = some (cut b s).1.length ∧ s.take (cut b s).1.length = (cut b s).1 ∧
      s.drop ((cut b s).1.length + 1) = (cut b s).2 := by
  obtain ⟨front, back, rfl, hfront⟩ := List.eq_append_cons_of_mem h
  rw [cut_append back hfront]
  exact ⟨find_byte back hfront, List.take_left, drop_byte b front back⟩

/-! ## Lines -/

/-- The line separator, CR LF. -/
def crlf : Bytes := [13, 10]

@[simp] theorem length_crlf : crlf.length = 2 := rfl

/-- A line that holds no CR LF ends at the separator behind it: a CR at its end
does not pair with that separator. -/
theorem find_crlf_line : ∀ {line : Bytes} (rest : Bytes), find crlf line = none →
    find crlf (line ++ crlf ++ rest) = some line.length
  | [], rest, _ => find_of_prefix (List.prefix_append crlf rest)
  | x :: xs, rest, h => by
    rw [find] at h
    have hp : ¬ crlf <+: x :: xs := by
      intro hp
      rw [if_pos hp] at h
      cases h
    rw [if_neg hp, Option.map_eq_none_iff] at h
    have hp' : ¬ crlf <+: x :: (xs ++ crlf ++ rest) := by
      intro hpre
      cases xs with
      | nil =>
        obtain ⟨-, hpre⟩ := List.cons_prefix_cons.mp hpre
        exact absurd (List.cons_prefix_cons.mp hpre).1 (by decide)
      | cons y ys =>
        obtain ⟨hx, hpre⟩ := List.cons_prefix_cons.mp hpre
        obtain ⟨hy, -⟩ := List.cons_prefix_cons.mp hpre
        subst hx hy
        exact hp (List.prefix_append crlf ys)
    rw [List.cons_append, List.cons_append, find, if_neg hp', find_crlf_line rest h]
    rfl

/-- Cutting a line off, as the parsers do it. -/
theorem split_line {line : Bytes} (rest : Bytes) (h : find crlf line = none) :
    find crlf (line ++ crlf ++ rest) = some line.length ∧
      (line ++ crlf ++ rest).take line.length = line ∧
      (line ++ crlf ++ rest).drop (line.length + 2) = rest := by
  refine ⟨find_crlf_line rest h, ?_, ?_⟩
  · rw [List.append_assoc, List.take_left]
  · rw [← length_crlf, ← List.length_append, List.drop_left]

/-- **The first line** of a text, its separator, and the rest. -/
theorem exists_line {s : Bytes} {i : Nat} (h : find crlf s = some i) :
    s = s.take i ++ crlf ++ s.drop (i + 2) ∧ find crlf (s.take i) = none ∧
      (s.take i).length = i := by
  obtain ⟨rest, hrest⟩ := find_eq_some_split h
  have hlen := congrArg List.length hrest
  rw [List.length_append, List.length_append, length_crlf, List.length_take] at hlen
  have htake : (s.take i).length = i := List.length_take_of_le (by omega)
  have hdrop : s.drop (i + 2) = rest := by
    conv_lhs => rw [hrest]
    rw [show i + 2 = (s.take i ++ crlf).length by rw [List.length_append, htake, length_crlf],
      List.drop_left]
  exact ⟨by rw [hdrop]; exact hrest, find_take (by decide) h, htake⟩

/-! ## White space -/

/-- `isspace` in the C locale. -/
def isSpace (b : Byte) : Bool := b == 32 || (9 ≤ b && b ≤ 13)

/-- `boost::algorithm::trim` -/
def trim (s : Bytes) : Bytes := (s.dropWhile isSpace).rdropWhile isSpace

/-- A text that neither starts nor ends with white space. -/
def Trimmed (s : Bytes) : Prop :=
  (∀ c ∈ s.head?, isSpace c = false) ∧ ∀ c ∈ s.getLast?, isSpace c = false

instance (s : Bytes) : Decidable (Trimmed s) :=
  @instDecidableAnd _ _ (Option.decidableForallMem _) (Option.decidableForallMem _)

/-- White space in front is trimmed, and no more. -/
theorem trim_append {space s : Bytes} (hspace : ∀ c ∈ space, isSpace c = true) (h : Trimmed s) :
    trim (space ++ s) = s := by
  have hdrop : (space ++ s).dropWhile isSpace = s := by
    rw [List.dropWhile_append_of_pos hspace]
    cases s with
    | nil => rfl
    | cons c rest => rw [List.dropWhile_cons, h.1 c rfl, if_neg Bool.false_ne_true]
  rw [trim, hdrop, List.rdropWhile_eq_self_iff]
  intro hne hlast
  rw [h.2 _ (List.getLast?_eq_some_getLast hne)] at hlast
  cases hlast

end AsioProtocols
