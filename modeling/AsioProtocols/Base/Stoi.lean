import Mathlib.Algebra.Order.Ring.Nat
import Mathlib.Data.Int.Basic
import AsioProtocols.Base.Bytes

/-!
# Numerals: `std::stoi` and `std::to_string`

`stoi base s` is `std::stoi` for a 32-bit `int`. `strtol` skips white space,
takes a sign, for base 16 an optional `0x` before a digit, and then the longest
run of digits, whatever follows; no digits is an `invalid_argument`, a value
outside `int` an `out_of_range`. `decimal` is `std::to_string`.

`stoi_of_digits` reads back a plain run of digits, `stoi_decimal` what
`std::to_string` printed.
-/

namespace AsioProtocols

/-- The two exceptions of `std::stoi`, both `std::logic_error`s. -/
inductive StoiError
  | invalidArgument
  | outOfRange
  deriving DecidableEq, Repr

/-- What the parsers throw: a `std::runtime_error` with its text, or one of the
logic errors of `std::stoi`. -/
inductive Exn
  | runtimeError (what : Bytes)
  | logicError (e : StoiError)
  deriving DecidableEq, Repr

/-- The value of a digit below `base`, letters counting from ten. -/
def digitVal (base : Nat) (b : Byte) : Option Nat :=
  let v :=
    if 48 ≤ b ∧ b ≤ 57 then b.toNat - 48
    else if 97 ≤ b ∧ b ≤ 122 then b.toNat - 87
    else if 65 ≤ b ∧ b ≤ 90 then b.toNat - 55
    else base
  if v < base then some v else none

/-- The longest run of digits in front. -/
def leadingDigits (base : Nat) : Bytes → List Nat
  | [] => []
  | b :: bs =>
    match digitVal base b with
    | some v => v :: leadingDigits base bs
    | none => []

/-- The number a list of digits denotes, most significant first. -/
def ofDigits (base : Nat) (ds : List Nat) : Nat := ds.foldl (fun n d => base * n + d) 0

/-- A sign in front, and the rest. -/
def takeSign : Bytes → Bool × Bytes
  | 45 :: bs => (true, bs)
  | 43 :: bs => (false, bs)
  | bs => (false, bs)

/-- `0x` in front of a digit is part of a base-16 numeral. -/
def dropHexPrefix (base : Nat) : Bytes → Bytes
  | 48 :: x :: d :: bs =>
    if base = 16 ∧ (x = 120 ∨ x = 88) ∧ (digitVal 16 d).isSome then d :: bs
    else 48 :: x :: d :: bs
  | bs => bs

/-- `std::stoi(s, 0, base)` -/
def stoi (base : Nat) (s : Bytes) : Except StoiError Int :=
  let (negative, s) := takeSign (s.dropWhile isSpace)
  match leadingDigits base (dropHexPrefix base s) with
  | [] => .error .invalidArgument
  | ds =>
    let n : Int := ofDigits base ds
    let v := if negative then -n else n
    if v < -2147483648 ∨ 2147483647 < v then .error .outOfRange else .ok v

/-- `std::to_string` of an unsigned value. -/
def decimal (n : Nat) : Bytes := (Nat.toDigits 10 n).map ch

/-- `static_cast<size_t>` of an `int`, 64 bits wide. -/
def toSize (v : Int) : Nat := (v % 18446744073709551616).toNat

/-- `static_cast<uint16_t>` of an `int`. -/
def toUint16 (v : Int) : Nat := (v % 65536).toNat

theorem toSize_of_nat {n : Nat} (h : n < 18446744073709551616) : toSize n = n := by
  unfold toSize
  omega

/-! ## Reading digits -/

/-- Every byte is a digit of the base. -/
def AllDigits (base : Nat) (s : Bytes) : Prop := ∀ b ∈ s, (digitVal base b).isSome = true

instance (base : Nat) (s : Bytes) : Decidable (AllDigits base s) :=
  List.decidableBAll (fun b => (digitVal base b).isSome = true) s

theorem leadingDigits_eq_filterMap {base : Nat} :
    ∀ {s : Bytes}, AllDigits base s → leadingDigits base s = s.filterMap (digitVal base)
  | [], _ => rfl
  | b :: bs, h => by
    obtain ⟨v, hv⟩ := Option.isSome_iff_exists.mp (h b List.mem_cons_self)
    have ih := leadingDigits_eq_filterMap (s := bs) fun c hc => h c (List.mem_cons_of_mem b hc)
    rw [leadingDigits, List.filterMap_cons, hv, ih]

/-- A digit is neither white space nor a sign. -/
theorem digitVal_not_space {base : Nat} {b : Byte} (h : (digitVal base b).isSome = true) :
    isSpace b = false ∧ b ≠ 45 ∧ b ≠ 43 := by
  have hrange : (48 ≤ b ∧ b ≤ 57) ∨ (97 ≤ b ∧ b ≤ 122) ∨ (65 ≤ b ∧ b ≤ 90) := by
    by_contra hno
    rw [not_or, not_or] at hno
    obtain ⟨h1, h2, h3⟩ := hno
    simp [digitVal, h1, h2, h3] at h
  have hnat : (48 ≤ b.toNat ∧ b.toNat ≤ 57) ∨ (97 ≤ b.toNat ∧ b.toNat ≤ 122) ∨
      (65 ≤ b.toNat ∧ b.toNat ≤ 90) := hrange
  refine ⟨?_, ?_, ?_⟩
  · rw [Bool.eq_false_iff]
    intro hs
    rw [isSpace, Bool.or_eq_true, beq_iff_eq, Bool.and_eq_true, decide_eq_true_iff,
      decide_eq_true_iff] at hs
    rcases hs with rfl | ⟨-, hle⟩
    · revert hnat
      decide
    · have hle' : b.toNat ≤ 13 := hle
      omega
  · rintro rfl
    revert hnat
    decide
  · rintro rfl
    revert hnat
    decide

/-- `x` is no digit, so a run of digits has no `0x` prefix. -/
theorem dropHexPrefix_of_allDigits {base : Nat} (hbase : base ≤ 16) :
    ∀ {s : Bytes}, AllDigits base s → dropHexPrefix base s = s := by
  intro s h
  unfold dropHexPrefix
  split
  · rename_i x d bs
    refine if_neg ?_
    rintro ⟨rfl, hx, -⟩
    have hdig := h x (by simp)
    rcases hx with rfl | rfl
    · exact absurd hdig (by decide)
    · exact absurd hdig (by decide)
  · rfl

theorem takeSign_of_ne {b : Byte} (hminus : b ≠ 45) (hplus : b ≠ 43) (bs : Bytes) :
    takeSign (b :: bs) = (false, b :: bs) := by
  unfold takeSign
  split
  · rename_i heq
    cases heq
    exact absurd rfl hminus
  · rename_i heq
    cases heq
    exact absurd rfl hplus
  · rfl

/-- **A run of digits is read as the number it denotes**, or refused from `2^31` on. -/
theorem stoi_allDigits {base : Nat} (hbase : base ≤ 16) {s : Bytes} (hne : s ≠ [])
    (hall : AllDigits base s) : stoi base s =
      if ofDigits base (s.filterMap (digitVal base)) < 2147483648 then
        .ok (ofDigits base (s.filterMap (digitVal base)) : Nat)
      else .error .outOfRange := by
  obtain ⟨b, bs, rfl⟩ := List.exists_cons_of_ne_nil hne
  obtain ⟨hspace, hminus, hplus⟩ := digitVal_not_space (hall b List.mem_cons_self)
  have hdrop : (b :: bs).dropWhile isSpace = b :: bs := by
    rw [List.dropWhile_cons, hspace]
    rfl
  have hds := leadingDigits_eq_filterMap hall
  obtain ⟨v, hv⟩ := Option.isSome_iff_exists.mp (hall b List.mem_cons_self)
  obtain ⟨ds, hcons⟩ : ∃ ds, (b :: bs).filterMap (digitVal base) = v :: ds :=
    ⟨_, List.filterMap_cons_some hv⟩
  unfold stoi
  simp only [hdrop, takeSign_of_ne hminus hplus, dropHexPrefix_of_allDigits hbase hall, hds]
  rw [hcons]
  simp only [Bool.false_eq_true, if_false]
  by_cases hlt : ofDigits base (v :: ds) < 2147483648
  · rw [if_pos hlt, if_neg (by omega)]
  · rw [if_neg hlt, if_pos (by omega)]

theorem stoi_of_digits {base : Nat} (hbase : base ≤ 16) {s : Bytes} (hne : s ≠ [])
    (hall : AllDigits base s) (hlt : ofDigits base (s.filterMap (digitVal base)) < 2147483648) :
    stoi base s = .ok (ofDigits base (s.filterMap (digitVal base)) : Nat) := by
  rw [stoi_allDigits hbase hne hall, if_pos hlt]

/-! ## Digits in front -/

/-- Digits come first, so there is neither white space nor a sign. -/
theorem exists_digit_of_leadingDigits {base : Nat} :
    ∀ {s : Bytes}, leadingDigits base s ≠ [] → ∃ b bs, s = b :: bs ∧ (digitVal base b).isSome = true
  | [], h => absurd rfl h
  | b :: bs, h => by
    refine ⟨b, bs, rfl, ?_⟩
    unfold leadingDigits at h
    cases hv : digitVal base b with
    | none => simp [hv] at h
    | some v => rfl

/-- Behind a `0x` that belongs to the numeral there is a digit. -/
theorem leadingDigits_dropHexPrefix {base : Nat} {s : Bytes} (h : leadingDigits base s ≠ []) :
    leadingDigits base (dropHexPrefix base s) ≠ [] := by
  unfold dropHexPrefix
  split
  · split
    · rename_i hprefix
      obtain ⟨rfl, -, hdigit⟩ := hprefix
      obtain ⟨v, hv⟩ := Option.isSome_iff_exists.mp hdigit
      simp [leadingDigits, hv]
    · exact h
  · exact h

/-- **Digits in front are read as far as they go**, from behind a `0x` if there
is one, and refused from `2^31` on. -/
theorem stoi_of_leadingDigits {base : Nat} {s : Bytes} (h : leadingDigits base s ≠ []) :
    stoi base s =
      if ofDigits base (leadingDigits base (dropHexPrefix base s)) < 2147483648 then
        .ok (ofDigits base (leadingDigits base (dropHexPrefix base s)) : Nat)
      else .error .outOfRange := by
  have hne := leadingDigits_dropHexPrefix h
  obtain ⟨b, bs, rfl, hb⟩ := exists_digit_of_leadingDigits h
  obtain ⟨hspace, hminus, hplus⟩ := digitVal_not_space hb
  have hdrop : (b :: bs).dropWhile isSpace = b :: bs := by
    rw [List.dropWhile_cons, hspace]
    rfl
  unfold stoi
  simp only [hdrop, takeSign_of_ne hminus hplus]
  generalize leadingDigits base (dropHexPrefix base (b :: bs)) = ds at hne
  obtain ⟨d, ds, rfl⟩ := List.exists_cons_of_ne_nil hne
  simp only [Bool.false_eq_true, if_false]
  by_cases hlt : ofDigits base (d :: ds) < 2147483648
  · rw [if_pos hlt, if_neg (by omega)]
  · rw [if_neg hlt, if_pos (by omega)]

theorem dropHexPrefix_of_ne {base : Nat} (hbase : base ≠ 16) (s : Bytes) :
    dropHexPrefix base s = s := by
  unfold dropHexPrefix
  split
  · exact if_neg fun h => hbase h.1
  · rfl

/-- In front of a `0x` there is no number but nought. -/
theorem dropHexPrefix_eq_or (s : Bytes) :
    dropHexPrefix 16 s = s ∨ ofDigits 16 (leadingDigits 16 s) = 0 := by
  unfold dropHexPrefix
  split
  · rename_i x d bs
    split
    · rename_i hprefix
      obtain ⟨-, hx, -⟩ := hprefix
      have h0 : digitVal 16 48 = some 0 := by decide
      have hnone : digitVal 16 x = none := by rcases hx with rfl | rfl <;> decide
      right
      simp [leadingDigits, h0, hnone, ofDigits]
    · exact .inl rfl
  · exact .inl rfl

/-! ## Bounds -/

/-- What is read is an `int`. -/
theorem stoi_bounds {base : Nat} {s : Bytes} {v : Int} (h : stoi base s = .ok v) :
    -2147483648 ≤ v ∧ v ≤ 2147483647 := by
  unfold stoi at h
  dsimp only at h
  split at h
  · cases h
  · split_ifs at h with hnegative hrange hrange
    · cases h
      omega
    · cases h
      omega

theorem foldl_digits_lt {base : Nat} (hbase : 0 < base) :
    ∀ (ds : List Nat) (n : Nat), (∀ d ∈ ds, d < base) →
      ds.foldl (fun n d => base * n + d) n < (n + 1) * base ^ ds.length
  | [], n, _ => by simp
  | d :: ds, n, h => by
    have hd := h d List.mem_cons_self
    have ih := foldl_digits_lt hbase ds (base * n + d) fun e he => h e (List.mem_cons_of_mem d he)
    rw [List.foldl_cons, List.length_cons, Nat.pow_succ, Nat.mul_comm (base ^ ds.length),
      ← Nat.mul_assoc]
    refine Nat.lt_of_lt_of_le ih (Nat.mul_le_mul_right _ ?_)
    rw [Nat.add_mul, Nat.one_mul, Nat.mul_comm n base]
    omega

theorem digitVal_lt {base : Nat} {b : Byte} {v : Nat} (h : digitVal base b = some v) : v < base := by
  unfold digitVal at h
  obtain ⟨hlt, h⟩ := Option.ite_none_right_eq_some.mp h
  cases h
  exact hlt

/-- **A numeral of `n` digits** denotes a number below `base ^ n`. -/
theorem value_lt_pow {base : Nat} (hbase : 0 < base) (s : Bytes) :
    ofDigits base (s.filterMap (digitVal base)) < base ^ s.length := by
  have hlt := foldl_digits_lt hbase (s.filterMap (digitVal base)) 0 fun d hd => by
    obtain ⟨b, -, hb⟩ := List.mem_filterMap.mp hd
    exact digitVal_lt hb
  rw [Nat.zero_add, Nat.one_mul] at hlt
  exact hlt.trans_le (Nat.pow_le_pow_right hbase (List.length_filterMap_le _ s))

/-! ## Printing -/

theorem digitVal_digitChar : ∀ d < 10, digitVal 10 (ch (Nat.digitChar d)) = some d := by decide

theorem decimal_of_lt {n : Nat} (h : n < 10) : decimal n = [ch (Nat.digitChar n)] := by
  rw [decimal, Nat.toDigits_of_lt_base h]
  rfl

theorem decimal_of_ge {n : Nat} (h : 10 ≤ n) :
    decimal n = decimal (n / 10) ++ [ch (Nat.digitChar (n % 10))] := by
  rw [decimal, Nat.toDigits_of_base_le (by decide) h, List.map_append]
  rfl

theorem ofDigits_append_singleton (base : Nat) (ds : List Nat) (d : Nat) :
    ofDigits base (ds ++ [d]) = base * ofDigits base ds + d := by
  simp [ofDigits]

/-- The printed digits denote the number printed. -/
theorem decimal_digits (n : Nat) :
    AllDigits 10 (decimal n) ∧ ofDigits 10 ((decimal n).filterMap (digitVal 10)) = n := by
  induction n using Nat.strongRecOn with
  | _ n ih =>
    rcases Nat.lt_or_ge n 10 with h | h
    · have hd := digitVal_digitChar n h
      rw [decimal_of_lt h]
      refine ⟨fun b hb => ?_, by simp [hd, ofDigits]⟩
      rw [List.mem_singleton.mp hb, hd]
      rfl
    · obtain ⟨hall, hval⟩ := ih (n / 10) (by omega)
      have hd := digitVal_digitChar (n % 10) (Nat.mod_lt n (by decide))
      rw [decimal_of_ge h]
      refine ⟨fun b hb => ?_, ?_⟩
      · rcases List.mem_append.mp hb with hb | hb
        · exact hall b hb
        · rw [List.mem_singleton.mp hb, hd]
          rfl
      · rw [List.filterMap_append, List.filterMap_cons_some hd, List.filterMap_nil,
          ofDigits_append_singleton, hval]
        exact Nat.div_add_mod n 10

theorem decimal_ne_nil (n : Nat) : decimal n ≠ [] := by
  rw [decimal, ne_eq, List.map_eq_nil_iff]
  exact Nat.toDigits_ne_nil

/-- A number below `10 ^ k` is printed in at most `k` digits. -/
theorem length_decimal_le {n : Nat} : ∀ {k : Nat}, n < 10 ^ k → 0 < k → (decimal n).length ≤ k := by
  induction n using Nat.strongRecOn with
  | _ n ih =>
    intro k hk hpos
    rcases Nat.lt_or_ge n 10 with h | h
    · rw [decimal_of_lt h]
      exact hpos
    · obtain ⟨k, rfl⟩ := Nat.exists_eq_add_of_lt hpos
      rw [Nat.zero_add, Nat.pow_succ] at hk
      have hk0 : 0 < k := by
        rcases Nat.eq_zero_or_pos k with rfl | hk0
        · omega
        · exact hk0
      have hle := ih (n / 10) (by omega) (k := k) (by omega) hk0
      rw [decimal_of_ge h, List.length_append, List.length_singleton]
      omega

/-- `std::stoi` reads back what `std::to_string` printed, below `2^31`. -/
theorem stoi_decimal {n : Nat} (h : n < 2147483648) : stoi 10 (decimal n) = .ok (n : Nat) := by
  obtain ⟨hall, hval⟩ := decimal_digits n
  have := stoi_of_digits (by decide) (decimal_ne_nil n) hall (by rw [hval]; exact h)
  rwa [hval] at this

end AsioProtocols
