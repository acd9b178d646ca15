import AsioProtocols.Base.Stoi

/-!
# The texts that `std::stoi` reads

White space, a sign, digits, and whatever follows them: `Numeral s v` is the shape of a text
`s` that denotes the `int` `v`. `stoi_eq_ok_iff` says that `stoi` reads exactly these, in base
10, and `stoi_eq_error_iff` which of its two exceptions it throws on the others.
-/

namespace AsioProtocols

/-- The signs, and whether they negate. -/
inductive Sign : Bytes → Bool → Prop
  | none : Sign [] false
  | plus : Sign [ch '+'] false
  | minus : Sign [ch '-'] true

/-- White space, a sign, digits, and no digit behind them. -/
structure Digits (s : Bytes) (negative : Bool) (n : Nat) : Prop where
  shape : ∃ space sign digits junk, s = space ++ (sign ++ (digits ++ junk)) ∧
    (∀ c ∈ space, isSpace c = true) ∧ Sign sign negative ∧ digits ≠ [] ∧ AllDigits 10 digits ∧
    (∀ c ∈ junk.head?, digitVal 10 c = none) ∧ n = ofDigits 10 (digits.filterMap (digitVal 10))

/-- What a sign makes of a number. -/
def signedValue (negative : Bool) (n : Nat) : Int := if negative then -n else n

/-- An `int`, 32 bits wide. -/
def FitsInt (v : Int) : Prop := -2147483648 ≤ v ∧ v ≤ 2147483647

instance (v : Int) : Decidable (FitsInt v) := inferInstanceAs (Decidable (_ ∧ _))

/-- **A text that denotes an `int`.** -/
def Numeral (s : Bytes) (v : Int) : Prop :=
  ∃ negative n, Digits s negative n ∧ v = signedValue negative n ∧ FitsInt v

/-- Digits are read up to the first byte that is none. -/
theorem leadingDigits_append {digits junk : Bytes} (hall : AllDigits 10 digits)
    (hjunk : ∀ c ∈ junk.head?, digitVal 10 c = none) :
    leadingDigits 10 (digits ++ junk) = digits.filterMap (digitVal 10) := by
  induction digits with
  | nil =>
    cases junk with
    | nil => rfl
    | cons c junk =>
      rw [List.nil_append, leadingDigits, hjunk c rfl]
      rfl
  | cons b digits ih =>
    obtain ⟨v, hv⟩ := Option.isSome_iff_exists.mp (hall b List.mem_cons_self)
    rw [List.cons_append, leadingDigits, hv, List.filterMap_cons_some hv,
      ih fun c hc => hall c (List.mem_cons_of_mem b hc)]

/-- Every text has digits in front, none perhaps. -/
theorem exists_digits : ∀ s : Bytes, ∃ digits junk, s = digits ++ junk ∧ AllDigits 10 digits ∧
    (∀ c ∈ junk.head?, digitVal 10 c = none) ∧
    leadingDigits 10 s = digits.filterMap (digitVal 10)
  | [] => ⟨[], [], rfl, fun _ h => absurd h List.not_mem_nil, by simp, rfl⟩
  | b :: s => by
    cases hb : digitVal 10 b with
    | none =>
      refine ⟨[], b :: s, rfl, fun _ h => absurd h List.not_mem_nil, ?_, ?_⟩
      · intro c hc
        rw [← Option.some.inj hc, hb]
      · rw [leadingDigits, hb]
        rfl
    | some v =>
      obtain ⟨digits, junk, rfl, hall, hjunk, hlead⟩ := exists_digits s
      refine ⟨b :: digits, junk, rfl, ?_, hjunk, ?_⟩
      · intro c hc
        rcases List.mem_cons.mp hc with rfl | hc
        · rw [hb]
          rfl
        · exact hall c hc
      · rw [leadingDigits, hb, hlead, List.filterMap_cons_some hb]

/-- A sign in front of digits, or of nothing that is a sign, is taken off. -/
theorem takeSign_of_sign {sign rest : Bytes} {negative : Bool} (h : Sign sign negative)
    (hrest : ∀ c ∈ rest.head?, (digitVal 10 c).isSome = true) :
    takeSign (sign ++ rest) = (negative, rest) := by
  cases h with
  | none =>
    cases rest with
    | nil => rfl
    | cons b rest =>
      obtain ⟨-, hminus, hplus⟩ := digitVal_not_space (hrest b rfl)
      exact takeSign_of_ne hminus hplus rest
  | plus => rfl
  | minus => rfl

/-- Every text has a sign in front, an empty one perhaps. -/
theorem exists_sign (s : Bytes) :
    ∃ sign, Sign sign (takeSign s).1 ∧ s = sign ++ (takeSign s).2 := by
  unfold takeSign
  split
  · exact ⟨_, .minus, rfl⟩
  · exact ⟨_, .plus, rfl⟩
  · exact ⟨_, .none, rfl⟩

/-- White space is skipped up to a sign or a digit. -/
theorem dropWhile_space {space sign rest : Bytes} {negative : Bool}
    (hspace : ∀ c ∈ space, isSpace c = true) (h : Sign sign negative)
    (hrest : ∀ c ∈ rest.head?, (digitVal 10 c).isSome = true) :
    (space ++ (sign ++ rest)).dropWhile isSpace = sign ++ rest := by
  have hstop : (sign ++ rest).dropWhile isSpace = sign ++ rest := by
    cases h with
    | none =>
      cases rest with
      | nil => rfl
      | cons b rest =>
        rw [List.nil_append, List.dropWhile_cons, (digitVal_not_space (hrest b rfl)).1]
        rfl
    | plus => rfl
    | minus => rfl
  rw [List.dropWhile_append_of_pos hspace, hstop]

/-- **What `stoi` makes of digits.** -/
theorem stoi_of_digitText {s : Bytes} {negative : Bool} {n : Nat} (h : Digits s negative n) :
    stoi 10 s = if FitsInt (signedValue negative n) then .ok (signedValue negative n)
      else .error .outOfRange := by
  obtain ⟨space, sign, digits, junk, rfl, hspace, hsign, hne, hall, hjunk, rfl⟩ := h.shape
  obtain ⟨b, digits, rfl⟩ := List.exists_cons_of_ne_nil hne
  have hb := hall b List.mem_cons_self
  have hhead : ∀ c ∈ (b :: digits ++ junk).head?, (digitVal 10 c).isSome = true := by
    intro c hc
    rw [← Option.some.inj hc]
    exact hb
  obtain ⟨v, hv⟩ := Option.isSome_iff_exists.mp hb
  have hplain : ∀ s, dropHexPrefix 10 s = s := dropHexPrefix_of_ne (by decide)
  unfold stoi
  simp only [dropWhile_space hspace hsign hhead, takeSign_of_sign hsign hhead,
    hplain, leadingDigits_append hall hjunk]
  rw [List.filterMap_cons_some hv]
  dsimp only
  rw [← signedValue]
  generalize signedValue negative (ofDigits 10 (v :: digits.filterMap (digitVal 10))) = value
  by_cases hfits : FitsInt value
  · rw [if_pos hfits, if_neg (by unfold FitsInt at hfits; omega)]
  · rw [if_neg hfits, if_pos (by unfold FitsInt at hfits; omega)]

/-- Behind the white space and the sign there are digits, or the argument is invalid. -/
theorem exists_digits_of_stoi (s : Bytes) :
    (∃ negative n, Digits s negative n) ∨ stoi 10 s = .error .invalidArgument := by
  obtain ⟨sign, hsign, hsplit⟩ := exists_sign (s.dropWhile isSpace)
  obtain ⟨digits, junk, hdigits, hall, hjunk, hlead⟩ :=
    exists_digits (takeSign (s.dropWhile isSpace)).2
  cases digits with
  | nil =>
    have hplain : ∀ s, dropHexPrefix 10 s = s := dropHexPrefix_of_ne (by decide)
    right
    unfold stoi
    simp only [hplain, hlead, List.filterMap_nil]
  | cons b digits =>
    left
    refine ⟨_, _, ⟨s.takeWhile isSpace, sign, b :: digits, junk, ?_, ?_, hsign,
      List.cons_ne_nil b digits, hall, hjunk, rfl⟩⟩
    · rw [← hdigits, ← hsplit, List.takeWhile_append_dropWhile]
    · exact fun c hc => List.mem_takeWhile_imp hc

/-- The texts that `stoi` refuses: digits that denote no `int`, and texts without digits. -/
def Refused (s : Bytes) : StoiError → Prop
  | .invalidArgument => ¬ ∃ negative n, Digits s negative n
  | .outOfRange => ∃ negative n, Digits s negative n ∧ ¬ FitsInt (signedValue negative n)

/-- **`stoi` reads exactly the numerals**, as what they denote. -/
theorem stoi_eq_ok_iff {s : Bytes} {v : Int} : stoi 10 s = .ok v ↔ Numeral s v := by
  constructor
  · intro h
    rcases exists_digits_of_stoi s with ⟨negative, n, hdigits⟩ | hinvalid
    · rw [stoi_of_digitText hdigits] at h
      split at h
      · rename_i hfits
        exact ⟨negative, n, hdigits, (Except.ok.inj h).symm, Except.ok.inj h ▸ hfits⟩
      · cases h
    · rw [hinvalid] at h
      cases h
  · rintro ⟨negative, n, hdigits, rfl, hfits⟩
    rw [stoi_of_digitText hdigits, if_pos hfits]

/-- **What `stoi` throws.** -/
theorem stoi_eq_error_iff {s : Bytes} {e : StoiError} : stoi 10 s = .error e ↔ Refused s e := by
  by_cases hshape : ∃ negative n, Digits s negative n
  · obtain ⟨negative, n, hdigits⟩ := hshape
    rw [stoi_of_digitText hdigits]
    by_cases hfits : FitsInt (signedValue negative n)
    · rw [if_pos hfits]
      refine iff_of_false (fun h => by cases h) ?_
      cases e with
      | invalidArgument => exact fun hno => hno ⟨negative, n, hdigits⟩
      | outOfRange =>
        rintro ⟨negative', n', hdigits', hfits'⟩
        have h := stoi_of_digitText hdigits
        rw [stoi_of_digitText hdigits', if_pos hfits, if_neg hfits'] at h
        cases h
    · rw [if_neg hfits]
      cases e with
      | invalidArgument =>
        exact iff_of_false (fun h => by cases h) fun hno => hno ⟨negative, n, hdigits⟩
      | outOfRange => exact iff_of_true rfl ⟨negative, n, hdigits, hfits⟩
  · rw [(exists_digits_of_stoi s).resolve_left hshape]
    cases e with
    | invalidArgument => exact iff_of_true rfl hshape
    | outOfRange =>
      refine iff_of_false (fun h => by cases h) ?_
      rintro ⟨negative, n, hdigits, -⟩
      exact hshape ⟨negative, n, hdigits⟩

end AsioProtocols
