import AsioProtocols.Http.Percent

/-!
# What `decoded` accepts

`decoded` is right on percent-encoded text (`Expands`). On other texts it should throw, and
does so only where `std::stoi` refuses the two characters behind a `%`: it reads one
hexadecimal digit and any character, or a blank or a sign and a digit, as well. And
with fewer than two characters behind a `%` the iterator passes the end. `decodes_iff`
puts this together: a text that is not percent-encoded must have an escape that
`std::stoi` refuses (`Refused`).
-/

namespace AsioProtocols

namespace Uri

/-- `out` is `s` with the triplets replaced by their byte and `+` by a space. -/
inductive Expands : Bytes → Bytes → Prop
  | nil : Expands [] []
  | plus {rest out : Bytes} (behind : Expands rest out) : Expands (ch '+' :: rest) (ch ' ' :: out)
  | plain {b : Byte} {rest out : Bytes} (hplus : b ≠ ch '+') (hpercent : b ≠ ch '%')
      (behind : Expands rest out) : Expands (b :: rest) (b :: out)
  | triplet {high low : Byte} {x y : Nat} {rest out : Bytes} (hhigh : digitVal 16 high = some x)
      (hlow : digitVal 16 low = some y) (behind : Expands rest out) :
      Expands (ch '%' :: high :: low :: rest) (UInt8.ofNat (16 * x + y) :: out)

/-- Every `%` is followed by two hexadecimal digits. -/
def Encoded (s : Bytes) : Prop :=
  ∀ before behind, s = before ++ ch '%' :: behind →
    ∃ high low rest, behind = high :: low :: rest ∧ hexByte high = true ∧ hexByte low = true

/-- **`decoded` does what it should**: it returns what an encoded text expands to, throws on
other texts, and stays within the string. -/
structure Decodes (s : Bytes) : Prop where
  returns : Encoded s → ∃ out, Expands s out ∧ decoded s = .ok out
  throws : ¬ Encoded s → ∃ e, decoded s = .error (.logicError e)
  inBounds : decoded s ≠ .error .pastEnd

/-- Two characters that are no number: the first is no hexadecimal digit, nor is it a blank
or a sign and the second one. -/
def noNumber (high low : Byte) : Bool :=
  !hexByte high && !((isSpace high || high == ch '+' || high == ch '-') && hexByte low)

/-- Read from the left, there is a `%` whose two characters are no number. -/
inductive Refused : Bytes → Prop
  | here {high low : Byte} {rest : Bytes} (h : noNumber high low = true) :
      Refused (ch '%' :: high :: low :: rest)
  | escape {high low : Byte} {rest : Bytes} (behind : Refused rest) :
      Refused (ch '%' :: high :: low :: rest)
  | plain {b : Byte} {rest : Bytes} (h : b ≠ ch '%') (behind : Refused rest) : Refused (b :: rest)

/-! ## Two characters -/

/-- Two characters are too few for `0x` and a digit. -/
theorem dropHexPrefix_of_short {s : Bytes} (h : s.length ≤ 2) : dropHexPrefix 16 s = s := by
  unfold dropHexPrefix
  split
  · simp at h
  · rfl

/-- Behind blanks and a sign, one character is a number if it is a digit. -/
theorem stoi_single {s : Bytes} {negative : Bool} {low : Byte}
    (h : takeSign (s.dropWhile isSpace) = (negative, [low])) : stoi 16 s =
      match digitVal 16 low with
      | some y => .ok (if negative then -(y : Int) else y)
      | none => .error .invalidArgument := by
  unfold stoi
  rw [h]
  dsimp only
  rw [dropHexPrefix_of_short (by simp), leadingDigits]
  cases hy : digitVal 16 low with
  | none => rfl
  | some y =>
    have hlt := digitVal_lt hy
    have hvalue : ofDigits 16 (y :: leadingDigits 16 []) = y := by simp [leadingDigits, ofDigits]
    dsimp only
    rw [hvalue]
    cases negative with
    | false =>
      simp only [Bool.false_eq_true, if_false]
      rw [if_neg (by omega)]
    | true =>
      simp only [if_true]
      rw [if_neg (by omega)]

/-- A digit in front is a number. -/
theorem stoi_digit {high low : Byte} {x : Nat} (hx : digitVal 16 high = some x) :
    ∃ v, stoi 16 [high, low] = .ok v := by
  have hlt := digitVal_lt hx
  have hsmall : ofDigits 16 (leadingDigits 16 [high, low]) < 256 := by
    cases hy : digitVal 16 low with
    | none =>
      simp only [leadingDigits, hx, hy, ofDigits, List.foldl_cons, List.foldl_nil]
      omega
    | some y =>
      have hlty := digitVal_lt hy
      simp only [leadingDigits, hx, hy, ofDigits, List.foldl_cons, List.foldl_nil]
      omega
  rw [stoi_of_leadingDigits (by simp [leadingDigits, hx]), dropHexPrefix_of_short (by simp),
    if_pos (by omega)]
  exact ⟨_, rfl⟩

/-- No digit behind blanks and a sign is no number. -/
theorem stoi_refuses {s : Bytes} {negative : Bool} {t : Bytes}
    (h : takeSign (s.dropWhile isSpace) = (negative, t))
    (hnone : ∀ b ∈ t.head?, digitVal 16 b = none) : stoi 16 s = .error .invalidArgument := by
  have hplain : dropHexPrefix 16 t = t := by
    unfold dropHexPrefix
    split
    · exact absurd (hnone 48 rfl) (by decide)
    · rfl
  have hdigits : leadingDigits 16 t = [] := by
    cases t with
    | nil => rfl
    | cons b bs => rw [leadingDigits, hnone b rfl]
  unfold stoi
  rw [h]
  dsimp only
  rw [hplain, hdigits]

section

variable {high low : Byte}

/-- Behind a blank or a sign, all depends on the second character. -/
theorem stoi_behind {negative : Bool} (hhigh : hexByte high = false)
    (htake : takeSign ([high, low].dropWhile isSpace) = (negative, [low]))
    (hfront : (isSpace high || high == ch '+' || high == ch '-') = true) :
    (∃ v, stoi 16 [high, low] = .ok v) ∧ noNumber high low = false ∨
      stoi 16 [high, low] = .error .invalidArgument ∧ noNumber high low = true := by
  rw [stoi_single htake, noNumber, hhigh, hfront, hexByte]
  cases digitVal 16 low with
  | none => exact .inr ⟨rfl, rfl⟩
  | some y => exact .inl ⟨⟨_, rfl⟩, rfl⟩

/-- A blank, and then a blank or a sign. -/
theorem stoi_blanks (hhigh : hexByte high = false) (hspace : isSpace high = true)
    (hlow : low = 45 ∨ low = 43 ∨ isSpace low = true) :
    stoi 16 [high, low] = .error .invalidArgument ∧ noNumber high low = true := by
  obtain ⟨negative, htake⟩ : ∃ negative, takeSign ([low].dropWhile isSpace) = (negative, []) := by
    rcases hlow with rfl | rfl | hlow
    · exact ⟨true, rfl⟩
    · exact ⟨false, rfl⟩
    · exact ⟨false, by rw [List.dropWhile_cons_of_pos hlow]; rfl⟩
  have hnot : hexByte low = false := by
    rw [hexByte, ← Bool.not_eq_true]
    intro hdigit
    obtain ⟨hblank, hminus, hplus⟩ := digitVal_not_space hdigit
    rcases hlow with hlow | hlow | hlow
    · exact hminus hlow
    · exact hplus hlow
    · rw [hlow] at hblank
      cases hblank
  rw [← List.dropWhile_cons_of_pos hspace] at htake
  refine ⟨stoi_refuses htake (by simp), ?_⟩
  rw [noNumber, hhigh, hnot, Bool.and_false]
  rfl

/-- Neither a digit nor a blank nor a sign. -/
theorem stoi_other (hx : digitVal 16 high = none) (hspace : ¬ isSpace high = true)
    (hminus : high ≠ 45) (hplus : high ≠ 43) :
    stoi 16 [high, low] = .error .invalidArgument ∧ noNumber high low = true := by
  have htake : takeSign ([high, low].dropWhile isSpace) = (false, [high, low]) := by
    rw [List.dropWhile_cons_of_neg hspace, takeSign_of_ne hminus hplus]
  refine ⟨stoi_refuses htake ?_, ?_⟩
  · intro b hb
    cases hb
    exact hx
  · have hplus' : (high == ch '+') = false := beq_eq_false_iff_ne.mpr hplus
    have hminus' : (high == ch '-') = false := beq_eq_false_iff_ne.mpr hminus
    rw [noNumber, hexByte, hx, hplus', hminus', Bool.eq_false_iff.mpr hspace]
    rfl

/-- **`std::stoi` on two characters.** -/
theorem stoi_pair (high low : Byte) :
    (∃ v, stoi 16 [high, low] = .ok v) ∧ noNumber high low = false ∨
      stoi 16 [high, low] = .error .invalidArgument ∧ noNumber high low = true := by
  cases hx : digitVal 16 high with
  | some x => exact .inl ⟨stoi_digit hx, by simp [noNumber, hexByte, hx]⟩
  | none =>
    have hhigh : hexByte high = false := by rw [hexByte, hx]; rfl
    by_cases hspace : isSpace high = true
    · by_cases hlow : low = 45 ∨ low = 43 ∨ isSpace low = true
      · exact .inr (stoi_blanks hhigh hspace hlow)
      · rw [not_or, not_or] at hlow
        obtain ⟨hminus, hplus, hlow⟩ := hlow
        have htake : takeSign ([high, low].dropWhile isSpace) = (false, [low]) := by
          rw [List.dropWhile_cons_of_pos hspace, List.dropWhile_cons_of_neg hlow,
            takeSign_of_ne hminus hplus]
        exact stoi_behind hhigh htake (by simp [hspace])
    · by_cases hminus : high = 45
      · subst hminus
        exact stoi_behind hhigh rfl rfl
      · by_cases hplus : high = 43
        · subst hplus
          exact stoi_behind hhigh rfl rfl
        · exact .inr (stoi_other hx hspace hminus hplus)

end

/-! ## The whole text -/

theorem decoded_refused {high low : Byte} {e : StoiError} (h : stoi 16 [high, low] = .error e)
    (rest : Bytes) : decoded (ch '%' :: high :: low :: rest) = .error (.logicError e) := by
  rw [decoded, if_neg (by decide), if_pos rfl]
  simp only [h]

theorem decoded_plus (rest : Bytes) :
    decoded (ch '+' :: rest) = (decoded rest).map (ch ' ' :: ·) := by
  rw [decoded.eq_def]
  rfl

/-- **What an encoded text expands to is returned.** -/
theorem decoded_of_expands {s out : Bytes} (h : Expands s out) : decoded s = .ok out := by
  induction h with
  | nil => rfl
  | plus _ ih =>
    rw [decoded_plus, ih]
    rfl
  | plain hplus hpercent _ ih =>
    rw [decoded_plain hplus hpercent, ih]
    rfl
  | @triplet high low x y rest out hhigh hlow _ ih =>
    have hx := digitVal_lt hhigh
    have hy := digitVal_lt hlow
    have hbyte : toByte ((16 * x + y : Nat) : Int) = UInt8.ofNat (16 * x + y) := by
      have hmod : (((16 * x + y : Nat) : Int) % 256).toNat = 16 * x + y := by omega
      rw [toByte, hmod]
    rw [decoded_triplet (stoi_twoDigits hhigh hlow), ih, hbyte]
    rfl

theorem decoded_of_refused {s : Bytes} (h : Refused s) :
    ∃ e, decoded s = .error (.logicError e) := by
  induction h with
  | @here high low rest h =>
    rcases stoi_pair high low with ⟨-, hnumber⟩ | ⟨hstoi, -⟩
    · rw [h] at hnumber
      cases hnumber
    · exact ⟨_, decoded_refused hstoi rest⟩
  | @escape high low rest _ ih =>
    rcases stoi_pair high low with ⟨⟨v, hstoi⟩, -⟩ | ⟨hstoi, -⟩
    · obtain ⟨e, he⟩ := ih
      refine ⟨e, ?_⟩
      rw [decoded_triplet hstoi, he]
      rfl
    · exact ⟨_, decoded_refused hstoi rest⟩
  | @plain b rest hpercent _ ih =>
    obtain ⟨e, he⟩ := ih
    refine ⟨e, ?_⟩
    by_cases hplus : b = ch '+'
    · rw [hplus, decoded_plus, he]
      rfl
    · rw [decoded_plain hplus hpercent, he]
      rfl

theorem error_of_map {ε β γ : Type} {f : β → γ} {x : Except ε β} {e : ε}
    (h : x.map f = .error e) : x = .error e := by
  cases x with
  | error _ =>
    cases h
    rfl
  | ok _ => cases h

/-- **Nothing else throws.** -/
theorem refused_of_decoded {s : Bytes} {e : StoiError} (h : decoded s = .error (.logicError e)) :
    Refused s := by
  fun_induction decoded s generalizing e with
  | case1 => cases h
  | case2 rest ih =>
    exact .plain (by decide) (ih (error_of_map h))
  | case3 high low rest _ hstoi =>
    rcases stoi_pair high low with ⟨⟨v, hv⟩, -⟩ | ⟨-, hno⟩
    · rw [hstoi] at hv
      cases hv
    · exact .here hno
  | case4 high low rest _ _ _ ih =>
    exact .escape (ih (error_of_map h))
  | case5 => cases h
  | case6 b rest hplus hpercent ih =>
    exact .plain hpercent (ih (error_of_map h))

/-! ## Encoded texts expand -/

theorem hexByte_percent : hexByte (ch '%') = false := by decide

theorem Encoded.of_append (front : Bytes) {rest : Bytes} (h : Encoded (front ++ rest)) : Encoded rest := by
  intro before behind heq
  exact h (front ++ before) behind (by rw [heq, List.append_assoc])

/-- An escape in front of an encoded text. -/
theorem Encoded.triplet {high low : Byte} {rest : Bytes} (hhigh : hexByte high = true)
    (hlow : hexByte low = true) (hrest : Encoded rest) :
    Encoded (ch '%' :: high :: low :: rest) := by
  intro before behind heq
  match before, heq with
  | [], heq => exact ⟨high, low, rest, (List.cons.inj heq).2.symm, hhigh, hlow⟩
  | [_], heq =>
    -- a `%` is no digit
    obtain ⟨rfl, -⟩ := List.cons.inj (List.cons.inj heq).2
    rw [hexByte_percent] at hhigh
    cases hhigh
  | [_, _], heq =>
    obtain ⟨rfl, -⟩ := List.cons.inj (List.cons.inj (List.cons.inj heq).2).2
    rw [hexByte_percent] at hlow
    cases hlow
  | _ :: _ :: _ :: before, heq =>
    exact hrest before behind (List.cons.inj (List.cons.inj (List.cons.inj heq).2).2).2

theorem Encoded.plain {b : Byte} {rest : Bytes} (hpercent : b ≠ ch '%') (hrest : Encoded rest) :
    Encoded (b :: rest) := by
  intro before behind heq
  cases before with
  | nil => exact absurd (List.cons.inj heq).1 hpercent
  | cons _ before => exact hrest before behind (List.cons.inj heq).2

theorem hexByte_of_digitVal {b : Byte} {x : Nat} (h : digitVal 16 b = some x) :
    hexByte b = true := by
  rw [hexByte, h]
  rfl

theorem encoded_of_expands {s out : Bytes} (h : Expands s out) : Encoded s := by
  induction h with
  | nil => exact fun before behind heq => absurd heq.symm (by simp)
  | plus _ ih => exact .plain (by decide) ih
  | plain _ hpercent _ ih => exact .plain hpercent ih
  | triplet hhigh hlow _ ih =>
    exact .triplet (hexByte_of_digitVal hhigh) (hexByte_of_digitVal hlow) ih

theorem expands_of_encoded : ∀ {s : Bytes}, Encoded s → ∃ out, Expands s out
  | [], _ => ⟨[], .nil⟩
  | b :: rest, h => by
    by_cases hpercent : b = ch '%'
    · subst hpercent
      obtain ⟨high, low, rest, rfl, hhigh, hlow⟩ := h [] rest rfl
      obtain ⟨x, hx⟩ := Option.isSome_iff_exists.mp hhigh
      obtain ⟨y, hy⟩ := Option.isSome_iff_exists.mp hlow
      have hrest : Encoded rest := Encoded.of_append [ch '%', high, low] h
      obtain ⟨out, hout⟩ := expands_of_encoded hrest
      exact ⟨_, .triplet hx hy hout⟩
    · have hrest : Encoded rest := Encoded.of_append [b] h
      obtain ⟨out, hout⟩ := expands_of_encoded hrest
      by_cases hplus : b = ch '+'
      · subst hplus
        exact ⟨_, .plus hout⟩
      · exact ⟨_, .plain hplus hpercent hout⟩
  termination_by s => s.length

/-- **The encoded texts** are those that expand to something. -/
theorem exists_expands_iff {s : Bytes} : (∃ out, Expands s out) ↔ Encoded s :=
  ⟨fun ⟨_, h⟩ => encoded_of_expands h, expands_of_encoded⟩

/-! ## What `decoded` accepts -/

/-- **When `decoded` does what it should**: the text is percent-encoded, or it has an escape,
read from the left, whose two characters `std::stoi` takes for no number. -/
theorem decodes_iff (s : Bytes) : Decodes s ↔ Encoded s ∨ Refused s := by
  constructor
  · intro h
    by_cases hencoded : Encoded s
    · exact .inl hencoded
    · obtain ⟨e, he⟩ := h.throws hencoded
      exact .inr (refused_of_decoded he)
  · intro h
    have hthrows : ¬ Encoded s → ∃ e, decoded s = .error (.logicError e) :=
      fun hencoded => decoded_of_refused (h.resolve_left hencoded)
    by_cases hencoded : Encoded s
    · obtain ⟨out, hout⟩ := exists_expands_iff.mpr hencoded
      have hreturns := decoded_of_expands hout
      refine ⟨fun _ => ⟨out, hout, hreturns⟩, hthrows, ?_⟩
      rw [hreturns]
      nofun
    · obtain ⟨e, he⟩ := hthrows hencoded
      refine ⟨fun h => absurd h hencoded, hthrows, ?_⟩
      rw [he]
      nofun

/-- A digit and a `g` are taken for a number, and one character behind a `%` is too few. -/
theorem not_decodes : ¬ Decodes (ascii "%1g") ∧ ¬ Decodes (ascii "a%") := by
  constructor
  · intro h
    have hnot : ¬ Encoded (ascii "%1g") := by
      intro hencoded
      obtain ⟨high, low, rest, heq, -, hlow⟩ := hencoded [] (ascii "1g") rfl
      cases heq
      exact absurd hlow (by decide)
    obtain ⟨e, he⟩ := h.throws hnot
    exact absurd he (by rw [show decoded (ascii "%1g") = .ok [1] from rfl]; nofun)
  · exact fun h => h.inBounds rfl

end Uri

end AsioProtocols
