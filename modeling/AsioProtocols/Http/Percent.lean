import AsioProtocols.Base.Stoi

/-!
# Percent-encoding

`uri::encoded` and `uri::decoded` (`http/uri.h`). A byte that is not unreserved is
printed as `%` and a hexadecimal `int`, at least two digits wide. As `char` is
signed, the bytes from 128 on are negative there, and come out with eight digits.

`decoded` takes two characters behind a `%`, so of eight digits six are left. What
it makes of an encoded text is `s.flatMap readBack` (`decoded_encoded`), and that
is `s` exactly if all bytes are below 128 (`encoded_faithful_iff`).
-/

namespace AsioProtocols

/-! ## Hexadecimal output -/

/-- An unsigned value under `std::hex`. -/
def hexadecimal (n : Nat) : Bytes := (Nat.toDigits 16 n).map ch

/-- `static_cast<unsigned>` of an `int`, 32 bits wide. -/
def toUint32 (v : Int) : Nat := (v % 4294967296).toNat

/-- `std::setw(width)`: the fill in front. -/
def padded (fill : Byte) (width : Nat) (text : Bytes) : Bytes :=
  List.replicate (width - text.length) fill ++ text

/-- A hexadecimal digit. -/
def hexDigit (d : Nat) : Byte := ch (Nat.digitChar d)

theorem digitVal_hexDigit : ∀ d < 16, digitVal 16 (hexDigit d) = some d := by decide

theorem hexadecimal_of_lt {n : Nat} (h : n < 16) : hexadecimal n = [hexDigit n] := by
  rw [hexadecimal, Nat.toDigits_of_lt_base h]
  rfl

theorem hexadecimal_of_ge {n : Nat} (h : 16 ≤ n) :
    hexadecimal n = hexadecimal (n / 16) ++ [hexDigit (n % 16)] := by
  rw [hexadecimal, Nat.toDigits_of_base_le (by decide) h, List.map_append]
  rfl

/-- Two digits show what is below 256. -/
theorem padded_hexadecimal {n : Nat} (h : n < 256) :
    padded (ch '0') 2 (hexadecimal n) = [hexDigit (n / 16), hexDigit (n % 16)] := by
  rcases Nat.lt_or_ge n 16 with hlt | hge
  · rw [hexadecimal_of_lt hlt, Nat.div_eq_of_lt hlt, Nat.mod_eq_of_lt hlt]
    rfl
  · rw [hexadecimal_of_ge hge, hexadecimal_of_lt (by omega)]
    rfl

/-- Two digits are read as a number. -/
theorem stoi_twoDigits {high low : Byte} {x y : Nat} (hhigh : digitVal 16 high = some x)
    (hlow : digitVal 16 low = some y) : stoi 16 [high, low] = .ok ((16 * x + y : Nat) : Int) := by
  have hx := digitVal_lt hhigh
  have hy := digitVal_lt hlow
  have hvalue : ofDigits 16 ([high, low].filterMap (digitVal 16)) = 16 * x + y := by
    simp [hhigh, hlow, ofDigits]
  have hall : AllDigits 16 [high, low] := by
    intro b hb
    rcases List.mem_pair.mp hb with rfl | rfl
    · rw [hhigh]
      rfl
    · rw [hlow]
      rfl
  have hstoi := stoi_of_digits (by decide) (by simp) hall (by omega)
  rwa [hvalue] at hstoi

/-- Two digits are read as what they show. -/
theorem stoi_hexDigits {n : Nat} (h : n < 256) :
    stoi 16 [hexDigit (n / 16), hexDigit (n % 16)] = .ok (n : Nat) := by
  have hdigits := stoi_twoDigits (digitVal_hexDigit (n / 16) (by omega))
    (digitVal_hexDigit (n % 16) (by omega))
  rwa [Nat.div_add_mod] at hdigits

namespace Uri

/-! ## The two functions -/

/-- What goes through as it is: `isalnum` in the C locale, `.`, `_`, `~` and `-`. -/
def unreserved (b : Byte) : Bool :=
  (48 ≤ b && b ≤ 57) || (65 ≤ b && b ≤ 90) || (97 ≤ b && b ≤ 122) ||
    b == ch '.' || b == ch '_' || b == ch '~' || b == ch '-'

/-- One round of the loop: the byte, or `%` and the `int` that the `char` becomes. -/
def encodedByte (fill : Byte) (b : Byte) : Bytes :=
  if unreserved b then [b]
  else ch '%' :: padded fill 2 (hexadecimal (toUint32 b.toInt8.toInt))

/-- `encoded(in)` (uri.h, lines 61-72) -/
def encoded (s : Bytes) : Bytes := s.flatMap (encodedByte (ch '0'))

/-- What stops `decoded`: an exception of `std::stoi`, or an iterator that passes the
end of the string. -/
inductive DecodeError
  | logicError (e : StoiError)
  | pastEnd
  deriving DecidableEq, Repr

/-- `static_cast<char>` of an `int`. -/
def toByte (v : Int) : Byte := UInt8.ofNat (v % 256).toNat

/-- `decoded(in)` (uri.h, lines 74-93) -/
def decoded : Bytes → Except DecodeError Bytes
  | [] => .ok []
  | b :: rest =>
    if b = ch '+' then (decoded rest).map (ch ' ' :: ·)
    else if b = ch '%' then
      match rest with
      | high :: low :: rest =>
        match stoi 16 [high, low] with
        | .error e => .error (.logicError e)
        | .ok v => (decoded rest).map (toByte v :: ·)
      | _ => .error .pastEnd
    else (decoded rest).map (b :: ·)

theorem decoded_plain {b : Byte} (hplus : b ≠ ch '+') (hpercent : b ≠ ch '%') (rest : Bytes) :
    decoded (b :: rest) = (decoded rest).map (b :: ·) := by
  rw [decoded.eq_def]
  exact (if_neg hplus).trans (if_neg hpercent)

theorem decoded_triplet {high low : Byte} {v : Int} (h : stoi 16 [high, low] = .ok v)
    (rest : Bytes) :
    decoded (ch '%' :: high :: low :: rest) = (decoded rest).map (toByte v :: ·) := by
  rw [decoded, if_neg (by decide), if_pos rfl]
  simp only [h]

example : decoded (ascii "+%2F") = .ok (ascii " /") := rfl

/-! ## What is right -/

/-- A hexadecimal digit, in either case. -/
def hexByte (b : Byte) : Bool := (digitVal 16 b).isSome

/-- Unreserved bytes, and triplets of `%` and two hexadecimal digits. -/
inductive PercentText : Bytes → Prop
  | nil : PercentText []
  | plain {b : Byte} {rest : Bytes} (h : unreserved b = true) (behind : PercentText rest) :
      PercentText (b :: rest)
  | triplet {high low : Byte} {rest : Bytes} (hhigh : hexByte high = true)
      (hlow : hexByte low = true) (behind : PercentText rest) :
      PercentText (ch '%' :: high :: low :: rest)

/-- **`s` is encoded faithfully**: decoding returns it, and the encoded text is made of
unreserved bytes and triplets. -/
structure Faithful (s : Bytes) : Prop where
  returns : decoded (encoded s) = .ok s
  text : PercentText (encoded s)

/-! ## One byte -/

/-- What is not reserved is neither of the two that `decoded` looks at. -/
theorem unreserved_ne {b : Byte} (h : unreserved b = true) : b ≠ ch '+' ∧ b ≠ ch '%' := by
  constructor
  · rintro rfl
    revert h
    decide
  · rintro rfl
    revert h
    decide

theorem unreserved_lt {b : Byte} (h : unreserved b = true) : b.toNat < 128 := by
  simp only [unreserved, Bool.or_eq_true, Bool.and_eq_true, decide_eq_true_iff, beq_iff_eq] at h
  rcases h with (((((⟨-, h⟩ | ⟨-, h⟩) | ⟨-, h⟩) | rfl) | rfl) | rfl) | rfl
  · exact Nat.lt_of_le_of_lt h (by decide)
  · exact Nat.lt_of_le_of_lt h (by decide)
  · exact Nat.lt_of_le_of_lt h (by decide)
  · decide
  · decide
  · decide
  · decide

/-- Between the bytes 127 and 128 the sign changes. -/
theorem toInt_toInt8 (b : Byte) :
    b.toInt8.toInt = if 2 * b.toNat < 256 then (b.toNat : Int) else b.toNat - 256 :=
  BitVec.toInt_eq_toNat_cond b.toBitVec

/-- A byte below 128 is a `char` that is not negative. -/
theorem toUint32_of_lt {b : Byte} (h : b.toNat < 128) : toUint32 b.toInt8.toInt = b.toNat := by
  rw [toInt_toInt8, if_pos (by omega), toUint32]
  omega

/-- The other bytes are negative, and 24 bits are set in front of them. -/
theorem toUint32_of_ge {b : Byte} (h : 128 ≤ b.toNat) :
    toUint32 b.toInt8.toInt = 4294967040 + b.toNat := by
  have hlt := b.toNat_lt
  rw [toInt_toInt8, if_neg (by omega), toUint32]
  omega

/-- What the encoder makes of one byte. -/
theorem encodedByte_eq (b : Byte) : encodedByte (ch '0') b =
    if unreserved b then [b]
    else ch '%' :: ((if b.toNat < 128 then [] else ascii "ffffff") ++
      [hexDigit (b.toNat / 16), hexDigit (b.toNat % 16)]) := by
  have hlt := b.toNat_lt
  rw [encodedByte]
  by_cases hsmall : b.toNat < 128
  · rw [toUint32_of_lt hsmall, if_pos hsmall, padded_hexadecimal (by omega), List.nil_append]
  · -- 24 bits set are six digits
    have hdigits : hexadecimal (4294967040 + b.toNat) =
        ascii "ffffff" ++ [hexDigit (b.toNat / 16), hexDigit (b.toNat % 16)] := by
      rw [hexadecimal_of_ge (by omega), hexadecimal_of_ge (by omega),
        show (4294967040 + b.toNat) / 16 / 16 = 16777215 by omega,
        show (4294967040 + b.toNat) / 16 % 16 = b.toNat / 16 by omega,
        show (4294967040 + b.toNat) % 16 = b.toNat % 16 by omega,
        show hexadecimal 16777215 = ascii "ffffff" by decide]
      simp
    rw [toUint32_of_ge (by omega), if_neg hsmall, hdigits]
    rfl

/-- What is read back where `b` was: `b` below 128, else a byte and six characters. -/
def readBack (b : Byte) : Bytes :=
  if b.toNat < 128 then [b]
  else toByte 255 :: (ascii "ffff" ++ [hexDigit (b.toNat / 16), hexDigit (b.toNat % 16)])

theorem toByte_toNat (b : Byte) : toByte b.toNat = b := by
  have hlt := b.toNat_lt
  have hmod : ((b.toNat : Int) % 256).toNat = b.toNat := by omega
  rw [toByte, hmod]
  exact UInt8.ofNat_toNat

/-- Hexadecimal digits go through. -/
theorem hexDigit_ne {d : Nat} (h : d < 16) : hexDigit d ≠ ch '+' ∧ hexDigit d ≠ ch '%' := by
  revert d
  decide

/-- **The decoder behind an encoded byte.** -/
theorem decoded_encodedByte (b : Byte) (rest : Bytes) :
    decoded (encodedByte (ch '0') b ++ rest) = (decoded rest).map (readBack b ++ ·) := by
  have hlt := b.toNat_lt
  rw [encodedByte_eq, readBack]
  by_cases hplain : unreserved b = true
  · obtain ⟨hplus, hpercent⟩ := unreserved_ne hplain
    rw [if_pos hplain, if_pos (unreserved_lt hplain), List.singleton_append,
      decoded_plain hplus hpercent]
    rfl
  · rw [if_neg hplain]
    by_cases hsmall : b.toNat < 128
    · rw [if_pos hsmall, if_pos hsmall, List.nil_append]
      show decoded (ch '%' :: _ :: _ :: rest) = _
      rw [decoded_triplet (stoi_hexDigits (by omega)), toByte_toNat]
      rfl
    · obtain ⟨hplus, hpercent⟩ := hexDigit_ne (d := b.toNat / 16) (by omega)
      obtain ⟨hplus', hpercent'⟩ := hexDigit_ne (d := b.toNat % 16) (by omega)
      have hff : stoi 16 [ch 'f', ch 'f'] = .ok 255 := by decide
      have hf : ∀ r, decoded (ch 'f' :: r) = (decoded r).map (ch 'f' :: ·) :=
        decoded_plain (by decide) (by decide)
      rw [if_neg hsmall, if_neg hsmall]
      -- the first two digits are taken for the byte, and the others go through
      show decoded (ch '%' :: ch 'f' :: ch 'f' :: ch 'f' :: ch 'f' :: ch 'f' :: ch 'f' :: _ :: _ ::
        rest) = _
      rw [decoded_triplet hff, hf, hf, hf, hf, decoded_plain hplus hpercent,
        decoded_plain hplus' hpercent']
      cases decoded rest <;> rfl

/-- Every round of the encoder leaves unreserved bytes or triplets. -/
theorem PercentText.encodedByte (b : Byte) {rest : Bytes} (h : PercentText rest) :
    PercentText (encodedByte (ch '0') b ++ rest) := by
  have hlt := b.toNat_lt
  have hdigit : ∀ d < 16, hexByte (hexDigit d) = true := by decide
  have hletter : ∀ d < 16, unreserved (hexDigit d) = true := by decide
  rw [encodedByte_eq]
  by_cases hplain : unreserved b = true
  · rw [if_pos hplain]
    exact .plain hplain h
  · rw [if_neg hplain]
    by_cases hsmall : b.toNat < 128
    · rw [if_pos hsmall]
      exact .triplet (hdigit _ (by omega)) (hdigit _ (by omega)) h
    · rw [if_neg hsmall]
      refine .triplet (by decide) (by decide) ?_
      refine .plain (by decide) (.plain (by decide) (.plain (by decide) (.plain (by decide) ?_)))
      exact .plain (hletter _ (by omega)) (.plain (hletter _ (by omega)) h)

/-! ## The whole text -/

/-- **What the decoder makes of an encoded text.** -/
theorem decoded_encoded (s : Bytes) : decoded (encoded s) = .ok (s.flatMap readBack) := by
  induction s with
  | nil => rfl
  | cons b s ih =>
    show decoded (encodedByte (ch '0') b ++ encoded s) = _
    rw [decoded_encodedByte, ih]
    rfl

/-- **An encoded text** is made of unreserved bytes and triplets. -/
theorem percentText_encoded (s : Bytes) : PercentText (encoded s) := by
  induction s with
  | nil => exact .nil
  | cons b s ih => exact ih.encodedByte b

/-- What is read back is no shorter, and longer if there is a byte from 128 on. -/
theorem length_flatMap_readBack (s : Bytes) : s.length ≤ (s.flatMap readBack).length ∧
    ((s.flatMap readBack).length ≤ s.length → ∀ b ∈ s, b.toNat < 128) := by
  induction s with
  | nil => exact ⟨Nat.le_refl 0, fun _ b hb => absurd hb List.not_mem_nil⟩
  | cons b s ih =>
    obtain ⟨hle, hsmall⟩ := ih
    rw [List.flatMap_cons, List.length_append, List.length_cons]
    by_cases hb : b.toNat < 128
    · have hone : (readBack b).length = 1 := by
        rw [readBack, if_pos hb]
        rfl
      refine ⟨by omega, fun hshort c hc => ?_⟩
      rcases List.mem_cons.mp hc with rfl | hc
      · exact hb
      · exact hsmall (by omega) c hc
    · have hseven : (readBack b).length = 7 := by
        rw [readBack, if_neg hb]
        rfl
      constructor
      · omega
      · intro hshort
        omega

/-- **Where percent-encoding is faithful**: on texts of bytes below 128. -/
theorem encoded_faithful_iff (s : Bytes) : Faithful s ↔ ∀ b ∈ s, b.toNat < 128 := by
  constructor
  · intro h
    have hback := h.returns
    rw [decoded_encoded] at hback
    exact (length_flatMap_readBack s).2 (by rw [Except.ok.inj hback])
  · intro hsmall
    refine ⟨?_, percentText_encoded s⟩
    rw [decoded_encoded]
    congr 1
    calc s.flatMap readBack = s.flatMap (fun b => [b]) :=
          List.flatMap_congr fun b hb => by rw [readBack, if_pos (hsmall b hb)]
      _ = s := by simp

/-- The byte 128 is read back as the byte 255 and the text `ffff80`. -/
theorem not_faithful : ¬ Faithful [128] := by
  intro h
  have hback := h.returns
  rw [decoded_encoded] at hback
  have hsame : 255 :: ascii "ffff80" = [128] := Except.ok.inj hback
  exact absurd hsame (by decide)

end Uri

end AsioProtocols
