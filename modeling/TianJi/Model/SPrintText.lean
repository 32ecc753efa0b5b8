import TianJi.Model.SPrint

/-!
# TianJi — what formatted printing prints

The texts of the conversions of `BasePrintLibSPrintMarker`. Every item that a format can yield
counts the characters of its argument right (`whole_of_nextPiece`), so that its body is as long
as its precision and its field as long as the larger of width and precision.

* `length_text` — how long an item is printed.
* `sprintLength_iff` — `SPrintLength` is the length of the text exactly when every field holds
  its item.
* `unicodeSPrint_string` — the printed text lies in the buffer as a string.
* `text_padded` — numbers with zeros in front.
-/

namespace TianJi.Model

open Bytes Memory Memory.Region Numeral

variable {nested : List CHAR16 × List PrintArgument → Option (List CHAR8)}

-- ---------------------------------------------------------------------------
-- Characters that are copied
-- ---------------------------------------------------------------------------

/-!
An item is printed in two steps. First its characters are counted, which gives `Count`; then they
are copied until a second counter gets to `Count`, with a comma behind every third digit where the
item has commas. Nothing in the loops says that the second step copies what the first one counted.
-/

/-- A counter below a bound does not wrap. -/
theorem toNat_add_one {x y : UINTN} (h : x < y) : (x + 1).toNat = x.toNat + 1 := by
  have hOne : (1 : UINTN).toNat = 1 := rfl
  have hLt := y.toNat_lt
  rw [UInt64.lt_iff_toNat_lt] at h
  rw [UInt64.toNat_add, hOne, Nat.mod_eq_of_lt (by omega)]

/-- Without commas the first `Count` characters are copied. -/
theorem copiedText_plain (Count : UINTN) (cs : List UINTN) (Index Digits : UINTN) :
    copiedText false Count cs Index Digits = cs.take (Count.toNat - Index.toNat) := by
  induction cs generalizing Index Digits with
  | nil => rw [copiedText, List.take_nil]
  | cons c cs ih =>
    rw [copiedText]
    by_cases hMore : Index < Count
    · have hLt := UInt64.lt_iff_toNat_lt.mp hMore
      have hNext : Count.toNat - Index.toNat = Count.toNat - (Index + 1).toNat + 1 := by
        rw [toNat_add_one hMore]
        omega
      rw [if_pos hMore, if_neg Bool.false_ne_true, ih, hNext, List.take_succ_cons]
    · rw [UInt64.lt_iff_toNat_lt] at hMore
      rw [if_neg (by rwa [UInt64.lt_iff_toNat_lt]), Nat.sub_eq_zero_of_le (Nat.not_lt.mp hMore),
        List.take_zero]

/-- With commas all digits are copied when `Count` leaves room for them and the commas. -/
theorem length_copiedText_comma {Count : UINTN} (cs : List UINTN) {Index Digits : UINTN}
    (hDigits : Digits.toNat < 3) (hNe : cs ≠ []) (hSmall : Count.toNat < 2 ^ 63)
    (hCount : Count.toNat = Index.toNat + cs.length + (Digits.toNat + cs.length - 1) / 3) :
    (copiedText true Count cs Index Digits).length =
      cs.length + (Digits.toNat + cs.length - 1) / 3 := by
  induction cs generalizing Index Digits with
  | nil => exact absurd rfl hNe
  | cons c cs ih =>
    rw [List.length_cons] at hCount ⊢
    have hMore : Index < Count := by
      rw [UInt64.lt_iff_toNat_lt]
      omega
    -- neither counter wraps
    have hIndex := toNat_add_one hMore
    have hNext : (Digits + 1).toNat = Digits.toNat + 1 := by
      rw [UInt64.toNat_add, show (1 : UINTN).toNat = 1 from rfl, Nat.mod_eq_of_lt (by omega)]
    have hThree : Digits + 1 = 3 ↔ Digits.toNat = 2 := by
      rw [← UInt64.toNat_inj, hNext, show (3 : UINTN).toNat = 3 from rfl]
      omega
    rw [copiedText, if_pos hMore, if_pos rfl, List.length_cons]
    cases cs with
    | nil =>
      -- behind the last digit there is no comma
      have hLast : ¬ Index + 2 < Count := by
        rw [List.length_nil] at hCount
        rw [UInt64.lt_iff_toNat_lt, UInt64.toNat_add, show (2 : UINTN).toNat = 2 from rfl,
          Nat.mod_eq_of_lt (by omega)]
        omega
      rw [List.length_nil] at hCount ⊢
      simp only [copiedText, if_neg hLast, List.append_nil, ite_self, List.length_nil]
      omega
    | cons d rest =>
      have hPos : 1 ≤ (d :: rest).length := Nat.succ_le_succ (Nat.zero_le _)
      have hTwo : (Index + 2).toNat = Index.toNat + 2 := by
        rw [UInt64.toNat_add, show (2 : UINTN).toNat = 2 from rfl, Nat.mod_eq_of_lt (by omega)]
      split_ifs with hEnd hRoom
      · -- a comma behind the third digit
        rw [hThree] at hEnd
        rw [List.length_append, ih (by decide) (List.cons_ne_nil _ _)
          (by rw [hTwo, UInt64.toNat_zero]; omega), UInt64.toNat_zero, List.length_singleton]
        omega
      · -- there is room for it, as `Count` has room for all
        rw [hThree] at hEnd
        refine absurd ?_ hRoom
        rw [UInt64.lt_iff_toNat_lt, hTwo]
        omega
      · rw [hThree] at hEnd
        rw [ih (by omega) (List.cons_ne_nil _ _) (by omega)]
        omega

/-- The characters of an argument are counted up to its end, or up to the precision when there is
one. -/
theorem toNat_countArgument (s : FormatSpec) (cs : List UINTN) (Count : UINTN)
    (hFits : Count.toNat + cs.length < 2 ^ 64) : (countArgument s cs Count).toNat = Count.toNat +
      if s.Flags.PRECISION then min cs.length (s.Precision.toNat - Count.toNat) else cs.length := by
  induction cs generalizing Count with
  | nil => simp [countArgument]
  | cons c cs ih =>
    rw [List.length_cons] at hFits ⊢
    have hNext : (Count + 1).toNat = Count.toNat + 1 := by
      rw [UInt64.toNat_add, show (1 : UINTN).toNat = 1 from rfl, Nat.mod_eq_of_lt (by omega)]
    rw [countArgument]
    -- only a precision ends the counting before the string does
    cases hPrecision : s.Flags.PRECISION with
    | false =>
      simp only [hPrecision, Bool.false_eq_true, if_false] at ih ⊢
      rw [if_pos (Or.inr trivial), ih _ (by omega), hNext]
      omega
    | true =>
      simp only [hPrecision, if_true] at ih ⊢
      by_cases hMore : Count < s.Precision
      · rw [if_pos (Or.inl hMore), ih _ (by omega), hNext]
        rw [UInt64.lt_iff_toNat_lt] at hMore
        omega
      · rw [if_neg (by simp [hMore])]
        rw [UInt64.lt_iff_toNat_lt] at hMore
        omega

-- ---------------------------------------------------------------------------
-- Pieces that are counted right
-- ---------------------------------------------------------------------------

/-!
`Whole` says just that of an item: its sign and the characters that are copied are as many as
`Count`. It is shown of every conversion, and by induction over a format of all of its items, so
that nothing behind this section looks into the loops again.
-/

namespace Piece

/-- The `Count` of a piece is that of its sign and of the characters copied. -/
def Whole (p : Piece) : Prop :=
  p.counted.sign.length + p.counted.copied.length = p.counted.Count.toNat

/-- The precision is raised to what is counted. -/
theorem toNat_counted_precision (p : Piece) :
    p.counted.Precision.toNat = max p.Precision.toNat p.counted.Count.toNat := by
  have hMax : p.counted.Precision =
      if p.Precision < p.counted.Count then p.counted.Count else p.Precision := rfl
  rw [hMax]
  split_ifs with hLess
  · rw [UInt64.lt_iff_toNat_lt] at hLess
    exact (Nat.max_eq_right hLess.le).symm
  · rw [UInt64.lt_iff_toNat_lt] at hLess
    exact (Nat.max_eq_left (Nat.not_lt.mp hLess)).symm

/-- So what is filled up to the precision is never less than nothing. -/
theorem count_le_precision (p : Piece) : p.counted.Count.toNat ≤ p.counted.Precision.toNat := by
  rw [toNat_counted_precision]
  exact Nat.le_max_right _ _

end Piece

/-- Of a string as many characters are copied as were counted, unless it is read backwards. -/
theorem whole_stringPiece (s : FormatSpec) {cs : List UINTN} (hCs : cs.length < 2 ^ 63)
    (hReversed : s.Flags.ARGUMENT_REVERSED = false) : (stringPiece s cs).Whole := by
  have hCount : (stringPiece s cs).counted.Count = countArgument s cs 0 := by
    rw [Piece.counted, stringPiece]
    dsimp only
    rw [hReversed, if_neg Bool.false_ne_true]
  have hLe : (countArgument s cs 0).toNat ≤ cs.length := by
    rw [toNat_countArgument s cs 0 (by rw [UInt64.toNat_zero]; omega), UInt64.toNat_zero]
    split_ifs
    · omega
    · omega
  -- without commas the copy is a beginning of the string
  have hCopied : (stringPiece s cs).counted.copied = cs.take (countArgument s cs 0).toNat := by
    rw [Piece.copied, hCount]
    exact copiedText_plain _ _ _ _
  rw [Piece.Whole, hCopied, hCount, List.length_take_of_le hLe]
  exact Nat.zero_add _

/-- At most twenty digits. -/
theorem length_valueToString_le {Value : Nat} {radix : Radix} (hValue : Value < 2 ^ 64)
    (hTen : 10 ≤ radix.base) : (BasePrintLibValueToString Value radix).length ≤ 20 := by
  have hSmall : Value < radix.base ^ 20 :=
    Nat.lt_of_lt_of_le (hValue.trans (by decide)) (Nat.pow_le_pow_left hTen 20)
  rw [← List.length_reverse, valueToString_reverse, List.length_map]
  exact length_numeral_le radix.two_le (by decide) hSmall

/-- The characters of a number with `Length` digits. -/
def groupedLength (Comma : Bool) (Length : Nat) : Nat :=
  if Comma ∧ Length ≠ 0 then Length + (Length - 1) / 3 else Length

/-- All digits of a number are copied, and the commas between them. -/
theorem length_copiedText_number (Comma : Bool) {cs : List UINTN} (hShort : cs.length ≤ 20)
    (start : UINTN) (hStart : start.toNat ≤ 1) :
    (copiedText Comma (UInt64.ofNat (groupedLength Comma cs.length + start.toNat)) cs start
      (UInt64.ofNat (firstDigits cs.length))).length = groupedLength Comma cs.length := by
  have hGrouped : groupedLength Comma cs.length ≤ 40 := by
    unfold groupedLength
    split_ifs
    · omega
    · omega
  have hCount : (UInt64.ofNat (groupedLength Comma cs.length + start.toNat)).toNat =
      groupedLength Comma cs.length + start.toNat :=
    UInt64.toNat_ofNat_of_lt' (show _ < 2 ^ 64 by omega)
  cases Comma with
  | false =>
    rw [copiedText_plain, hCount, Nat.add_sub_cancel]
    simp [groupedLength]
  | true =>
    by_cases hNe : cs = []
    · simp [hNe, copiedText, groupedLength]
    · have hPos : cs.length ≠ 0 := fun hZero => hNe (List.length_eq_zero_iff.mp hZero)
      have hLength : groupedLength true cs.length = cs.length + (cs.length - 1) / 3 :=
        if_pos ⟨rfl, hPos⟩
      -- the digits in front of the first comma make the commas come out right
      have hFirst : firstDigits cs.length < 3 ∧
          (firstDigits cs.length + cs.length - 1) / 3 = (cs.length - 1) / 3 := by
        unfold firstDigits
        split_ifs
        · omega
        · omega
      have hDigits : (UInt64.ofNat (firstDigits cs.length)).toNat = firstDigits cs.length :=
        UInt64.toNat_ofNat_of_lt' (show _ < 2 ^ 64 by omega)
      rw [length_copiedText_comma cs (by rw [hDigits]; exact hFirst.1) hNe (by rw [hCount]; omega)
        (by rw [hCount, hDigits, hFirst.2, hLength]; omega), hDigits, hFirst.2, hLength]

/-- Of a number all digits are copied, with a sign and commas where it has them. -/
theorem whole_convertNumber (s : FormatSpec) (Prefix : CHAR8) (Comma : Bool) (Value : Int64)
    {radix : Radix} (hTen : 10 ≤ radix.base) :
    (convertNumber s Prefix Comma Value radix).Whole := by
  have hDigits := length_valueToString_le Value.toUInt64.toNat_lt hTen
  unfold Piece.Whole Piece.counted Piece.sign Piece.copied convertNumber
  generalize BasePrintLibValueToString Value.toUInt64.toNat radix = ValueBuffer at hDigits
  dsimp only
  simp only [if_true]
  -- a zero with the precision 0 has no digits
  generalize hLength : (if Value = 0 ∧ s.Precision = 0 then 0 else ValueBuffer.length) = Length
  have hLe : Length ≤ ValueBuffer.length := by
    rw [← hLength]
    split_ifs
    · exact Nat.zero_le _
    · exact le_refl _
  have hString : ((ValueBuffer.take Length).reverse.map UInt8.toUInt64).length = Length := by
    rw [List.length_map, List.length_reverse, List.length_take_of_le hLe]
  generalize (ValueBuffer.take Length).reverse.map UInt8.toUInt64 = cs at hString
  subst hString
  change _ + _ = (UInt64.ofNat (if Prefix ≠ 0 then groupedLength Comma cs.length + 1
    else groupedLength Comma cs.length)).toNat
  have hSmall : groupedLength Comma cs.length ≤ 40 := by
    unfold groupedLength
    split_ifs
    · omega
    · omega
  -- the sign is one character more
  by_cases hSign : Prefix ≠ 0
  · have hCopied := length_copiedText_number Comma (hLe.trans hDigits) 1 (le_refl _)
    rw [show (1 : UINTN).toNat = 1 from rfl] at hCopied
    simp only [if_pos hSign, List.length_singleton]
    rw [UInt64.toNat_ofNat_of_lt' (show _ < 2 ^ 64 by omega), Nat.add_comm]
    exact congrArg (· + 1) hCopied
  · have hCopied := length_copiedText_number Comma (hLe.trans hDigits) 0 (Nat.zero_le _)
    simp only [if_neg hSign, List.length_nil, Nat.zero_add]
    rw [UInt64.toNat_ofNat_of_lt' (show _ < 2 ^ 64 by omega)]
    exact hCopied

/-- Numbers are converted with ten or sixteen digits. -/
theorem whole_numberPiece (s : FormatSpec) (Value : Int64) : (numberPiece s Value).Whole := by
  have hTen : 10 ≤ Radix.decimal.base := le_refl 10
  have hSixteen : 10 ≤ Radix.hex.base := by decide
  unfold numberPiece
  dsimp only
  split_ifs
  all_goals first
    | exact whole_convertNumber _ _ _ _ hTen
    | exact whole_convertNumber _ _ _ _ hSixteen

/-- No flag of a format makes an argument be read backwards; that is for the digits of numbers. -/
theorem parseFlags_reversed {Format Format' : List CHAR16} {s s' : FormatSpec} {c : CHAR16}
    {Marker Marker' : List PrintArgument}
    (h : parseFlags Format s Marker = some (s', c, Format', Marker'))
    (hs : s.Flags.ARGUMENT_REVERSED = false) : s'.Flags.ARGUMENT_REVERSED = false := by
  -- two cases give a specification back, one has none, and the others read on
  fun_induction parseFlags Format s Marker with
  | case1 | case13 =>
    cases h
    exact hs
  | case8 => cases h
  | _ =>
    rename_i ih
    exact ih h hs

/-- Literals are short. -/
theorem length_statusString {Status : RETURN_STATUS} {text : String}
    (h : statusString Status = some text) : (literal text).length < 2 ^ 63 := by
  have hAll : ∀ text ∈ mErrorString ++ mWarningString, (literal text).length < 2 ^ 63 := by
    decide
  refine hAll text (List.mem_append.mpr ?_)
  unfold statusString at h
  split_ifs at h
  · exact Or.inl (List.mem_of_getElem? h)
  · exact Or.inr (List.mem_of_getElem? h)

/-- A character is at most one. -/
theorem length_characterString_lt (c : UINTN) : (characterString c).length < 2 ^ 63 := by
  unfold characterString
  split_ifs
  · exact Nat.two_pow_pos 63
  · exact Nat.one_lt_two_pow (by decide)

/-- Line ends come in two forms. -/
theorem newline_text (c : CHAR16) (Format : List CHAR16) :
    (newline c Format).1 = literal "\r\n" ∨ (newline c Format).1 = literal "\r" := by
  unfold newline
  cases Format with
  | nil =>
    split_ifs
    · exact Or.inr rfl
    · exact Or.inl rfl
  | cons d rest =>
    dsimp only
    split_ifs
    · exact Or.inl rfl
    · exact Or.inr rfl
    · exact Or.inl rfl
    · exact Or.inl rfl

/-- A character outside of the items is itself or a line end. -/
theorem length_plainString_lt (c : CHAR16) (Format : List CHAR16) :
    (plainString c Format).length < 2 ^ 63 := by
  unfold plainString
  split_ifs
  · rcases newline_text c Format with hText | hText
    · rw [hText]
      decide
    · rw [hText]
      decide
  · exact length_characterString_lt _

section

variable (hNested : ∀ call s, nested call = some s → s.length < 2 ^ 63)

include hNested

/-- An item is a number or a string, whatever its conversion. -/
theorem whole_of_convert {s : FormatSpec} (hs : s.Flags.ARGUMENT_REVERSED = false) {c : CHAR16}
    {Format : List CHAR16} {Marker Marker' : List PrintArgument} {p : Piece}
    (h : convert nested s c Format Marker = some (p, Marker')) : p.Whole := by
  have hNull : (literal "<null string>").length < 2 ^ 63 ∧ (literal "<null guid>").length < 2 ^ 63 ∧
      (literal "<null time>").length < 2 ^ 63 := by decide
  have hCall : ∀ call s', nested call = some s' → (s'.map UInt8.toUInt64).length < 2 ^ 63 :=
    fun call s' hRun => (List.length_map _).trans_lt (hNested call s' hRun)
  unfold convert at h
  split_ifs at h
  all_goals simp only [Option.bind_eq_bind, Option.bind_eq_some_iff, Option.pure_def,
    Option.some.injEq, Prod.mk.injEq] at h
  · -- a number
    obtain ⟨a, -, rfl, -⟩ := h
    exact whole_numberPiece _ _
  · -- a narrow or a wide string
    obtain ⟨⟨t, _⟩, -, rfl, -⟩ := h
    refine whole_stringPiece _ ?_ hs
    cases t with
    | none => exact hNull.1
    | some t => exact (List.length_map _).trans_lt t.length_lt
  · obtain ⟨⟨t, _⟩, -, rfl, -⟩ := h
    refine whole_stringPiece _ ?_ hs
    cases t with
    | none => exact hNull.1
    | some t => exact (List.length_map _).trans_lt t.length_lt
  · -- a character
    obtain ⟨a, -, rfl, -⟩ := h
    exact whole_stringPiece _ (length_characterString_lt _) hs
  · -- a GUID and a time are printed by a call inside the call
    obtain ⟨⟨g, _⟩, -, h⟩ := h
    cases g with
    | none =>
      cases h
      exact whole_stringPiece _ hNull.2.1 hs
    | some g =>
      obtain ⟨s', hRun, hPiece⟩ := Option.bind_eq_some_iff.mp h
      cases hPiece
      exact whole_stringPiece _ (hCall _ _ hRun) hs
  · obtain ⟨⟨t, _⟩, -, h⟩ := h
    cases t with
    | none =>
      cases h
      exact whole_stringPiece _ hNull.2.2 hs
    | some t =>
      obtain ⟨s', hRun, hPiece⟩ := Option.bind_eq_some_iff.mp h
      cases hPiece
      exact whole_stringPiece _ (hCall _ _ hRun) hs
  · -- a status has a text, or is printed as a number by a call inside the call
    obtain ⟨⟨Status, _⟩, -, h⟩ := h
    cases hText : statusString Status with
    | some text =>
      simp only [hText, Option.some.injEq, Prod.mk.injEq] at h
      rw [← h.1]
      exact whole_stringPiece _ (length_statusString hText) hs
    | none =>
      simp only [hText] at h
      obtain ⟨s', hRun, hPiece⟩ := Option.bind_eq_some_iff.mp h
      cases hPiece
      exact whole_stringPiece _ (hCall _ _ hRun) hs
  · obtain ⟨rfl, -⟩ := h
    exact whole_stringPiece _ (length_plainString_lt _ _) hs

/-- What is not an item is a string. -/
theorem whole_of_nextPiece {c : CHAR16} {Format Format' : List CHAR16}
    {Marker Marker' : List PrintArgument} {p : Piece}
    (h : nextPiece nested c Format Marker = some (p, Format', Marker')) : p.Whole := by
  unfold nextPiece at h
  split_ifs at h
  · simp only [Option.bind_eq_bind, Option.bind_eq_some_iff] at h
    obtain ⟨⟨s, c', Format₁, Marker₁⟩, hParse, ⟨p', Marker₂⟩, hConvert, hPiece⟩ := h
    cases hPiece
    exact whole_of_convert hNested (parseFlags_reversed hParse rfl) hConvert
  · cases h
    exact whole_stringPiece _ (length_plainString_lt _ _) rfl

/-- **Every item of a format is counted right.** -/
theorem whole_of_pieces {Format : List CHAR16} {Marker : List PrintArgument} {ps : List Piece}
    (h : pieces nested Format Marker = some ps) : ∀ p ∈ ps, p.Whole := by
  fun_induction pieces nested Format Marker generalizing ps with
  | case1 =>
    cases h
    simp
  | case2 => cases h
  | case3 Marker c Format p Format' Marker' hNext ih =>
    obtain ⟨rest, hRest, rfl⟩ := Option.map_eq_some_iff.mp h
    exact List.forall_mem_cons.mpr ⟨whole_of_nextPiece hNested hNext, ih hRest⟩

end

-- ---------------------------------------------------------------------------
-- Lengths
-- ---------------------------------------------------------------------------

/-!
The padding in front of an item and behind it and the filling up to the precision are differences
of words that are compared as `INTN`s: a negative one pads nothing. For items whose width and
precision are not negative themselves (`Sane`) the text has the larger of the two as its length,
where there is a field. A counting call takes the width for it.
-/

/-- What a call inside a call leaves is at most as long as `ValueBuffer`. -/
theorem length_nestedWith {call : List CHAR16 × List PrintArgument} {s : List CHAR8}
    (h : nestedWith nested call = some s) : s.length < 2 ^ 63 := by
  unfold nestedWith at h
  obtain ⟨r, -, hBuffer⟩ := Option.bind_eq_some_iff.mp h
  obtain ⟨Buffer, -, rfl⟩ := Option.map_eq_some_iff.mp hBuffer
  refine (List.takeWhile_prefix _).length_le.trans_lt ?_
  rw [List.length_map, List.length_range]
  decide

/-- A word as an `INTN`: from `2 ^ 63` on it is negative. -/
theorem toInt_toInt64 (x : UINTN) :
    x.toInt64.toInt = if x.toNat < 2 ^ 63 then (x.toNat : Int) else x.toNat - 2 ^ 64 := by
  have hInt : x.toInt64.toInt = x.toBitVec.toInt := rfl
  rw [hInt, BitVec.toInt_eq_toNat_cond, UInt64.toNat_toBitVec]
  split_ifs
  · rfl
  · omega
  · omega
  · rfl

/-- A difference that is not negative. -/
theorem fillCount_of_le {x y : UINTN} (hLe : y.toNat ≤ x.toNat) (hx : x.toNat < 2 ^ 63) :
    fillCount (x - y) = x.toNat - y.toNat := by
  have hSub := UInt64.toNat_sub_of_le x y (UInt64.le_iff_toNat_le.mpr hLe)
  rw [fillCount, toInt_toInt64, hSub, if_pos (by omega), Int.toNat_natCast]

/-- A difference that wrapped around is negative as an `INTN`. -/
theorem fillCount_of_lt {x y : UINTN} (hLt : x.toNat < y.toNat) (hy : y.toNat < 2 ^ 63) :
    fillCount (x - y) = 0 := by
  have hSub : (x - y).toNat = 2 ^ 64 - (y.toNat - x.toNat) := by
    rw [UInt64.toNat_sub]
    omega
  rw [fillCount, toInt_toInt64, hSub, if_neg (by omega)]
  omega

/-- What has to be filled up, or nothing. -/
theorem fillCount_sub {x y : UINTN} (hx : x.toNat < 2 ^ 63) (hy : y.toNat < 2 ^ 63) :
    fillCount (x - y) = x.toNat - y.toNat := by
  rcases Nat.lt_or_ge x.toNat y.toNat with hLt | hLe
  · rw [fillCount_of_lt hLt hy]
    omega
  · exact fillCount_of_le hLe hx

namespace Piece

variable {p : Piece}

/-- Width and precision are not negative as an `INTN`. -/
structure Sane (p : Piece) : Prop where
  width : p.Width.toNat < 2 ^ 63
  precision : p.counted.Precision.toNat < 2 ^ 63

/-- A body fills its precision. -/
theorem length_body (hWhole : p.Whole) (hSane : p.Sane) :
    p.counted.body.length = p.counted.Precision.toNat := by
  have hFilling : p.counted.filling.length = p.counted.Precision.toNat - p.counted.Count.toNat :=
    List.length_replicate.trans (fillCount_of_le p.count_le_precision hSane.precision)
  have hLe := p.count_le_precision
  have hCount : p.counted.sign.length + p.counted.copied.length = p.counted.Count.toNat := hWhole
  unfold body
  split_ifs
  · rw [List.length_append, List.length_append]
    omega
  · rw [List.length_append, List.length_append]
    omega

/-- What an item takes: its precision, or the field when there is one and it is wider. -/
def extent (p : Piece) : Nat :=
  if p.Flags.PAD_TO_WIDTH then max p.Width.toNat p.counted.Precision.toNat
  else p.counted.Precision.toNat

/-- **How long an item is printed.** -/
theorem length_text (hWhole : p.Whole) (hSane : p.Sane) : p.text.length = p.extent := by
  have hBody := length_body hWhole hSane
  have hPadding : p.counted.padding.length = p.Width.toNat - p.counted.Precision.toNat :=
    List.length_replicate.trans (fillCount_sub hSane.width hSane.precision)
  have hFlags : p.counted.Flags = p.Flags := rfl
  -- to the left, to the right, or without a field
  unfold text field extent
  rw [hFlags]
  split_ifs
  · rw [List.length_append]
    omega
  · rw [List.length_append]
    omega
  · exact hBody

/-- **How long an item is counted**: a field counts as its width. -/
theorem measured_eq (hWhole : p.Whole) :
    p.measured = if p.Flags.PAD_TO_WIDTH then p.Width else p.counted.Precision := by
  have hCount : UInt64.ofNat p.counted.sign.length + UInt64.ofNat p.counted.copied.length =
      p.counted.Count := by
    rw [← UInt64.ofNat_add, hWhole, UInt64.ofNat_toNat]
  have hFlags : p.counted.Flags = p.Flags := rfl
  have hWidth : p.counted.Width = p.Width := rfl
  unfold measured size
  rw [hFlags, hWidth]
  split_ifs
  · grind
  · grind

/-- The item's field holds it. -/
def Fits (p : Piece) : Prop :=
  p.Flags.PAD_TO_WIDTH = true → p.counted.Precision.toNat ≤ p.Width.toNat

/-- An item is never counted as more than it takes. -/
theorem measured_le_extent (hWhole : p.Whole) : p.measured.toNat ≤ p.extent := by
  rw [measured_eq hWhole, extent]
  split_ifs
  · exact Nat.le_max_left _ _
  · exact le_refl _

/-- It is counted right when its field holds it. -/
theorem measured_eq_extent_iff (hWhole : p.Whole) : p.measured.toNat = p.extent ↔ p.Fits := by
  rw [measured_eq hWhole, extent, Fits]
  split_ifs with hPad
  · simp [hPad]
  · simp [hPad]

end Piece

/-- The sum of the counts does not wrap. -/
theorem toNat_sum_measured {ps : List Piece}
    (h : (ps.map fun p => p.measured.toNat).sum < 2 ^ 64) :
    (ps.map Piece.measured).sum.toNat = (ps.map fun p => p.measured.toNat).sum := by
  induction ps with
  | nil => rfl
  | cons p ps ih =>
    simp only [List.map_cons, List.sum_cons] at h ⊢
    rw [UInt64.toNat_add, ih (by omega), Nat.mod_eq_of_lt h]

/-- A text is as long as its items take. -/
theorem length_flatMap_text {ps : List Piece} (hWhole : ∀ p ∈ ps, p.Whole)
    (hSane : ∀ p ∈ ps, p.Sane) : (ps.flatMap Piece.text).length = (ps.map Piece.extent).sum := by
  rw [List.length_flatMap]
  exact congrArg List.sum (List.map_congr_left fun p hp =>
    Piece.length_text (hWhole p hp) (hSane p hp))

/-- No item is counted as more than it takes, so that the sums agree when all items do. -/
theorem sum_measured_le {ps : List Piece} (hWhole : ∀ p ∈ ps, p.Whole) :
    (ps.map fun p => p.measured.toNat).sum ≤ (ps.map Piece.extent).sum ∧
      ((ps.map fun p => p.measured.toNat).sum = (ps.map Piece.extent).sum ↔
        ∀ p ∈ ps, p.Fits) := by
  induction ps with
  | nil => simp
  | cons p ps ih =>
    obtain ⟨hp, hps⟩ := List.forall_mem_cons.mp hWhole
    obtain ⟨hLe, hIff⟩ := ih hps
    have hItem := Piece.measured_le_extent hp
    simp only [List.map_cons, List.sum_cons, List.forall_mem_cons, ← hIff,
      ← Piece.measured_eq_extent_iff hp]
    omega

/-- A counting call adds up what the items are counted as. -/
theorem sprintLength_eq {Format : List CHAR16} {Marker : List PrintArgument} {ps : List Piece}
    (hPieces : pieces BasePrintLibSPrint Format Marker = some ps)
    (hFormat : Format.length ≤ 1000000)
    (hSum : (ps.map fun p => p.measured.toNat).sum < 2 ^ 63) :
    SPrintLength Format Marker =
      some (UInt64.ofNat (ps.map fun p => p.measured.toNat).sum) := by
  let t : PrintTarget := ⟨((0 : UINTN).toNat - 1) * 2, 2, true⟩
  have hMax : RSIZE_MAX.toNat = 1000000 := by decide
  -- the loop counts bytes, two for each character
  obtain ⟨o, hRun, hLength⟩ := printLoop_counts (t := t) rfl hPieces (o := ⟨none, 0⟩) rfl
  have hNat := toNat_sum_measured (hSum.trans (by decide))
  have hHalf : o.LengthToReturn / UInt64.ofNat 2 =
      UInt64.ofNat (ps.map fun p => p.measured.toNat).sum := by
    have hTwo : (UInt64.ofNat t.BytesPerOutputCharacter).toNat = 2 := rfl
    rw [← UInt64.toNat_inj, UInt64.toNat_div, hLength, UInt64.toNat_add, UInt64.toNat_mul, hNat,
      hTwo, UInt64.toNat_ofNat_of_lt' (show _ < 2 ^ 64 by omega), UInt64.toNat_zero, Nat.zero_add,
      Nat.mod_mod, Nat.mod_eq_of_lt (by omega)]
    exact Nat.mul_div_cancel _ (Nat.succ_pos 1)
  -- a counting call has no buffer to be too large, and a format that is short enough
  unfold SPrintLength BasePrintLibSPrintMarker
  rw [if_neg (by simp), if_neg (by decide), if_neg (by simp [hMax, hFormat]), if_neg (by simp)]
  change Option.map Prod.fst (Option.map _ (printLoop BasePrintLibSPrint t Format Marker ⟨none, 0⟩)) = _
  rw [hRun]
  exact congrArg some hHalf

/-- A format that is longer than a string may be counts as nothing. -/
theorem sprintLength_refused {Format : List CHAR16} (Marker : List PrintArgument)
    (hFormat : 1000000 < Format.length) : SPrintLength Format Marker = some 0 := by
  have hMax : RSIZE_MAX.toNat = 1000000 := by decide
  unfold SPrintLength BasePrintLibSPrintMarker
  rw [if_neg (by simp), if_neg (by decide), if_pos (by simp [hMax, hFormat])]
  rfl

namespace Piece

/-- **An item that is longer than the width of its field** is printed whole and counted as the
width. -/
theorem printed_of_not_fits {p : Piece} (hWhole : p.Whole) (hSane : p.Sane) (h : ¬ p.Fits) :
    p.text = p.counted.body ∧ p.measured = p.Width ∧ p.Width.toNat < p.text.length := by
  obtain ⟨hPad, hLonger⟩ := Classical.not_imp.mp h
  rw [Nat.not_le] at hLonger
  -- nothing is left of the width to fill up
  have hPadding : p.counted.padding = [] := by
    have hNone : fillCount (p.Width - p.counted.Precision) = 0 :=
      fillCount_of_lt hLonger hSane.precision
    exact congrArg (List.replicate · 0x20) hNone
  have hText : p.text = p.counted.body := by
    unfold text field
    rw [hPadding, List.append_nil, List.nil_append, ite_self, ite_self]
  refine ⟨hText, ?_, ?_⟩
  · rw [measured_eq hWhole, if_pos hPad]
  · rw [hText, length_body hWhole hSane]
    exact hLonger

end Piece

/--
**The count of a format is the length of its text exactly when every field holds its item.** An
item that is longer than its width is printed whole and counted as the width, so that the count
is too small.
-/
theorem sprintLength_iff {Format : List CHAR16} {Marker : List PrintArgument} {ps : List Piece}
    (hPieces : pieces BasePrintLibSPrint Format Marker = some ps) (hSane : ∀ p ∈ ps, p.Sane)
    (hText : (ps.flatMap Piece.text).length < 2 ^ 63) :
    (1000000 < Format.length → SPrintLength Format Marker = some 0) ∧
    (Format.length ≤ 1000000 →
      SPrintLength Format Marker = some (UInt64.ofNat (ps.map fun p => p.measured.toNat).sum) ∧
      (SPrintLength Format Marker = some (UInt64.ofNat (ps.flatMap Piece.text).length) ↔
        ∀ p ∈ ps, p.Fits)) ∧
    ((¬ ∀ p ∈ ps, p.Fits) →
      (ps.map fun p => p.measured.toNat).sum < (ps.flatMap Piece.text).length) ∧
    ∀ p ∈ ps, ¬ p.Fits →
      p.text = p.counted.body ∧ p.measured = p.Width ∧ p.Width.toNat < p.text.length := by
  have hWhole := whole_of_pieces (fun _ _ => length_nestedWith) hPieces
  have hLength := length_flatMap_text hWhole hSane
  obtain ⟨hLe, hIff⟩ := sum_measured_le hWhole
  refine ⟨sprintLength_refused Marker, fun hFormat => ?_, fun hNot => ?_, fun p hp hNot => ?_⟩
  · have hCount := sprintLength_eq hPieces hFormat (by omega)
    refine ⟨hCount, ?_⟩
    rw [hCount, Option.some.injEq, ← UInt64.toNat_inj,
      UInt64.toNat_ofNat_of_lt' (show _ < 2 ^ 64 by omega),
      UInt64.toNat_ofNat_of_lt' (show _ < 2 ^ 64 by omega), hLength, hIff]
  · rw [hLength]
    exact lt_of_le_of_ne hLe (mt hIff.mp hNot)
  · exact Piece.printed_of_not_fits (hWhole p hp) (hSane p hp) hNot

/-- Three letters in a field of two: all of them are printed, and two are counted. -/
theorem sprintLength_narrowField :
    SPrintLength (L "%2a") [.ascii (some threeLetters)] = some 2 ∧ narrowField.text.length = 3 := by
  have hFormat : (L "%2a").length ≤ 1000000 := by decide
  have hSane : ∀ p ∈ [narrowField], p.Sane := by
    intro p hp
    rw [List.mem_singleton.mp hp]
    exact ⟨by decide, by decide⟩
  have hText : ([narrowField].flatMap Piece.text).length = 3 := by decide
  obtain ⟨-, hCount, -, -⟩ := sprintLength_iff pieces_narrowField hSane (by rw [hText]; decide)
  exact ⟨(hCount hFormat).1.trans (by decide), by decide⟩

-- ---------------------------------------------------------------------------
-- Strings in a buffer
-- ---------------------------------------------------------------------------

/-! What callers of `UnicodeSPrint` take from it: a string of wide characters with a terminator. -/

/-- The buffer starts with a string. -/
def HoldsString (m : ByteBuffer) (s : List CHAR16) : Prop :=
  Holds m 0 ((s ++ [0]).flatMap uint16Bytes)

/-- The string that an array of `n` characters starts with. -/
def wideString (m : ByteBuffer) (n : Nat) : List CHAR16 :=
  ((List.range n).map fun i => readUint16 m (2 * i)).takeWhile (· ≠ 0)

/-- A wide character is stored as its two bytes. -/
theorem characterBytes_wide (c : CHAR16) : characterBytes 2 c.toUInt64 = uint16Bytes c := by
  have hLow : c.toUInt64.toUInt8 = UInt8.ofNat c.toNat := by
    rw [← UInt8.toNat_inj]
    simp
  have hHigh : (c.toUInt64 >>> 8).toUInt8 = UInt8.ofNat (c.toNat / 256) := by
    rw [← UInt8.toNat_inj]
    simp [Nat.shiftRight_eq_div_pow]
  rw [characterBytes, if_pos (by decide), hLow, hHigh]
  rfl

/-- From a block with wide characters each of them is read back. -/
theorem readUint16_of_holdsWide {m : ByteBuffer} {cs : List CHAR16} {i : Nat} {c : CHAR16}
    (h : Holds m 0 (cs.flatMap uint16Bytes)) (hGet : cs[i]? = some c) :
    readUint16 m (2 * i) = c := by
  obtain ⟨hi, rfl⟩ := List.getElem?_eq_some_iff.mp hGet
  have hSplit : cs = cs.take i ++ cs[i] :: cs.drop (i + 1) := by simp
  rw [hSplit, List.flatMap_append, List.flatMap_cons] at h
  have hRest := (holds_append.mp h).2
  rw [length_flatMap_uint16Bytes, List.length_take_of_le hi.le, Nat.zero_add] at hRest
  exact readUint16_of_holds (holds_append.mp hRest).1

/-- A string that the buffer holds is read back from an array that has room for it. -/
theorem wideString_of_holds {m : ByteBuffer} {s : List CHAR16} {n : Nat} (h : HoldsString m s)
    (hNul : 0 ∉ s) (hn : s.length < n) : wideString m n = s := by
  obtain ⟨k, rfl⟩ : ∃ k, n = (s ++ [0]).length + k :=
    ⟨n - s.length - 1, by rw [List.length_append, List.length_singleton]; omega⟩
  -- up to the terminator the array is the string
  have hMap : ((List.range (s ++ [0]).length).map fun i => readUint16 m (2 * i)) = s ++ [0] := by
    refine List.ext_getElem? fun i => ?_
    by_cases hi : i < (s ++ [0]).length
    · rw [List.getElem?_map, List.getElem?_range hi, List.getElem?_eq_getElem hi]
      exact congrArg some (readUint16_of_holdsWide h (List.getElem?_eq_getElem hi))
    · rw [List.getElem?_eq_none (by simpa using hi), List.getElem?_eq_none (Nat.not_lt.mp hi)]
  rw [wideString, List.range_add, List.map_append, hMap, List.append_assoc,
    List.takeWhile_append_of_pos fun c hc => by simpa using ne_of_mem_of_not_mem hc hNul]
  simp

/-- **A printed text is a string**, cut where the buffer ends. -/
theorem unicodeSPrint_string {BufferSize : UINTN} {Format : List CHAR16}
    {Marker : List PrintArgument} {ps : List Piece} {text : List CHAR16} (memory : Region UINT8)
    (hPieces : pieces BasePrintLibSPrint Format Marker = some ps)
    (hText : ps.flatMap Piece.text = text.map UInt16.toUInt64) (hPos : 2 ≤ BufferSize.toNat)
    (hSize : BufferSize.toNat ≤ 2000000) (hFormat : Format.length ≤ 1000000) :
    ∃ memory', UnicodeSPrint (some memory) BufferSize Format Marker =
        some (UInt64.ofNat (min (BufferSize.toNat / 2 - 1) text.length), some memory') ∧
      HoldsString memory'.cells (text.take (BufferSize.toNat / 2 - 1)) ∧
      memory'.stores = memory.stores ++
        List.range (2 * (min (BufferSize.toNat / 2 - 1) text.length + 1)) := by
  -- the buffer's size in characters
  have hHalf : (BufferSize >>> 1).toNat = BufferSize.toNat / 2 := by
    rw [UInt64.toNat_shiftRight]
    simp [Nat.shiftRight_eq_div_pow]
  have hPosHalf : (0 : UINTN) < BufferSize >>> 1 := by
    rw [UInt64.lt_iff_toNat_lt, hHalf, UInt64.toNat_zero]
    omega
  have hRun := @sprint_prints BasePrintLibSPrint ⟨true, true, false⟩ (BufferSize >>> 1) _ _ _ memory
    hPieces rfl hPosHalf (by omega) hFormat
  -- what is printed, as bytes
  have hBytes : (printedText (BufferSize >>> 1) (text.map UInt16.toUInt64)).flatMap
      (characterBytes 2) = (text.take (BufferSize.toNat / 2 - 1) ++ [0]).flatMap uint16Bytes := by
    rw [printedText, hHalf, ← List.map_take, List.flatMap_append, List.flatMap_append,
      List.flatMap_map]
    simp only [characterBytes_wide]
    rfl
  rw [hText, List.length_map, hHalf] at hRun
  refine ⟨_, hRun, ?_, ?_⟩
  · change Holds (memory.storeAll (cursor 0 (List.flatMap (characterBytes 2) _))).cells 0 _
    rw [hBytes]
    exact holds_write memory 0 _
  · change (memory.storeAll (cursor 0 (List.flatMap (characterBytes 2) _))).stores = _
    rw [hBytes, stores_storeAll, map_fst_cursor, length_flatMap_uint16Bytes, List.length_append,
      List.length_take, List.length_singleton, List.range_eq_range']

-- ---------------------------------------------------------------------------
-- Numbers with zeros in front
-- ---------------------------------------------------------------------------

/-!
The library's formats for the names of variables and files are `%04x` and `%u`. Their arguments are
words of which an `int` is read, so that a number keeps its low half.
-/

/-- A digit as it is printed. -/
def digitChar (d : Nat) : CHAR16 := UInt16.ofNat (mHexStr.getD d 0).toNat

/-- A number of at least `k` digits. -/
def paddedText (radix : Radix) (k n : Nat) : List CHAR16 := (padded radix.base k n).map digitChar

/-- A digit is the same as a narrow and as a wide character. -/
theorem toUInt64_digit (d : Nat) : (mHexStr.getD d 0).toUInt64 = (digitChar d).toUInt64 := by
  rw [← UInt64.toNat_inj]
  have hLt := (mHexStr.getD d 0).toNat_lt
  simp only [digitChar, UInt8.toNat_toUInt64, UInt16.toNat_toUInt64]
  rw [UInt16.toNat_ofNat_of_lt' (show _ < 2 ^ 16 by omega)]

/-- The digits that are copied of a number without a sign. -/
theorem copied_convertNumber {s : FormatSpec} {radix : Radix} (hTen : 10 ≤ radix.base) (Value : Int64)
    (hDigit : s.Precision ≠ 0) :
    (convertNumber s 0 false Value radix).counted.copied =
        (numeral radix.base Value.toUInt64.toNat).map (fun d => (digitChar d).toUInt64) ∧
      (convertNumber s 0 false Value radix).counted.Count.toNat =
        (numeral radix.base Value.toUInt64.toNat).length ∧
      (numeral radix.base Value.toUInt64.toNat).length ≤ 20 := by
  let ValueBuffer := BasePrintLibValueToString Value.toUInt64.toNat radix
  have hDigits : ValueBuffer.reverse.map UInt8.toUInt64 =
      (numeral radix.base Value.toUInt64.toNat).map fun d => (digitChar d).toUInt64 := by
    rw [valueToString_reverse, List.map_map]
    exact List.map_congr_left fun d _ => toUInt64_digit d
  have hLength : (numeral radix.base Value.toUInt64.toNat).length = ValueBuffer.length := by
    have hBoth := congrArg List.length hDigits
    rw [List.length_map, List.length_reverse, List.length_map] at hBoth
    exact hBoth.symm
  -- the count is that of the digits, as nothing else is copied
  have hShort : ValueBuffer.length ≤ 20 := length_valueToString_le Value.toUInt64.toNat_lt hTen
  have hCount : (convertNumber s 0 false Value radix).counted.Count =
      UInt64.ofNat ValueBuffer.length := by
    simp [Piece.counted, convertNumber, hDigit, ValueBuffer]
  have hNat : (UInt64.ofNat ValueBuffer.length).toNat = ValueBuffer.length :=
    UInt64.toNat_ofNat_of_lt' (show _ < 2 ^ 64 by omega)
  refine ⟨?_, by rw [hCount, hNat, hLength], hLength.le.trans hShort⟩
  have hArgument : (convertNumber s 0 false Value radix).counted.ArgumentString =
      ValueBuffer.reverse.map UInt8.toUInt64 := by
    simp [Piece.counted, convertNumber, hDigit, ValueBuffer]
  refine (copiedText_plain _ _ _ _).trans ?_
  rw [hArgument, ← hDigits]
  refine List.take_of_length_le ?_
  change (ValueBuffer.reverse.map UInt8.toUInt64).length ≤
    (convertNumber s 0 false Value radix).counted.Count.toNat - (0 : UINTN).toNat
  rw [hCount, hNat, List.length_map, List.length_reverse, UInt64.toNat_zero, Nat.sub_zero]

/-- **A field with leading zeros** holds the number with at least as many digits as it is wide. -/
theorem text_padded {s : FormatSpec} {radix : Radix} (hTen : 10 ≤ radix.base) (Value : Int64)
    (hZero : s.Flags.PREFIX_ZERO = true) (hRight : s.Flags.LEFT_JUSTIFY = false)
    (hPad : s.Flags.PAD_TO_WIDTH = true) (hPrecision : s.Flags.PRECISION = false)
    (hDigit : s.Precision ≠ 0) (hWidth : s.Width.toNat < 2 ^ 63) :
    (convertNumber s 0 false Value radix).text =
      (paddedText radix s.Width.toNat Value.toUInt64.toNat).map UInt16.toUInt64 := by
  obtain ⟨hCopied, hCount, hShort⟩ := copied_convertNumber (s := s) hTen Value hDigit
  let p := convertNumber s 0 false Value radix
  have hOwnCount : p.counted.Count.toNat = (numeral radix.base Value.toUInt64.toNat).length := hCount
  have hMax : p.counted.Precision.toNat =
      max s.Width.toNat (numeral radix.base Value.toUInt64.toNat).length := by
    have hOwn : p.Precision = s.Width := by
      simp [p, convertNumber, hZero, hRight, hPad, hPrecision]
    rw [Piece.toNat_counted_precision, hOwn, hCount]
  -- the width became the precision: it is filled with zeros, and no padding is left
  have hFilling : p.counted.filling = List.replicate
      (s.Width.toNat - (numeral radix.base Value.toUInt64.toNat).length) 0x30 := by
    change List.replicate (fillCount (p.counted.Precision - p.counted.Count)) 0x30 = _
    rw [fillCount_sub (by omega) (by omega), hMax, hOwnCount]
    congr 1
    omega
  have hPadding : p.counted.padding = [] := by
    change List.replicate (fillCount (s.Width - p.counted.Precision)) 0x20 = []
    rw [fillCount_sub hWidth (by omega), hMax, Nat.sub_eq_zero_of_le (Nat.le_max_left _ _),
      List.replicate_zero]
  have hText : p.text = p.counted.padding ++ (p.counted.filling ++ p.counted.copied) := by
    change (if s.Flags.PAD_TO_WIDTH then
      if s.Flags.LEFT_JUSTIFY then p.counted.body ++ p.counted.padding
      else p.counted.padding ++ p.counted.body else p.counted.body) = _
    rw [hPad, hRight, if_pos rfl, if_neg Bool.false_ne_true]
    rfl
  have hZeros : (digitChar 0).toUInt64 = 0x30 := by decide
  rw [hText, hPadding, hFilling, hCopied, paddedText, padded, List.map_map, List.map_append,
    List.map_replicate, List.nil_append, Function.comp_apply, hZeros]
  rfl

/-- **A number without a width** is printed with its digits alone. -/
theorem text_unpadded {s : FormatSpec} {radix : Radix} (hTen : 10 ≤ radix.base) (Value : Int64)
    (hPad : s.Flags.PAD_TO_WIDTH = false) (hDigit : s.Precision = 1) :
    (convertNumber s 0 false Value radix).text =
      (paddedText radix 1 Value.toUInt64.toNat).map UInt16.toUInt64 := by
  obtain ⟨hCopied, hCount, hShort⟩ := copied_convertNumber (s := s) hTen Value
    (by rw [hDigit]; decide)
  let p := convertNumber s 0 false Value radix
  have hOwnCount : p.counted.Count.toNat = (numeral radix.base Value.toUInt64.toNat).length := hCount
  have hMax : p.counted.Precision.toNat = max 1 (numeral radix.base Value.toUInt64.toNat).length := by
    have hOwn : p.Precision = 1 := by
      simp [p, convertNumber, hPad, hDigit]
    rw [Piece.toNat_counted_precision, hOwn, hCount]
    rfl
  have hFilling : p.counted.filling = List.replicate
      (1 - (numeral radix.base Value.toUInt64.toNat).length) 0x30 := by
    change List.replicate (fillCount (p.counted.Precision - p.counted.Count)) 0x30 = _
    rw [fillCount_sub (by omega) (by omega), hMax, hOwnCount]
    congr 1
    omega
  -- without a field there is no padding
  have hText : p.text = p.counted.filling ++ p.counted.copied := by
    change (if s.Flags.PAD_TO_WIDTH then
      if s.Flags.LEFT_JUSTIFY then p.counted.body ++ p.counted.padding
      else p.counted.padding ++ p.counted.body else p.counted.body) = _
    rw [hPad, if_neg Bool.false_ne_true]
    rfl
  have hZeros : (digitChar 0).toUInt64 = 0x30 := by decide
  rw [hText, hFilling, hCopied, paddedText, padded, List.map_map, List.map_append,
    List.map_replicate, Function.comp_apply, hZeros]
  rfl

/-- An `int` made of the low half of a number has this half. -/
theorem toUInt64_unsignedInt (v : UINTN) :
    (unsignedInt v.toUInt32.toInt32.toInt64).toUInt64.toNat = v.toUInt32.toNat := by
  have hHalf : v.toUInt32.toInt32.toInt64.toUInt64.toUInt32 = v.toUInt32 := by
    have hBits : v.toUInt32.toInt32.toInt64.toUInt64.toUInt32.toBitVec =
        (v.toUInt32.toBitVec.signExtend 64).setWidth 32 := rfl
    rw [← UInt32.toBitVec_inj, hBits]
    ext i hi
    have hWide : i < 64 := by omega
    simp [BitVec.getElem_signExtend, hi, hWide]
  rw [unsignedInt, hHalf]
  simp

/-- A nonnegative one is that half. -/
theorem toUInt64_int (v : UINTN) (h : ¬ v.toUInt32.toInt32.toInt64 < 0) :
    v.toUInt32.toInt32.toInt64.toUInt64.toNat = v.toUInt32.toNat := by
  have hSame : v.toUInt32.toInt32.toInt64.toInt = v.toUInt32.toInt32.toInt := by simp
  have hInt : v.toUInt32.toInt32.toInt = v.toUInt32.toBitVec.toInt := rfl
  have hWide : v.toUInt32.toInt32.toInt64.toInt =
      v.toUInt32.toInt32.toInt64.toUInt64.toBitVec.toInt := rfl
  have hLt := v.toUInt32.toNat_lt
  have hLtWide := v.toUInt32.toInt32.toInt64.toUInt64.toNat_lt
  have hZero : (0 : Int64).toInt = 0 := rfl
  -- extending a sign bit that is 0 changes nothing
  rw [Int64.lt_iff_toInt_lt, hWide, hZero, BitVec.toInt_eq_toNat_cond, UInt64.toNat_toBitVec] at h
  rw [hInt, hWide, BitVec.toInt_eq_toNat_cond, BitVec.toInt_eq_toNat_cond, UInt64.toNat_toBitVec,
    UInt32.toNat_toBitVec] at hSame
  split_ifs at h hSame
  all_goals omega

/-- A hexadecimal number, as `%04x` asks for it. -/
theorem text_hexPiece (v : UINTN) {Width : UINTN} (hWidth : Width.toNat < 2 ^ 63) :
    (numberPiece ⟨{ PREFIX_ZERO := true, PAD_TO_WIDTH := true, RADIX_HEX := true }, Width, 1⟩
      v.toUInt32.toInt32.toInt64).text =
      (paddedText Radix.hex Width.toNat v.toUInt32.toNat).map UInt16.toUInt64 := by
  have hSixteen : 10 ≤ Radix.hex.base := by decide
  have hDigit : (1 : UINTN) ≠ 0 := by decide
  unfold numberPiece
  simp only [Bool.true_eq_false, Bool.false_eq_true, if_false, true_and]
  split_ifs with hNegative
  · rw [text_padded hSixteen _ rfl rfl rfl rfl hDigit hWidth, toUInt64_unsignedInt]
  · rw [text_padded hSixteen _ rfl rfl rfl rfl hDigit hWidth, toUInt64_int v hNegative]

/-- A decimal number, as `%u` asks for it. -/
theorem text_unsigned (v : UINTN) :
    (numberPiece ⟨{ UNSIGNED_TYPE := true }, 0, 1⟩ v.toUInt32.toInt32.toInt64).text =
      (paddedText Radix.decimal 1 v.toUInt32.toNat).map UInt16.toUInt64 := by
  have hPiece : numberPiece ⟨{ UNSIGNED_TYPE := true }, 0, 1⟩ v.toUInt32.toInt32.toInt64 =
      convertNumber ⟨{ UNSIGNED_TYPE := true }, 0, 1⟩ 0 false
        (unsignedInt v.toUInt32.toInt32.toInt64) Radix.decimal := by
    simp [numberPiece]
  rw [hPiece, text_unpadded (by decide) _ rfl rfl, toUInt64_unsignedInt]

/-- A string without width and precision. -/
theorem text_string {cs : List UINTN} (hCs : cs.length < 2 ^ 63) :
    (stringPiece (stringSpec {}) cs).text = cs := by
  let p := stringPiece (stringSpec {}) cs
  -- all of it is counted, is the precision and is copied
  have hCount : p.counted.Count.toNat = cs.length := by
    have hAll := toNat_countArgument ⟨{}, 0, 0⟩ cs 0 (by rw [UInt64.toNat_zero]; omega)
    rw [if_neg Bool.false_ne_true, UInt64.toNat_zero, Nat.zero_add] at hAll
    exact hAll
  have hPrecision : p.counted.Precision.toNat = cs.length := by
    rw [Piece.toNat_counted_precision, hCount]
    exact Nat.max_eq_right (Nat.zero_le _)
  have hCopied : p.counted.copied = cs := by
    refine (copiedText_plain _ _ _ _).trans (List.take_of_length_le ?_)
    exact hCount.ge
  have hFilling : p.counted.filling = [] := by
    have hNone : fillCount (p.counted.Precision - p.counted.Count) = 0 := by
      rw [fillCount_of_le (hCount.trans hPrecision.symm).le (by omega), hPrecision, hCount,
        Nat.sub_self]
    rw [Piece.filling, hNone, List.replicate_zero]
  have hText : p.text = p.counted.filling ++ [] ++ p.counted.copied := rfl
  rw [hText, hFilling, hCopied]
  rfl

end TianJi.Model
