import TianJi.Lib.Numeral
import TianJi.Model.Uefi

/-!
# TianJi — numbers as strings

`BasePrintLibConvertValueToStringS` (PrintLibInternal.c) with the functions it uses, and
`UintnToChar16` (天玑.c), which calls it. Assertions are compiled out, so a constraint that
fails is reported by its status alone. A character goes to `Increment` bytes, little-endian.

What a call prints is a text of its own (`printText`): sign, zeros and digits with commas.
The loops of the code put down its beginning, as far as `Width` goes (`convert_prints`).

* `convert_prints`, `convert_refused` — every call, accepted or not.
* `convert_inBounds`, `valueBuffer_fits` — nothing is written outside the two buffers.
* `convert_decimal`         — without flags a nonnegative value is printed in decimal.
* `uintnToChar16_formats_iff` — what the application's call leaves in its block.
-/

namespace TianJi.Model

open Bytes Memory Memory.Region Numeral

-- ---------------------------------------------------------------------------
-- The code
-- ---------------------------------------------------------------------------

abbrev CHAR8 := UInt8
abbrev RETURN_STATUS := EFI_STATUS

def LEFT_JUSTIFY : UINTN := 0x01
def COMMA_TYPE : UINTN := 0x08
def PREFIX_ZERO : UINTN := 0x20
def RADIX_HEX : UINTN := 0x80
def MAXIMUM_VALUE_CHARACTERS : UINTN := 38

/-- `PcdMaximumUnicodeStringLength` and `PcdMaximumAsciiStringLength` -/
def RSIZE_MAX : UINTN := 1000000
def ASCII_RSIZE_MAX : UINTN := 1000000

/-- A radix that `mHexStr` has digits for. -/
structure Radix where
  base : Nat
  two_le : 2 ≤ base
  le_sixteen : base ≤ 16

/-- `((Flags & RADIX_HEX) == 0) ? 10 : 16` -/
def radixOf (Flags : UINTN) : Radix :=
  if Flags &&& RADIX_HEX = 0 then ⟨10, by decide, by decide⟩ else ⟨16, by decide, by decide⟩

/-- `mHexStr` -/
def mHexStr : List CHAR8 :=
  [0x30, 0x31, 0x32, 0x33, 0x34, 0x35, 0x36, 0x37, 0x38, 0x39, 0x41, 0x42, 0x43, 0x44, 0x45, 0x46]

/-- `BasePrintLibValueToString`: the digits as they come to lie in `ValueBuffer` behind its
first byte, the last digit first. -/
def BasePrintLibValueToString (Value : Nat) (radix : Radix) : List CHAR8 :=
  mHexStr.getD (Value % radix.base) 0 ::
    if Value / radix.base ≠ 0 then BasePrintLibValueToString (Value / radix.base) radix else []
termination_by Value
decreasing_by
  rename_i hMore
  refine Nat.div_lt_self (Nat.pos_of_ne_zero fun hZero => hMore ?_) radix.two_le
  rw [hZero, Nat.zero_div]

/-- The output buffer and the pointer into it. -/
structure PrintState where
  memory : Region UINT8
  Buffer : Nat

/-- The bytes of one character. -/
def characterBytes (Increment : Nat) (Character : UINTN) : List UINT8 :=
  if Increment ≠ 1 then [Character.toUInt8, (Character >>> 8).toUInt8] else [Character.toUInt8]

/-- `BasePrintLibFillBuffer`, for a `Length` that is not negative. -/
def fillBuffer (EndBuffer Increment : Nat) (Character : UINTN) : Nat → PrintState → PrintState
  | 0, s => s
  | Length + 1, s =>
    if s.Buffer < EndBuffer then
      fillBuffer EndBuffer Increment Character Length
        ⟨s.memory.storeAll (cursor s.Buffer (characterBytes Increment Character)),
          s.Buffer + Increment⟩
    else s

def BasePrintLibFillBuffer (s : PrintState) (EndBuffer : Nat) (Length : Int) (Character : UINTN)
    (Increment : Nat) : PrintState :=
  fillBuffer EndBuffer Increment Character Length.toNat s

/-- The loop over the digits, from the first one on. -/
def printDigits (Flags : UINTN) (EndBuffer Increment : Nat) :
    List CHAR8 → Nat → PrintState → PrintState
  | [], _, s => s
  | c :: rest, Digits, s =>
    let s := BasePrintLibFillBuffer s EndBuffer 1 c.toUInt64 Increment
    if Flags &&& COMMA_TYPE ≠ 0 then
      if Digits + 1 = 3 then
        -- `(Index + 1) < Count`
        let s := if rest ≠ [] then BasePrintLibFillBuffer s EndBuffer 1 0x2C Increment else s
        printDigits Flags EndBuffer Increment rest 0 s
      else printDigits Flags EndBuffer Increment rest (Digits + 1) s
    else printDigits Flags EndBuffer Increment rest Digits s

/-- The constraints on the arguments. -/
def printConstraints (BufferSize Flags Width : UINTN) (Increment : Nat) : Bool :=
  (if Increment = 1 then ASCII_RSIZE_MAX = 0 || BufferSize ≤ ASCII_RSIZE_MAX
    else RSIZE_MAX = 0 || BufferSize ≤ RSIZE_MAX * 2 + 1) &&
  Flags &&& ~~~ (LEFT_JUSTIFY ||| COMMA_TYPE ||| PREFIX_ZERO ||| RADIX_HEX) = 0 &&
  (Flags &&& COMMA_TYPE = 0 || Flags &&& RADIX_HEX = 0) &&
  Width < MAXIMUM_VALUE_CHARACTERS

/-- `PREFIX_ZERO` is ignored without a width and with commas. -/
def effectiveFlags (Flags Width : UINTN) : UINTN :=
  if Width = 0 ∨ Flags &&& COMMA_TYPE ≠ 0 then Flags &&& ~~~ PREFIX_ZERO else Flags

def effectiveWidth (Width : UINTN) : UINTN :=
  if Width = 0 then MAXIMUM_VALUE_CHARACTERS - 1 else Width

/-- `(Value < 0) && ((Flags & RADIX_HEX) == 0)` -/
def hasSign (Flags : UINTN) (Value : Int64) : Bool := Value < 0 && Flags &&& RADIX_HEX = 0

/-- What is converted: the value as it is, or without its sign. -/
def magnitude (Flags : UINTN) (Value : Int64) : Nat :=
  (if hasSign Flags Value then -Value else Value).toUInt64.toNat

/-- The characters of the output string, counted before anything is printed. -/
def countCharacters (Flags : UINTN) (Value : Int64) (Width : Nat) : Nat :=
  if Flags &&& PREFIX_ZERO ≠ 0 then Width
  else
    let Digits := (BasePrintLibValueToString (magnitude Flags Value) (radixOf Flags)).length
    let Count := (if hasSign Flags Value then 1 else 0) + Digits
    if Flags &&& COMMA_TYPE ≠ 0 then Count + (Digits - 1) / 3 else Count

/-- The part behind the last constraint. -/
def printValue (Flags : UINTN) (Value : Int64) (Width Increment : Nat) (memory : Region UINT8) :
    Region UINT8 :=
  let EndBuffer := Width * Increment
  let s : PrintState := ⟨memory, 0⟩
  let s := if hasSign Flags Value then BasePrintLibFillBuffer s EndBuffer 1 0x2D Increment else s
  let Width := if hasSign Flags Value then Width - 1 else Width
  let ValueBuffer := BasePrintLibValueToString (magnitude Flags Value) (radixOf Flags)
  let Count := ValueBuffer.length
  let s := if Flags &&& PREFIX_ZERO ≠ 0 then
    BasePrintLibFillBuffer s EndBuffer ((Width : Int) - Count) 0x30 Increment else s
  let Digits := if Count % 3 ≠ 0 then 3 - Count % 3 else Count % 3
  let s := printDigits Flags EndBuffer Increment ValueBuffer.reverse Digits s
  (BasePrintLibFillBuffer s (EndBuffer + Increment) 1 0 Increment).memory

/-- `BasePrintLibConvertValueToStringS`, with what it leaves of the buffer. -/
def BasePrintLibConvertValueToStringS (Buffer : Option (Region UINT8)) (BufferSize Flags : UINTN)
    (Value : Int64) (Width : UINTN) (Increment : Nat) : RETURN_STATUS × Option (Region UINT8) :=
  match Buffer with
  | none => (EFI_INVALID_PARAMETER, none)
  | some memory =>
    if !printConstraints BufferSize Flags Width Increment then (EFI_INVALID_PARAMETER, some memory)
    else
      let Flags := effectiveFlags Flags Width
      let Width := (effectiveWidth Width).toNat
      let Width := min (countCharacters Flags Value Width) Width
      if BufferSize.toNat < (Width + 1) * Increment then (EFI_BUFFER_TOO_SMALL, some memory)
      else (EFI_SUCCESS, some (printValue Flags Value Width Increment memory))

def UnicodeValueToStringS (Buffer : Option (Region UINT8)) (BufferSize Flags : UINTN)
    (Value : Int64) (Width : UINTN) : RETURN_STATUS × Option (Region UINT8) :=
  BasePrintLibConvertValueToStringS Buffer BufferSize Flags Value Width 2

/-- `UintnToChar16`. `pool` is what `AllocatePool` hands out, `none` for NULL. -/
def UintnToChar16 (Number : UINTN) (pool : Option ByteBuffer) : Option (Region UINT8) :=
  match pool with
  | none => none
  | some cells =>
    -- the size given is `sizeof (CHAR16)`, the flags are `10`
    let (Status, Buffer) :=
      UnicodeValueToStringS (some (Region.fresh cells)) 2 10 Number.toInt64 0
    -- a status is unsigned, so only success is `<= 0`
    if Status ≤ 0 then none else Buffer

-- ---------------------------------------------------------------------------
-- Characters one after the other
-- ---------------------------------------------------------------------------

/-- Put characters into the buffer while there is room before `EndBuffer`. -/
def emit (EndBuffer Increment : Nat) (cs : List UINTN) (s : PrintState) : PrintState :=
  cs.foldl (fun s c => fillBuffer EndBuffer Increment c 1 s) s

variable {EndBuffer Increment : Nat} {s : PrintState}

theorem emit_append (cs cs' : List UINTN) (s : PrintState) :
    emit EndBuffer Increment (cs ++ cs') s =
      emit EndBuffer Increment cs' (emit EndBuffer Increment cs s) := by
  simp [emit]

/-- Behind the end nothing is put down any more. -/
theorem emit_full (h : EndBuffer ≤ s.Buffer) (cs : List UINTN) :
    emit EndBuffer Increment cs s = s := by
  induction cs with
  | nil => rfl
  | cons c cs ih =>
    have hStop : fillBuffer EndBuffer Increment c 1 s = s := by
      rw [fillBuffer, if_neg (Nat.not_lt.mpr h)]
    rw [emit, List.foldl_cons, hStop]
    exact ih

theorem fillBuffer_eq_emit (c : UINTN) (Length : Nat) (s : PrintState) :
    fillBuffer EndBuffer Increment c Length s =
      emit EndBuffer Increment (List.replicate Length c) s := by
  induction Length generalizing s with
  | zero => rfl
  | succ Length ih =>
    rw [List.replicate_succ, emit, List.foldl_cons]
    by_cases hRoom : s.Buffer < EndBuffer
    · simp only [fillBuffer, if_pos hRoom]
      exact ih _
    · simp only [fillBuffer, if_neg hRoom]
      exact (emit_full (Nat.not_lt.mp hRoom) _).symm

/-- `BasePrintLibFillBuffer` of a single character. -/
theorem fillOne_eq_emit (c : UINTN) (s : PrintState) :
    BasePrintLibFillBuffer s EndBuffer 1 c Increment = emit EndBuffer Increment [c] s := rfl

theorem fillMany_eq_emit (Width Count : Nat) (c : UINTN) (s : PrintState) :
    BasePrintLibFillBuffer s EndBuffer ((Width : Int) - Count) c Increment =
      emit EndBuffer Increment (List.replicate (Width - Count) c) s := by
  rw [BasePrintLibFillBuffer, fillBuffer_eq_emit, Int.toNat_sub]

/-- The digits with the commas that the loop puts between them. -/
def commaText (Flags : UINTN) : List CHAR8 → Nat → List UINTN
  | [], _ => []
  | c :: rest, Digits =>
    c.toUInt64 ::
      if Flags &&& COMMA_TYPE ≠ 0 then
        if Digits + 1 = 3 then
          (if rest ≠ [] then [0x2C] else []) ++ commaText Flags rest 0
        else commaText Flags rest (Digits + 1)
      else commaText Flags rest Digits

theorem printDigits_eq_emit (Flags : UINTN) (digits : List CHAR8) (Digits : Nat) (s : PrintState) :
    printDigits Flags EndBuffer Increment digits Digits s =
      emit EndBuffer Increment (commaText Flags digits Digits) s := by
  induction digits generalizing Digits s with
  | nil => rfl
  | cons c rest ih =>
    rw [printDigits, commaText, ← List.singleton_append, emit_append]
    by_cases hComma : Flags &&& COMMA_TYPE ≠ 0
    · by_cases hThree : Digits + 1 = 3
      · by_cases hRest : rest ≠ []
        · simp only [if_pos hComma, if_pos hThree, if_pos hRest, fillOne_eq_emit, ih, emit_append]
        · simp only [if_pos hComma, if_pos hThree, if_neg hRest, fillOne_eq_emit, ih, List.nil_append]
      · simp only [if_pos hComma, if_neg hThree, fillOne_eq_emit, ih]
    · simp only [if_neg hComma, fillOne_eq_emit, ih]

theorem length_characterBytes (hI : Increment = 1 ∨ Increment = 2) (c : UINTN) :
    (characterBytes Increment c).length = Increment := by
  rcases hI with rfl | rfl
  · rfl
  · rfl

theorem length_flatMap_characterBytes (hI : Increment = 1 ∨ Increment = 2) (cs : List UINTN) :
    (cs.flatMap (characterBytes Increment)).length = cs.length * Increment := by
  induction cs with
  | nil => simp
  | cons c cs ih =>
    rw [List.flatMap_cons, List.length_append, ih, length_characterBytes hI, List.length_cons]
    ring

/-- As long as there is room the characters lie one after the other. -/
theorem emit_room (hI : Increment = 1 ∨ Increment = 2) (cs : List UINTN) (s : PrintState)
    (hRoom : s.Buffer + cs.length * Increment ≤ EndBuffer) :
    emit EndBuffer Increment cs s =
      ⟨s.memory.storeAll (cursor s.Buffer (cs.flatMap (characterBytes Increment))),
        s.Buffer + cs.length * Increment⟩ := by
  induction cs generalizing s with
  | nil => simp [emit]
  | cons c cs ih =>
    have hPos : 0 < Increment := by omega
    rw [List.length_cons, Nat.succ_mul] at hRoom
    have hOne : fillBuffer EndBuffer Increment c 1 s =
        ⟨s.memory.storeAll (cursor s.Buffer (characterBytes Increment c)),
          s.Buffer + Increment⟩ := by
      rw [fillBuffer, if_pos (by omega), fillBuffer]
    rw [emit, List.foldl_cons, hOne]
    have hRest := ih ⟨s.memory.storeAll (cursor s.Buffer (characterBytes Increment c)),
      s.Buffer + Increment⟩ (by dsimp only; omega)
    rw [emit] at hRest
    rw [hRest, List.flatMap_cons, cursor_append, storeAll_append, length_characterBytes hI,
      List.length_cons, Nat.succ_mul]
    simp only [PrintState.mk.injEq, true_and]
    omega

/-- What does not fit is left out at the end. -/
theorem emit_take (hI : Increment = 1 ∨ Increment = 2) (cs : List UINTN) (n : Nat)
    (hEnd : s.Buffer + n * Increment = EndBuffer) :
    emit EndBuffer Increment cs s = emit EndBuffer Increment (cs.take n) s := by
  rcases Nat.lt_or_ge n cs.length with hMore | hFits
  · have hLength : (cs.take n).length = n := List.length_take_of_le hMore.le
    conv_lhs => rw [← List.take_append_drop n cs]
    rw [emit_append, emit_room hI (cs.take n) s (by rw [hLength]; omega)]
    refine emit_full ?_ _
    dsimp only
    rw [hLength]
    omega
  · rw [List.take_of_length_le hFits]

-- ---------------------------------------------------------------------------
-- The text of a value
-- ---------------------------------------------------------------------------

/-- The counter that the commas start with. -/
def firstDigits (Count : Nat) : Nat := if Count % 3 ≠ 0 then 3 - Count % 3 else Count % 3

/-- Sign, zeros up to the width, and digits. -/
def printText (Flags : UINTN) (Value : Int64) (Width : Nat) : List UINTN :=
  let ValueBuffer := BasePrintLibValueToString (magnitude Flags Value) (radixOf Flags)
  let sign := if hasSign Flags Value then [(0x2D : UINTN)] else []
  let zeros := if Flags &&& PREFIX_ZERO ≠ 0 then
    List.replicate (Width - sign.length - ValueBuffer.length) (0x30 : UINTN) else []
  sign ++ zeros ++ commaText Flags ValueBuffer.reverse (firstDigits ValueBuffer.length)

theorem length_valueToString_pos (Value : Nat) (radix : Radix) :
    1 ≤ (BasePrintLibValueToString Value radix).length := by
  rw [BasePrintLibValueToString, List.length_cons]
  omega

/-- A comma comes behind every third digit, counted from the end, but not behind the last. -/
theorem length_commaText {Flags : UINTN} (hComma : Flags &&& COMMA_TYPE ≠ 0) (digits : List CHAR8)
    {Digits : Nat} (hDigits : Digits < 3) (hNe : digits ≠ []) :
    (commaText Flags digits Digits).length = digits.length + (Digits + digits.length - 1) / 3 := by
  induction digits generalizing Digits with
  | nil => exact absurd rfl hNe
  | cons c rest ih =>
    rw [commaText, if_pos hComma, List.length_cons, List.length_cons]
    cases rest with
    | nil =>
      simp only [commaText, ne_eq, not_true_eq_false, if_false, List.append_nil, ite_self,
        List.length_nil]
      omega
    | cons d rest =>
      split_ifs with hThree hRest
      · rw [List.length_append, ih (by omega) (List.cons_ne_nil _ _)]
        simp only [List.length_cons, List.length_nil]
        omega
      · exact absurd (List.cons_ne_nil _ _) hRest
      · rw [ih (by omega) (List.cons_ne_nil _ _)]
        simp only [List.length_cons]
        omega

theorem length_commaText_plain {Flags : UINTN} (hPlain : ¬ Flags &&& COMMA_TYPE ≠ 0)
    (digits : List CHAR8) (Digits : Nat) :
    (commaText Flags digits Digits).length = digits.length := by
  induction digits with
  | nil => rfl
  | cons c rest ih => rw [commaText, if_neg hPlain, List.length_cons, List.length_cons, ih]

/-- **The characters are counted right**, unless zeros fill the width. -/
theorem length_printText {Flags : UINTN} (hZero : ¬ Flags &&& PREFIX_ZERO ≠ 0) (Value : Int64)
    (Width : Nat) : (printText Flags Value Width).length = countCharacters Flags Value Width := by
  unfold printText countCharacters
  have hPos := length_valueToString_pos (magnitude Flags Value) (radixOf Flags)
  generalize BasePrintLibValueToString (magnitude Flags Value) (radixOf Flags) = digits at hPos ⊢
  have hSign : (if hasSign Flags Value then [(0x2D : UINTN)] else []).length =
      if hasSign Flags Value then 1 else 0 := by
    split_ifs
    · rfl
    · rfl
  simp only [if_neg hZero, List.append_nil, List.length_append, hSign]
  by_cases hComma : Flags &&& COMMA_TYPE ≠ 0
  · have hNe : digits.reverse ≠ [] := by
      intro hNil
      rw [List.reverse_eq_nil_iff.mp hNil] at hPos
      exact absurd hPos (by simp)
    have hFirst : firstDigits digits.length < 3 := by
      unfold firstDigits
      split_ifs
      · omega
      · omega
    rw [if_pos hComma, length_commaText hComma _ hFirst hNe, List.length_reverse, firstDigits]
    split_ifs
    all_goals omega
  · rw [if_neg hComma, length_commaText_plain hComma, List.length_reverse]

/-- **What is printed is the beginning of the text, and a terminator.** -/
theorem printValue_eq (hI : Increment = 1 ∨ Increment = 2) (Flags : UINTN) (Value : Int64)
    (Width : Nat) (memory : Region UINT8) :
    printValue Flags Value Width Increment memory = memory.storeAll (cursor 0
      (((printText Flags Value Width).take Width ++ [0]).flatMap (characterBytes Increment))) := by
  have hPos : 0 < Increment := by omega
  have hText : printValue Flags Value Width Increment memory =
      (fillBuffer (Width * Increment + Increment) Increment 0 1
        (emit (Width * Increment) Increment (printText Flags Value Width) ⟨memory, 0⟩)).memory := by
    unfold printValue printText
    simp only [printDigits_eq_emit, emit_append, fillOne_eq_emit, fillMany_eq_emit]
    cases hasSign Flags Value with
    | true =>
      by_cases hZero : Flags &&& PREFIX_ZERO ≠ 0
      · simp only [if_true, if_pos hZero]
        rfl
      · simp only [if_true, if_neg hZero]
        rfl
    | false =>
      by_cases hZero : Flags &&& PREFIX_ZERO ≠ 0
      · simp only [Bool.false_eq_true, if_false, if_pos hZero]
        rfl
      · simp only [Bool.false_eq_true, if_false, if_neg hZero]
        rfl
  have hLength : ((printText Flags Value Width).take Width).length ≤ Width :=
    List.length_take_le _ _
  have hFits := Nat.mul_le_mul_right Increment hLength
  rw [hText, emit_take hI _ Width (Nat.zero_add _), emit_room hI _ _ (by simpa using hFits),
    fillBuffer, if_pos (by dsimp only; omega), fillBuffer]
  dsimp only
  rw [← storeAll_append, List.flatMap_append, cursor_append, length_flatMap_characterBytes hI,
    List.flatMap_singleton]

-- ---------------------------------------------------------------------------
-- Every call
-- ---------------------------------------------------------------------------

/-- The width a call prints with. -/
def printWidth (Flags : UINTN) (Value : Int64) (Width : UINTN) : Nat :=
  min (countCharacters (effectiveFlags Flags Width) Value (effectiveWidth Width).toNat)
    (effectiveWidth Width).toNat

/-- What is put down: the beginning of the text, and a terminator. -/
def printed (Flags : UINTN) (Value : Int64) (Width : UINTN) : List UINTN :=
  (printText (effectiveFlags Flags Width) Value (printWidth Flags Value Width)).take
    (printWidth Flags Value Width) ++ [0]

section

variable {BufferSize Flags Width : UINTN} {Value : Int64}

/-- **An accepted call** prints the beginning of the value's text into the buffer. -/
theorem convert_prints (hI : Increment = 1 ∨ Increment = 2) (memory : Region UINT8)
    (hArguments : printConstraints BufferSize Flags Width Increment = true)
    (hRoom : (printWidth Flags Value Width + 1) * Increment ≤ BufferSize.toNat) :
    BasePrintLibConvertValueToStringS (some memory) BufferSize Flags Value Width Increment =
      (EFI_SUCCESS, some (memory.storeAll
        (cursor 0 ((printed Flags Value Width).flatMap (characterBytes Increment))))) := by
  unfold BasePrintLibConvertValueToStringS
  simp only [hArguments, Bool.not_true, Bool.false_eq_true, if_false]
  refine (if_neg (Nat.not_lt.mpr hRoom)).trans ?_
  rw [printValue_eq hI]
  rfl

/-- **A refused call** reports an error and leaves the buffer alone. -/
theorem convert_refused (Value : Int64) (memory : Region UINT8)
    (h : printConstraints BufferSize Flags Width Increment = false ∨
      BufferSize.toNat < (printWidth Flags Value Width + 1) * Increment) :
    ∃ Status, EFI_ERROR Status = true ∧
      BasePrintLibConvertValueToStringS (some memory) BufferSize Flags Value Width Increment =
        (Status, some memory) := by
  unfold BasePrintLibConvertValueToStringS
  cases hArguments : printConstraints BufferSize Flags Width Increment with
  | false => exact ⟨EFI_INVALID_PARAMETER, by decide, rfl⟩
  | true =>
    have hShort := h.resolve_left (by rw [hArguments]; simp)
    refine ⟨EFI_BUFFER_TOO_SMALL, by decide, ?_⟩
    simp only [Bool.not_true, Bool.false_eq_true, if_false]
    exact if_pos hShort

/-- **No call writes outside the size it is given.** -/
theorem convert_inBounds (hI : Increment = 1 ∨ Increment = 2) {memory memory' : Region UINT8}
    (hBound : memory.InBounds BufferSize.toNat)
    (hRun : (BasePrintLibConvertValueToStringS (some memory) BufferSize Flags Value Width
      Increment).2 = some memory') : memory'.InBounds BufferSize.toNat := by
  by_cases hAccepted : printConstraints BufferSize Flags Width Increment = true ∧
      (printWidth Flags Value Width + 1) * Increment ≤ BufferSize.toNat
  · rw [convert_prints hI memory hAccepted.1 hAccepted.2] at hRun
    rw [← Option.some.inj hRun]
    refine inBounds_storeAll.mpr ⟨hBound, ?_⟩
    intro p hp
    have hPlace : p.1 ∈ List.range' 0
        ((printed Flags Value Width).flatMap (characterBytes Increment)).length := by
      rw [← map_fst_cursor]
      exact List.mem_map_of_mem hp
    have hLength : (printed Flags Value Width).length ≤ printWidth Flags Value Width + 1 := by
      rw [printed, List.length_append, List.length_singleton]
      exact Nat.succ_le_succ (List.length_take_le _ _)
    have hBytes := Nat.mul_le_mul_right Increment hLength
    rw [length_flatMap_characterBytes hI, List.mem_range'_1] at hPlace
    omega
  · obtain ⟨Status, -, hSame⟩ := convert_refused Value memory (by
      rcases not_and_or.mp hAccepted with hArguments | hShort
      · exact Or.inl (Bool.not_eq_true _ ▸ hArguments)
      · exact Or.inr (Nat.not_le.mp hShort))
    rw [hSame] at hRun
    rw [← Option.some.inj hRun]
    exact hBound

end

-- ---------------------------------------------------------------------------
-- Decimal
-- ---------------------------------------------------------------------------

/-- `s` is the decimal numeral of `n`: digits only, no leading zero unless it is all, and read
as an unsigned number it is `n`. -/
structure IsDecimal (s : List CHAR16) (n : Nat) : Prop where
  ne_nil : s ≠ []
  digits : ∀ c ∈ s, 0x30 ≤ c.toNat ∧ c.toNat ≤ 0x39
  leading : s.head? = some 0x30 → s = [0x30]
  value_eq : value 10 (s.map fun c => c.toNat - 0x30) = n

/-- A block of 21 characters starts with a numeral and its terminator. -/
def HoldsDecimal (m : ByteBuffer) (n : Nat) : Prop :=
  ∃ s, IsDecimal s n ∧ s.length < 21 ∧ Holds m 0 ((s ++ [0]).flatMap uint16Bytes)

/-- The characters of a numeral. -/
def decimalText (n : Nat) : List CHAR16 := (numeral 10 n).map fun d => UInt16.ofNat (0x30 + d)

theorem isDecimal_decimalText (n : Nat) : IsDecimal (decimalText n) n := by
  have hDigit : ∀ d ∈ numeral 10 n, (UInt16.ofNat (0x30 + d)).toNat = 0x30 + d := by
    intro d hd
    have hTen := lt_of_mem_numeral (by decide) hd
    exact UInt16.toNat_ofNat_of_lt' (show 0x30 + d < 2 ^ 16 by omega)
  refine ⟨?_, ?_, ?_, ?_⟩
  · intro hNil
    exact numeral_ne_nil 10 n (List.map_eq_nil_iff.mp hNil)
  · intro c hc
    obtain ⟨d, hd, rfl⟩ := List.mem_map.mp hc
    have hTen := lt_of_mem_numeral (by decide) hd
    rw [hDigit d hd]
    omega
  · intro hHead
    unfold decimalText at hHead ⊢
    rw [List.head?_map, Option.map_eq_some_iff] at hHead
    obtain ⟨d, hd, hZero⟩ := hHead
    have hMem := List.mem_of_mem_head? hd
    have hNat := congrArg UInt16.toNat hZero
    rw [hDigit d hMem] at hNat
    obtain rfl : d = 0 := Nat.add_left_cancel hNat
    rw [head_numeral hd]
    rfl
  · have hMap : (decimalText n).map (fun c => c.toNat - 0x30) = numeral 10 n := by
      unfold decimalText
      rw [List.map_map]
      conv_rhs => rw [← List.map_id (numeral 10 n)]
      refine List.map_congr_left ?_
      intro d hd
      rw [Function.comp_apply, hDigit d hd, Nat.add_sub_cancel_left]
      rfl
    rw [hMap, value_numeral]

/-- The digit loop, read from the end, gives the numeral. -/
theorem valueToString_reverse (Value : Nat) (radix : Radix) :
    (BasePrintLibValueToString Value radix).reverse =
      (numeral radix.base Value).map fun d => mHexStr.getD d 0 := by
  induction Value using Nat.strongRecOn with
  | ind Value ih =>
  rw [BasePrintLibValueToString, numeral_div radix.two_le Value, List.reverse_cons,
    List.map_append]
  by_cases hMore : Value / radix.base ≠ 0
  · have hLess : Value / radix.base < Value := by
      refine Nat.div_lt_self (Nat.pos_of_ne_zero fun hZero => hMore ?_) radix.two_le
      rw [hZero, Nat.zero_div]
    rw [if_pos hMore, if_neg hMore, ih _ hLess]
    rfl
  · rw [if_neg hMore, if_pos (not_not.mp hMore)]
    rfl

/-- The digits and the byte before them stay inside `ValueBuffer`. -/
theorem valueBuffer_fits (Flags : UINTN) (Value : Int64) :
    1 + (BasePrintLibValueToString (magnitude Flags Value) (radixOf Flags)).length ≤
      MAXIMUM_VALUE_CHARACTERS.toNat := by
  have hTen : 10 ≤ (radixOf Flags).base := by
    unfold radixOf
    split_ifs
    · exact le_refl _
    · show 10 ≤ 16
      decide
  have hSmall : magnitude Flags Value < (radixOf Flags).base ^ 20 := by
    refine Nat.lt_of_lt_of_le (UInt64.toNat_lt _) ?_
    exact le_trans (by decide) (Nat.pow_le_pow_left hTen 20)
  have hLength := length_numeral_le (radixOf Flags).two_le (by decide) hSmall
  rw [← List.length_reverse, valueToString_reverse, List.length_map]
  show _ ≤ 38
  omega

/-- A decimal digit is written as a wide character. -/
theorem characterBytes_digit {d : Nat} (hd : d < 10) :
    characterBytes 2 (mHexStr.getD d 0).toUInt64 = uint16Bytes (UInt16.ofNat (0x30 + d)) := by
  have hAll : ∀ d < 10, characterBytes 2 (mHexStr.getD d 0).toUInt64 =
      uint16Bytes (UInt16.ofNat (0x30 + d)) := by decide
  exact hAll d hd

theorem commaText_plain (digits : List CHAR8) (Digits : Nat) :
    commaText 0 digits Digits = digits.map UInt8.toUInt64 := by
  have hPlain : ¬ (0 : UINTN) &&& COMMA_TYPE ≠ 0 := by decide
  induction digits with
  | nil => rfl
  | cons c rest ih => rw [commaText, if_neg hPlain, ih, List.map_cons]

/-- Without flags the text of a nonnegative value is its numeral. -/
theorem printText_decimal {Value : Int64} (hValue : ¬ Value < 0) (Width : Nat) :
    printText 0 Value Width =
      (numeral 10 Value.toUInt64.toNat).map fun d => (mHexStr.getD d 0).toUInt64 := by
  have hSign : hasSign 0 Value = false := by simp [hasSign, hValue]
  have hMagnitude : magnitude 0 Value = Value.toUInt64.toNat := by simp [magnitude, hSign]
  have hZero : ¬ (0 : UINTN) &&& PREFIX_ZERO ≠ 0 := by decide
  unfold printText
  simp only [hSign, hMagnitude, if_neg hZero, Bool.false_eq_true, if_false, List.nil_append,
    commaText_plain, valueToString_reverse, List.map_map]
  rfl

/-- **Without flags a nonnegative value is printed in decimal**, when the buffer has room. -/
theorem convert_decimal {BufferSize : UINTN} {Value : Int64} (hValue : ¬ Value < 0)
    (hLow : 42 ≤ BufferSize.toNat) (hHigh : BufferSize.toNat ≤ 2000001) (memory : Region UINT8) :
    ∃ memory', UnicodeValueToStringS (some memory) BufferSize 0 Value 0 =
      (EFI_SUCCESS, some memory') ∧ HoldsDecimal memory'.cells Value.toUInt64.toNat := by
  have hLength : (numeral 10 Value.toUInt64.toNat).length ≤ 20 := by
    have hLt := Value.toUInt64.toNat_lt
    exact length_numeral_le (by decide) (by decide) (by omega)
  have hFlags : effectiveFlags 0 0 = 0 := by decide
  have hWidth : (effectiveWidth 0).toNat = 37 := by decide
  have hCount : printWidth 0 Value 0 = (numeral 10 Value.toUInt64.toNat).length := by
    have hText := length_printText (show ¬ (0 : UINTN) &&& PREFIX_ZERO ≠ 0 by decide) Value 37
    rw [printText_decimal hValue, List.length_map] at hText
    rw [printWidth, hFlags, hWidth, ← hText]
    omega
  have hArguments : printConstraints BufferSize 0 0 2 = true := by
    have hSize : BufferSize ≤ RSIZE_MAX * 2 + 1 := UInt64.le_iff_toNat_le.mpr hHigh
    have hRest : (0 : UINTN) &&& ~~~ (LEFT_JUSTIFY ||| COMMA_TYPE ||| PREFIX_ZERO ||| RADIX_HEX) = 0 ∧
        (0 : UINTN) &&& COMMA_TYPE = 0 ∧ (0 : UINTN) < MAXIMUM_VALUE_CHARACTERS := by decide
    simp [printConstraints, hSize, hRest]
  -- the bytes put down are those of the numeral and its terminator
  have hBytes : (printed 0 Value 0).flatMap (characterBytes 2) =
      (decimalText Value.toUInt64.toNat ++ [0]).flatMap uint16Bytes := by
    have hZero : characterBytes 2 0 = uint16Bytes 0 := by decide
    rw [printed, hFlags, printText_decimal hValue, hCount,
      List.take_of_length_le (List.length_map _).le, List.flatMap_append, List.flatMap_append,
      List.flatMap_singleton, List.flatMap_singleton, hZero, decimalText, List.flatMap_map,
      List.flatMap_map]
    congr 1
    refine List.flatMap_congr ?_
    intro d hd
    exact characterBytes_digit (lt_of_mem_numeral (by decide) hd)
  refine ⟨_, convert_prints (Or.inr rfl) memory hArguments (by rw [hCount]; omega), _,
    isDecimal_decimalText _, ?_, ?_⟩
  · rw [decimalText, List.length_map]
    omega
  · rw [hBytes]
    exact holds_write memory 0 _

-- ---------------------------------------------------------------------------
-- The application's call
-- ---------------------------------------------------------------------------

/-- A result that holds the number in decimal, with nothing written outside its block. -/
def Formats (Number : UINTN) (result : Option (Region UINT8)) : Prop :=
  ∃ Buffer, result = some Buffer ∧ Buffer.InBounds (21 * 2) ∧ HoldsDecimal Buffer.cells Number.toNat

/-- The flags `10` are `COMMA_TYPE` and a bit that is not supported. -/
theorem flags_refused : printConstraints 2 10 0 2 = false := by decide

/-- Every call returns the block as the pool handed it out. -/
theorem uintnToChar16_eq (Number : UINTN) (cells : ByteBuffer) :
    UintnToChar16 Number (some cells) = some (Region.fresh cells) := by
  obtain ⟨Status, hError, hRun⟩ := convert_refused Number.toInt64 (Region.fresh cells)
    (Or.inl flags_refused)
  have hStatus : ¬ Status ≤ 0 := by
    intro hZero
    rw [UInt64.le_zero_iff.mp hZero] at hError
    exact absurd hError (by decide)
  simp only [UintnToChar16, UnicodeValueToStringS, hRun, if_neg hStatus]

theorem not_holdsDecimal_zero (n : Nat) : ¬ HoldsDecimal (fun _ => 0) n := by
  rintro ⟨s, hDecimal, -, hHeld⟩
  obtain ⟨c, rest, rfl⟩ := List.exists_cons_of_ne_nil hDecimal.ne_nil
  rw [List.cons_append, List.flatMap_cons] at hHeld
  have hZero := readUint16_of_holds (holds_append.mp hHeld).1
  have hDigit := (hDecimal.digits c List.mem_cons_self).1
  rw [← hZero] at hDigit
  exact absurd hDigit (by decide)

/--
**No number is ever formatted.** Whatever the number, the flags are refused, nothing is written
and the block goes back to the caller as it came from the pool. It holds the number only where
it did before, and there is a block that does not.
-/
theorem uintnToChar16_formats_iff (Number : UINTN) :
    (∀ cells, Formats Number (UintnToChar16 Number (some cells)) ↔
      HoldsDecimal cells Number.toNat) ∧
    ∃ cells, ¬ Formats Number (UintnToChar16 Number (some cells)) := by
  have hIff : ∀ cells, Formats Number (UintnToChar16 Number (some cells)) ↔
      HoldsDecimal cells Number.toNat := by
    intro cells
    rw [uintnToChar16_eq]
    constructor
    · rintro ⟨Buffer, hBuffer, -, hHeld⟩
      rw [← Option.some.inj hBuffer] at hHeld
      exact hHeld
    · intro hHeld
      exact ⟨_, rfl, by simp [Region.InBounds, Region.fresh], hHeld⟩
  refine ⟨hIff, fun _ => 0, ?_⟩
  rw [hIff]
  exact not_holdsDecimal_zero _

/-- The number 7 and a block of zeros. -/
theorem seven_not_formatted : ¬ Formats 7 (UintnToChar16 7 (some fun _ => 0)) := by
  rw [uintnToChar16_eq]
  rintro ⟨Buffer, hBuffer, -, hHeld⟩
  rw [← Option.some.inj hBuffer] at hHeld
  exact not_holdsDecimal_zero _ hHeld

end TianJi.Model
