import TianJi.Model.SPrintText

/-!
# TianJi — names of load options

A load option lies in a variable whose name is that of its type and its number in four
hexadecimal digits (BmLoadOption.c). The name is printed, and read back.

* `optionName_eq` — what is printed, with any number.
* `isValidName_iff` — accepted is what is printed for a number of 16 bits, and read as that.
-/

namespace TianJi.Model

open Memory Numeral

-- ---------------------------------------------------------------------------
-- The code
-- ---------------------------------------------------------------------------

/-- `EFI_BOOT_MANAGER_LOAD_OPTION_TYPE`, below `LoadOptionTypeMax` -/
inductive LoadOptionType where
  | Driver
  | SysPrep
  | Boot
  | PlatformRecovery
  deriving DecidableEq

namespace LoadOptionType

/-- The types in the order of their numbers. -/
def all : List LoadOptionType := [Driver, SysPrep, Boot, PlatformRecovery]

/-- `mBmLoadOptionName`, as it stands in the source. -/
def text : LoadOptionType → String
  | Driver => "Driver"
  | SysPrep => "SysPrep"
  | Boot => "Boot"
  | PlatformRecovery => "PlatformRecovery"

/-- None of the names has a terminator in it. -/
theorem text_no_nul (t : LoadOptionType) : 0 ∉ L t.text := by
  cases t <;> decide

theorem length_text_lt (t : LoadOptionType) : (L t.text).length < 2 ^ 63 := by
  cases t <;> decide

end LoadOptionType

/-- The name of a type as a wide string. -/
def mBmLoadOptionName (t : LoadOptionType) : NulString CHAR16 :=
  ⟨L t.text, t.text_no_nul, t.length_text_lt⟩

def LoadOptionNumberMax : UINTN := 0x10000
def LoadOptionNumberUnassigned : UINTN := LoadOptionNumberMax

/-- `sizeof ("PlatformRecovery####")` -/
def BM_OPTION_NAME_LEN : UINTN := 21

/-- What a call of `UnicodeSPrint` leaves in the array `OptionName`. -/
def OptionName (OptionType : LoadOptionType) (OptionNumber : UINTN) : Option (List CHAR16) :=
  (UnicodeSPrint (some (Region.fresh fun _ => 0)) (BM_OPTION_NAME_LEN * 2) (L "%s%04x")
    [.string (some (mBmLoadOptionName OptionType)), .word OptionNumber]).bind fun r =>
      r.2.map fun memory => wideString memory.cells BM_OPTION_NAME_LEN.toNat

/-- "Convert a single character to number"; `(UINTN) -1` where it is no upper-case digit. -/
def BmCharToUint (Char : CHAR16) : UINTN :=
  if chr '0' ≤ Char ∧ Char ≤ chr '9' then (Char - chr '0').toUInt64
  else if chr 'A' ≤ Char ∧ Char ≤ chr 'F' then (Char - chr 'A' + 0xA).toUInt64
  else 0xFFFFFFFFFFFFFFFF

/-- `StrnCmp`, for strings without their terminators. -/
def StrnCmp : List CHAR16 → List CHAR16 → Nat → Int
  | _, _, 0 => 0
  | a :: FirstString, b :: SecondString, Length + 1 =>
    if a = b ∧ 1 < Length + 1 then StrnCmp FirstString SecondString Length
    else (a.toNat : Int) - b.toNat
  | FirstString, SecondString, _ =>
    ((FirstString.headD 0).toNat : Int) - (SecondString.headD 0).toNat

/-- The loop over the last four characters. -/
def readOptionNumber : List CHAR16 → UINT16 → Option UINT16
  | [], LocalOptionNumber => some LocalOptionNumber
  | c :: VariableName, LocalOptionNumber =>
    if BmCharToUint c = 0xFFFFFFFFFFFFFFFF then none
    else readOptionNumber VariableName ((BmCharToUint c).toUInt16 + LocalOptionNumber * 0x10)

/-- The type is that of the first name that fits the front of the string. -/
def EfiBootManagerIsValidLoadOptionVariableName (VariableName : List CHAR16) :
    Option (LoadOptionType × UINT16) :=
  let VariableNameLen := VariableName.length
  if VariableNameLen ≤ 4 then none
  else do
    let LocalOptionType ← LoadOptionType.all.find? fun t =>
      VariableNameLen - 4 = (mBmLoadOptionName t).chars.length &&
        StrnCmp VariableName (mBmLoadOptionName t).chars (VariableNameLen - 4) = 0
    return (LocalOptionType, ← readOptionNumber (VariableName.drop (VariableNameLen - 4)) 0)

-- ---------------------------------------------------------------------------
-- Printing
-- ---------------------------------------------------------------------------

/-!
The format has a string and a hexadecimal number of four digits, with zeros in front. `OptionName`
has room for the longest name, four digits and a terminator, and what is longer is cut.
-/

/-- The name for a number. -/
def variableName (t : LoadOptionType) (n : Nat) : List CHAR16 := L t.text ++ paddedText Radix.hex 4 n

variable {t : LoadOptionType}

/-- The two items of the format. -/
theorem pieces_name (s : NulString CHAR16) (v : UINTN) :
    pieces BasePrintLibSPrint (L "%s%04x") [.string (some s), .word v] =
      some [stringPiece (stringSpec {}) (s.chars.map UInt16.toUInt64),
        numberPiece ⟨{ PREFIX_ZERO := true, PAD_TO_WIDTH := true, RADIX_HEX := true }, 4, 1⟩
          v.toUInt32.toInt32.toInt64] := by
  have hFormat : L "%s%04x" = [0x25, 0x73, 0x25, 0x30, 0x34, 0x78] := by decide
  have hString : parseFlags [0x73, 0x25, 0x30, 0x34, 0x78] {} [.string (some s), .word v] =
      some ({}, 0x73, [0x25, 0x30, 0x34, 0x78], [.string (some s), .word v]) := by
    rw [parseFlags]
    simp [chr, isDigit]
  have hNumber : parseFlags [0x30, 0x34, 0x78] {} [.word v] =
      some (⟨{ PREFIX_ZERO := true, PAD_TO_WIDTH := true }, 4, 1⟩, 0x78, [], [.word v]) := by
    rw [parseFlags]
    simp [chr, isDigit, readNumber, parseFlags]
  have hFirst : nextPiece BasePrintLibSPrint 0x25 [0x73, 0x25, 0x30, 0x34, 0x78]
      [.string (some s), .word v] = some (stringPiece (stringSpec {})
        (s.chars.map UInt16.toUInt64), [0x25, 0x30, 0x34, 0x78], [.word v]) := by
    rw [nextPiece, if_pos (by decide), hString]
    rfl
  have hSecond : nextPiece BasePrintLibSPrint 0x25 [0x30, 0x34, 0x78] [.word v] =
      some (numberPiece ⟨{ PREFIX_ZERO := true, PAD_TO_WIDTH := true, RADIX_HEX := true }, 4, 1⟩
        v.toUInt32.toInt32.toInt64, [], []) := by
    rw [nextPiece, if_pos (by decide), hNumber]
    rfl
  rw [hFormat, pieces_next hFirst, pieces_next hSecond, pieces]
  rfl

/-- What the two items print: the string, and the low half of the number in four digits at least. -/
theorem text_pieces_name (s : NulString CHAR16) (v : UINTN) :
    [stringPiece (stringSpec {}) (s.chars.map UInt16.toUInt64),
        numberPiece ⟨{ PREFIX_ZERO := true, PAD_TO_WIDTH := true, RADIX_HEX := true }, 4, 1⟩
          v.toUInt32.toInt32.toInt64].flatMap Piece.text =
      (s.chars ++ paddedText Radix.hex 4 v.toUInt32.toNat).map UInt16.toUInt64 := by
  have hString := text_string ((List.length_map UInt16.toUInt64).trans_lt s.length_lt)
  have hFour : (4 : UINTN).toNat = 4 := rfl
  have hNumber := text_hexPiece v (show (4 : UINTN).toNat < 2 ^ 63 by decide)
  rw [hFour] at hNumber
  rw [List.flatMap_cons, List.flatMap_cons, List.flatMap_nil, List.append_nil, hString, hNumber,
    List.map_append]

/-- No digit is the terminator. -/
theorem digitChar_ne_zero {d : Nat} (hd : d < 16) : digitChar d ≠ 0 := by
  have hAll : ∀ d < 16, digitChar d ≠ 0 := by decide
  exact hAll d hd

/-- A printed number has no terminator in it. -/
theorem paddedText_no_nul (k n : Nat) : 0 ∉ paddedText Radix.hex k n := by
  intro hMem
  obtain ⟨d, hd, hZero⟩ := List.mem_map.mp hMem
  exact digitChar_ne_zero (lt_of_mem_padded Radix.hex.two_le hd) hZero

/-- **The printed name**, cut after 20 characters. Of the number the low half is printed. -/
theorem optionName_eq (t : LoadOptionType) (v : UINTN) :
    OptionName t v = some ((variableName t v.toUInt32.toNat).take 20) := by
  have hSize : (BM_OPTION_NAME_LEN * 2).toNat = 42 := by decide
  have hFormat : (L "%s%04x").length ≤ 1000000 := by decide
  have hRoom : 2 ≤ (BM_OPTION_NAME_LEN * 2).toNat ∧ (BM_OPTION_NAME_LEN * 2).toNat ≤ 2000000 := by
    decide
  obtain ⟨memory, hRun, hHeld, -⟩ := unicodeSPrint_string (Region.fresh fun _ => 0)
    (pieces_name (mBmLoadOptionName t) v) (text_pieces_name (mBmLoadOptionName t) v) hRoom.1 hRoom.2
    hFormat
  have hNul : 0 ∉ (variableName t v.toUInt32.toNat).take 20 := by
    intro hMem
    rcases List.mem_append.mp (List.mem_of_mem_take hMem) with hText | hNumber
    · exact t.text_no_nul hText
    · exact paddedText_no_nul _ _ hNumber
  have hShort : ((variableName t v.toUInt32.toNat).take 20).length < BM_OPTION_NAME_LEN.toNat :=
    Nat.lt_of_le_of_lt (List.length_take_le _ _) (by decide)
  rw [hSize] at hHeld
  rw [OptionName, hRun, Option.bind_some, Option.map_some]
  exact congrArg some (wideString_of_holds hHeld hNul hShort)

/-- A number of 16 bits has four digits. -/
theorem length_paddedText {n : Nat} (hn : n < 0x10000) :
    (paddedText Radix.hex 4 n).length = 4 := by
  rw [paddedText, List.length_map, length_padded]
  exact Nat.max_eq_left (length_numeral_le Radix.hex.two_le (by decide) hn)

/-- The longest name leaves room for four digits in front of the terminator. -/
theorem length_text_le (t : LoadOptionType) : (L t.text).length ≤ 16 := by
  cases t <;> decide

theorem length_text_pos (t : LoadOptionType) : 0 < (L t.text).length := by
  cases t <;> decide

/-- A number of 16 bits is printed whole. -/
theorem optionName_small (t : LoadOptionType) (n : UINT16) :
    OptionName t n.toUInt64 = some (variableName t n.toNat) := by
  have hNumber : n.toUInt64.toUInt32.toNat = n.toNat := by simp
  have hLe := length_text_le t
  rw [optionName_eq, hNumber, List.take_of_length_le]
  rw [variableName, List.length_append, length_paddedText n.toNat_lt]
  omega

-- ---------------------------------------------------------------------------
-- Reading back
-- ---------------------------------------------------------------------------

/-!
Only upper-case digits are read, so that a number has one spelling of four digits: what is accepted
is exactly what is printed.
-/

/-- A digit is converted to its value. -/
theorem charToUint_digit {d : Nat} (hd : d < 16) : BmCharToUint (digitChar d) = UInt64.ofNat d := by
  have hAll : ∀ d < 16, BmCharToUint (digitChar d) = UInt64.ofNat d := by decide
  exact hAll d hd

/-- What is converted is a digit. -/
theorem exists_digit {c : CHAR16} (h : BmCharToUint c ≠ 0xFFFFFFFFFFFFFFFF) :
    ∃ d < 16, c = digitChar d := by
  have hDecimal : ∀ d < 10, digitChar d = UInt16.ofNat (0x30 + d) := by decide
  have hLetter : ∀ d < 6, digitChar (10 + d) = UInt16.ofNat (0x41 + d) := by decide
  unfold BmCharToUint at h
  split_ifs at h with hDigit hUpper
  · obtain ⟨hLow, hHigh⟩ := hDigit
    have hLow' : 0x30 ≤ c.toNat := UInt16.le_iff_toNat_le.mp hLow
    have hHigh' : c.toNat ≤ 0x39 := UInt16.le_iff_toNat_le.mp hHigh
    refine ⟨c.toNat - 0x30, by omega, ?_⟩
    rw [hDecimal _ (by omega), Nat.add_sub_cancel' hLow', UInt16.ofNat_toNat]
  · obtain ⟨hLow, hHigh⟩ := hUpper
    have hLow' : 0x41 ≤ c.toNat := UInt16.le_iff_toNat_le.mp hLow
    have hHigh' : c.toNat ≤ 0x46 := UInt16.le_iff_toNat_le.mp hHigh
    refine ⟨10 + (c.toNat - 0x41), by omega, ?_⟩
    rw [hLetter _ (by omega), Nat.add_sub_cancel' hLow', UInt16.ofNat_toNat]
  · exact absurd rfl h

/-- Different values have different digits. -/
theorem digitChar_inj {d d' : Nat} (hd : d < 16) (hd' : d' < 16) (h : digitChar d = digitChar d') :
    d = d' := by
  have hAll : ∀ d < 16, ∀ d' < 16, digitChar d = digitChar d' → d = d' := by decide
  exact hAll d hd d' hd' h

/-- What is read of some characters is the number that they are the digits of. -/
theorem readOptionNumber_iff (cs : List CHAR16) (n n' : UINT16) :
    readOptionNumber cs n = some n' ↔ ∃ ds : List Nat, (∀ d ∈ ds, d < 16) ∧
      ds.map digitChar = cs ∧ ds.foldl (fun n d => UInt16.ofNat d + n * 0x10) n = n' := by
  induction cs generalizing n with
  | nil =>
    rw [readOptionNumber, Option.some.injEq]
    constructor
    · rintro rfl
      exact ⟨[], by simp, rfl, rfl⟩
    · rintro ⟨ds, -, hNil, rfl⟩
      rw [List.map_eq_nil_iff.mp hNil, List.foldl_nil]
  | cons c cs ih =>
    have hDigit : ∀ d < 16, UInt64.ofNat d ≠ 0xFFFFFFFFFFFFFFFF ∧
        (UInt64.ofNat d).toUInt16 = UInt16.ofNat d := by decide
    rw [readOptionNumber]
    split_ifs with hStop
    · -- a character that is no digit stops the reading, and no digits are spelled with it
      refine iff_of_false (by simp) ?_
      rintro ⟨ds, hds, hMap, -⟩
      obtain ⟨d, rest, rfl, rfl, -⟩ := List.map_eq_cons_iff.mp hMap
      have hd : d < 16 := hds d List.mem_cons_self
      rw [charToUint_digit hd] at hStop
      exact (hDigit d hd).1 hStop
    · obtain ⟨d, hd, rfl⟩ := exists_digit hStop
      rw [charToUint_digit hd, (hDigit d hd).2, ih]
      constructor
      · rintro ⟨ds, hds, rfl, hFold⟩
        exact ⟨d :: ds, List.forall_mem_cons.mpr ⟨hd, hds⟩, rfl, hFold⟩
      · rintro ⟨ds, hds, hMap, hFold⟩
        obtain ⟨d', rest, rfl, hSame, rfl⟩ := List.map_eq_cons_iff.mp hMap
        obtain ⟨hd', hRest⟩ := List.forall_mem_cons.mp hds
        rw [digitChar_inj hd' hd hSame] at hFold
        exact ⟨rest, hRest, rfl, hFold⟩

/-- Reading in 16 bits. -/
theorem foldl_digits (ds : List Nat) (n : Nat) :
    ds.foldl (fun n d => UInt16.ofNat d + n * 0x10) (UInt16.ofNat n) =
      UInt16.ofNat (ds.foldl (fun n d => 16 * n + d) n) := by
  induction ds generalizing n with
  | nil => rfl
  | cons d ds ih =>
    have hStep : UInt16.ofNat d + UInt16.ofNat n * 0x10 = UInt16.ofNat (16 * n + d) := by
      rw [UInt16.ofNat_add, UInt16.ofNat_mul, UInt16.add_comm, UInt16.mul_comm]
      rfl
    rw [List.foldl_cons, List.foldl_cons, hStep, ih]

/-- Compared over the length of the second string, two strings are the same where it is at the front
of the first one. -/
theorem StrnCmp_eq_zero_iff {v w : List CHAR16} (hNul : 0 ∉ w) :
    StrnCmp v w w.length = 0 ↔ w <+: v := by
  induction w generalizing v with
  | nil => cases v <;> simp [StrnCmp]
  | cons b w ih =>
    simp only [List.mem_cons, not_or] at hNul
    have hNonzero : b.toNat ≠ 0 := fun h => hNul.1 (UInt16.toNat_inj.mp h).symm
    cases v with
    | nil =>
      have hDiff : StrnCmp [] (b :: w) (b :: w).length = ((0 : CHAR16).toNat : Int) - b.toNat := rfl
      rw [hDiff, UInt16.toNat_zero]
      simp
      omega
    | cons a v =>
      have hEq : ((a.toNat : Int) - b.toNat = 0) ↔ b = a := by
        rw [← UInt16.toNat_inj]
        omega
      rw [List.length_cons, StrnCmp, List.cons_prefix_cons]
      split_ifs with hMore
      · rw [ih hNul.2]
        simp [hMore.1]
      · -- the characters differ, or these are the last ones that are compared
        rw [hEq]
        refine ⟨fun hSame => ⟨hSame, ?_⟩, And.left⟩
        have hNil : w = [] := by
          rw [← List.length_eq_zero_iff]
          simp only [hSame, true_and] at hMore
          omega
        rw [hNil]
        exact List.nil_prefix

/-- No two names have the same length, so that at most one of them fits. -/
theorem length_text_inj {t' : LoadOptionType} (h : (L t'.text).length = (L t.text).length) :
    t' = t := by
  revert h
  cases t <;> cases t' <;> decide

/-- The type whose name stands in front of four characters is found. -/
theorem find_type {v : List CHAR16} (hLength : v.length - 4 = (L t.text).length)
    (hName : L t.text <+: v) : (LoadOptionType.all.find? fun t =>
      v.length - 4 = (mBmLoadOptionName t).chars.length &&
        StrnCmp v (mBmLoadOptionName t).chars (v.length - 4) = 0) = some t := by
  have hMem : t ∈ LoadOptionType.all := by cases t <;> decide
  cases hFind : LoadOptionType.all.find? fun t =>
      v.length - 4 = (mBmLoadOptionName t).chars.length &&
        StrnCmp v (mBmLoadOptionName t).chars (v.length - 4) = 0 with
  | none =>
    refine absurd ?_ (List.find?_eq_none.mp hFind t hMem)
    rw [hLength, Bool.and_eq_true, decide_eq_true_eq, decide_eq_true_eq]
    exact ⟨rfl, (StrnCmp_eq_zero_iff t.text_no_nul).mpr hName⟩
  | some t' =>
    have hFound := List.find?_some hFind
    simp only [Bool.and_eq_true, decide_eq_true_eq] at hFound
    exact congrArg some (length_text_inj (hFound.1.symm.trans hLength))

/-- A printed name is read as its number. -/
theorem isValidName_variableName (t : LoadOptionType) (n : UINT16) :
    EfiBootManagerIsValidLoadOptionVariableName (variableName t n.toNat) = some (t, n) := by
  have hFour := length_paddedText n.toNat_lt
  have hPos := length_text_pos t
  have hLength : (variableName t n.toNat).length - 4 = (L t.text).length := by
    rw [variableName, List.length_append, hFour, Nat.add_sub_cancel]
  have hRead : readOptionNumber (paddedText Radix.hex 4 n.toNat) 0 = some n := by
    rw [readOptionNumber_iff]
    refine ⟨padded 16 4 n.toNat, fun d hd => lt_of_mem_padded (by decide) hd, rfl, ?_⟩
    refine (foldl_digits _ 0).trans ?_
    exact (congrArg UInt16.ofNat (value_padded 16 4 n.toNat)).trans UInt16.ofNat_toNat
  rw [EfiBootManagerIsValidLoadOptionVariableName, if_neg (by omega),
    find_type hLength (List.prefix_append _ _), hLength, variableName, List.drop_left, hRead]
  rfl

/-- What is read is a printed name. -/
theorem variableName_of_isValidName {v : List CHAR16} {n : UINT16}
    (h : EfiBootManagerIsValidLoadOptionVariableName v = some (t, n)) : variableName t n.toNat = v := by
  rw [EfiBootManagerIsValidLoadOptionVariableName] at h
  split_ifs at h with hShort
  simp only [Option.bind_eq_bind, Option.bind_eq_some_iff, Option.pure_def, Option.some.injEq,
    Prod.mk.injEq] at h
  obtain ⟨t', hFind, n', hNumber, rfl, rfl⟩ := h
  have hFound := List.find?_some hFind
  simp only [Bool.and_eq_true, decide_eq_true_eq] at hFound
  obtain ⟨hLength, hName⟩ := hFound
  rw [hLength] at hName hNumber
  obtain ⟨w, rfl⟩ := (StrnCmp_eq_zero_iff t'.text_no_nul).mp hName
  -- behind the name there are four characters, all of them digits
  have hDrop : (L t'.text ++ w).drop (mBmLoadOptionName t').chars.length = w := List.drop_left
  rw [hDrop, readOptionNumber_iff] at hNumber
  obtain ⟨ds, hds, rfl, hFold⟩ := hNumber
  have hFour : ds.length = 4 := by
    have hSame : (mBmLoadOptionName t').chars.length = (L t'.text).length := rfl
    rw [hSame, List.length_append, List.length_map] at hLength
    rw [List.length_append, List.length_map] at hShort
    omega
  -- four digits are a number of 16 bits, which is printed as these digits again
  have hLt : value 16 ds < 16 ^ ds.length := value_lt (by decide) hds
  have hValue : n'.toNat = value 16 ds := by
    rw [← hFold]
    refine (congrArg UInt16.toNat (foldl_digits ds 0)).trans ?_
    rw [hFour] at hLt
    exact UInt16.toNat_ofNat_of_lt' hLt
  have hDigits : padded 16 4 (value 16 ds) = ds := by
    rw [← hFour]
    exact padded_value (by decide) (List.ne_nil_of_length_pos (by omega)) hds
  rw [variableName, hValue]
  exact congrArg (fun l => L t'.text ++ l.map digitChar) hDigits

/--
**Names are read as they are printed**: accepted are the printed names of the numbers of 16 bits.
-/
theorem isValidName_iff (v : List CHAR16) (t : LoadOptionType) (n : UINT16) :
    EfiBootManagerIsValidLoadOptionVariableName v = some (t, n) ↔
      OptionName t n.toUInt64 = some v := by
  rw [optionName_small, Option.some.injEq]
  constructor
  · exact variableName_of_isValidName
  · rintro rfl
    exact isValidName_variableName t n

end TianJi.Model
