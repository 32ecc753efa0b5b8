import TianJi.Model.DevicePathUtilities
import TianJi.Model.LoaderPath
import TianJi.Model.LoadOptionName

/-!
# TianJi — load options in variables

A load option is packed into the bytes of a variable and unpacked again (BmLoadOption.c). What is
read is the variable alone, so that a read behind it has no result. The pool has room: allocations
succeed.

* `BmStrSizeEx_leaves_iff` — a description without a terminator is looked for behind the variable.
* `readLoadOption_packed` — an option comes back unless its device path needs 64 KB; then the
  variable is refused.
* `readLoadOption_iff` — the variables that an option with a device path is read from.
-/

namespace TianJi.Model

open PathMemory

-- ---------------------------------------------------------------------------
-- The code
-- ---------------------------------------------------------------------------

/-- A string in memory. -/
structure WideString where
  chars : List CHAR16
  no_nul : 0 ∉ chars
  deriving DecidableEq

/-- What a missing description is packed as. -/
def WideString.empty : WideString := ⟨[], List.not_mem_nil⟩

/-- The string with its terminator. -/
def WideString.bytes (s : WideString) : List UINT8 := (s.chars ++ [0]).flatMap uint16Bytes

/-- `EFI_BOOT_MANAGER_LOAD_OPTION`. Where there is no optional data its pointer is NULL. -/
structure LoadOption where
  OptionNumber : UINTN
  OptionType : LoadOptionType
  Attributes : UINT32
  Description : Option WideString
  FilePath : Option PathMemory
  OptionalData : List UINT8
  optional_lt : OptionalData.length < 2 ^ 32

/-- The bytes that `EfiBootManagerLoadOptionToVariable` puts together. -/
def packOption (o : LoadOption) (FilePath : PathMemory) : Option (List UINT8) := do
  let FilePathSize ← FilePath.GetDevicePathSize
  return uint32Bytes o.Attributes ++ uint16Bytes FilePathSize.toUInt16 ++
    -- "Convert NULL description to empty description"
    (o.Description.getD WideString.empty).bytes ++ FilePath.take FilePathSize.toNat ++
    o.OptionalData

/-- `BmStrSizeEx`: the loop, with the memory from `String` on. -/
def scanString (MaxStringLen : UINTN) : List UINT8 → UINTN → Option UINTN
  | low :: high :: String, Length =>
    if ofBytes low high ≠ 0 ∧ MaxStringLen ≠ Length then
      scanString MaxStringLen String (Length + 2)
    else if ofBytes low high ≠ 0 ∧ MaxStringLen = Length then some 0
    else some (Length + 2)
  | _, _ => none

/-- The size of a string with its terminator; 0 where the scan ends at its limit. -/
def BmStrSizeEx (String : List UINT8) (MaxStringLen : UINTN) : Option UINTN :=
  scanString MaxStringLen String 0

/-- The loop of `BmGetDevicePathSizeEx` and what is behind it. A node that is walked over has at
least one byte. -/
def sizeWithin (m : PathMemory) (MaxSize : UINTN) : Nat → UINTN → UINTN → Option UINTN
  | 0, _, _ => none
  | turns + 1, DevicePath, Size => do
    if ← m.IsDevicePathEnd DevicePath then
      let Size := Size + (← m.DevicePathNodeLength DevicePath)
      return if Size > MaxSize then 0 else Size
    else
      let NodeSize ← m.DevicePathNodeLength DevicePath
      if NodeSize = 0 then return 0
      else if Size + NodeSize > MaxSize then return 0
      else sizeWithin m MaxSize turns (← m.NextDevicePathNode DevicePath) (Size + NodeSize)

/-- `BmGetDevicePathSizeEx`, for a path that is not null. -/
def BmGetDevicePathSizeEx (DevicePath : PathMemory) (MaxSize : UINTN) : Option UINTN :=
  sizeWithin DevicePath MaxSize (DevicePath.length + 1) 0 0

/-- "Validate the Boot####, Driver####, SysPrep#### and PlatformRecovery#### variable": what is
checked before anything else is read. -/
def BmValidateOption (Variable : List UINT8) : Option Bool := do
  let VariableSize := UInt64.ofNat Variable.length
  if VariableSize ≤ 6 then return false
  else
    let FilePathSize ← PathMemory.ReadUnaligned16 Variable 4
    let DescriptionSize ← BmStrSizeEx (Variable.drop 6) (VariableSize - 2 - 4)
    if FilePathSize = 0 ∨ DescriptionSize = 0 then return false
    else if 4 + 2 + DescriptionSize + FilePathSize.toUInt64 > VariableSize then return false
    else
      let Size ← BmGetDevicePathSizeEx (Variable.drop (6 + DescriptionSize.toNat))
        FilePathSize.toUInt64
      return decide (Size ≠ 0)

/-- Two halfwords, the low one first. -/
def ReadUnaligned32 (m : PathMemory) (Buffer : UINTN) : Option UINT32 := do
  let low ← m.ReadUnaligned16 Buffer
  let high ← m.ReadUnaligned16 (Buffer + 2)
  return UInt32.ofNat (low.toNat + 0x10000 * high.toNat)

/-- The string that starts here, with the memory behind its terminator. -/
def readString : List UINT8 → Option (WideString × List UINT8)
  | low :: high :: String =>
    if h : ofBytes low high = 0 then some (WideString.empty, String)
    else (readString String).map fun r =>
      (⟨ofBytes low high :: r.1.chars, List.not_mem_cons_of_ne_of_not_mem (Ne.symm h) r.1.no_nul⟩, r.2)
  | _ => none

/-- `EfiBootManagerInitializeLoadOption`, for an option that is not null. -/
def EfiBootManagerInitializeLoadOption (OptionNumber : UINTN) (OptionType : LoadOptionType)
    (Attributes : UINT32) (Description : Option WideString) (FilePath : Option PathMemory)
    (OptionalData : Option (List UINT8)) (OptionalDataSize : UINT32) :
    Option (Except EFI_STATUS LoadOption) :=
  match Description, FilePath with
  | some Description, some FilePath =>
    if OptionalData.isSome ∧ OptionalDataSize = 0 ∨ OptionalData.isNone ∧ OptionalDataSize ≠ 0 then
      some (.error EFI_INVALID_PARAMETER)
    else FilePath.DuplicateDevicePath.map fun FilePath => .ok
      { OptionNumber, OptionType, Attributes, FilePath
        Description := some Description
        OptionalData := (OptionalData.getD []).take OptionalDataSize.toNat
        optional_lt := (List.length_take_le _ _).trans_lt OptionalDataSize.toNat_lt }
  | _, _ => some (.error EFI_INVALID_PARAMETER)

/-- What `EfiBootManagerVariableToLoadOptionEx` does with the bytes of a variable. -/
def readLoadOption (OptionType : LoadOptionType) (OptionNumber : UINT16) (Variable : List UINT8) :
    Option (Except EFI_STATUS LoadOption) := do
  if !(← BmValidateOption Variable) then return .error EFI_INVALID_PARAMETER
  else
    let Attribute ← ReadUnaligned32 Variable 0
    let FilePathSize ← PathMemory.ReadUnaligned16 Variable 4
    let (Description, FilePath) ← readString (Variable.drop 6)
    let Rest := FilePath.drop FilePathSize.toNat
    let OptionalDataSize := UInt32.ofNat Rest.length
    EfiBootManagerInitializeLoadOption OptionNumber.toUInt64 OptionType Attribute (some Description)
      (some FilePath) (if OptionalDataSize = 0 then none else some Rest) OptionalDataSize

-- ---------------------------------------------------------------------------
-- Descriptions
-- ---------------------------------------------------------------------------

/-!
A description ends with a terminator, which `BmStrSizeEx` looks for by whole characters while its
limit counts bytes. The scan compares the limit with what it has counted only for being equal, and
only once it has looked at the character there, so that the limit does not keep it in the variable.
-/

/-- Two bytes a character, and the terminator. -/
theorem WideString.length_bytes (d : WideString) : d.bytes.length = 2 * d.chars.length + 2 := by
  rw [bytes, length_flatMap_uint16Bytes, List.length_append, List.length_singleton]
  omega

/-- A string is read from its bytes. -/
theorem readString_bytes (d : WideString) (rest : List UINT8) :
    readString (d.bytes ++ rest) = some (d, rest) := by
  obtain ⟨chars, hNul⟩ := d
  induction chars with
  | nil => rfl
  | cons c chars ih =>
    simp only [List.mem_cons, not_or] at hNul
    obtain ⟨low, high, hBytes, rfl⟩ := exists_uint16Bytes c
    have hFirst : WideString.bytes ⟨ofBytes low high :: chars, by simpa using hNul⟩ ++ rest =
        low :: high :: (WideString.bytes ⟨chars, hNul.2⟩ ++ rest) := by
      simp only [WideString.bytes, List.cons_append, List.flatMap_cons, hBytes, List.nil_append]
    rw [hFirst, readString, dif_neg (Ne.symm hNul.1), ih hNul.2]
    rfl

/-- What was read lies there. -/
theorem bytes_of_readString {l rest : List UINT8} {d : WideString}
    (h : readString l = some (d, rest)) : l = d.bytes ++ rest := by
  fun_induction readString l generalizing d rest with
  | case1 low high String hZero =>
    cases h
    rw [ofBytes_eq_zero_iff] at hZero
    simp only [List.cons.injEq, and_true] at hZero
    rw [hZero.1, hZero.2]
    rfl
  | case2 low high String hNe ih =>
    obtain ⟨⟨d', rest'⟩, hRest, hPair⟩ := Option.map_eq_some_iff.mp h
    cases hPair
    rw [ih hRest]
    simp only [WideString.bytes, List.cons_append, List.flatMap_cons, uint16Bytes_ofBytes,
      List.nil_append]
  | case3 => cases h

/-- A string is found where some whole character is a terminator. -/
theorem readString_eq_none_iff (l : List UINT8) : readString l = none ↔ 0 ∉ wholeChars l := by
  fun_induction readString l with
  | case1 low high String hZero => simp [wholeChars, hZero]
  | case2 low high String hNe ih =>
    rw [Option.map_eq_none_iff, ih, wholeChars, List.mem_cons]
    simp [Ne.symm hNe]
  | case3 l hShort =>
    rcases l with _ | ⟨a, _ | ⟨b, rest⟩⟩
    · simp [wholeChars]
    · simp [wholeChars]
    · exact absurd rfl (hShort a b rest)

/-- **The scan** finds the string's end before it gets to the limit, or reads on behind it. -/
theorem scanString_eq (String : List UINT8) {L : Nat} (hFits : L + String.length < 2 ^ 64) :
    scanString (UInt64.ofNat (L + String.length)) String (UInt64.ofNat L) =
      (readString String).map fun r => UInt64.ofNat (L + r.1.bytes.length) := by
  fun_induction readString String generalizing L with
  | case1 low high String hZero =>
    have hLength : WideString.empty.bytes.length = 2 := rfl
    rw [scanString, if_neg (by simp [hZero]), if_neg (by simp [hZero]), Option.map_some, hLength,
      UInt64.ofNat_add]
    rfl
  | case2 low high String hNe ih =>
    rw [List.length_cons, List.length_cons] at hFits ⊢
    have hMore : UInt64.ofNat (L + (String.length + 1 + 1)) ≠ UInt64.ofNat L := by
      rw [Ne, ← UInt64.toNat_inj, UInt64.toNat_ofNat_of_lt' (show _ < 2 ^ 64 by omega),
        UInt64.toNat_ofNat_of_lt' (show _ < 2 ^ 64 by omega)]
      omega
    -- the counter moves on by the two bytes of a character
    have hNext : UInt64.ofNat L + 2 = UInt64.ofNat (L + 2) := (UInt64.ofNat_add L 2).symm
    have hSum : L + (String.length + 1 + 1) = L + 2 + String.length := by omega
    rw [scanString, if_pos ⟨hNe, hMore⟩, hNext, hSum, ih (by omega), Option.map_map]
    congr 1
    funext r
    simp only [Function.comp_apply, WideString.length_bytes, List.length_cons]
    congr 1
    omega
  | case3 l hShort =>
    rcases l with _ | ⟨a, _ | ⟨b, rest⟩⟩
    · rfl
    · rfl
    · exact absurd rfl (hShort a b rest)

/-- The size of a description, as long as it ends inside of the variable. -/
theorem BmStrSizeEx_eq {String : List UINT8} (hFits : String.length < 2 ^ 64) :
    BmStrSizeEx String (UInt64.ofNat String.length) =
      (readString String).map fun r => UInt64.ofNat r.1.bytes.length := by
  have hScan := scanString_eq String (L := 0) (by omega)
  simp only [Nat.zero_add] at hScan
  exact hScan

/--
**A description without a terminator is looked for behind the variable**: the limit of the scan
is never what stops it.
-/
theorem BmStrSizeEx_leaves_iff {String : List UINT8} (hFits : String.length < 2 ^ 64) :
    BmStrSizeEx String (UInt64.ofNat String.length) = none ↔ 0 ∉ wholeChars String := by
  rw [BmStrSizeEx_eq hFits, Option.map_eq_none_iff, readString_eq_none_iff]

/-- A letter and half of a character: the scan reads on behind the three bytes. -/
theorem BmStrSizeEx_leaves_short : BmStrSizeEx [0x41, 0, 0] (UInt64.ofNat 3) = none :=
  (@BmStrSizeEx_leaves_iff [0x41, 0, 0] (by decide)).mpr (by decide)

-- ---------------------------------------------------------------------------
-- Device paths
-- ---------------------------------------------------------------------------

/-!
The path is walked over twice: `BmGetDevicePathSizeEx` adds up the nodes' lengths within the limit
that the length field gives, and `DuplicateDevicePath` validates the path without one. What the
first walk has seen is memory that the second one may look at.
-/

variable {m : PathMemory} {p : UINTN} {path : DevicePath}

/-- A path is measured when the limit allows for it, and has the size 0 otherwise. -/
theorem sizeWithin_path (MaxSize : UINTN) {turns : Nat} (h : Lies m p (pathBytes path))
    (hTurns : path.length < turns) : sizeWithin m MaxSize turns p p =
      some (if p.toNat + (pathBytes path).length ≤ MaxSize.toNat then
        p + UInt64.ofNat (pathBytes path).length else 0) := by
  induction turns generalizing p path with
  | zero => exact absurd hTurns (Nat.not_lt_zero _)
  | succ turns ih =>
    rw [sizeWithin]
    cases path with
    | nil =>
      have hFour : (p + END_DEVICE_PATH_LENGTH).toNat = p.toNat + (pathBytes []).length :=
        toNat_add_ofNat h.2
      rw [IsDevicePathEnd_endNode h, DevicePathNodeLength_endNode h, ← hFour]
      simp only [Option.bind_eq_bind, Option.bind_some, if_true, gt_iff_lt, UInt64.lt_iff_toNat_lt,
        ← Nat.not_le, ite_not]
      rfl
    | cons n path =>
      obtain ⟨hFirst, hRest⟩ := lies_pathBytes_cons h
      have hBytes := length_bytes n
      have hNext := toNat_add_ofNat hFirst.2
      -- a node is never so short that the walk stops for its length
      have hNonzero : UInt64.ofNat n.bytes.length ≠ 0 := by
        have hValue : (UInt64.ofNat n.bytes.length).toNat = n.bytes.length :=
          UInt64.toNat_ofNat_of_lt' (show _ < 2 ^ 64 by have hLt := hFirst.2; omega)
        rw [Ne, ← UInt64.toNat_inj, hValue, UInt64.toNat_zero]
        omega
      have hSum : p + UInt64.ofNat n.bytes.length + UInt64.ofNat (pathBytes path).length =
          p + UInt64.ofNat (pathBytes (n :: path)).length := by
        rw [pathBytes_cons, List.length_append, UInt64.ofNat_add, UInt64.add_assoc]
      have hTotal : (pathBytes (n :: path)).length = n.bytes.length + (pathBytes path).length := by
        rw [pathBytes_cons, List.length_append]
      rw [IsDevicePathEnd_node hFirst, DevicePathNodeLength_node hFirst, NextDevicePathNode_node hFirst]
      simp only [Option.bind_eq_bind, Option.bind_some, Bool.false_eq_true, if_false, if_neg hNonzero,
        gt_iff_lt, UInt64.lt_iff_toNat_lt, hNext]
      -- a walk that is over the limit at this node is so at the end
      split_ifs with hOver hAll
      · omega
      · rfl
      · rw [ih hRest (Nat.succ_lt_succ_iff.mp hTurns), hNext, hSum, if_pos (by omega)]
      · rw [ih hRest (Nat.succ_lt_succ_iff.mp hTurns), hNext, if_neg (by omega)]

/-- On memory that a path lies at the start of, the size is the path's when the limit allows for
it. -/
theorem BmGetDevicePathSizeEx_represents (h : Represents m path) (MaxSize : UINTN) :
    BmGetDevicePathSizeEx m MaxSize = some (if (pathBytes path).length ≤ MaxSize.toNat then
      UInt64.ofNat (pathBytes path).length else 0) := by
  have hLies : Lies m 0 (pathBytes path) := lies_zero.mpr ⟨h.memory, h.size⟩
  have hTurns : path.length < m.length + 1 := by
    obtain ⟨rest, rfl⟩ := h.memory
    rw [List.length_append]
    have hLt := length_lt_pathBytes path
    omega
  have hWalk := sizeWithin_path MaxSize hLies hTurns
  rw [UInt64.toNat_zero, Nat.zero_add, UInt64.zero_add] at hWalk
  exact hWalk

/-- A walk that goes on looks at the byte it is at. -/
theorem lt_length_of_sizeWithin {MaxSize Size Start : UINTN} {turns : Nat}
    (h : sizeWithin m MaxSize turns p Start = some Size) : p.toNat < m.length := by
  cases turns with
  | zero => cases h
  | succ turns =>
    rw [sizeWithin] at h
    by_contra hOut
    have hByte : m.byte p = none := List.getElem?_eq_none (Nat.not_lt.mp hOut)
    have hEnd : m.IsDevicePathEnd p = none := by
      rw [IsDevicePathEnd, hasType, DevicePathType, hByte]
      rfl
    rw [hEnd] at h
    cases h

/-- Where the size could be taken, the path can be validated without leaving the memory. -/
theorem validNodes_of_sizeWithin {MaxSize Size : UINTN} {turns : Nat}
    (h : sizeWithin m MaxSize turns p p = some Size) (hSize : Size ≠ 0) :
    ∃ b, m.validNodes MAX_UINTN p p = some b := by
  induction turns generalizing p with
  | zero => cases h
  | succ turns ih =>
    rw [sizeWithin] at h
    obtain ⟨atEnd, hEnd, h⟩ := Option.bind_eq_some_iff.mp h
    cases atEnd with
    | true =>
      obtain ⟨NodeLength, hLength, -⟩ := Option.bind_eq_some_iff.mp h
      rw [validNodes, hEnd, hLength]
      exact ⟨_, rfl⟩
    | false =>
      obtain ⟨NodeLength, hLength, h⟩ := Option.bind_eq_some_iff.mp h
      have hNext : m.NextDevicePathNode p = some (p + NodeLength) := by
        rw [NextDevicePathNode, hLength]
        rfl
      -- a size that is not 0 was taken from a walk to the end
      split_ifs at h with hZero hOver
      · exact absurd (Option.some.inj h).symm hSize
      · exact absurd (Option.some.inj h).symm hSize
      · rw [hNext] at h
        obtain ⟨b, hRest⟩ := ih h
        rw [validNodes_node hEnd hLength]
        split_ifs with hBad
        · exact ⟨false, rfl⟩
        · simp only [not_or] at hBad
          have hSum := toNat_size hBad.2.1
          have hMore := lt_length_of_sizeWithin h
          have hLt := (p + NodeLength).toNat_lt
          -- the walk went on behind this node, so that all of it is there
          obtain ⟨n, hNode, hBytes⟩ := exists_node hEnd hLength hBad.1 (by omega) (by omega)
          rw [← hBytes, isTerminated_node hNode, hBytes, hRest, Option.bind_some]
          split_ifs
          · exact ⟨b, rfl⟩
          · exact ⟨false, rfl⟩

-- ---------------------------------------------------------------------------
-- Packing and unpacking
-- ---------------------------------------------------------------------------

/-!
`optionBytes` is the format: the attributes, the length field of the device path, the description and
then everything else. Every read of the reader is stated of it, and a variable that is accepted has
this form.
-/

/-- The bytes of a variable in its parts. -/
def optionBytes (Attributes : UINT32) (FilePathSize : UINT16) (d : WideString) (rest : List UINT8) :
    List UINT8 :=
  uint32Bytes Attributes ++ uint16Bytes FilePathSize ++ d.bytes ++ rest

variable {Attributes : UINT32} {FilePathSize : UINT16} {d : WideString} {rest : List UINT8}

/-- Six bytes lie in front of the description. -/
theorem length_optionBytes : (optionBytes Attributes FilePathSize d rest).length =
    6 + d.bytes.length + rest.length := by
  simp only [optionBytes, List.length_append, length_uint32Bytes, length_uint16Bytes]

/-- A word is two halves. -/
theorem uint32Bytes_halves (low high : UINT16) :
    uint32Bytes (UInt32.ofNat (low.toNat + 0x10000 * high.toNat)) =
      uint16Bytes low ++ uint16Bytes high := by
  have hLow := low.toNat_lt
  have hHigh := high.toNat_lt
  have hValue : (UInt32.ofNat (low.toNat + 0x10000 * high.toNat)).toNat =
      low.toNat + 0x10000 * high.toNat :=
    UInt32.toNat_ofNat_of_lt' (show _ < 2 ^ 32 by omega)
  simp only [uint32Bytes, uint16Bytes, hValue, Bytes.leBytes, List.cons_append, List.nil_append,
    List.cons.injEq, and_true, ← UInt8.toNat_inj, UInt8.toNat_ofNat']
  omega

/-- A word is made of its halves. -/
theorem exists_halves (v : UINT32) :
    ∃ low high : UINT16, v = UInt32.ofNat (low.toNat + 0x10000 * high.toNat) := by
  have hLt := v.toNat_lt
  refine ⟨UInt16.ofNat (v.toNat % 0x10000), UInt16.ofNat (v.toNat / 0x10000), ?_⟩
  rw [UInt16.toNat_ofNat_of_lt' (show _ < 2 ^ 16 by omega),
    UInt16.toNat_ofNat_of_lt' (show _ < 2 ^ 16 by omega), Nat.mod_add_div, UInt32.ofNat_toNat]

/-- A halfword is read back from the middle of other bytes. -/
theorem ReadUnaligned16_append (l r : List UINT8) (v : UINT16) (hFits : l.length + 2 < 2 ^ 64) :
    PathMemory.ReadUnaligned16 (l ++ (uint16Bytes v ++ r)) (UInt64.ofNat l.length) = some v := by
  obtain ⟨low, high, hBytes, rfl⟩ := exists_uint16Bytes v
  have hStart : (UInt64.ofNat l.length).toNat = l.length :=
    UInt64.toNat_ofNat_of_lt' (show _ < 2 ^ 64 by omega)
  refine ReadUnaligned16_of_lies ⟨?_, ?_⟩
  · rw [hStart, List.drop_left, hBytes]
    exact List.prefix_append _ _
  · rw [hStart]
    exact hFits

/-- The attributes come first. -/
theorem read32_optionBytes : ReadUnaligned32 (optionBytes Attributes FilePathSize d rest) 0 =
    some Attributes := by
  obtain ⟨low, high, rfl⟩ := exists_halves Attributes
  have hLow := ReadUnaligned16_append [] (uint16Bytes high ++ (uint16Bytes FilePathSize ++
    (d.bytes ++ rest))) low (by decide)
  have hHigh := ReadUnaligned16_append (uint16Bytes low) (uint16Bytes FilePathSize ++
    (d.bytes ++ rest)) high (by rw [length_uint16Bytes]; decide)
  have hSplit : optionBytes (UInt32.ofNat (low.toNat + 0x10000 * high.toNat)) FilePathSize d rest =
      uint16Bytes low ++ (uint16Bytes high ++ (uint16Bytes FilePathSize ++ (d.bytes ++ rest))) := by
    rw [optionBytes, uint32Bytes_halves]
    simp only [List.append_assoc]
  have hStart : UInt64.ofNat ([] : List UINT8).length = 0 := rfl
  have hNext : UInt64.ofNat (uint16Bytes low).length = 0 + 2 := by
    rw [length_uint16Bytes]
    rfl
  rw [List.nil_append, hStart] at hLow
  rw [hNext] at hHigh
  rw [ReadUnaligned32, hSplit, hLow, hHigh]
  rfl

/-- The length field of the device path is behind them. -/
theorem read16_optionBytes : PathMemory.ReadUnaligned16
    (optionBytes Attributes FilePathSize d rest) 4 = some FilePathSize := by
  have hRead := ReadUnaligned16_append (uint32Bytes Attributes) (d.bytes ++ rest) FilePathSize
    (by rw [length_uint32Bytes]; decide)
  simp only [optionBytes, List.append_assoc]
  exact hRead

/-- And then the description and the rest. -/
theorem drop_optionBytes :
    (optionBytes Attributes FilePathSize d rest).drop 6 = d.bytes ++ rest := by
  rw [optionBytes, List.append_assoc]
  exact List.drop_left' (by rw [List.length_append, length_uint32Bytes, length_uint16Bytes])

/-- Two bytes are a halfword, whatever they are. -/
theorem exists_uint16Bytes_append {l : List UINT8} (h : 2 ≤ l.length) :
    ∃ v r, l = uint16Bytes v ++ r := by
  obtain ⟨low, l, rfl⟩ := List.exists_cons_of_length_pos (Nat.lt_of_lt_of_le Nat.zero_lt_two h)
  rw [List.length_cons] at h
  obtain ⟨high, r, rfl⟩ := List.exists_cons_of_length_pos (Nat.le_of_succ_le_succ h)
  exact ⟨ofBytes low high, r, by rw [uint16Bytes_ofBytes]; rfl⟩

/-- Every variable with a description that ends has these parts. -/
theorem exists_optionBytes {V : List UINT8} (hLength : 6 ≤ V.length)
    (hString : readString (V.drop 6) = some (d, rest)) : ∃ Attributes FilePathSize,
      V = optionBytes Attributes FilePathSize d rest := by
  obtain ⟨low, V, rfl⟩ := exists_uint16Bytes_append (by omega : 2 ≤ V.length)
  rw [List.length_append, length_uint16Bytes] at hLength
  obtain ⟨high, V, rfl⟩ := exists_uint16Bytes_append (by omega : 2 ≤ V.length)
  rw [List.length_append, length_uint16Bytes] at hLength
  obtain ⟨FilePathSize, V, rfl⟩ := exists_uint16Bytes_append (by omega : 2 ≤ V.length)
  have hRest : V = d.bytes ++ rest := bytes_of_readString hString
  refine ⟨UInt32.ofNat (low.toNat + 0x10000 * high.toNat), FilePathSize, ?_⟩
  rw [optionBytes, uint32Bytes_halves, hRest]
  simp only [List.append_assoc]

/-- What validation comes down to: the device path has room, and ends in it. -/
theorem BmValidateOption_optionBytes
    (hFits : (optionBytes Attributes FilePathSize d rest).length < 2 ^ 63) :
    BmValidateOption (optionBytes Attributes FilePathSize d rest) =
      if FilePathSize = 0 ∨ rest.length < FilePathSize.toNat then some false
      else (BmGetDevicePathSizeEx rest FilePathSize.toUInt64).map fun Size => decide (Size ≠ 0) := by
  have hDescription := d.length_bytes
  have hSize := FilePathSize.toNat_lt
  rw [length_optionBytes] at hFits
  have hLarge : ¬ UInt64.ofNat (6 + d.bytes.length + rest.length) ≤ 6 := by
    rw [UInt64.le_iff_toNat_le, UInt64.toNat_ofNat_of_lt' (show _ < 2 ^ 64 by omega)]
    show ¬ _ ≤ 6
    omega
  have hLimit : UInt64.ofNat (6 + d.bytes.length + rest.length) - 2 - 4 =
      UInt64.ofNat (d.bytes ++ rest).length := by
    have hSix : UInt64.ofNat 6 = 4 + 2 := rfl
    rw [List.length_append, Nat.add_assoc, UInt64.ofNat_add 6, hSix]
    grind
  have hString : BmStrSizeEx (d.bytes ++ rest) (UInt64.ofNat (d.bytes ++ rest).length) =
      some (UInt64.ofNat d.bytes.length) := by
    rw [BmStrSizeEx_eq (by rw [List.length_append]; omega), readString_bytes]
    rfl
  have hNat : (UInt64.ofNat d.bytes.length).toNat = d.bytes.length :=
    UInt64.toNat_ofNat_of_lt' (show _ < 2 ^ 64 by omega)
  have hNonzero : UInt64.ofNat d.bytes.length ≠ 0 := by
    rw [Ne, ← UInt64.toNat_inj, hNat, UInt64.toNat_zero]
    omega
  have hRoom : 4 + 2 + UInt64.ofNat d.bytes.length + FilePathSize.toUInt64 >
      UInt64.ofNat (6 + d.bytes.length + rest.length) ↔ rest.length < FilePathSize.toNat := by
    have hSix : (4 + 2 : UINTN) = UInt64.ofNat 6 := rfl
    have hPath : FilePathSize.toUInt64 = UInt64.ofNat FilePathSize.toNat := by simp
    rw [gt_iff_lt, UInt64.lt_iff_toNat_lt, hSix, hPath, ← UInt64.ofNat_add, ← UInt64.ofNat_add,
      UInt64.toNat_ofNat_of_lt' (show _ < 2 ^ 64 by omega),
      UInt64.toNat_ofNat_of_lt' (show _ < 2 ^ 64 by omega)]
    omega
  have hDrop : (optionBytes Attributes FilePathSize d rest).drop (6 + d.bytes.length) = rest := by
    rw [← List.drop_drop, drop_optionBytes, List.drop_left]
  rw [BmValidateOption]
  simp only [length_optionBytes, if_neg hLarge, read16_optionBytes, drop_optionBytes, hLimit, hString,
    Option.bind_eq_bind, Option.bind_some, hNonzero, or_false, hRoom, hNat, hDrop, Option.pure_def]
  by_cases hZero : FilePathSize = 0
  · simp [hZero]
  · by_cases hShort : rest.length < FilePathSize.toNat
    · simp [hShort]
    · rw [if_neg hZero, if_neg hShort, if_neg (by simp [hZero, hShort])]
      exact Option.map_eq_bind.symm

variable {V : List UINT8} {o : LoadOption} {t : LoadOptionType} {n : UINT16}

/-- What a valid variable is read as: its parts, with a copy of the device path where that is
valid for DevicePathUtilities.c, too. -/
theorem readLoadOption_optionBytes {optional : List UINT8}
    (hValid : BmValidateOption (optionBytes Attributes FilePathSize d rest) = some true)
    (hRest : rest.drop FilePathSize.toNat = optional) (hOptional : optional.length < 2 ^ 32) :
    readLoadOption t n (optionBytes Attributes FilePathSize d rest) =
      (PathMemory.DuplicateDevicePath rest).map fun FilePath =>
        .ok ⟨n.toUInt64, t, Attributes, some d, FilePath, optional, hOptional⟩ := by
  have hSize : (UInt32.ofNat optional.length).toNat = optional.length :=
    UInt32.toNat_ofNat_of_lt' hOptional
  rw [readLoadOption, hValid]
  simp only [Option.bind_eq_bind, Option.bind_some, Bool.not_true, Bool.false_eq_true, if_false,
    read32_optionBytes, read16_optionBytes, drop_optionBytes, readString_bytes, hRest,
    EfiBootManagerInitializeLoadOption, hSize]
  by_cases hNone : UInt32.ofNat optional.length = 0
  · have hNil : optional = [] := by
      rw [← UInt32.toNat_inj, hSize, UInt32.toNat_zero] at hNone
      exact List.length_eq_zero_iff.mp hNone
    subst hNil
    simp
  · simp [hNone]

/-- An option that is made has the number it was asked for. -/
theorem number_of_initialize {N : UINTN} {D : Option WideString} {P : Option PathMemory}
    {data : Option (List UINT8)} {size : UINT32}
    (h : EfiBootManagerInitializeLoadOption N t Attributes D P data size = some (.ok o)) :
    o.OptionNumber = N := by
  unfold EfiBootManagerInitializeLoadOption at h
  split at h
  · split_ifs at h
    · cases h
    · obtain ⟨FilePath, -, hOption⟩ := Option.map_eq_some_iff.mp h
      cases hOption
      rfl
  · cases h

/-- The number of an option is the one in its variable's name. -/
theorem number_of_readLoadOption (h : readLoadOption t n V = some (.ok o)) :
    o.OptionNumber = n.toUInt64 := by
  obtain ⟨valid, -, h⟩ := Option.bind_eq_some_iff.mp h
  split_ifs at h
  · cases h
  · obtain ⟨Attributes, -, h⟩ := Option.bind_eq_some_iff.mp h
    obtain ⟨FilePathSize, -, h⟩ := Option.bind_eq_some_iff.mp h
    obtain ⟨⟨d, rest⟩, -, h⟩ := Option.bind_eq_some_iff.mp h
    exact number_of_initialize h

/-- And a type, a description and a copy of some device path, which NULL is where the path is not
valid. -/
theorem shape_of_initialize {N : UINTN} {D : Option WideString} {P : Option PathMemory}
    {data : Option (List UINT8)} {size : UINT32}
    (h : EfiBootManagerInitializeLoadOption N t Attributes D P data size = some (.ok o)) :
    o.OptionType = t ∧ o.Description ≠ none ∧
      ∃ m : PathMemory, m.DuplicateDevicePath = some o.FilePath := by
  unfold EfiBootManagerInitializeLoadOption at h
  split at h
  · rename_i d m
    split_ifs at h
    · cases h
    · obtain ⟨FilePath, hCopy, hOption⟩ := Option.map_eq_some_iff.mp h
      cases hOption
      exact ⟨rfl, Option.some_ne_none _, m, hCopy⟩
  · cases h

/-- An option that is read has a description, and a copy for its device path. -/
theorem shape_of_readLoadOption (h : readLoadOption t n V = some (.ok o)) :
    o.OptionType = t ∧ o.Description ≠ none ∧
      ∃ m : PathMemory, m.DuplicateDevicePath = some o.FilePath := by
  obtain ⟨valid, -, h⟩ := Option.bind_eq_some_iff.mp h
  split_ifs at h
  · cases h
  · obtain ⟨Attributes, -, h⟩ := Option.bind_eq_some_iff.mp h
    obtain ⟨FilePathSize, -, h⟩ := Option.bind_eq_some_iff.mp h
    obtain ⟨⟨d, rest⟩, -, h⟩ := Option.bind_eq_some_iff.mp h
    exact shape_of_initialize h

/-- Packing writes the parts one behind the other. The length field gets the low half of the path's
size. -/
theorem packOption_eq (h : Represents m path) : packOption o m =
    some (optionBytes o.Attributes (UInt64.ofNat (pathBytes path).length).toUInt16
      (o.Description.getD WideString.empty) (pathBytes path ++ o.OptionalData)) := by
  rw [packOption, GetDevicePathSize_represents h]
  simp only [Option.bind_eq_bind, Option.bind_some, Option.pure_def, toNat_size_represents h,
    take_pathBytes h, optionBytes, List.append_assoc]

/-- The bytes behind a description are the device path's and the optional data's. -/
theorem represents_append {area : List UINT8} (h : Represents area path) (optional : List UINT8) :
    Represents (area ++ optional) path := by
  obtain ⟨more, hArea⟩ := h.memory
  exact ⟨⟨more ++ optional, by rw [hArea, List.append_assoc]⟩, h.size, h.valid⟩

/-- A variable whose device path has its area to itself is read. -/
theorem readLoadOption_area {area optional : List UINT8} (h : Represents area path)
    (hArea : area.length < 0x10000) (hOptional : optional.length < 2 ^ 32)
    (hFits : (optionBytes Attributes (UInt16.ofNat area.length) d (area ++ optional)).length < 2 ^ 63) :
    readLoadOption t n (optionBytes Attributes (UInt16.ofNat area.length) d (area ++ optional)) =
      some (.ok ⟨n.toUInt64, t, Attributes, some d, some (pathBytes path), optional, hOptional⟩) := by
  have hFour := four_le_length_pathBytes path
  have hLe : (pathBytes path).length ≤ area.length := by
    obtain ⟨more, rfl⟩ := h.memory
    rw [List.length_append]
    omega
  have hSize : (UInt16.ofNat area.length).toNat = area.length := UInt16.toNat_ofNat_of_lt' hArea
  have hNonzero : UInt64.ofNat (pathBytes path).length ≠ 0 := by
    rw [Ne, ← UInt64.toNat_inj, toNat_size_represents h, UInt64.toNat_zero]
    omega
  have hValid := BmValidateOption_optionBytes hFits
  simp only [BmGetDevicePathSizeEx_represents (represents_append h optional), Option.map_some,
    UInt16.toNat_toUInt64, ← UInt16.toNat_inj, hSize, UInt16.toNat_zero, List.length_append] at hValid
  rw [if_neg (by omega), if_pos hLe, decide_eq_true hNonzero] at hValid
  rw [readLoadOption_optionBytes hValid (by rw [hSize, List.drop_left]) hOptional,
    DuplicateDevicePath_represents (represents_append h optional)]
  rfl

/-- What an option with a short device path is read back as. -/
theorem readLoadOption_short (h : Represents m path) (hPack : packOption o m = some V)
    (hFits : V.length < 2 ^ 32) (hShort : (pathBytes path).length < 0x10000) :
    readLoadOption t n V = some (.ok { o with
      OptionNumber := n.toUInt64
      OptionType := t
      Description := some (o.Description.getD WideString.empty)
      FilePath := some (pathBytes path) }) := by
  have hTruncated : (UInt64.ofNat (pathBytes path).length).toUInt16 =
      UInt16.ofNat (pathBytes path).length := UInt64.toUInt16_ofNat' _
  rw [packOption_eq h, Option.some.injEq, hTruncated] at hPack
  subst hPack
  exact readLoadOption_area (represents_pathBytes h) hShort o.optional_lt
    (hFits.trans_le (by decide))

/--
**Round trip.** A packed option is unpacked again when its device path is shorter than 64 KB, and
its variable is refused when it is not.
-/
theorem readLoadOption_packed (h : Represents m path) (hPack : packOption o m = some V)
    (hFits : V.length < 2 ^ 32) : readLoadOption t n V =
      some (if (pathBytes path).length < 0x10000 then
        .ok { o with
          OptionNumber := n.toUInt64
          OptionType := t
          Description := some (o.Description.getD WideString.empty)
          FilePath := some (pathBytes path) }
      else .error EFI_INVALID_PARAMETER) := by
  split_ifs with hShort
  · exact readLoadOption_short h hPack hFits hShort
  · have hTruncated : (UInt64.ofNat (pathBytes path).length).toUInt16 =
        UInt16.ofNat (pathBytes path).length := UInt64.toUInt16_ofNat' _
    rw [packOption_eq h, Option.some.injEq, hTruncated] at hPack
    subst hPack
    -- the field holds less than the path's size
    have hMod : (UInt16.ofNat (pathBytes path).length).toNat = (pathBytes path).length % 0x10000 :=
      UInt16.toNat_ofNat'
    have hLess : (pathBytes path).length % 0x10000 < (pathBytes path).length := by omega
    have hFalse := BmValidateOption_optionBytes (hFits.trans_le (by decide : 2 ^ 32 ≤ 2 ^ 63))
    simp only [BmGetDevicePathSizeEx_represents (represents_append (represents_pathBytes h) _),
      Option.map_some, UInt16.toNat_toUInt64, hMod, if_neg (Nat.not_le.mpr hLess)] at hFalse
    rw [readLoadOption, hFalse]
    split_ifs
    · rfl
    · rfl

/-- An option with all of its parts. -/
def numberedOption : LoadOption where
  OptionNumber := 1
  OptionType := .Boot
  Attributes := 1
  Description := some ⟨[0x41], by decide⟩
  FilePath := some (pathBytes (numberedPath 1))
  OptionalData := [7]
  optional_lt := Nat.le_of_ble_eq_true rfl

/-- The path of an option with all of its parts is short. -/
theorem readLoadOption_packed_numbered :
    (packOption numberedOption (pathBytes (numberedPath 1))).bind
      (readLoadOption .Boot 1) = some (.ok numberedOption) := by
  have hPack := packOption_eq (o := numberedOption) (represents_numberedPath 1)
  have hShort : (pathBytes (numberedPath 1)).length < 0x10000 := by decide
  have hRead := readLoadOption_packed (t := .Boot) (n := 1) (represents_numberedPath 1) hPack
    (by rw [length_optionBytes]; decide)
  rw [hPack, Option.bind_some, hRead, if_pos hShort]
  rfl

/-- The parts of a variable that is accepted. Where no device path comes of it, the walk over the
nodes found an end that validation does not get to. -/
theorem readLoadOption_parts (hFits : V.length < 2 ^ 32) (h : readLoadOption t n V = some (.ok o)) :
    o.OptionNumber = n.toUInt64 ∧ o.OptionType = t ∧ ∃ d area, o.Description = some d ∧
      area.length < 0x10000 ∧
      V = optionBytes o.Attributes (UInt16.ofNat area.length) d (area ++ o.OptionalData) ∧
      ((∃ path, Represents area path ∧ o.FilePath = some (pathBytes path)) ∨
        o.FilePath = none ∧
          PathMemory.IsDevicePathValid (area ++ o.OptionalData) 0 = some false) := by
  have hLimit : (2 ^ 32 : Nat) ≤ 2 ^ 63 := by decide
  have hAccepted : BmValidateOption V = some true := by
    rw [readLoadOption] at h
    obtain ⟨accepted, hValid, h⟩ := Option.bind_eq_some_iff.mp h
    cases accepted with
    | true => exact hValid
    | false => cases h
  -- the description ends in the variable
  obtain ⟨hSix, d, rest, hString⟩ : 6 ≤ V.length ∧ ∃ d rest, readString (V.drop 6) = some (d, rest) := by
    rw [BmValidateOption] at hAccepted
    split_ifs at hAccepted with hShort
    · cases hAccepted
    have hSix : 6 < V.length := by
      rw [UInt64.le_iff_toNat_le, UInt64.toNat_ofNat_of_lt' (show _ < 2 ^ 64 by omega)] at hShort
      exact Nat.not_le.mp hShort
    refine ⟨hSix.le, ?_⟩
    obtain ⟨_, -, hAccepted⟩ := Option.bind_eq_some_iff.mp hAccepted
    obtain ⟨DescriptionSize, hScan, -⟩ := Option.bind_eq_some_iff.mp hAccepted
    have hRemaining : UInt64.ofNat V.length - 2 - 4 = UInt64.ofNat (V.drop 6).length := by
      have hSum : UInt64.ofNat V.length = UInt64.ofNat (V.drop 6).length + 6 := by
        rw [List.length_drop, ← Nat.sub_add_cancel hSix.le, UInt64.ofNat_add, Nat.add_sub_cancel]
        rfl
      rw [hSum]
      grind
    rw [hRemaining, BmStrSizeEx_eq (by rw [List.length_drop]; omega)] at hScan
    obtain ⟨⟨d, rest⟩, hString, -⟩ := Option.map_eq_some_iff.mp hScan
    exact ⟨d, rest, hString⟩
  obtain ⟨Attributes, FilePathSize, rfl⟩ := exists_optionBytes hSix hString
  have hPathSize := FilePathSize.toNat_lt
  -- its device path does, too
  obtain ⟨hRoom, Size, hSize, hNonzero⟩ : FilePathSize.toNat ≤ rest.length ∧
      ∃ Size, BmGetDevicePathSizeEx rest FilePathSize.toUInt64 = some Size ∧ Size ≠ 0 := by
    rw [BmValidateOption_optionBytes (hFits.trans_le hLimit)] at hAccepted
    split_ifs at hAccepted with hNone
    · cases hAccepted
    obtain ⟨Size, hSize, hNonzero⟩ := Option.map_eq_some_iff.mp hAccepted
    exact ⟨Nat.not_lt.mp (not_or.mp hNone).2, Size, hSize, of_decide_eq_true hNonzero⟩
  have hRestLength : rest.length < 2 ^ 32 := by
    rw [length_optionBytes] at hFits
    omega
  have hOptional : (rest.drop FilePathSize.toNat).length < 2 ^ 32 := by
    rw [List.length_drop]
    omega
  rw [readLoadOption_optionBytes hAccepted rfl hOptional] at h
  obtain ⟨FilePath, hDuplicate, hOption⟩ := Option.map_eq_some_iff.mp h
  cases hOption
  have hArea : (rest.take FilePathSize.toNat).length = FilePathSize.toNat := List.length_take_of_le hRoom
  refine ⟨rfl, rfl, d, rest.take FilePathSize.toNat, rfl, by omega, ?_, ?_⟩
  · rw [hArea, UInt16.ofNat_toNat, List.take_append_drop]
  · rw [List.take_append_drop]
    obtain ⟨valid, hValid⟩ := validNodes_of_sizeWithin hSize hNonzero
    cases valid with
    | false =>
      right
      rw [DuplicateDevicePath_refused hValid] at hDuplicate
      exact ⟨(Option.some.inj hDuplicate).symm, hValid⟩
    | true =>
      left
      obtain ⟨path, hRest⟩ := represents_iff.mp hValid
      rw [DuplicateDevicePath_represents hRest] at hDuplicate
      refine ⟨path, ⟨?_, hRest.size, hRest.valid⟩, (Option.some.inj hDuplicate).symm⟩
      rw [BmGetDevicePathSizeEx_represents hRest, UInt16.toNat_toUInt64] at hSize
      split_ifs at hSize with hLe
      · obtain ⟨more, rfl⟩ := hRest.memory
        exact ⟨more.take (FilePathSize.toNat - (pathBytes path).length), by
          rw [List.take_append, List.take_of_length_le hLe]⟩
      · exact absurd (Option.some.inj hSize).symm hNonzero

/--
**The format.** An option with a device path is read from exactly the variables that have its
attributes, its description and an area of less than 64 KB that its path lies at the start of,
with the optional data behind.
-/
theorem readLoadOption_iff (hFits : V.length < 2 ^ 32) :
    readLoadOption t n V = some (.ok o) ∧ o.FilePath ≠ none ↔
      o.OptionNumber = n.toUInt64 ∧ o.OptionType = t ∧ ∃ d area path, o.Description = some d ∧
        o.FilePath = some (pathBytes path) ∧ Represents area path ∧ area.length < 0x10000 ∧
        V = optionBytes o.Attributes (UInt16.ofNat area.length) d (area ++ o.OptionalData) := by
  have hLimit : (2 ^ 32 : Nat) ≤ 2 ^ 63 := by decide
  constructor
  · rintro ⟨hRead, hPath⟩
    obtain ⟨hNumber, hType, d, area, hDescription, hArea, hBytes, hParts⟩ :=
      readLoadOption_parts hFits hRead
    obtain ⟨path, hRepresents, hFile⟩ := hParts.resolve_right fun hNone => hPath hNone.1
    exact ⟨hNumber, hType, d, area, path, hDescription, hFile, hRepresents, hArea, hBytes⟩
  · rintro ⟨hNumber, hType, d, area, path, hDescription, hFile, hRepresents, hArea, rfl⟩
    have hRead := readLoadOption_area (t := t) (n := n) hRepresents hArea o.optional_lt
      (hFits.trans_le hLimit)
    refine ⟨hRead.trans ?_, by rw [hFile]; exact Option.some_ne_none _⟩
    rw [← hNumber, ← hType, ← hDescription, ← hFile]

/-- The same option from its bytes. -/
theorem readLoadOption_iff_numbered :
    readLoadOption .Boot 1
        (optionBytes 1 10 ⟨[0x41], by decide⟩ (pathBytes (numberedPath 1) ++ [7])) =
      some (.ok numberedOption) :=
  ((readLoadOption_iff (o := numberedOption) (by decide)).mpr ⟨rfl, rfl, _, _, _, rfl, rfl,
    represents_numberedPath 1, by decide, rfl⟩).1

end TianJi.Model
