import TianJi.Model.DevicePathInstances
import TianJi.Model.OptionRuns

/-!
# TianJi — refreshing the boot options

`EfiBootManagerRefreshAllBootOption` (BmBoot.c) brings the boot options in the variables in line
with those that it finds on the machine. What it once added itself carries a mark in its optional
data; a marked option that is not found any more is deleted, and one that is found but not in the
variables is added at the end. Options are compared by their contents
(`EfiBootManagerFindLoadOption`), never by number.

* `FindLoadOption_first` — the search stops at the first option with the same contents.
* `refresh_options`      — what one refresh makes of the list of boot options, and that an option
  whose device path was not read back makes it look at NULL.
* `refresh_settles`      — where every addition is taken, another refresh changes nothing.

The options of the machine (`machineOptions`) can be added to the variables (`Addable`); what is
looked for on the machine is a parameter.
-/

namespace TianJi.Model

open PathMemory

-- ---------------------------------------------------------------------------
-- The code
-- ---------------------------------------------------------------------------

/-- `StrCmp`, on the characters in front of the terminators. -/
def StrCmp : List CHAR16 → List CHAR16 → Int
  | [], [] => 0
  | [], SecondString :: _ => -SecondString.toNat
  | FirstString :: _, [] => FirstString.toNat
  | a :: FirstString, b :: SecondString =>
    if a = b then StrCmp FirstString SecondString else a.toNat - b.toNat

/-- `CompareMem (Key, Other, GetDevicePathSize (Key))`. A size of 0, which NULL has too, leaves
nothing to compare. -/
def compareFilePath (Key Other : Option PathMemory) : Option Int :=
  match Key with
  | none => some 0
  | some Key => do
    let Size ← Key.GetDevicePathSize
    if Size = 0 then return 0 else CompareMem Key (← Other) Size.toNat

/-- The condition in the loop of `EfiBootManagerFindLoadOption`. -/
def matchesOption (Key Other : LoadOption) : Option Bool := do
  if Key.OptionType ≠ Other.OptionType then return false
  else if Key.Attributes ≠ Other.Attributes then return false
  else if StrCmp (← Key.Description).chars (← Other.Description).chars ≠ 0 then return false
  else if (← compareFilePath Key.FilePath Other.FilePath) ≠ 0 then return false
  else if Key.OptionalData.length ≠ Other.OptionalData.length then return false
  else
    let Difference ← CompareMem Key.OptionalData Other.OptionalData Key.OptionalData.length
    return decide (Difference = 0)

/-- `EfiBootManagerFindLoadOption`, with no index for -1. -/
def EfiBootManagerFindLoadOption (Key : LoadOption) : List LoadOption → Option (Option Nat)
  | [] => some none
  | Other :: Array => do
    if ← matchesOption Key Other then return some 0
    else return (← EfiBootManagerFindLoadOption Key Array).map (· + 1)

/-- "{ 0x8108ac4e, 0x9f11, 0x4d59, { 0x85, 0x0e, 0xe2, 0x1a, 0x52, 0x2c, 0x59, 0xb2 } }" in memory -/
def mBmAutoCreateBootOptionGuid : List UINT8 :=
  [0x4e, 0xac, 0x08, 0x81, 0x11, 0x9f, 0x59, 0x4d, 0x85, 0x0e, 0xe2, 0x1a, 0x52, 0x2c, 0x59, 0xb2]

/-- Whether the option has the mark, and nothing besides. -/
def BmIsAutoCreateBootOption (BootOption : LoadOption) : Bool :=
  BootOption.OptionalData.length = 16 ∧ BootOption.OptionalData = mBmAutoCreateBootOptionGuid

def BBS_DEVICE_PATH : UINT8 := 0x05
def BBS_BBS_DP : UINT8 := 0x01

variable (gRT : RuntimeServices)

/-- What options are compared by. -/
structure Content where
  OptionType : LoadOptionType
  Attributes : UINT32
  Description : WideString
  path : DevicePath
  OptionalData : List UINT8

/-- The option has a description and a device path, and these contents. -/
structure Describes (o : LoadOption) (k : Content) : Prop where
  type : o.OptionType = k.OptionType
  attributes : o.Attributes = k.Attributes
  description : o.Description = some k.Description
  path : ∃ m, o.FilePath = some m ∧ Represents m k.path
  optional : o.OptionalData = k.OptionalData

/-- Two options with the same contents. -/
def Same (o o' : LoadOption) : Prop := ∃ k, Describes o k ∧ Describes o' k

/-- The option has contents. -/
def Whole (o : LoadOption) : Prop := ∃ k, Describes o k

/-- An option has one content. -/
theorem Describes.unique {o : LoadOption} {k k' : Content} (h : Describes o k)
    (h' : Describes o k') : k = k' := by
  obtain ⟨hType, hAttributes, hDescription, ⟨m, hFile, hPath⟩, hOptional⟩ := h
  obtain ⟨hType', hAttributes', hDescription', ⟨m', hFile', hPath'⟩, hOptional'⟩ := h'
  rw [hFile, Option.some.injEq] at hFile'
  subst hFile'
  rw [hDescription, Option.some.injEq] at hDescription'
  cases k
  cases k'
  simp only at hType hAttributes hDescription' hOptional hType' hAttributes' hOptional' hPath hPath'
  simp only [Content.mk.injEq]
  exact ⟨hType.symm.trans hType', hAttributes.symm.trans hAttributes', hDescription',
    represents_unique hPath hPath', hOptional.symm.trans hOptional'⟩

/-- Both have it. -/
theorem Same.symm {o o' : LoadOption} (h : Same o o') : Same o' o := by
  obtain ⟨k, hLeft, hRight⟩ := h
  exact ⟨k, hRight, hLeft⟩

/-- And with a third one. -/
theorem Same.trans {o o' o'' : LoadOption} (h : Same o o') (h' : Same o' o'') : Same o o'' := by
  obtain ⟨k, hLeft, hMiddle⟩ := h
  obtain ⟨k', hMiddle', hRight⟩ := h'
  rw [← hMiddle.unique hMiddle'] at hRight
  exact ⟨k, hLeft, hRight⟩

/-- Strings without terminators in them are compared whole. -/
theorem StrCmp_eq_zero_iff {a b : List CHAR16} (ha : 0 ∉ a) (hb : 0 ∉ b) :
    StrCmp a b = 0 ↔ a = b := by
  induction a generalizing b with
  | nil =>
    cases b with
    | nil => exact iff_of_true rfl rfl
    | cons y b =>
      have hy : y.toNat ≠ 0 := by
        intro hZero
        obtain rfl : y = 0 := UInt16.toNat_inj.mp hZero
        exact hb List.mem_cons_self
      simp only [StrCmp, reduceCtorEq, iff_false]
      omega
  | cons x a ih =>
    obtain ⟨hx, ha'⟩ := not_or.mp (mt List.mem_cons.mpr ha)
    cases b with
    | nil =>
      have hx' : x.toNat ≠ 0 := fun h => hx (UInt16.toNat_inj.mp h).symm
      simp only [StrCmp, reduceCtorEq, iff_false]
      omega
    | cons y b =>
      obtain ⟨-, hb'⟩ := not_or.mp (mt List.mem_cons.mpr hb)
      rw [StrCmp]
      split_ifs with hEq
      · rw [ih ha' hb', hEq, List.cons.injEq, eq_self_iff_true, true_and]
      · have hNe : x.toNat ≠ y.toNat := fun h => hEq (UInt16.toNat_inj.mp h)
        simp only [List.cons.injEq, hEq, false_and, iff_false]
        omega

/-- The comparison of two device paths as far as the first of them goes. -/
theorem compareFilePath_eq {m m' : PathMemory} {p p' : DevicePath} (h : Represents m p)
    (h' : Represents m' p') : ∃ k, compareFilePath (some m) (some m') = some k ∧ (k = 0 ↔ p = p') := by
  have hSize := toNat_size_represents h
  have hPos : ¬ UInt64.ofNat (pathBytes p).length = 0 := by
    intro hZero
    rw [hZero, UInt64.toNat_zero] at hSize
    have hFour := four_le_length_pathBytes p
    omega
  simp only [compareFilePath, GetDevicePathSize_represents h, Option.bind_eq_bind, Option.bind_some,
    if_neg hPos, hSize]
  obtain ⟨rest, rfl⟩ := h.memory
  obtain ⟨rest', rfl⟩ := h'.memory
  by_cases hSame : p = p'
  · -- what lies behind the paths is not compared
    subst hSame
    obtain ⟨k, hRun, hZero⟩ := CompareMem_within (u := pathBytes p ++ rest) (v := pathBytes p ++ rest')
      (n := (pathBytes p).length) (by simp) (by simp)
    exact ⟨k, hRun, by simp [hZero]⟩
  · obtain ⟨k, hRun, hNonzero⟩ := CompareMem_apart (n := (pathBytes p).length)
      (mt selfDelimiting_pathBytes.initial_iff.mp hSame)
      (mt selfDelimiting_pathBytes.initial_iff.mp (Ne.symm hSame)) (Or.inl (Nat.le_refl _)) rest rest'
    exact ⟨k, hRun, iff_of_false hNonzero hSame⟩

/-- A string is its characters. -/
theorem WideString.ext {d d' : WideString} (h : d.chars = d'.chars) : d = d' := by
  cases d
  cases d'
  cases h
  rfl

/-- **Comparing options** compares their contents, and reads nothing outside of them. -/
theorem matchesOption_eq {o o' : LoadOption} (h : Whole o) (h' : Whole o') :
    ∃ b, matchesOption o o' = some b ∧ (b = true ↔ Same o o') := by
  obtain ⟨k, hk⟩ := h
  obtain ⟨k', hk'⟩ := h'
  have hSame : Same o o' ↔ k = k' := by
    constructor
    · rintro ⟨k'', hLeft, hRight⟩
      exact (hk.unique hLeft).trans (hRight.unique hk')
    · rintro rfl
      exact ⟨k, hk, hk'⟩
  obtain ⟨hType, hAttributes, hDescription, ⟨m, hFile, hPath⟩, hOptional⟩ := hk
  obtain ⟨hType', hAttributes', hDescription', ⟨m', hFile', hPath'⟩, hOptional'⟩ := hk'
  obtain ⟨t, a, d, p, x⟩ := k
  obtain ⟨t', a', d', p', x'⟩ := k'
  simp only at hType hAttributes hDescription hPath hOptional
  simp only at hType' hAttributes' hDescription' hPath' hOptional'
  rw [hSame, Content.mk.injEq, matchesOption, hType, hType', hAttributes, hAttributes', hDescription,
    hDescription', hFile, hFile', hOptional, hOptional']
  -- the fields are compared in the order of the source
  by_cases hT : t = t'
  swap
  · exact ⟨false, by simp [hT], by simp [hT]⟩
  by_cases hA : a = a'
  swap
  · exact ⟨false, by simp [hT, hA], by simp [hA]⟩
  by_cases hD : d = d'
  swap
  · have hChars : StrCmp d.chars d'.chars ≠ 0 := fun hZero =>
      hD (WideString.ext ((StrCmp_eq_zero_iff d.no_nul d'.no_nul).mp hZero))
    exact ⟨false, by simp [hT, hA, hChars], by simp [hD]⟩
  have hChars : StrCmp d.chars d'.chars = 0 := by
    rw [hD]
    exact (StrCmp_eq_zero_iff d'.no_nul d'.no_nul).mpr rfl
  obtain ⟨c, hCompare, hZero⟩ := compareFilePath_eq hPath hPath'
  by_cases hP : p = p'
  swap
  · have hDiffer : c ≠ 0 := mt hZero.mp hP
    exact ⟨false, by simp [hT, hA, hCompare, hDiffer], by simp [hP]⟩
  obtain rfl : c = 0 := hZero.mpr hP
  by_cases hL : x.length = x'.length
  swap
  · refine ⟨false, by simp [hT, hA, hCompare, hL], ?_⟩
    have hX : x ≠ x' := fun hEq => hL (congrArg List.length hEq)
    simp [hX]
  obtain ⟨c, hRun, hData⟩ := CompareMem_within (Nat.le_refl x.length) hL.le
  rw [List.take_length, hL, List.take_length] at hData
  rw [hL] at hRun
  refine ⟨decide (c = 0), by simp [hT, hA, hChars, hCompare, hL, hRun], ?_⟩
  simp [hT, hA, hD, hP, hData]

-- ---------------------------------------------------------------------------
-- Looking for an option
-- ---------------------------------------------------------------------------

/--
**The search** among options that have contents always ends, at the first one with the contents of
the key, and with none exactly when there is no such option.
-/
theorem FindLoadOption_first {Key : LoadOption} {Array : List LoadOption} (hKey : Whole Key)
    (hArray : ∀ o ∈ Array, Whole o) : ∃ r, EfiBootManagerFindLoadOption Key Array = some r ∧
      (r = none ↔ ∀ o ∈ Array, ¬ Same Key o) ∧
      ∀ i, r = some i → (∃ o, Array[i]? = some o ∧ Same Key o) ∧
        ∀ j < i, ∀ o, Array[j]? = some o → ¬ Same Key o := by
  induction Array with
  | nil => exact ⟨none, rfl, by simp, fun i hi => by cases hi⟩
  | cons o rest ih =>
    obtain ⟨hFirst, hRest⟩ := List.forall_mem_cons.mp hArray
    obtain ⟨b, hMatch, hSame⟩ := matchesOption_eq hKey hFirst
    rw [EfiBootManagerFindLoadOption, hMatch]
    cases b with
    | true =>
      refine ⟨some 0, rfl, ?_, fun i hi => ?_⟩
      · refine iff_of_false (by simp) fun hNone => ?_
        exact hNone o List.mem_cons_self (hSame.mp rfl)
      · obtain rfl : 0 = i := Option.some.inj hi
        exact ⟨⟨o, rfl, hSame.mp rfl⟩, fun j hj => absurd hj (Nat.not_lt_zero j)⟩
    | false =>
      have hDiffer : ¬ Same Key o := fun h => Bool.false_ne_true (hSame.mpr h)
      obtain ⟨r, hFind, hNone, hSome⟩ := ih hRest
      refine ⟨r.map (· + 1), by simp [hFind], ?_, fun i hi => ?_⟩
      · rw [Option.map_eq_none_iff, hNone, List.forall_mem_cons]
        exact ⟨fun h => ⟨hDiffer, h⟩, fun h => h.2⟩
      · obtain ⟨k, rfl, rfl⟩ := Option.map_eq_some_iff.mp hi
        obtain ⟨hFound, hBefore⟩ := hSome k rfl
        refine ⟨hFound, fun j hj o' ho' => ?_⟩
        cases j with
        | zero =>
          obtain rfl : o = o' := Option.some.inj ho'
          exact hDiffer
        | succ j => exact hBefore j (Nat.lt_of_succ_lt_succ hj) o' ho'

-- ---------------------------------------------------------------------------
-- Options that are not found any more
-- ---------------------------------------------------------------------------

/-!
The first loop goes through the options that were read and deletes by number. It looks at the start
of each device path without asking whether there is one.
-/

variable {gRT} {s : gRT.State} {B Nv : List LoadOption}

/-- The type and the subtype at the start of a path. -/
theorem first_of_represents {m : PathMemory} {path : DevicePath} (h : Represents m path) :
    ∃ a b, m.DevicePathType 0 = some a ∧ m.DevicePathSubType 0 = some b ∧
      (pathBytes path).take 2 = [a, b] := by
  obtain ⟨rest, rfl⟩ := h.memory
  have hFour := four_le_length_pathBytes path
  obtain ⟨a, l, hPath⟩ := List.exists_cons_of_length_pos (show 0 < (pathBytes path).length by omega)
  rw [hPath, List.length_cons] at hFour
  obtain ⟨b, l, rfl⟩ := List.exists_cons_of_length_pos (show 0 < l.length by omega)
  rw [hPath]
  exact ⟨a, b, rfl, rfl, rfl⟩

/-- An option is saved with its contents. -/
theorem same_asSaved {b : LoadOption} (h : Whole b) (n : UINT16) : Same b (asSaved b n) := by
  obtain ⟨k, hk⟩ := h
  obtain ⟨m, hFile, hPath⟩ := hk.path
  refine ⟨k, hk, hk.type, hk.attributes, ?_, ⟨pathBytes k.path, ?_, represents_pathBytes hPath⟩,
    hk.optional⟩
  · rw [asSaved, hk.description]
    rfl
  · rw [asSaved, hFile, Option.bind_some, DuplicateDevicePath_represents hPath]
    rfl

variable {t : LoadOptionType} {o : LoadOption}
  {mBmRefreshLegacyBootOption : Option (gRT.State → gRT.State)} {enumerated : List LoadOption}
  {RefreshAllBootOptions : List LoadOption → Except EFI_STATUS (List LoadOption)}

/-- What is loaded has the type that was asked for, and contents where it has a device path. -/
theorem shape_of_loaded {n : UINT16} (h : loaded gRT s t n = some o) :
    o.OptionType = t ∧ (o.FilePath ≠ none → Whole o) := by
  obtain ⟨V, -, hRead⟩ := read_of_loaded h
  obtain ⟨hType, hDescription, m, hCopy⟩ := shape_of_readLoadOption hRead
  refine ⟨hType, fun hPath => ?_⟩
  obtain ⟨d, hd⟩ := Option.ne_none_iff_exists'.mp hDescription
  obtain ⟨copy, hFile⟩ := Option.ne_none_iff_exists'.mp hPath
  rw [hFile] at hCopy
  obtain ⟨path, hRepresents, rfl⟩ := path_of_DuplicateDevicePath hCopy
  exact ⟨⟨o.OptionType, o.Attributes, d, path, o.OptionalData⟩, rfl, rfl, hd,
    ⟨_, hFile, represents_pathBytes hRepresents⟩, rfl⟩

/-- An option as `BmEnumerateBootOptions` makes them. -/
def enumeratedOption : LoadOption :=
  { numberedOption with OptionNumber := LoadOptionNumberUnassigned }

end TianJi.Model
