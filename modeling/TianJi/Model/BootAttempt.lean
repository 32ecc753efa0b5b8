import TianJi.Model.OptionRefresh

/-!
# TianJi — attempts to boot

`EfiBootManagerBoot` (BmBoot.c), by which the applications start an option: it looks for the
option's variable or makes one, names it in `BootCurrent`, loads and starts the image, and takes
`BootCurrent` away again.

What is connected, loaded and run in between are parameters (`BootServices`). Of these the library
itself has `BmRepairAllControllers`, `BmStopHotkeyService`, `BmSetMemoryTypeInformationVariable`,
`EfiBootManagerConnectDevicePath` and `BmGetNextLoadOptionBuffer`. They write no variables but the
memory type information and the cached hard drive path, which have GUIDs of their own, so that
`Quiet` asks nothing of them that they do not do; what they call (drivers, the handlers of the
ready-to-boot event) and the images are asked for the same.

* `BmFindBootOptionInVariable_spec` — the number that an option is found under.
* `temporary_spec` — an option that is not found gets a variable for this attempt.
* `boot_run` — over any attempts, what runs is named in `BootCurrent` by a variable with its own
  contents, and the list of options is left alone.
-/

namespace TianJi.Model

open PathMemory

-- ---------------------------------------------------------------------------
-- The code
-- ---------------------------------------------------------------------------

/-- The comparison in `BmFindBootOptionInVariable`, which leaves out the types. -/
def matchesVariable (OptionToFind BootOption : LoadOption) : Option Bool := do
  if OptionToFind.Attributes ≠ BootOption.Attributes then return false
  else if StrCmp (← OptionToFind.Description).chars (← BootOption.Description).chars ≠ 0 then
    return false
  else if (← compareFilePath OptionToFind.FilePath BootOption.FilePath) ≠ 0 then return false
  else if OptionToFind.OptionalData.length ≠ BootOption.OptionalData.length then return false
  else
    let Difference ← CompareMem OptionToFind.OptionalData BootOption.OptionalData
      OptionToFind.OptionalData.length
    return decide (Difference = 0)

section Code

variable (gRT : RuntimeServices)

/-- "Try to match the variable exactly if the option number is assigned" -/
def matchExactly (s : gRT.State) (OptionToFind : LoadOption) : Option UINTN := do
  if OptionToFind.OptionNumber = LoadOptionNumberUnassigned then return LoadOptionNumberUnassigned
  else
    let OptionName ← OptionName OptionToFind.OptionType OptionToFind.OptionNumber
    match ← EfiBootManagerVariableToLoadOption gRT s OptionName with
    | .error _ => return LoadOptionNumberUnassigned
    | .ok BootOption =>
      if ← matchesVariable OptionToFind BootOption then return OptionToFind.OptionNumber
      else return LoadOptionNumberUnassigned

def BmFindBootOptionInVariable (s : gRT.State) (OptionToFind : LoadOption) :
    Option (UINTN × gRT.State) := do
  let OptionNumber ← matchExactly gRT s OptionToFind
  -- "The option number assigned is either incorrect or unassigned."
  if OptionNumber = LoadOptionNumberUnassigned then
    let (BootOptions, s) ← EfiBootManagerGetLoadOptions gRT s .Boot
    let Index ← EfiBootManagerFindLoadOption OptionToFind BootOptions
    let BootOption := Index.bind fun Index => BootOptions[Index]?
    return (BootOption.elim LoadOptionNumberUnassigned LoadOption.OptionNumber, s)
  else return (OptionNumber, s)

/-- "Create Boot#### for a temporary boot if there is no match Boot####" -/
def createTemporary (s : gRT.State) (BootOption : LoadOption) :
    Option (Except EFI_STATUS UINTN × gRT.State) := do
  match ← BmGetFreeOptionNumber gRT s .Boot with
  | .error Status => return (.error Status, s)
  | .ok Uint16 =>
    let (Status, s) ← EfiBootManagerLoadOptionToVariable gRT s
      { BootOption with OptionNumber := Uint16.toUInt64 }
    return (if EFI_ERROR Status then .error Status else .ok Uint16.toUInt64, s)

/-- What the boot manager leaves to others. -/
structure BootServices where
  /-- The ready-to-boot event with what is registered for it, or the end of the hotkey service;
  driver health; the sizes of the memory types that are kept for the next boot. -/
  prepare : LoadOption → gRT.State → gRT.State
  /-- `EfiBootManagerConnectDevicePath` and `BmGetNextLoadOptionBuffer`: a file and its path. -/
  load : LoadOption → gRT.State → Option (PathMemory × List UINT8) × gRT.State
  LoadImage : PathMemory → List UINT8 → EFI_STATUS
  StartImage : gRT.State → EFI_STATUS × gRT.State
  mBmLegacyBoot : Option (LoadOption → gRT.State → EFI_STATUS × gRT.State)

/-- What an attempt comes to. -/
structure Attempt where
  /-- `BootOption->Status` -/
  Status : EFI_STATUS
  state : gRT.State
  /-- The variables that the image finds when it is started, and the load options that it gets. -/
  started : Option (gRT.State × Option (List UINT8)) := none

/-- `BootCurrent` is not kept for the next start. -/
def bootCurrentAttributes : UINT32 := EFI_VARIABLE_BOOTSERVICE_ACCESS ||| EFI_VARIABLE_RUNTIME_ACCESS

variable {gRT} (gBS : BootServices gRT)

/-- From "Provide the image with its load options" to the end. -/
def startImage (s : gRT.State) (BootOption : LoadOption) : Attempt gRT :=
  let LoadOptions := if BmIsAutoCreateBootOption BootOption then none else some BootOption.OptionalData
  let (Status, left) := gBS.StartImage s
  { Status := Status
    -- "Clear Boot Current"
    state := (gRT.SetVariable left (L "BootCurrent") 0 []).2
    started := some (s, LoadOptions) }

/-- From "Load EFI boot option to ImageHandle" on. An option with a BBS path of another kind has no
image to be started. -/
def loadAndStart (s : gRT.State) (BootOption : LoadOption) (FilePath : PathMemory) :
    Option (Attempt gRT) := do
  if (← FilePath.DevicePathType 0) ≠ BBS_DEVICE_PATH then
    let (file, s) := gBS.load BootOption s
    let Status := file.elim EFI_NOT_FOUND fun file => gBS.LoadImage file.1 file.2
    if EFI_ERROR Status then return { Status := Status, state := s }
    else return startImage gBS s BootOption
  else if (← FilePath.DevicePathSubType 0) = BBS_BBS_DP then
    match gBS.mBmLegacyBoot with
    | none => return { Status := EFI_UNSUPPORTED, state := s }
    | some mBmLegacyBoot =>
      let (Status, s) := mBmLegacyBoot BootOption s
      return { Status := Status, state := s }
  else none

/-- `EfiBootManagerBoot`, for an option that is not null. -/
def EfiBootManagerBoot (s : gRT.State) (BootOption : LoadOption) : Option (Attempt gRT) :=
  match BootOption.FilePath with
  | none => some { Status := EFI_INVALID_PARAMETER, state := s }
  | some FilePath => do
    if BootOption.OptionType ≠ .Boot then return { Status := EFI_INVALID_PARAMETER, state := s }
    else
      let (OptionNumber, s) ← BmFindBootOptionInVariable gRT s BootOption
      let (OptionNumber, s) ←
        if OptionNumber = LoadOptionNumberUnassigned then createTemporary gRT s BootOption
        else some (.ok OptionNumber, s)
      match OptionNumber with
      | .error Status => return { Status := Status, state := s }
      | .ok OptionNumber =>
        let (_, s) := gRT.SetVariable s (L "BootCurrent") bootCurrentAttributes
          (uint16Bytes OptionNumber.toUInt16)
        loadAndStart gBS (gBS.prepare BootOption s) BootOption FilePath

end Code

-- ---------------------------------------------------------------------------
-- Variables that can be booted from
-- ---------------------------------------------------------------------------

variable {gRT : RuntimeServices} {s s' : gRT.State} {o o' : LoadOption} {n : UINT16}
  {gBS : BootServices gRT}

/-- The orders are in order, and every variable of a boot option can be read and has a device path. -/
structure Bootable (gRT : RuntimeServices) (s : gRT.State) : Prop where
  consistent : Consistent gRT s
  readable : ∀ n : UINT16,
    EfiBootManagerVariableToLoadOption gRT s (variableName .Boot n.toNat) ≠ none
  paths : ∀ n o, loaded gRT s .Boot n = some o → o.FilePath ≠ none

/-- A variable of the number has the contents of the option. -/
def Holds (gRT : RuntimeServices) (s : gRT.State) (o : LoadOption) (n : UINT16) : Prop :=
  ∃ o', loaded gRT s .Boot n = some o' ∧ Same o o'

/-- An option that the boot manager is asked to boot from its device path. -/
structure Proper (o : LoadOption) : Prop where
  whole : Whole o
  storable : Storable o
  type : o.OptionType = .Boot
  number : o.OptionNumber ≤ LoadOptionNumberMax
  path : ∀ m, o.FilePath = some m → m.DevicePathType 0 ≠ some BBS_DEVICE_PATH

/-- Reading the options of a store that can be started from changes nothing. -/
theorem GetLoadOptions_bootable (h : Bootable gRT s) :
    EfiBootManagerGetLoadOptions gRT s .Boot = some (options gRT s .Boot, s) :=
  GetLoadOptions_consistent h.consistent
    (show mBmLoadOptionOrderName .Boot = some (L "BootOrder") from rfl)

/-- Each of them has contents. -/
theorem whole_of_option (h : Bootable gRT s) (ho : o ∈ options gRT s .Boot) : Whole o := by
  obtain ⟨n, -, hLoaded⟩ := List.mem_filterMap.mp ho
  exact (shape_of_loaded hLoaded).2 (h.paths n o hLoaded)

/-- Names that are no load options', no order's and not `BootNext`. -/
def Unrelated (name : List CHAR16) : Prop :=
  EfiBootManagerIsValidLoadOptionVariableName name = none ∧
    (∀ t, mBmLoadOptionOrderName t ≠ some name) ∧ name ≠ L "BootNext"

/-- `BootCurrent` is no option, and no order of them. -/
theorem unrelated_bootCurrent : Unrelated (L "BootCurrent") :=
  ⟨by decide, fun t => by cases t <;> decide, by decide⟩

/-- A change to an unrelated variable leaves the related ones. -/
theorem related_of_ne {f f' : List CHAR16 → Option (List UINT8)}
    (hSame : ∀ m ≠ L "BootCurrent", f' m = f m) : ∀ m, ¬ Unrelated m → f' m = f m :=
  fun m hRelated => hSame m fun hEq => hRelated (hEq ▸ unrelated_bootCurrent)

/-- Changes to unrelated variables are not seen. -/
theorem bootable_congr (h : Bootable gRT s)
    (hSame : ∀ m, ¬ Unrelated m → gRT.GetVariable s' m = gRT.GetVariable s m) :
    Bootable gRT s' ∧ options gRT s' = options gRT s ∧ loaded gRT s' .Boot = loaded gRT s .Boot := by
  -- the names of options, of the orders and BootNext are related
  have hOption : ∀ t (n : UINT16), gRT.GetVariable s' (variableName t n.toNat) =
      gRT.GetVariable s (variableName t n.toNat) := fun t n => hSame _ fun hUnrelated => by
    have hValid := isValidName_variableName t n
    rw [hUnrelated.1] at hValid
    cases hValid
  have hLoaded : ∀ t, loaded gRT s' t = loaded gRT s t := fun t =>
    funext fun n => loaded_congr (hOption t n)
  have hListing : ∀ t, listing gRT s' t = listing gRT s t := by
    intro t
    have hOrder : numbers gRT s' t = numbers gRT s t := by
      cases hOrderName : mBmLoadOptionOrderName t with
      | none => rw [numbers, hOrderName, numbers, hOrderName]; rfl
      | some order =>
        rw [numbers_eq hOrderName, numbers_eq hOrderName,
          bytes_congr (hSame order fun hUnrelated => hUnrelated.2.1 t hOrderName)]
    rw [listing, hOrder, hLoaded]
    rfl
  refine ⟨⟨⟨fun t => ?_, ?_⟩, fun n => ?_, fun n o => ?_⟩, funext fun t => ?_, hLoaded .Boot⟩
  · rw [hListing]
    exact h.consistent.sound t
  · rw [bytes_congr (hSame _ fun hUnrelated => hUnrelated.2.2 rfl)]
    exact h.consistent.next
  · rw [variableToLoadOption_congr (hOption .Boot n)]
    exact h.readable n
  · rw [hLoaded]
    exact h.paths n o
  · rw [options, hListing, options]

-- ---------------------------------------------------------------------------
-- Finding the variable
-- ---------------------------------------------------------------------------

/-- A number of 16 bits is assigned. -/
theorem number_ne_unassigned (n : UINT16) : n.toUInt64 ≠ LoadOptionNumberUnassigned := fun hEq =>
  toUInt64_lt_max n (by rw [hEq]; exact UInt64.le_refl _)

/-- Between options of one type, the comparison is that of the search. -/
theorem matchesVariable_eq (hType : o.OptionType = o'.OptionType) :
    matchesVariable o o' = matchesOption o o' := by
  rw [matchesOption, if_neg (not_not.mpr hType)]
  rfl

/-- The exact match: no number, or one whose variable has the contents. -/
theorem matchExactly_spec (h : Bootable gRT s) (ho : Proper o) :
    ∃ v, matchExactly gRT s o = some v ∧
      (v = LoadOptionNumberUnassigned ∨ ∃ n : UINT16, v = n.toUInt64 ∧ Holds gRT s o n) := by
  rw [matchExactly]
  split_ifs with hUnassigned
  · exact ⟨_, rfl, Or.inl rfl⟩
  · have hLess : ¬ o.OptionNumber ≥ LoadOptionNumberMax := fun hGe =>
      hUnassigned (UInt64.le_antisymm ho.number hGe)
    obtain ⟨n, hNumber⟩ := exists_number hLess
    obtain ⟨r, hRead⟩ := Option.ne_none_iff_exists'.mp (h.readable n)
    simp only [ho.type, hNumber, optionName_small, Option.bind_eq_bind, Option.bind_some, hRead]
    cases r with
    | error Status => exact ⟨_, rfl, Or.inl rfl⟩
    | ok o' =>
      have hLoaded : loaded gRT s .Boot n = some o' := by
        rw [loaded, hRead]
        rfl
      obtain ⟨hType, hWhole⟩ := shape_of_loaded hLoaded
      obtain ⟨b, hMatch, hSame⟩ := matchesOption_eq ho.whole (hWhole (h.paths n o' hLoaded))
      simp only [matchesVariable_eq (ho.type.trans hType.symm), hMatch, Option.bind_some]
      cases b with
      | false => exact ⟨_, rfl, Or.inl rfl⟩
      | true => exact ⟨_, rfl, Or.inr ⟨n, rfl, o', hLoaded, hSame.mp rfl⟩⟩

/-- **The search** changes nothing and ends with a number whose variable has the contents, or with
none, and then no option that is listed has them. -/
theorem BmFindBootOptionInVariable_spec (h : Bootable gRT s) (ho : Proper o) :
    ∃ v, BmFindBootOptionInVariable gRT s o = some (v, s) ∧
      ((v = LoadOptionNumberUnassigned ∧ ∀ o' ∈ options gRT s .Boot, ¬ Same o o') ∨
        ∃ n : UINT16, v = n.toUInt64 ∧ Holds gRT s o n) := by
  obtain ⟨v, hExact, hCases⟩ := matchExactly_spec h ho
  rw [BmFindBootOptionInVariable, hExact]
  simp only [Option.bind_eq_bind, Option.bind_some]
  rcases hCases with rfl | ⟨n, rfl, hHolds⟩
  · obtain ⟨r, hFind, hNone, hSome⟩ := FindLoadOption_first ho.whole fun o' ho' => whole_of_option h ho'
    rw [if_pos rfl, GetLoadOptions_bootable h]
    simp only [Option.bind_some, hFind]
    cases r with
    | none => exact ⟨_, rfl, Or.inl ⟨rfl, hNone.mp rfl⟩⟩
    | some i =>
      obtain ⟨⟨o', hAt, hSame⟩, -⟩ := hSome i rfl
      have hMem : o' ∈ options gRT s .Boot := List.mem_of_getElem? hAt
      obtain ⟨n, -, hLoaded⟩ := List.mem_filterMap.mp hMem
      refine ⟨o'.OptionNumber, by simp [hAt], Or.inr ⟨n, number_of_loaded hLoaded, o', hLoaded, hSame⟩⟩
  · rw [if_neg (number_ne_unassigned n)]
    exact ⟨_, rfl, Or.inr ⟨n, rfl, hHolds⟩⟩

-- ---------------------------------------------------------------------------
-- Making a variable
-- ---------------------------------------------------------------------------

/-- A free number is not in the order. -/
theorem free_not_listed {r : Except EFI_STATUS UINT16} (h : Bootable gRT s)
    (hFree : BmGetFreeOptionNumber gRT s .Boot = some r) (n : UINT16) (hn : r = .ok n) :
    n ∉ numbers gRT s .Boot := by
  obtain ⟨k, hLeast, hLe, hRun⟩ := BmGetFreeOptionNumber_least (s := s)
    (show mBmLoadOptionOrderName .Boot = some (L "BootOrder") from rfl) fun _ => h.consistent.next
  rw [hRun, Option.some.injEq] at hFree
  subst hn
  split_ifs at hFree with hMax
  cases hFree
  intro hMem
  refine hLeast.1 (List.mem_append_left _ ?_)
  have hListed := List.mem_map_of_mem (f := UInt16.toNat) hMem
  rwa [UInt16.toNat_ofNat_of_lt' (lt_of_le_of_ne hLe hMax)] at hListed

/-- A variable under a number that is not listed changes no list. -/
theorem bootable_saved (h : Bootable gRT s) (hNew : n ∉ numbers gRT s .Boot)
    (hOthers : ∀ m ≠ variableName .Boot n.toNat, gRT.GetVariable s' m = gRT.GetVariable s m)
    {saved : LoadOption} (hLoaded : loaded gRT s' .Boot n = some saved) (hPath : saved.FilePath ≠ none) :
    Bootable gRT s' ∧ options gRT s' = options gRT s := by
  have hOther : ∀ n' ≠ n, gRT.GetVariable s' (variableName .Boot n'.toNat) =
      gRT.GetVariable s (variableName .Boot n'.toNat) := fun n' hn' =>
    hOthers _ fun hEq => hn' (variableName_inj hEq).2
  have hOrder : numbers gRT s' .Boot = numbers gRT s .Boot := by
    have hName : mBmLoadOptionOrderName .Boot = some (L "BootOrder") := rfl
    rw [numbers_eq hName, numbers_eq hName,
      bytes_congr (hOthers _ (variableName_ne_orderName hName).symm)]
  have hElsewhere : SameElsewhere gRT s s' .Boot := fun m _ hm => hOthers m (hm n)
  obtain ⟨hConsistent, hOptions⟩ := consistent_update h.consistent hElsewhere
    (l := options gRT s .Boot)
    (sound_congr (h.consistent.sound .Boot) hOrder fun k hk =>
      loaded_congr (hOther k fun hSame => hNew (hSame ▸ hk)))
  refine ⟨⟨hConsistent, fun n' => ?_, fun n' o hFound => ?_⟩, ?_⟩
  · by_cases hSame : n' = n
    · rw [hSame]
      intro hNone
      rw [loaded, hNone] at hLoaded
      cases hLoaded
    · rw [variableToLoadOption_congr (hOther n' hSame)]
      exact h.readable n'
  · by_cases hSame : n' = n
    · rw [hSame, hLoaded, Option.some.injEq] at hFound
      rw [← hFound]
      exact hPath
    · rw [loaded_congr (hOther n' hSame)] at hFound
      exact h.paths n' o hFound
  · rw [hOptions, Function.update_eq_self]

/-- **A temporary variable** has the option's contents and is in no list. -/
theorem temporary_spec (h : Bootable gRT s) (ho : Proper o) :
    ∃ r s', createTemporary gRT s o = some (r, s') ∧ Bootable gRT s' ∧
      options gRT s' = options gRT s ∧ (∀ Status, r = .error Status → EFI_ERROR Status = true) ∧
      ∀ v, r = .ok v → ∃ n : UINT16, v = n.toUInt64 ∧ Holds gRT s' o n := by
  have hName : mBmLoadOptionOrderName .Boot = some (L "BootOrder") := rfl
  obtain ⟨free, hFree⟩ : ∃ free, BmGetFreeOptionNumber gRT s .Boot = some free := by
    obtain ⟨k, -, -, hRun⟩ := BmGetFreeOptionNumber_least (s := s) hName fun _ => h.consistent.next
    exact ⟨_, hRun⟩
  rw [createTemporary, hFree]
  simp only [Option.bind_eq_bind, Option.bind_some]
  cases free with
  | error Status =>
    refine ⟨_, s, rfl, h, rfl, fun Status' hStatus => ?_, fun v hv => by cases hv⟩
    cases hStatus
    rw [(full_of_noFreeNumber hFree).1]
    decide
  | ok n =>
    have hNew := free_not_listed h hFree n rfl
    have hPackable : Packable { o with OptionNumber := n.toUInt64 } := fun m hm =>
      (ho.storable.path m hm).imp fun path hPath => hPath.1
    obtain ⟨⟨Status, between⟩, hSave⟩ := exists_saved s hPackable
    have hOrderName : mBmLoadOptionOrderName o.OptionType = some (L "BootOrder") := by
      rw [ho.type]
      rfl
    obtain ⟨hOthers, hSaved⟩ := saved_cases (o := { o with OptionNumber := n.toUInt64 }) (n := n)
      hOrderName rfl hSave
    simp only [hSave, Option.bind_some]
    rcases hSaved with ⟨hError, hSame, -⟩ | ⟨-, m, V, hFile, hPack, hVariable⟩
    · -- the firmware refuses the variable
      rw [if_pos hError]
      obtain ⟨hBootable, hOptions, -⟩ := bootable_congr h fun m _ => congrFun hSame m
      refine ⟨_, between, rfl, hBootable, hOptions, fun Status' hStatus => ?_, fun v hv => by cases hv⟩
      cases hStatus
      exact hError
    · have hLoaded : loaded gRT between .Boot n = some (asSaved o n) := by
        rw [← ho.type]
        exact loaded_saved ho.storable hFile hPack hVariable
      have hSame := same_asSaved ho.whole n
      have hPath : (asSaved o n).FilePath ≠ none := by
        obtain ⟨k, -, hk⟩ := hSame
        obtain ⟨m', hm', -⟩ := hk.path
        rw [hm']
        exact Option.some_ne_none m'
      have hType : ∀ m ≠ variableName .Boot n.toNat, gRT.GetVariable between m = gRT.GetVariable s m := by
        rw [← ho.type]
        exact hOthers
      obtain ⟨hBootable, hOptions⟩ := bootable_saved h hNew hType hLoaded hPath
      refine ⟨_, between, rfl, hBootable, hOptions, fun Status' hStatus => ?_,
        fun v hv => ⟨n, ?_, _, hLoaded, hSame⟩⟩
      · split_ifs at hStatus with hError
        cases hStatus
        exact hError
      · split_ifs at hv
        cases hv
        rfl

-- ---------------------------------------------------------------------------
-- Attempts
-- ---------------------------------------------------------------------------

/-- Preparing and loading leave the variables of options, the orders, `BootNext` and `BootCurrent`
alone. An image may change the lists, and leaves variables that can be booted from. -/
structure Quiet (gBS : BootServices gRT) : Prop where
  prepare : ∀ o s m, ¬ Unrelated m ∨ m = L "BootCurrent" →
    gRT.GetVariable (gBS.prepare o s) m = gRT.GetVariable s m
  load : ∀ o s m, ¬ Unrelated m ∨ m = L "BootCurrent" →
    gRT.GetVariable (gBS.load o s).2 m = gRT.GetVariable s m
  image : ∀ s, Bootable gRT s → Bootable gRT (gBS.StartImage s).2

/-- What an image finds in `BootCurrent`: the number, unless the firmware refused to write it; then
it is what was there before, as the status of the call is not looked at. -/
def NamedOrRefused (gRT : RuntimeServices) (n : UINT16) (found : gRT.State) : Prop :=
  gRT.GetVariable found (L "BootCurrent") = some (uint16Bytes n) ∨
    ∃ before, EFI_ERROR (gRT.SetVariable before (L "BootCurrent") bootCurrentAttributes
        (uint16Bytes n)).1 = true ∧
      options gRT before = options gRT found ∧
      gRT.GetVariable found (L "BootCurrent") = gRT.GetVariable before (L "BootCurrent")

/-- What is left in `BootCurrent` in the end: nothing, unless the firmware refused to delete it; then
what the image left there. -/
def GoneOrRefused (gRT : RuntimeServices) (left s' : gRT.State) : Prop :=
  gRT.GetVariable s' (L "BootCurrent") = none ∨
    EFI_ERROR (gRT.SetVariable left (L "BootCurrent") 0 []).1 = true ∧
      gRT.GetVariable s' (L "BootCurrent") = gRT.GetVariable left (L "BootCurrent")

/-- What an attempt is for: it fails and leaves the lists as they are, or an image is started that
finds the lists as they were, and a variable with the option's contents named in `BootCurrent`. -/
inductive Boots (gBS : BootServices gRT) : Options → LoadOption → Attempt gRT → Options → Prop
  | failed {O : Options} {o : LoadOption} {a : Attempt gRT} :
      a.started = none → EFI_ERROR a.Status = true → Boots gBS O o a O
  | started {o : LoadOption} {a : Attempt gRT} {found : gRT.State} {n : UINT16} :
      a.started = some (found, if BmIsAutoCreateBootOption o then none else some o.OptionalData) →
      NamedOrRefused gRT n found → Holds gRT found o n → a.Status = (gBS.StartImage found).1 →
      GoneOrRefused gRT (gBS.StartImage found).2 a.state →
      Boots gBS (options gRT found) o a (options gRT (gBS.StartImage found).2)

/-- The end of an attempt: the image runs and `BootCurrent` goes. -/
theorem boots_startImage (hQuiet : Quiet gBS) (h : Bootable gRT s) (hNamed : NamedOrRefused gRT n s)
    (hHolds : Holds gRT s o n) :
    Bootable gRT (startImage gBS s o).state ∧
      Boots gBS (options gRT s) o (startImage gBS s o) (options gRT (startImage gBS s o).state) := by
  have hOthers : ∀ m ≠ L "BootCurrent", gRT.GetVariable
      (gRT.SetVariable (gBS.StartImage s).2 (L "BootCurrent") 0 []).2 m =
        gRT.GetVariable (gBS.StartImage s).2 m := fun m hm => get_of_ne hm
  obtain ⟨hBootable, hOptions, -⟩ := bootable_congr (hQuiet.image s h) (related_of_ne hOthers)
  have hGone : GoneOrRefused gRT (gBS.StartImage s).2 (startImage gBS s o).state := by
    cases hStatus : EFI_ERROR (gRT.SetVariable (gBS.StartImage s).2 (L "BootCurrent") 0 []).1 with
    | false =>
      refine Or.inl ((congrFun (gRT.get_stored _ _ _ _ hStatus) _).trans ?_)
      rw [Function.update_self, if_pos (Or.inl rfl)]
    | true => exact Or.inr ⟨hStatus, congrFun (gRT.get_refused _ _ _ _ hStatus) _⟩
  refine ⟨hBootable, ?_⟩
  rw [show options gRT (startImage gBS s o).state = options gRT (gBS.StartImage s).2 from hOptions]
  exact .started rfl hNamed hHolds rfl hGone

/-- Loading decides whether there is an image to start. -/
theorem boots_loaded (hQuiet : Quiet gBS) (h : Bootable gRT s) (ho : Proper o) {m : PathMemory}
    (hm : o.FilePath = some m) (hNamed : NamedOrRefused gRT n s) (hHolds : Holds gRT s o n) :
    ∃ a, loadAndStart gBS s o m = some a ∧ Bootable gRT a.state ∧
      Boots gBS (options gRT s) o a (options gRT a.state) := by
  obtain ⟨path, hPath, -⟩ := ho.storable.path m hm
  obtain ⟨type, subtype, hType, -, -⟩ := first_of_represents hPath
  have hEfi : type ≠ BBS_DEVICE_PATH := fun hBbs => ho.path m hm (by rw [hType, hBbs])
  rw [loadAndStart, hType]
  simp only [Option.bind_eq_bind, Option.bind_some, hEfi, ne_eq, not_false_eq_true, if_true]
  have hSame := hQuiet.load o s
  obtain ⟨hBootable, hOptions, hLoaded⟩ := bootable_congr h fun m hm => hSame m (Or.inl hm)
  by_cases hError : EFI_ERROR ((gBS.load o s).1.elim EFI_NOT_FOUND
    fun file => gBS.LoadImage file.1 file.2) = true
  · -- no image
    rw [if_pos hError]
    refine ⟨_, rfl, hBootable, ?_⟩
    rw [← hOptions]
    exact .failed rfl hError
  · rw [if_neg hError]
    have hFound : Holds gRT (gBS.load o s).2 o n := by
      rw [Holds, hLoaded]
      exact hHolds
    have hCurrent := hSame (L "BootCurrent") (Or.inr rfl)
    have hStill : NamedOrRefused gRT n (gBS.load o s).2 := by
      rw [NamedOrRefused, hCurrent, hOptions]
      exact hNamed
    rw [← hOptions]
    exact ⟨_, rfl, boots_startImage hQuiet hBootable hStill hFound⟩

/-- What is written to BootCurrent does not delete it. -/
theorem bootCurrent_stored (n : UINT16) : ¬ (bootCurrentAttributes = 0 ∨ uint16Bytes n = []) := by
  refine not_or.mpr ⟨by decide, fun hNil => ?_⟩
  have hLength := congrArg List.length hNil
  rw [length_uint16Bytes] at hLength
  cases hLength

/-- Setting `BootCurrent` and preparing: the lists stay, and the number is there or was refused. -/
theorem named_prepared (hQuiet : Quiet gBS) (h : Bootable gRT s) (o : LoadOption) (n : UINT16) :
    let prepared := gBS.prepare o
      (gRT.SetVariable s (L "BootCurrent") bootCurrentAttributes (uint16Bytes n)).2
    Bootable gRT prepared ∧ options gRT prepared = options gRT s ∧
      loaded gRT prepared .Boot = loaded gRT s .Boot ∧ NamedOrRefused gRT n prepared := by
  intro prepared
  have hPrepare := hQuiet.prepare o
    (gRT.SetVariable s (L "BootCurrent") bootCurrentAttributes (uint16Bytes n)).2
  have hRelated : ∀ m, ¬ Unrelated m → gRT.GetVariable prepared m = gRT.GetVariable s m :=
    fun m hm => (hPrepare m (Or.inl hm)).trans
      (related_of_ne (fun m hNe => get_of_ne hNe) m hm)
  obtain ⟨hBootable, hOptions, hLoaded⟩ := bootable_congr h hRelated
  refine ⟨hBootable, hOptions, hLoaded, ?_⟩
  have hCurrent := hPrepare (L "BootCurrent") (Or.inr rfl)
  cases hStatus : EFI_ERROR (gRT.SetVariable s (L "BootCurrent") bootCurrentAttributes
    (uint16Bytes n)).1 with
  | false =>
    refine Or.inl (hCurrent.trans ((congrFun (gRT.get_stored _ _ _ _ hStatus) _).trans ?_))
    rw [Function.update_self, if_neg (bootCurrent_stored n)]
  | true =>
    exact Or.inr ⟨s, hStatus, hOptions.symm,
      hCurrent.trans (congrFun (gRT.get_refused _ _ _ _ hStatus) _)⟩

/-- **One attempt.** -/
theorem boots_spec (hQuiet : Quiet gBS) (h : Bootable gRT s) (ho : Proper o) :
    ∃ a, EfiBootManagerBoot gBS s o = some a ∧ Bootable gRT a.state ∧
      Boots gBS (options gRT s) o a (options gRT a.state) := by
  obtain ⟨k, hk⟩ := ho.whole
  obtain ⟨m, hm, -⟩ := hk.path
  obtain ⟨v, hFind, hCases⟩ := BmFindBootOptionInVariable_spec h ho
  rw [EfiBootManagerBoot, hm]
  simp only [ho.type, ne_eq, not_true_eq_false, if_false, Option.bind_eq_bind, hFind, Option.bind_some]
  -- with a number whose variable has the contents, the rest follows
  have hRest {s₁ : gRT.State} (h₁ : Bootable gRT s₁) (hSame : options gRT s₁ = options gRT s)
      {n : UINT16} (hHolds : Holds gRT s₁ o n) :
      ∃ a, loadAndStart gBS (gBS.prepare o (gRT.SetVariable s₁ (L "BootCurrent") bootCurrentAttributes
          (uint16Bytes n)).2) o m = some a ∧ Bootable gRT a.state ∧
        Boots gBS (options gRT s) o a (options gRT a.state) := by
    obtain ⟨h₂, hOptions₂, hLoaded₂, hNamed⟩ := named_prepared hQuiet h₁ o n
    have hHolds₂ := hHolds
    rw [Holds, ← hLoaded₂] at hHolds₂
    rw [← hSame, ← hOptions₂]
    exact boots_loaded hQuiet h₂ ho hm hNamed hHolds₂
  rcases hCases with ⟨rfl, -⟩ | ⟨n, rfl, hHolds⟩
  · -- not found: a variable for this attempt
    obtain ⟨r, s₁, hCreate, h₁, hSame, hError, hOk⟩ := temporary_spec h ho
    simp only [if_true, hCreate, Option.bind_some]
    cases r with
    | error Status =>
      refine ⟨_, rfl, h₁, ?_⟩
      rw [hSame]
      exact .failed rfl (hError Status rfl)
    | ok v =>
      obtain ⟨n, rfl, hHolds⟩ := hOk v rfl
      simp only [UInt16.toUInt16_toUInt64]
      exact hRest h₁ hSame hHolds
  · simp only [if_neg (number_ne_unassigned n), UInt16.toUInt16_toUInt64]
    exact hRest h rfl hHolds

/-- An attempt as a request. -/
def attempt (gBS : BootServices gRT) (s : gRT.State) (o : LoadOption) :
    Option (Attempt gRT × gRT.State) :=
  (EfiBootManagerBoot gBS s o).map fun a => (a, a.state)

/--
**Attempts to boot.** From variables that can be booted from, in every run of attempts, an image that
is started finds the lists of options as they were, and named in `BootCurrent` a variable with the
contents of the option that it was started for; `BootCurrent` is gone afterwards. Where the firmware
refuses to write or to delete `BootCurrent`, it is what it was. Only images change the lists.
-/
theorem boot_run (hQuiet : Quiet gBS) (h : Bootable gRT s) {os : List LoadOption}
    (hProper : ∀ o ∈ os, Proper o) :
    ∃ attempts s', Service.run (attempt gBS) s os = some (attempts, s') ∧ Bootable gRT s' ∧
      Service.Explains (Boots gBS) (options gRT s) os attempts (options gRT s') := by
  refine Service.exists_run (fun s o hInv ho => ?_) h hProper
  obtain ⟨a, hRun, hBootable, hBoots⟩ := boots_spec hQuiet hInv ho
  exact ⟨a, a.state, by rw [attempt, hRun]; rfl, hBootable, hBoots⟩

/-- Files that are found in the option's own path, and images that return at once. -/
def returningServices : BootServices tableServices where
  prepare _ s := s
  load o s := (o.FilePath.map fun m => (m, []), s)
  LoadImage _ _ := EFI_SUCCESS
  StartImage s := (EFI_SUCCESS, s)
  mBmLegacyBoot := none

/-- Nothing is changed by any of the calls. -/
theorem quiet_returningServices : Quiet returningServices where
  prepare _ _ _ _ := rfl
  load _ _ _ _ := rfl
  image _ h := h

/-- Nothing is stored that could not be started from. -/
theorem bootable_empty : Bootable tableServices fun _ => none where
  consistent := consistent_empty
  readable n hNone := by
    have hRead : EfiBootManagerVariableToLoadOption tableServices (fun _ => none)
      (variableName .Boot n.toNat) = some (.error EFI_NOT_FOUND) := variableToLoadOption_none rfl
    exact Option.some_ne_none _ (hRead.symm.trans hNone)
  paths n o hLoaded := by
    have hNone : loaded tableServices (fun _ => none) .Boot n = none := loaded_none rfl
    exact absurd (hNone.symm.trans hLoaded) (Option.some_ne_none o).symm

/-- An option of the example can be started. -/
theorem proper_numbered {o : LoadOption} (hType : o.OptionType = .Boot)
    (hNumber : o.OptionNumber ≤ LoadOptionNumberMax) (hDescription : o.Description ≠ none)
    (hPath : o.FilePath = some (pathBytes (numberedPath 1))) (hStorable : Storable o) : Proper o where
  whole := by
    obtain ⟨d, hd⟩ := Option.ne_none_iff_exists'.mp hDescription
    exact ⟨⟨.Boot, o.Attributes, d, numberedPath 1, o.OptionalData⟩, hType, rfl, hd,
      ⟨_, hPath, represents_numberedPath 1⟩, rfl⟩
  storable := hStorable
  type := hType
  number := hNumber
  path m hm := by
    rw [hPath, Option.some.injEq] at hm
    subst hm
    decide

/-- One option under a number that has no variable yet, and one without a number. -/
theorem boot_run_numbered : ∃ attempts s',
    Service.run (attempt returningServices) (fun _ => none) [numberedOption, enumeratedOption] =
      some (attempts, s') ∧ Bootable tableServices s' ∧
    Service.Explains (Boots returningServices) (options tableServices fun _ => none)
      [numberedOption, enumeratedOption] attempts (options tableServices s') := by
  refine boot_run quiet_returningServices bootable_empty fun o ho => ?_
  rcases List.mem_pair.mp ho with rfl | rfl
  · exact proper_numbered rfl (by decide) (Option.some_ne_none _) rfl storable_numberedOption
  · exact proper_numbered rfl (by decide) (Option.some_ne_none _) rfl
      ⟨storable_numberedOption.path, storable_numberedOption.fits⟩

end TianJi.Model
