import TianJi.Lib.Listing
import TianJi.Model.LoadOption

/-!
# TianJi — the variables of load options

A load option lies in a variable of its own, and the numbers of the options of one type lie in the
variable of their order (BmLoadOption.c). The firmware keeps the variables and may refuse to.

* `BmGetFreeOptionNumber_least` — the number of a new option.
* `addNumber_cases`, `removeNumber_cases` — the order is changed as a list is, odd byte or not.
* `exists_deletes` — what a deletion does.
* `GetLoadOptions_eq` — the options that are read, and what is left of the order.
-/

namespace TianJi.Model

-- ---------------------------------------------------------------------------
-- The firmware
-- ---------------------------------------------------------------------------

def EFI_ALREADY_STARTED : EFI_STATUS := ENCODE_ERROR 20

def EFI_VARIABLE_NON_VOLATILE : UINT32 := 0x00000001
def EFI_VARIABLE_BOOTSERVICE_ACCESS : UINT32 := 0x00000002
def EFI_VARIABLE_RUNTIME_ACCESS : UINT32 := 0x00000004

/--
The variable services of `EFI_RUNTIME_SERVICES`, for the global GUID, as UefiSpec.h describes
them. Whether a change is refused is up to the firmware.
-/
structure RuntimeServices where
  State : Type
  GetVariable : State → List CHAR16 → Option (List UINT8)
  SetVariable : State → List CHAR16 → UINT32 → List UINT8 → EFI_STATUS × State
  no_empty : ∀ s name, GetVariable s name ≠ some []
  get_refused : ∀ s name attributes data, EFI_ERROR (SetVariable s name attributes data).1 = true →
    GetVariable (SetVariable s name attributes data).2 = GetVariable s
  get_stored : ∀ s name attributes data, EFI_ERROR (SetVariable s name attributes data).1 = false →
    GetVariable (SetVariable s name attributes data).2 = Function.update (GetVariable s) name
      (if attributes = 0 ∨ data = [] then none else some data)

/-- Services over a table, which refuse only to delete what is not there. -/
def tableServices : RuntimeServices where
  State := List CHAR16 → Option { data : List UINT8 // data ≠ [] }
  GetVariable s name := (s name).map Subtype.val
  SetVariable s name attributes data :=
    if h : attributes = 0 ∨ data = [] then
      if (s name).isNone then (EFI_NOT_FOUND, s) else (EFI_SUCCESS, Function.update s name none)
    else (EFI_SUCCESS, Function.update s name (some ⟨data, (not_or.mp h).2⟩))
  no_empty s name hEmpty := by
    obtain ⟨data, -, hNil⟩ := Option.map_eq_some_iff.mp hEmpty
    exact data.2 hNil
  get_refused s name attributes data hStatus := by
    have hSuccess : ¬ EFI_ERROR EFI_SUCCESS = true := by decide
    split_ifs at hStatus ⊢
    · rfl
    · exact absurd hStatus hSuccess
    · exact absurd hStatus hSuccess
  get_stored s name attributes data hStatus := by
    have hNotFound : ¬ EFI_ERROR EFI_NOT_FOUND = false := by decide
    split_ifs at hStatus ⊢
    · exact absurd hStatus hNotFound
    · exact Function.comp_update (Option.map Subtype.val) s name none
    · exact Function.comp_update (Option.map Subtype.val) s name _

-- ---------------------------------------------------------------------------
-- The code
-- ---------------------------------------------------------------------------

/-- "PlatformRecovery#### doesn't have associated *Order variable" -/
def mBmLoadOptionOrderName : LoadOptionType → Option (List CHAR16)
  | .Driver => some (L "DriverOrder")
  | .SysPrep => some (L "SysPrepOrder")
  | .Boot => some (L "BootOrder")
  | .PlatformRecovery => none

/-- The attributes of what is kept for the next start. -/
def nonVolatile : UINT32 :=
  EFI_VARIABLE_BOOTSERVICE_ACCESS ||| EFI_VARIABLE_RUNTIME_ACCESS ||| EFI_VARIABLE_NON_VOLATILE

variable (gRT : RuntimeServices)

/-- The bytes of a variable, and none where there is no such variable. -/
def RuntimeServices.bytes (s : gRT.State) (Name : List CHAR16) : List UINT8 :=
  (gRT.GetVariable s Name).getD []

/-- The loop of `BmGetFreeOptionNumber`, for a number of turns. -/
def searchNumber (OptionOrder : List UINT16) (BootNext : Option (List UINT8)) :
    Nat → Nat → Option Nat
  | 0, OptionNumber => some OptionNumber
  | turns + 1, OptionNumber => do
    let free ←
      if OptionNumber ∈ OptionOrder.map UInt16.toNat then some false
      else BootNext.elim (some true) fun data =>
        (PathMemory.ReadUnaligned16 data 0).map fun next => decide (OptionNumber ≠ next.toNat)
    if free then return OptionNumber else searchNumber OptionOrder BootNext turns (OptionNumber + 1)

/-- The variable with the number of the option that is started next, which may not be one in the
order. -/
def readBootNext (s : gRT.State) (LoadOptionType : LoadOptionType) : Option (List UINT8) :=
  if LoadOptionType = .Boot then gRT.GetVariable s (L "BootNext") else none

/-- "Get the Option Number that wasn't used." Where the order and `BootNext` hold all numbers, none
is free. -/
def BmGetFreeOptionNumber (s : gRT.State) (LoadOptionType : LoadOptionType) :
    Option (Except EFI_STATUS UINT16) := do
  let OptionOrder := wholeChars (gRT.bytes s (← mBmLoadOptionOrderName LoadOptionType))
  let BootNext := readBootNext gRT s LoadOptionType
  let OptionNumber ← searchNumber OptionOrder BootNext
    (OptionOrder.length + if BootNext.isSome then 1 else 0) 0
  return if OptionNumber = 0x10000 then .error EFI_OUT_OF_RESOURCES else .ok (UInt16.ofNat OptionNumber)

/-- Saves an option under its name. Without a path or a number nothing is written. -/
def EfiBootManagerLoadOptionToVariable (s : gRT.State) (o : LoadOption) :
    Option (EFI_STATUS × gRT.State) :=
  match o.FilePath with
  | none => some (EFI_INVALID_PARAMETER, s)
  | some FilePath =>
    if o.OptionNumber = LoadOptionNumberUnassigned then some (EFI_INVALID_PARAMETER, s)
    else do
      let Variable ← packOption o FilePath
      let VariableAttributes :=
        if o.OptionType = .PlatformRecovery then
          EFI_VARIABLE_BOOTSERVICE_ACCESS ||| EFI_VARIABLE_RUNTIME_ACCESS
        else nonVolatile
      return gRT.SetVariable s (← OptionName o.OptionType o.OptionNumber) VariableAttributes Variable

/-- "Update order variable": the number goes in at a position, or at the end. -/
def BmAddOptionNumberToOrderVariable (s : gRT.State) (OptionOrderName : List CHAR16)
    (OptionNumber : UINT16) (Position : UINTN) : EFI_STATUS × gRT.State :=
  let OptionOrder := gRT.bytes s OptionOrderName
  if OptionNumber ∈ wholeChars OptionOrder then (EFI_ALREADY_STARTED, s)
  else
    let Position := min Position.toNat (OptionOrder.length / 2)
    gRT.SetVariable s OptionOrderName nonVolatile
      (OptionOrder.take (Position * 2) ++ uint16Bytes OptionNumber ++ OptionOrder.drop (Position * 2))

/-- The first part of `EfiBootManagerDeleteLoadOptionVariable`: the status of the firmware is not
looked at. -/
def removeNumber (s : gRT.State) (OptionOrderName : List CHAR16) (OptionNumber : UINTN) : gRT.State :=
  let OptionOrder := gRT.bytes s OptionOrderName
  match (wholeChars OptionOrder).findIdx? fun n => n.toUInt64 = OptionNumber with
  | none => s
  | some Index => (gRT.SetVariable s OptionOrderName nonVolatile
      (OptionOrder.take (Index * 2) ++ OptionOrder.drop ((Index + 1) * 2))).2

/-- The option's number is taken out of the order, and the option is deleted whether it was listed
or not. The status is that of the deletion. -/
def EfiBootManagerDeleteLoadOptionVariable (s : gRT.State) (OptionNumber : UINTN)
    (OptionType : LoadOptionType) : Option (EFI_STATUS × gRT.State) := do
  if OptionNumber ≥ LoadOptionNumberMax then return (EFI_INVALID_PARAMETER, s)
  else
    let s := (mBmLoadOptionOrderName OptionType).elim s fun OptionOrderName =>
      removeNumber gRT s OptionOrderName OptionNumber
    return gRT.SetVariable s (← OptionName OptionType OptionNumber) 0 []

/-- What `EfiBootManagerAddLoadOptionVariable` gives back, with the number of the option, which it
changes. -/
structure Added where
  Status : EFI_STATUS
  OptionNumber : UINTN
  state : gRT.State

/-- For an option whose number is assigned. -/
def addNumbered (s : gRT.State) (o : LoadOption) (OptionOrderName : List CHAR16) (Position : UINTN) :
    Option (Added gRT) := do
  if o.OptionNumber ≥ LoadOptionNumberMax then return ⟨EFI_INVALID_PARAMETER, o.OptionNumber, s⟩
  else
    let (Status, s) := BmAddOptionNumberToOrderVariable gRT s OptionOrderName
      o.OptionNumber.toUInt16 Position
    if EFI_ERROR Status then return ⟨Status, o.OptionNumber, s⟩
    else
      let (Status, s) ← EfiBootManagerLoadOptionToVariable gRT s o
      if EFI_ERROR Status then
        let (_, s) ← EfiBootManagerDeleteLoadOptionVariable gRT s o.OptionNumber o.OptionType
        return ⟨Status, o.OptionNumber, s⟩
      else return ⟨Status, o.OptionNumber, s⟩

/-- For an option that is not null. -/
def EfiBootManagerAddLoadOptionVariable (s : gRT.State) (o : LoadOption) (Position : UINTN) :
    Option (Added gRT) :=
  match mBmLoadOptionOrderName o.OptionType with
  | none => some ⟨EFI_INVALID_PARAMETER, o.OptionNumber, s⟩
  | some OptionOrderName => do
    if o.OptionNumber = LoadOptionNumberUnassigned then
      match ← BmGetFreeOptionNumber gRT s o.OptionType with
      | .error Status => return ⟨Status, o.OptionNumber, s⟩
      | .ok OptionNumber =>
        addNumbered gRT s { o with OptionNumber := OptionNumber.toUInt64 } OptionOrderName Position
    else addNumbered gRT s o OptionOrderName Position

/-- Reads an option by its variable's name. -/
def EfiBootManagerVariableToLoadOption (s : gRT.State) (VariableName : List CHAR16) :
    Option (Except EFI_STATUS LoadOption) :=
  match EfiBootManagerIsValidLoadOptionVariableName VariableName with
  | none => some (.error EFI_INVALID_PARAMETER)
  | some (OptionType, OptionNumber) =>
    match gRT.GetVariable s VariableName with
    | none => some (.error EFI_NOT_FOUND)
    | some Variable => readLoadOption OptionType OptionNumber Variable

/-- The loop of `EfiBootManagerGetLoadOptions` over the numbers of the order. -/
def collectOptions (LoadOptionType : LoadOptionType) :
    List UINT16 → gRT.State → Option (List LoadOption × gRT.State)
  | [], s => some ([], s)
  | OptionNumber :: OptionOrder, s => do
    let OptionName ← OptionName LoadOptionType OptionNumber.toUInt64
    match ← EfiBootManagerVariableToLoadOption gRT s OptionName with
    | .error _ =>
      let (_, s) ← EfiBootManagerDeleteLoadOptionVariable gRT s OptionNumber.toUInt64 LoadOptionType
      collectOptions LoadOptionType OptionOrder s
    | .ok o =>
      let (Options, s) ← collectOptions LoadOptionType OptionOrder s
      return (o :: Options, s)

/-- `EfiBootManagerGetLoadOptions`, for a type that has an order. -/
def EfiBootManagerGetLoadOptions (s : gRT.State) (LoadOptionType : LoadOptionType) :
    Option (List LoadOption × gRT.State) := do
  let OptionOrder := gRT.bytes s (← mBmLoadOptionOrderName LoadOptionType)
  collectOptions gRT LoadOptionType (wholeChars OptionOrder) s

-- ---------------------------------------------------------------------------
-- Variables
-- ---------------------------------------------------------------------------

section Firmware

variable {gRT : RuntimeServices} {s s' : gRT.State} {name m : List CHAR16} {attributes : UINT32}
  {data : List UINT8}

/-- A change to one variable changes no other one, refused or not. -/
theorem get_of_ne (hNe : m ≠ name) :
    gRT.GetVariable (gRT.SetVariable s name attributes data).2 m = gRT.GetVariable s m := by
  cases hStatus : EFI_ERROR (gRT.SetVariable s name attributes data).1 with
  | true => rw [gRT.get_refused _ _ _ _ hStatus]
  | false => rw [gRT.get_stored _ _ _ _ hStatus, Function.update_of_ne hNe]

/-- A variable that is stored has its new bytes, where no bytes are no variable. -/
theorem bytes_stored (hStatus : EFI_ERROR (gRT.SetVariable s name attributes data).1 = false)
    (hAttributes : attributes ≠ 0) :
    gRT.bytes (gRT.SetVariable s name attributes data).2 name = data := by
  rw [RuntimeServices.bytes, gRT.get_stored _ _ _ _ hStatus, Function.update_self]
  by_cases hNil : data = []
  · rw [if_pos (Or.inr hNil), hNil]
    rfl
  · rw [if_neg (not_or.mpr ⟨hAttributes, hNil⟩)]
    rfl

/-- The bytes are those of the variable. -/
theorem bytes_congr (h : gRT.GetVariable s' m = gRT.GetVariable s m) :
    gRT.bytes s' m = gRT.bytes s m := by
  rw [RuntimeServices.bytes, h, RuntimeServices.bytes]

/-- A variable that is there. -/
theorem bytes_of_some (h : gRT.GetVariable s m = some data) : gRT.bytes s m = data := by
  rw [RuntimeServices.bytes, h]
  rfl

/-- And one that is not. -/
theorem bytes_of_none (h : gRT.GetVariable s m = none) : gRT.bytes s m = [] := by
  rw [RuntimeServices.bytes, h]
  rfl

end Firmware

/-- Such a variable is not deleted by its attributes. -/
theorem nonVolatile_ne_zero : nonVolatile ≠ 0 := by decide

-- ---------------------------------------------------------------------------
-- Names
-- ---------------------------------------------------------------------------

section Names

variable {t t' : LoadOptionType} {n n' : UINT16} {name : List CHAR16}

/-- An option's name says its type and its number. -/
theorem variableName_inj (h : variableName t n.toNat = variableName t' n'.toNat) :
    t = t' ∧ n = n' := by
  have hRead := isValidName_variableName t n
  rw [h, isValidName_variableName t' n', Option.some.injEq, Prod.mk.injEq] at hRead
  exact ⟨hRead.1.symm, hRead.2.symm⟩

/-- The variables of the orders are no options. -/
theorem isValidName_orderName (h : mBmLoadOptionOrderName t = some name) :
    EfiBootManagerIsValidLoadOptionVariableName name = none := by
  cases t <;> cases h <;> decide

/-- So an option does not overwrite an order. -/
theorem variableName_ne_orderName (h : mBmLoadOptionOrderName t = some name) :
    variableName t' n.toNat ≠ name := by
  rintro rfl
  have hNone := isValidName_orderName h
  rw [isValidName_variableName] at hNone
  cases hNone

/-- Each type has an order of its own. -/
theorem orderName_inj (h : mBmLoadOptionOrderName t = some name)
    (h' : mBmLoadOptionOrderName t' = some name) : t = t' := by
  cases t <;> cases h <;> cases t' <;> first
    | rfl
    | exact absurd h' (by decide)

end Names

-- ---------------------------------------------------------------------------
-- The words of an order
-- ---------------------------------------------------------------------------

/-!
An order is changed by its bytes, and an odd one at the end stays there. The words are changed as a
list is.
-/

/-- Words are read back from their bytes. -/
theorem wholeChars_flatMap (ns : List UINT16) (rest : List UINT8) :
    wholeChars (ns.flatMap uint16Bytes ++ rest) = ns ++ wholeChars rest := by
  induction ns with
  | nil => rfl
  | cons n ns ih =>
    obtain ⟨low, high, hBytes, rfl⟩ := PathMemory.exists_uint16Bytes n
    rw [List.flatMap_cons, hBytes, List.append_assoc, List.cons_append, List.cons_append,
      List.nil_append, wholeChars, ih]
    rfl

/-- Words in front are left out with their bytes. -/
theorem wholeChars_drop (data : List UINT8) (k : Nat) :
    wholeChars (data.drop (k * 2)) = (wholeChars data).drop k := by
  induction data using wholeChars.induct generalizing k with
  | case1 => simp [wholeChars]
  | case2 b =>
    cases k with
    | zero => rfl
    | succ k =>
      rw [Nat.succ_mul, List.drop_succ_cons, List.drop_nil]
      rfl
  | case3 low high rest ih =>
    cases k with
    | zero => rfl
    | succ k =>
      rw [Nat.succ_mul, List.drop_succ_cons, List.drop_succ_cons, ih, wholeChars,
        List.drop_succ_cons]

/-- The bytes of the first words. -/
theorem take_words {data : List UINT8} {k : Nat} (hk : k ≤ data.length / 2) :
    data.take (k * 2) = ((wholeChars data).take k).flatMap uint16Bytes := by
  rw [Nat.mul_comm, flatMap_take_wholeChars hk]

/-- The words after a word was put between them, in front of the one at a position. -/
theorem wholeChars_insert (data : List UINT8) (n : UINT16) (p : Nat) :
    wholeChars (data.take (min p (data.length / 2) * 2) ++ uint16Bytes n ++
        data.drop (min p (data.length / 2) * 2)) =
      (wholeChars data).take p ++ n :: (wholeChars data).drop p := by
  have hOne : uint16Bytes n = [n].flatMap uint16Bytes := (List.flatMap_singleton _ _).symm
  rw [take_words (Nat.min_le_right _ _), hOne, List.append_assoc, wholeChars_flatMap,
    wholeChars_flatMap, wholeChars_drop]
  rcases Nat.le_total p (data.length / 2) with hLe | hLe
  · rw [Nat.min_eq_left hLe]
    rfl
  · rw [← length_wholeChars] at hLe ⊢
    rw [Nat.min_eq_right hLe, List.take_length, List.drop_length, List.take_of_length_le hLe,
      List.drop_of_length_le hLe]
    rfl

/-- The words after the one at a position was taken out. -/
theorem wholeChars_remove (data : List UINT8) {i : Nat} (hi : i < (wholeChars data).length) :
    wholeChars (data.take (i * 2) ++ data.drop ((i + 1) * 2)) = (wholeChars data).eraseIdx i := by
  rw [length_wholeChars] at hi
  rw [take_words hi.le, wholeChars_flatMap, wholeChars_drop, List.eraseIdx_eq_take_drop_succ]

-- ---------------------------------------------------------------------------
-- The listing of one type
-- ---------------------------------------------------------------------------

/-!
The variables of a type are looked at as a `Listing`: the numbers in its order, and what can be read
for each of them. Other variables do not matter for it.
-/

/-- The numbers in the order of a type. -/
def numbers (s : gRT.State) (t : LoadOptionType) : List UINT16 :=
  (mBmLoadOptionOrderName t).elim [] fun name => wholeChars (gRT.bytes s name)

/-- The option with a number, where it can be read. -/
def loaded (s : gRT.State) (t : LoadOptionType) (n : UINT16) : Option LoadOption :=
  (EfiBootManagerVariableToLoadOption gRT s (variableName t n.toNat)).bind Except.toOption

/-- The order and the options of a type. -/
def listing (s : gRT.State) (t : LoadOptionType) : Listing UINT16 LoadOption where
  order := numbers gRT s t
  lookup := loaded gRT s t

/-- No other variables are changed than the order and the options of the type. -/
def SameElsewhere (s s' : gRT.State) (t : LoadOptionType) : Prop :=
  ∀ m, mBmLoadOptionOrderName t ≠ some m → (∀ n : UINT16, m ≠ variableName t n.toNat) →
    gRT.GetVariable s' m = gRT.GetVariable s m

variable {gRT} {s s' : gRT.State} {t t' : LoadOptionType} {n : UINT16} {name : List CHAR16}

/-- For a type that has an order. -/
theorem numbers_eq (h : mBmLoadOptionOrderName t = some name) :
    numbers gRT s t = wholeChars (gRT.bytes s name) := by
  rw [numbers, h]
  rfl

/-- The reader looks at the one variable. -/
theorem variableToLoadOption_congr {m : List CHAR16}
    (h : gRT.GetVariable s' m = gRT.GetVariable s m) :
    EfiBootManagerVariableToLoadOption gRT s' m = EfiBootManagerVariableToLoadOption gRT s m := by
  rw [EfiBootManagerVariableToLoadOption, h, EfiBootManagerVariableToLoadOption]

/-- Without a variable there is an error, and not the lack of a result. -/
theorem variableToLoadOption_none (h : gRT.GetVariable s (variableName t n.toNat) = none) :
    EfiBootManagerVariableToLoadOption gRT s (variableName t n.toNat) =
      some (.error EFI_NOT_FOUND) := by
  rw [EfiBootManagerVariableToLoadOption, isValidName_variableName, h]

/-- An option is as its variable is. -/
theorem loaded_congr (h : gRT.GetVariable s' (variableName t n.toNat) =
    gRT.GetVariable s (variableName t n.toNat)) : loaded gRT s' t n = loaded gRT s t n := by
  rw [loaded, variableToLoadOption_congr h, loaded]

/-- No variable, no option. -/
theorem loaded_none (h : gRT.GetVariable s (variableName t n.toNat) = none) :
    loaded gRT s t n = none := by
  rw [loaded, variableToLoadOption_none h]
  rfl

/-- What is loaded was read from the variable of its number. -/
theorem read_of_loaded {o : LoadOption} (h : loaded gRT s t n = some o) :
    ∃ V, gRT.GetVariable s (variableName t n.toNat) = some V ∧
      readLoadOption t n V = some (.ok o) := by
  obtain ⟨r, hRead, hOption⟩ := Option.bind_eq_some_iff.mp h
  obtain ⟨Status⟩ | ⟨o'⟩ := r
  · cases hOption
  · cases hOption
    rw [EfiBootManagerVariableToLoadOption, isValidName_variableName] at hRead
    cases hVariable : gRT.GetVariable s (variableName t n.toNat) with
    | none =>
      rw [hVariable] at hRead
      cases hRead
    | some V =>
      rw [hVariable] at hRead
      exact ⟨V, rfl, hRead⟩

/-- An option is found under its own number. -/
theorem number_of_loaded {o : LoadOption} (h : loaded gRT s t n = some o) :
    o.OptionNumber = n.toUInt64 := by
  obtain ⟨V, -, hRead⟩ := read_of_loaded h
  exact number_of_readLoadOption hRead

namespace SameElsewhere

/-- Nothing is changed. -/
theorem refl (gRT : RuntimeServices) (s : gRT.State) (t : LoadOptionType) : SameElsewhere gRT s s t :=
  fun _ _ _ => rfl

/-- One change after another one. -/
theorem trans {s'' : gRT.State} (h : SameElsewhere gRT s s' t) (h' : SameElsewhere gRT s' s'' t) :
    SameElsewhere gRT s s'' t :=
  fun m hm hOption => (h' m hm hOption).trans (h m hm hOption)

/-- The other types keep their listings. -/
theorem listing_eq (h : SameElsewhere gRT s s' t) (hNe : t' ≠ t) :
    listing gRT s' t' = listing gRT s t' := by
  have hNumbers : numbers gRT s' t' = numbers gRT s t' := by
    cases hName : mBmLoadOptionOrderName t' with
    | none => rw [numbers, hName, numbers, hName]; rfl
    | some name =>
      rw [numbers_eq hName, numbers_eq hName, bytes_congr (h name ?_ ?_)]
      · exact fun hSame => hNe (orderName_inj hName hSame)
      · exact fun n => (variableName_ne_orderName hName).symm
  have hLoaded : loaded gRT s' t' = loaded gRT s t' := by
    funext n
    refine loaded_congr (h _ ?_ ?_)
    · exact fun hSame => variableName_ne_orderName hSame rfl
    · exact fun n' hSame => hNe (variableName_inj hSame).1
  rw [listing, hNumbers, hLoaded, listing]

end SameElsewhere

-- ---------------------------------------------------------------------------
-- The number of a new option
-- ---------------------------------------------------------------------------

/-- The number in `BootNext`. -/
def nextNumbers (BootNext : Option (List UINT8)) : List Nat :=
  BootNext.elim [] fun data => ((wholeChars data).take 1).map UInt16.toNat

/-- The numbers that an option of the type must not get. -/
def usedNumbers (gRT : RuntimeServices) (s : gRT.State) (t : LoadOptionType) : List Nat :=
  (numbers gRT s t).map UInt16.toNat ++ nextNumbers (readBootNext gRT s t)

/-- Numbers have 16 bits. -/
theorem lt_of_mem_usedNumbers {k : Nat} (h : k ∈ usedNumbers gRT s t) : k < 0x10000 := by
  obtain ⟨v, rfl⟩ : ∃ v : UINT16, v.toNat = k := by
    rcases List.mem_append.mp h with hOrder | hNext
    · obtain ⟨v, -, hv⟩ := List.mem_map.mp hOrder
      exact ⟨v, hv⟩
    · cases hBoot : readBootNext gRT s t with
      | none =>
        rw [hBoot] at hNext
        cases hNext
      | some data =>
        rw [hBoot] at hNext
        obtain ⟨v, -, hv⟩ := List.mem_map.mp hNext
        exact ⟨v, hv⟩
  exact v.toNat_lt

/-- Of `BootNext` only the first word counts. -/
theorem nextNumbers_read {data : List UINT8} (h : 2 ≤ data.length) :
    ∃ v : UINT16, PathMemory.ReadUnaligned16 data 0 = some v ∧ nextNumbers (some data) = [v.toNat] := by
  obtain ⟨v, rest, rfl⟩ := exists_uint16Bytes_append h
  refine ⟨v, ?_, ?_⟩
  · exact ReadUnaligned16_append [] rest v (by decide)
  · have hWords := wholeChars_flatMap [v] rest
    rw [List.flatMap_singleton] at hWords
    rw [nextNumbers, Option.elim_some, hWords]
    rfl

/-- Where all numbers below are used, the search goes on to the least that is not. Since no more are
used than there are turns, it gets there. -/
theorem searchNumber_least {order : List UINT16} {BootNext : Option (List UINT8)}
    (hNext : ∀ data, BootNext = some data → 2 ≤ data.length) {turns n : Nat}
    (hTurns : n + turns = (order.map UInt16.toNat ++ nextNumbers BootNext).length)
    (hBelow : ∀ m < n, m ∈ order.map UInt16.toNat ++ nextNumbers BootNext) :
    ∃ r, searchNumber order BootNext turns n = some r ∧
      IsLeast {m | m ∉ order.map UInt16.toNat ++ nextNumbers BootNext} r := by
  have hStop : ∀ {k}, k ∉ order.map UInt16.toNat → k ∉ nextNumbers BootNext →
      k ∉ order.map UInt16.toNat ++ nextNumbers BootNext := fun hOrder hNext hMem =>
    (List.mem_append.mp hMem).elim hOrder hNext
  induction turns generalizing n with
  | zero => exact ⟨n, rfl, Listing.isLeast_absent hBelow (Or.inr hTurns)⟩
  | succ turns ih =>
    have hMore : n ∈ order.map UInt16.toNat ++ nextNumbers BootNext → ∃ r,
        searchNumber order BootNext turns (n + 1) = some r ∧
          IsLeast {m | m ∉ order.map UInt16.toNat ++ nextNumbers BootNext} r := fun hMem =>
      ih (by omega) fun m hm => by
        rcases Nat.lt_succ_iff_lt_or_eq.mp hm with hLt | rfl
        · exact hBelow m hLt
        · exact hMem
    rw [searchNumber]
    by_cases hListed : n ∈ order.map UInt16.toNat
    · -- used, and `BootNext` is not looked at
      rw [if_pos hListed]
      exact hMore (List.mem_append_left _ hListed)
    · rw [if_neg hListed]
      cases hBoot : BootNext with
      | none =>
        refine ⟨n, rfl, ?_⟩
        rw [← hBoot]
        exact Listing.isLeast_absent hBelow (Or.inl (hStop hListed (by rw [hBoot]; exact List.not_mem_nil)))
      | some data =>
        obtain ⟨v, hRead, hOne⟩ := nextNumbers_read (hNext data hBoot)
        rw [← hBoot] at hOne
        rw [Option.elim_some, hRead, ← hBoot]
        by_cases hSame : n = v.toNat
        · simp only [Option.map_some, hSame, ne_eq, not_true_eq_false, decide_false,
            Option.bind_eq_bind, Option.bind_some, Bool.false_eq_true, if_false]
          rw [← hSame]
          exact hMore (List.mem_append_right _ (by rw [hOne, hSame]; exact List.mem_singleton_self _))
        · refine ⟨n, by simp [hSame], Listing.isLeast_absent hBelow (Or.inl (hStop hListed ?_))⟩
          rw [hOne, List.mem_singleton]
          exact hSame

/-- The search makes no more turns than it is given. -/
theorem searchNumber_le {order : List UINT16} {BootNext : Option (List UINT8)} {turns n r : Nat}
    (h : searchNumber order BootNext turns n = some r) : r ≤ n + turns := by
  induction turns generalizing n with
  | zero => exact (Option.some.inj h).ge
  | succ turns ih =>
    have hMore : searchNumber order BootNext turns (n + 1) = some r → r ≤ n + (turns + 1) :=
      fun hRest => (ih hRest).trans (by omega)
    rw [searchNumber] at h
    split_ifs at h with hListed
    · exact hMore h
    · obtain ⟨free, -, h⟩ := Option.bind_eq_some_iff.mp h
      cases free with
      | true =>
        cases h
        exact Nat.le_add_right _ _
      | false => exact hMore h

/-- Where no number is free, all of them are in the order but for the one that is started next. -/
theorem full_of_noFreeNumber {Status : EFI_STATUS}
    (h : BmGetFreeOptionNumber gRT s t = some (.error Status)) :
    Status = EFI_OUT_OF_RESOURCES ∧ 0xFFFF ≤ (numbers gRT s t).length := by
  obtain ⟨name, hName, h⟩ := Option.bind_eq_some_iff.mp h
  obtain ⟨OptionNumber, hSearch, h⟩ := Option.bind_eq_some_iff.mp h
  rw [← numbers_eq hName] at hSearch
  have hLe := searchNumber_le hSearch
  split_ifs at h with hNone
  · cases h
    refine ⟨rfl, ?_⟩
    split_ifs at hLe
    · omega
    · omega
  · cases h

/--
**The free number** is the least one that is neither in the order nor to be started next; with
`0x10000` there is none.
-/
theorem BmGetFreeOptionNumber_least (hName : mBmLoadOptionOrderName t = some name)
    (hNext : t = .Boot → (gRT.bytes s (L "BootNext")).length ≠ 1) :
    ∃ n, IsLeast {m | m ∉ usedNumbers gRT s t} n ∧ n ≤ 0x10000 ∧ BmGetFreeOptionNumber gRT s t =
      some (if n = 0x10000 then .error EFI_OUT_OF_RESOURCES else .ok (UInt16.ofNat n)) := by
  have hTwo : ∀ data, readBootNext gRT s t = some data → 2 ≤ data.length := by
    intro data hData
    rw [readBootNext] at hData
    split_ifs at hData with hBoot
    have hOne := hNext hBoot
    have hZero : data ≠ [] := fun hNil => gRT.no_empty s _ (hNil ▸ hData)
    rw [bytes_of_some hData] at hOne
    rw [← List.length_pos_iff] at hZero
    omega
  -- the source counts one turn more where there is a `BootNext`
  have hLength : (nextNumbers (readBootNext gRT s t)).length =
      if (readBootNext gRT s t).isSome then 1 else 0 := by
    cases hBoot : readBootNext gRT s t with
    | none => rfl
    | some data =>
      obtain ⟨v, -, hOne⟩ := nextNumbers_read (hTwo data hBoot)
      rw [hOne]
      rfl
  obtain ⟨r, hSearch, hLeast⟩ := searchNumber_least hTwo (Nat.zero_add
    ((numbers gRT s t).map UInt16.toNat ++ nextNumbers (readBootNext gRT s t)).length)
    (fun m hm => absurd hm (Nat.not_lt_zero m))
  rw [List.length_append, List.length_map, hLength, numbers_eq hName] at hSearch
  refine ⟨r, hLeast, hLeast.2 fun hMem => (lt_of_mem_usedNumbers hMem).false, ?_⟩
  rw [BmGetFreeOptionNumber, hName]
  simp only [Option.bind_eq_bind, Option.bind_some, hSearch]
  rfl

/-- Where 0 is in the order and 1 is started next. -/
def usedStore : tableServices.State := fun name =>
  if name = L "BootOrder" then some ⟨[0, 0], List.cons_ne_nil _ _⟩
  else if name = L "BootNext" then some ⟨[1, 0], List.cons_ne_nil _ _⟩
  else none

-- ---------------------------------------------------------------------------
-- Changing the order
-- ---------------------------------------------------------------------------

/-- "Changing the *Order content without increasing its size with current variable implementation
shouldn't fail." -/
def Shrinks (gRT : RuntimeServices) : Prop :=
  ∀ s t name old data, mBmLoadOptionOrderName t = some name → gRT.GetVariable s name = some old →
    data.length ≤ old.length → EFI_ERROR (gRT.SetVariable s name nonVolatile data).1 = false

/-- An order that is there is written with no more bytes than it has. -/
theorem Shrinks.taken {data : List UINT8} (h : Shrinks gRT)
    (hName : mBmLoadOptionOrderName t = some name) (hSome : gRT.bytes s name ≠ [])
    (hLength : data.length ≤ (gRT.bytes s name).length) :
    EFI_ERROR (gRT.SetVariable s name nonVolatile data).1 = false := by
  cases hOld : gRT.GetVariable s name with
  | none => exact absurd (bytes_of_none hOld) hSome
  | some old =>
    rw [bytes_of_some hOld] at hLength
    exact h s t name old data hName hOld hLength

/-- A table takes whatever it is given. -/
theorem shrinks_tableServices : Shrinks tableServices := by
  intro s t name old data _ hOld _
  simp only [tableServices] at hOld ⊢
  obtain ⟨entry, hEntry, -⟩ := Option.map_eq_some_iff.mp hOld
  rw [hEntry]
  split_ifs with hGone hNone
  · cases hNone
  · rfl
  · rfl

/-- The firmware turned the order of a type, or an option in it, down with this status. -/
def TurnedDown (gRT : RuntimeServices) (t : LoadOptionType) (Status : EFI_STATUS) : Prop :=
  ∃ s name data, (mBmLoadOptionOrderName t = some name ∨ ∃ n : UINT16, name = variableName t n.toNat) ∧
    data ≠ [] ∧ (gRT.SetVariable s name nonVolatile data).1 = Status

/-- A number is put into the order once, or the variables stay as they are. -/
theorem addNumber_cases (gRT : RuntimeServices) (s : gRT.State)
    (hName : mBmLoadOptionOrderName t = some name) (n : UINT16) (Position : UINTN) :
    (EFI_ERROR (BmAddOptionNumberToOrderVariable gRT s name n Position).1 = true ∧
      gRT.GetVariable (BmAddOptionNumberToOrderVariable gRT s name n Position).2 =
        gRT.GetVariable s ∧
      (n ∈ numbers gRT s t ∧
          (BmAddOptionNumberToOrderVariable gRT s name n Position).1 = EFI_ALREADY_STARTED ∨
        TurnedDown gRT t (BmAddOptionNumberToOrderVariable gRT s name n Position).1)) ∨
    (EFI_ERROR (BmAddOptionNumberToOrderVariable gRT s name n Position).1 = false ∧
      n ∉ numbers gRT s t ∧
      numbers gRT (BmAddOptionNumberToOrderVariable gRT s name n Position).2 t =
        (numbers gRT s t).take Position.toNat ++ n :: (numbers gRT s t).drop Position.toNat ∧
      ∀ m ≠ name, gRT.GetVariable (BmAddOptionNumberToOrderVariable gRT s name n Position).2 m =
        gRT.GetVariable s m) := by
  rw [numbers_eq hName, numbers_eq hName, BmAddOptionNumberToOrderVariable]
  split_ifs with hListed
  · exact Or.inl ⟨(by decide : EFI_ERROR EFI_ALREADY_STARTED = true), rfl, Or.inl ⟨hListed, rfl⟩⟩
  · cases hStatus : EFI_ERROR (gRT.SetVariable s name nonVolatile _).1 with
    | true =>
      refine Or.inl ⟨rfl, gRT.get_refused _ _ _ _ hStatus, Or.inr ⟨s, name, _, Or.inl hName, ?_, rfl⟩⟩
      -- the order has the new number at least
      intro hNil
      have hLength := congrArg List.length hNil
      simp only [List.length_append, length_uint16Bytes, List.length_nil] at hLength
      omega
    | false =>
      refine Or.inr ⟨rfl, hListed, ?_, fun m hm => get_of_ne hm⟩
      rw [bytes_stored hStatus nonVolatile_ne_zero, wholeChars_insert]

/-- A number is taken out of the order, where the firmware lets it be. -/
theorem removeNumber_cases (s : gRT.State) (hName : mBmLoadOptionOrderName t = some name)
    (n : UINT16) :
    (numbers gRT (removeNumber gRT s name n.toUInt64) t = (numbers gRT s t).erase n ∨
      ¬ Shrinks gRT ∧ numbers gRT (removeNumber gRT s name n.toUInt64) t = numbers gRT s t) ∧
    ∀ m ≠ name, gRT.GetVariable (removeNumber gRT s name n.toUInt64) m = gRT.GetVariable s m := by
  have hSame : (fun m : UINT16 => decide (m.toUInt64 = n.toUInt64)) = fun m => n == m := by
    funext m
    rw [Bool.eq_iff_iff, decide_eq_true_iff, beq_iff_eq, ← UInt64.toNat_inj, UInt16.toNat_toUInt64,
      UInt16.toNat_toUInt64, UInt16.toNat_inj]
    exact eq_comm
  rw [numbers_eq hName, numbers_eq hName, removeNumber, hSame, List.erase_eq_eraseP,
    List.eraseP_eq_eraseIdx]
  cases hFind : (wholeChars (gRT.bytes s name)).findIdx? fun m => n == m with
  | none => exact ⟨Or.inl rfl, fun m _ => rfl⟩
  | some i =>
    obtain ⟨hi, -⟩ := List.findIdx?_eq_some_iff_getElem.mp hFind
    refine ⟨?_, fun m hm => get_of_ne hm⟩
    cases hStatus : EFI_ERROR (gRT.SetVariable s name nonVolatile
        ((gRT.bytes s name).take (i * 2) ++ (gRT.bytes s name).drop ((i + 1) * 2))).1 with
    | false => exact Or.inl (by rw [bytes_stored hStatus nonVolatile_ne_zero, wholeChars_remove _ hi])
    | true =>
      refine Or.inr ⟨fun hShrinks => ?_, ?_⟩
      · -- two bytes less are no reason to refuse
        have hSome : gRT.bytes s name ≠ [] := fun hNil => by
          rw [hNil] at hi
          cases hi
        have hTaken : EFI_ERROR (gRT.SetVariable s name nonVolatile
            ((gRT.bytes s name).take (i * 2) ++ (gRT.bytes s name).drop ((i + 1) * 2))).1 =
              false := hShrinks.taken hName hSome (by
          rw [List.length_append, List.length_take, List.length_drop]
          omega)
        rw [hStatus] at hTaken
        cases hTaken
      · rw [bytes_congr (congrFun (gRT.get_refused _ _ _ _ hStatus) name)]

-- ---------------------------------------------------------------------------
-- Deleting
-- ---------------------------------------------------------------------------

/-- What a deletion does, with the status that it ends with. -/
structure Deletes (gRT : RuntimeServices) (s s' : gRT.State) (t : LoadOptionType) (n : UINT16)
    (Status : EFI_STATUS) : Prop where
  elsewhere : ∀ m, mBmLoadOptionOrderName t ≠ some m → m ≠ variableName t n.toNat →
    gRT.GetVariable s' m = gRT.GetVariable s m
  order : numbers gRT s' t = (numbers gRT s t).erase n ∨
    ¬ Shrinks gRT ∧ numbers gRT s' t = numbers gRT s t
  option : gRT.GetVariable s' (variableName t n.toNat) = none ∨ EFI_ERROR Status = true ∧
    gRT.GetVariable s' (variableName t n.toNat) = gRT.GetVariable s (variableName t n.toNat)

/-- No number of 16 bits is turned down. -/
theorem toUInt64_lt_max (n : UINT16) : ¬ n.toUInt64 ≥ LoadOptionNumberMax := by
  have hLt := n.toNat_lt
  rw [ge_iff_le, UInt64.le_iff_toNat_le, UInt16.toNat_toUInt64, Nat.not_le]
  exact hLt

/-- **A deletion** always has a result: the number is out of the order where the firmware lets it
be, the option is gone or the status an error. -/
theorem exists_deletes (gRT : RuntimeServices) (s : gRT.State) (t : LoadOptionType) (n : UINT16) :
    ∃ Status s', EfiBootManagerDeleteLoadOptionVariable gRT s n.toUInt64 t = some (Status, s') ∧
      Deletes gRT s s' t n Status := by
  -- the order first
  obtain ⟨between, hBetween, hElsewhere, hOrder⟩ : ∃ between,
      (mBmLoadOptionOrderName t).elim s (fun name => removeNumber gRT s name n.toUInt64) = between ∧
      (∀ m, mBmLoadOptionOrderName t ≠ some m → gRT.GetVariable between m = gRT.GetVariable s m) ∧
      (numbers gRT between t = (numbers gRT s t).erase n ∨
        ¬ Shrinks gRT ∧ numbers gRT between t = numbers gRT s t) := by
    refine ⟨_, rfl, ?_⟩
    cases hName : mBmLoadOptionOrderName t with
    | none =>
      refine ⟨fun _ _ => rfl, Or.inl ?_⟩
      rw [Option.elim_none, numbers, hName]
      rfl
    | some name =>
      obtain ⟨hOrder, hSame⟩ := removeNumber_cases s hName n
      exact ⟨fun m hm => hSame m fun hEq => hm (congrArg some hEq.symm), hOrder⟩
  -- then the option
  have hNumbers : numbers gRT (gRT.SetVariable between (variableName t n.toNat) 0 []).2 t =
      numbers gRT between t := by
    cases hName : mBmLoadOptionOrderName t with
    | none => rw [numbers, hName, numbers, hName]; rfl
    | some name =>
      rw [numbers_eq hName, numbers_eq hName,
        bytes_congr (get_of_ne (variableName_ne_orderName hName).symm)]
  refine ⟨(gRT.SetVariable between (variableName t n.toNat) 0 []).1,
    (gRT.SetVariable between (variableName t n.toNat) 0 []).2, ?_,
    fun m hm hNe => (get_of_ne hNe).trans (hElsewhere m hm), ?_, ?_⟩
  · rw [EfiBootManagerDeleteLoadOptionVariable, if_neg (toUInt64_lt_max n), hBetween,
      optionName_small]
    rfl
  · rw [hNumbers]
    exact hOrder
  · cases hStatus : EFI_ERROR (gRT.SetVariable between (variableName t n.toNat) 0 []).1 with
    | false =>
      left
      rw [gRT.get_stored _ _ _ _ hStatus, Function.update_self, if_pos (Or.inl rfl)]
    | true =>
      right
      refine ⟨rfl, ?_⟩
      rw [gRT.get_refused _ _ _ _ hStatus]
      exact hElsewhere _ fun hSame => variableName_ne_orderName hSame rfl

namespace Deletes

variable {Status : EFI_STATUS}

/-- A deletion of one type. -/
theorem sameElsewhere (h : Deletes gRT s s' t n Status) : SameElsewhere gRT s s' t :=
  fun m hm hOption => h.elsewhere m hm (hOption n)

/-- And of one option. -/
theorem get_option_of_ne (h : Deletes gRT s s' t n Status) {n' : UINT16} (hNe : n' ≠ n) :
    gRT.GetVariable s' (variableName t n'.toNat) = gRT.GetVariable s (variableName t n'.toNat) :=
  h.elsewhere _ (fun hSame => variableName_ne_orderName hSame rfl)
    fun hSame => hNe (variableName_inj hSame).2

/-- What could not be read before is not read afterwards, either. -/
theorem loaded_eq (h : Deletes gRT s s' t n Status) (hNone : loaded gRT s t n = none) :
    loaded gRT s' t = loaded gRT s t := by
  funext n'
  by_cases hSame : n' = n
  · subst hSame
    rcases h.option with hGone | ⟨-, hKept⟩
    · rw [loaded_none hGone, hNone]
    · exact loaded_congr hKept
  · exact loaded_congr (h.get_option_of_ne hSame)

/-- **A deletion that succeeds** erases the option from its listing. -/
theorem listing_eq (h : Deletes gRT s s' t n Status) (hStatus : EFI_ERROR Status = false)
    (hShrinks : Shrinks gRT) : listing gRT s' t = (listing gRT s t).erase n := by
  have hOrder := h.order.resolve_right fun hRefused => hRefused.1 hShrinks
  have hLookup : loaded gRT s' t = Function.update (loaded gRT s t) n none := by
    funext n'
    by_cases hSame : n' = n
    · subst hSame
      rw [Function.update_self]
      refine loaded_none (h.option.resolve_right fun hKept => ?_)
      rw [hStatus] at hKept
      cases hKept.1
    · rw [Function.update_of_ne hSame, loaded_congr (h.get_option_of_ne hSame)]
  rw [listing, hOrder, hLookup]
  rfl

end Deletes

-- ---------------------------------------------------------------------------
-- Reading all of the options
-- ---------------------------------------------------------------------------

/-!
The order is read once. While the loop goes through its numbers, it deletes the options that cannot
be read, and with them their numbers from the variable that the order was read from.
-/

/-- No variable of the order makes the reader look behind its end. -/
def Readable (gRT : RuntimeServices) (s : gRT.State) (t : LoadOptionType) (ns : List UINT16) : Prop :=
  ∀ n ∈ ns, EfiBootManagerVariableToLoadOption gRT s (variableName t n.toNat) ≠ none

/-- A deletion does not make a variable unreadable. -/
theorem Deletes.readable {Status : EFI_STATUS} {ns : List UINT16} (h : Deletes gRT s s' t n Status)
    (hReadable : Readable gRT s t ns) : Readable gRT s' t ns := by
  intro n' hn'
  by_cases hSame : n' = n
  · subst hSame
    rcases h.option with hGone | ⟨-, hKept⟩
    · rw [variableToLoadOption_none hGone]
      exact Option.some_ne_none _
    · rw [variableToLoadOption_congr hKept]
      exact hReadable n' hn'
  · rw [variableToLoadOption_congr (h.get_option_of_ne hSame)]
    exact hReadable n' hn'

/-- Nor does it put anything into the order. -/
theorem Deletes.sublist {Status : EFI_STATUS} (h : Deletes gRT s s' t n Status) :
    (numbers gRT s' t).Sublist (numbers gRT s t) := by
  rcases h.order with hErased | ⟨-, hKept⟩
  · rw [hErased]
    exact List.erase_sublist
  · rw [hKept]

/-- The loop puts nothing into an order. -/
theorem collectOptions_sublist {ns : List UINT16} {l : List LoadOption}
    (h : collectOptions gRT t ns s = some (l, s')) :
    SameElsewhere gRT s s' t ∧ (numbers gRT s' t).Sublist (numbers gRT s t) := by
  induction ns generalizing s l with
  | nil =>
    cases h
    exact ⟨SameElsewhere.refl gRT _ t, List.Sublist.refl _⟩
  | cons n ns ih =>
    rw [collectOptions, optionName_small, Option.bind_eq_bind, Option.bind_some] at h
    obtain ⟨r, -, h⟩ := Option.bind_eq_some_iff.mp h
    cases r with
    | error Status =>
      obtain ⟨Status', between, hDelete, hDeletes⟩ := exists_deletes gRT s t n
      simp only [hDelete, Option.bind_eq_bind, Option.bind_some] at h
      obtain ⟨hElsewhere, hSublist⟩ := ih h
      exact ⟨hDeletes.sameElsewhere.trans hElsewhere, hSublist.trans hDeletes.sublist⟩
    | ok o =>
      obtain ⟨⟨Options, s''⟩, hRest, hPair⟩ := Option.bind_eq_some_iff.mp h
      cases hPair
      exact ih hRest

/-- Where every number has its option, the loop changes nothing. -/
theorem collectOptions_complete {ns : List UINT16} (h : ∀ n ∈ ns, ∃ o, loaded gRT s t n = some o) :
    collectOptions gRT t ns s = some (ns.filterMap (loaded gRT s t), s) := by
  induction ns with
  | nil => rfl
  | cons n ns ih =>
    obtain ⟨⟨o, hLoaded⟩, hRest⟩ := List.forall_mem_cons.mp h
    obtain ⟨V, hVariable, hRead⟩ := read_of_loaded hLoaded
    rw [collectOptions, optionName_small, List.filterMap_cons_some hLoaded]
    simp only [Option.bind_eq_bind, Option.bind_some, EfiBootManagerVariableToLoadOption,
      isValidName_variableName, hVariable, hRead, ih hRest]
    rfl

/-- **The loop** takes the options that can be read, and the other numbers out of the order. What
is left, where the firmware keeps a number, has the same options. -/
theorem collectOptions_eq {ns : List UINT16} (hReadable : Readable gRT s t ns) :
    ∃ s', collectOptions gRT t ns s = some (ns.filterMap (loaded gRT s t), s') ∧
      loaded gRT s' t = loaded gRT s t ∧
      (∀ ns', Readable gRT s t ns' → Readable gRT s' t ns') ∧
      (numbers gRT s' t).filterMap (loaded gRT s t) = (numbers gRT s t).filterMap (loaded gRT s t) ∧
      (Shrinks gRT → numbers gRT s' t =
        (numbers gRT s t).diff (ns.filter fun n => (loaded gRT s t n).isNone)) := by
  induction ns generalizing s with
  | nil => exact ⟨s, rfl, rfl, fun _ h => h, rfl, fun _ => rfl⟩
  | cons n ns ih =>
    obtain ⟨hFirst, hRest⟩ := List.forall_mem_cons.mp hReadable
    obtain ⟨r, hRead⟩ := Option.ne_none_iff_exists'.mp hFirst
    rw [collectOptions, optionName_small]
    simp only [Option.bind_eq_bind, Option.bind_some, hRead]
    cases r with
    | error Status =>
      -- the option is deleted, and the loop goes on with what is left
      have hNone : loaded gRT s t n = none := by
        rw [loaded, hRead]
        rfl
      obtain ⟨Status', between, hDelete, hDeletes⟩ := exists_deletes gRT s t n
      obtain ⟨s', hRun, hLoaded, hStill, hSame, hOrder⟩ := ih (hDeletes.readable hRest)
      rw [hDeletes.loaded_eq hNone] at hRun hLoaded hOrder hSame
      refine ⟨s', ?_, hLoaded, fun ns' h => hStill ns' (hDeletes.readable h), ?_, fun hShrinks => ?_⟩
      · rw [List.filterMap_cons_none hNone, ← hRun, hDelete]
        rfl
      · -- the number had no option, whether it is out of the order or not
        rw [hSame]
        rcases hDeletes.order with hErased | ⟨-, hKept⟩
        · rw [hErased, Listing.filterMap_erase hNone]
        · rw [hKept]
      · have hErased := hDeletes.order.resolve_right fun hRefused => hRefused.1 hShrinks
        rw [hOrder hShrinks, hErased, List.filter_cons_of_pos (by rw [hNone]; rfl), List.diff_cons]
    | ok o =>
      have hFound : loaded gRT s t n = some o := by
        rw [loaded, hRead]
        rfl
      obtain ⟨s', hRun, hLoaded, hStill, hSame, hOrder⟩ := ih hRest
      refine ⟨s', ?_, hLoaded, hStill, hSame, fun hShrinks => ?_⟩
      · rw [List.filterMap_cons_some hFound, hRun]
        rfl
      · rw [hOrder hShrinks, List.filter_cons_of_neg (by rw [hFound]; exact Bool.false_ne_true)]

/--
**Reading all of the options** gives those that can be read, in their order. It can be done again
with the same result, and prunes the listing to them where the firmware lets it.
-/
theorem GetLoadOptions_eq (hName : mBmLoadOptionOrderName t = some name)
    (hReadable : Readable gRT s t (numbers gRT s t)) :
    ∃ s', EfiBootManagerGetLoadOptions gRT s t = some ((listing gRT s t).contents, s') ∧
      Readable gRT s' t (numbers gRT s' t) ∧
      (listing gRT s' t).contents = (listing gRT s t).contents ∧
      (Shrinks gRT → listing gRT s' t = (listing gRT s t).prune) := by
  obtain ⟨s', hRun, hLoaded, hStill, hSame, hOrder⟩ := collectOptions_eq hReadable
  obtain ⟨-, hSublist⟩ := collectOptions_sublist hRun
  refine ⟨s', ?_, fun n hn => hStill _ hReadable n (hSublist.subset hn), ?_, fun hShrinks => ?_⟩
  · rw [EfiBootManagerGetLoadOptions, hName]
    rw [numbers_eq hName] at hRun
    exact hRun.trans (by rw [Listing.contents, listing, numbers_eq hName])
  · rw [listing, hLoaded]
    exact hSame
  · rw [listing, hLoaded, hOrder hShrinks, Listing.diff_filter]
    simp [Listing.prune, listing]

/-- The number 0 is in the order without an option. -/
theorem readable_usedStore :
    Readable tableServices usedStore .Boot (numbers tableServices usedStore .Boot) := by
  intro n hn
  have hOrder : numbers tableServices usedStore .Boot = [0] := by decide
  have hNone : tableServices.GetVariable usedStore (variableName .Boot (0 : UINT16).toNat) = none := by
    decide
  rw [hOrder, List.mem_singleton] at hn
  rw [hn, variableToLoadOption_none hNone]
  exact Option.some_ne_none _

end TianJi.Model
