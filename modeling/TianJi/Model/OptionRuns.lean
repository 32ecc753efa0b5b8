import TianJi.Lib.Service
import TianJi.Model.OptionSort

/-!
# TianJi — adding, deleting, reading and sorting load options

What callers of BmLoadOption.c see over any number of calls: the options of a type are a list in
which options are put at positions, from which they are taken by number, and which is sorted. An
addition is refused for reasons that `Refusal` lists, and leaves the list as it is.

The calls find consistent variables (`Consistent`), and the firmware lets an order be changed
without growing (`Shrinks`), as the source relies on. The last section does without both.

* `adds_of_run`      — one addition, with what is taken back when the option cannot be saved.
* `refusal_of_added` — why an addition fails.
* `run_options`      — every run of calls is one over plain lists.
* `run_nodup`        — no number is listed twice, whatever the firmware refuses.
-/

namespace TianJi.Model

open PathMemory

variable {gRT : RuntimeServices} {s s' : gRT.State} {t : LoadOptionType} {n : UINT16}
  {name : List CHAR16} {o : LoadOption} {Position : UINTN} {path : DevicePath}

-- ---------------------------------------------------------------------------
-- Adding an option
-- ---------------------------------------------------------------------------

/-!
An option is added in two steps, each a write to the firmware: its number goes into the order, then
it is saved under its name. Where the second step fails, the first one is undone by a deletion,
whose own status the source does not look at. All that a caller can see of this is in `Adds`, and
every way to fail is one of `Refusal`.
-/

/-- Why an option is not added to the ones with the numbers `listed`, and the status then. -/
inductive Refusal (gRT : RuntimeServices) (listed : List UINT16) (o : LoadOption) : EFI_STATUS → Prop
  /-- Options of its type have no order. -/
  | type : mBmLoadOptionOrderName o.OptionType = none → Refusal gRT listed o EFI_INVALID_PARAMETER
  /-- Its number has more than 16 bits. -/
  | number : o.OptionNumber ≠ LoadOptionNumberUnassigned → o.OptionNumber ≥ LoadOptionNumberMax →
      Refusal gRT listed o EFI_INVALID_PARAMETER
  /-- It has no number, and all of them are taken but for the one that is started next. -/
  | full : o.OptionNumber = LoadOptionNumberUnassigned → 0xFFFF ≤ listed.length →
      Refusal gRT listed o EFI_OUT_OF_RESOURCES
  /-- Its number is taken. -/
  | taken {n : UINT16} : o.OptionNumber = n.toUInt64 → n ∈ listed →
      Refusal gRT listed o EFI_ALREADY_STARTED
  /-- It has no device path. -/
  | path : o.FilePath = none → Refusal gRT listed o EFI_INVALID_PARAMETER
  /-- The firmware does not store the order or the option. -/
  | firmware {Status : EFI_STATUS} : TurnedDown gRT o.OptionType Status → Refusal gRT listed o Status

/-- What an addition under a number does: to other variables, to the option when its number was
listed before, to the order, and what it means that it failed or not. -/
structure Adds (gRT : RuntimeServices) (s : gRT.State) (o : LoadOption) (Position : UINTN)
    (n : UINT16) (r : Added gRT) : Prop where
  number : r.OptionNumber = n.toUInt64
  elsewhere : SameElsewhere gRT s r.state o.OptionType
  others : ∀ n' ≠ n, gRT.GetVariable r.state (variableName o.OptionType n'.toNat) =
    gRT.GetVariable s (variableName o.OptionType n'.toNat)
  listed : n ∈ numbers gRT s o.OptionType →
    gRT.GetVariable r.state (variableName o.OptionType n.toNat) =
      gRT.GetVariable s (variableName o.OptionType n.toNat)
  order : numbers gRT r.state o.OptionType = numbers gRT s o.OptionType ∨
    n ∉ numbers gRT s o.OptionType ∧ numbers gRT r.state o.OptionType =
      (numbers gRT s o.OptionType).take Position.toNat ++
        n :: (numbers gRT s o.OptionType).drop Position.toNat
  reason : EFI_ERROR r.Status = true → Refusal gRT (numbers gRT s o.OptionType) o r.Status
  refused : EFI_ERROR r.Status = true → Shrinks gRT →
    numbers gRT r.state o.OptionType = numbers gRT s o.OptionType
  stored : EFI_ERROR r.Status = false → n ∉ numbers gRT s o.OptionType ∧
    numbers gRT r.state o.OptionType = (numbers gRT s o.OptionType).take Position.toNat ++
      n :: (numbers gRT s o.OptionType).drop Position.toNat ∧
    ∃ m V, o.FilePath = some m ∧ packOption o m = some V ∧
      gRT.GetVariable r.state (variableName o.OptionType n.toNat) = some V

/-- A packed option has its attributes at least. -/
theorem packOption_ne_nil {m : PathMemory} {V : List UINT8} (h : packOption o m = some V) : V ≠ [] := by
  obtain ⟨FilePathSize, -, hBytes⟩ := Option.bind_eq_some_iff.mp h
  rintro rfl
  have hLength := congrArg List.length (Option.some.inj hBytes)
  simp only [List.length_append, length_uint32Bytes, List.length_nil] at hLength
  omega

/-- A variable is saved, or the variables stay as they were and there is a reason for it. -/
theorem saved_cases {Status : EFI_STATUS} (hName : mBmLoadOptionOrderName o.OptionType = some name)
    (hNumber : o.OptionNumber = n.toUInt64)
    (h : EfiBootManagerLoadOptionToVariable gRT s o = some (Status, s')) :
    (∀ m ≠ variableName o.OptionType n.toNat, gRT.GetVariable s' m = gRT.GetVariable s m) ∧
      (EFI_ERROR Status = true ∧ gRT.GetVariable s' = gRT.GetVariable s ∧
          (o.FilePath = none ∧ Status = EFI_INVALID_PARAMETER ∨ TurnedDown gRT o.OptionType Status) ∨
        EFI_ERROR Status = false ∧ ∃ m V, o.FilePath = some m ∧ packOption o m = some V ∧
          gRT.GetVariable s' (variableName o.OptionType n.toNat) = some V) := by
  have hAssigned : o.OptionNumber ≠ LoadOptionNumberUnassigned := fun hMax =>
    toUInt64_lt_max n (by rw [← hNumber, hMax]; exact UInt64.le_refl _)
  have hType : o.OptionType ≠ .PlatformRecovery := fun hSame => by
    rw [hSame] at hName
    cases hName
  rw [EfiBootManagerLoadOptionToVariable] at h
  cases hFile : o.FilePath with
  | none =>
    -- there is no path to pack, and the firmware is not even called
    rw [hFile] at h
    cases h
    exact ⟨fun _ _ => rfl, Or.inl ⟨by decide, rfl, Or.inl ⟨rfl, rfl⟩⟩⟩
  | some m =>
    simp only [hFile, if_neg hAssigned, if_neg hType] at h
    obtain ⟨V, hPack, h⟩ := Option.bind_eq_some_iff.mp h
    rw [hNumber, optionName_small] at h
    have hSet : gRT.SetVariable s (variableName o.OptionType n.toNat) nonVolatile V = (Status, s') :=
      Option.some.inj h
    -- the one variable that is written to is the option's own
    have hFrame : ∀ m ≠ variableName o.OptionType n.toNat,
        gRT.GetVariable s' m = gRT.GetVariable s m := fun m hm => by
      have hSame : gRT.GetVariable (gRT.SetVariable s (variableName o.OptionType n.toNat) nonVolatile
          V).2 m = gRT.GetVariable s m := get_of_ne hm
      rwa [hSet] at hSame
    refine ⟨hFrame, ?_⟩
    cases hStatus : EFI_ERROR Status with
    | true =>
      have hRefused := gRT.get_refused s (variableName o.OptionType n.toNat) nonVolatile V
        (by rw [hSet]; exact hStatus)
      rw [hSet] at hRefused
      exact Or.inl ⟨rfl, hRefused, Or.inr ⟨s, _, V, Or.inr ⟨n, rfl⟩, packOption_ne_nil hPack,
        congrArg Prod.fst hSet⟩⟩
    | false =>
      have hStored := gRT.get_stored s (variableName o.OptionType n.toNat) nonVolatile V
        (by rw [hSet]; exact hStatus)
      rw [hSet, if_neg (not_or.mpr ⟨nonVolatile_ne_zero, packOption_ne_nil hPack⟩)] at hStored
      exact Or.inr ⟨rfl, m, V, rfl, hPack, by rw [hStored, Function.update_self]⟩

/--
**One addition.** The number goes into the order first; where the option cannot be saved, it is
taken out again.
-/
theorem adds_of_run {r : Added gRT} (hName : mBmLoadOptionOrderName o.OptionType = some name)
    (hNumber : o.OptionNumber = n.toUInt64) (h : addNumbered gRT s o name Position = some r) :
    Adds gRT s o Position n r := by
  have hMax : ¬ o.OptionNumber ≥ LoadOptionNumberMax := by
    rw [hNumber]
    exact toUInt64_lt_max n
  have hWord : o.OptionNumber.toUInt16 = n := by
    rw [hNumber, UInt16.toUInt16_toUInt64]
  have hCases := addNumber_cases gRT s hName n Position
  rw [addNumbered, if_neg hMax, hWord] at h
  generalize BmAddOptionNumberToOrderVariable gRT s name n Position = added at hCases h
  obtain ⟨Status₁, s₁⟩ := added
  rcases hCases with ⟨hError, hSame, hReason⟩ | ⟨hAdded, hNew, hOrder, hElsewhere⟩
  · -- the number is there already, or the order cannot be changed
    have hNumbers : numbers gRT s₁ o.OptionType = numbers gRT s o.OptionType := by
      rw [numbers_eq hName, numbers_eq hName, bytes_congr (congrFun hSame name)]
    simp only [hError, if_true] at h
    cases h
    refine ⟨hNumber, fun m _ _ => congrFun hSame m, fun _ _ => congrFun hSame _,
      fun _ => congrFun hSame _, Or.inl hNumbers, fun _ => ?_, fun _ _ => hNumbers, fun hStatus => ?_⟩
    · rcases hReason with ⟨hListed, hTaken⟩ | hFirmware
      · obtain rfl : Status₁ = EFI_ALREADY_STARTED := hTaken
        exact .taken hNumber hListed
      · exact .firmware hFirmware
    · rw [hError] at hStatus
      cases hStatus
  · -- the number is in the order, and the option is saved next
    simp only [hAdded, Bool.false_eq_true, if_false] at h
    obtain ⟨⟨Status₂, s₂⟩, hSave, h⟩ := Option.bind_eq_some_iff.mp h
    obtain ⟨hOthers, hSaved⟩ := saved_cases hName hNumber hSave
    -- which does not touch the order
    have hKept : numbers gRT s₂ o.OptionType = (numbers gRT s o.OptionType).take Position.toNat ++
        n :: (numbers gRT s o.OptionType).drop Position.toNat := by
      rw [← hOrder, numbers_eq hName, numbers_eq hName,
        bytes_congr (hOthers name (variableName_ne_orderName hName).symm)]
    have hFrame : ∀ m ≠ name, m ≠ variableName o.OptionType n.toNat →
        gRT.GetVariable s₂ m = gRT.GetVariable s m :=
      fun m hm hOption => (hOthers m hOption).trans (hElsewhere m hm)
    have hOther : ∀ n' ≠ n, gRT.GetVariable s₂ (variableName o.OptionType n'.toNat) =
        gRT.GetVariable s (variableName o.OptionType n'.toNat) := fun n' hn' =>
      hFrame _ (variableName_ne_orderName hName) fun hSame => hn' (variableName_inj hSame).2
    have hElsewhere₂ : SameElsewhere gRT s s₂ o.OptionType := fun m hm hOption =>
      hFrame m (fun hSame => hm (hSame ▸ hName)) (hOption n)
    cases hStatus : EFI_ERROR Status₂ with
    | false =>
      -- saved, so that both variables are as they should be
      obtain ⟨-, hVariable⟩ := hSaved.resolve_left fun hRefused => by
        rw [hStatus] at hRefused
        exact Bool.false_ne_true hRefused.1
      simp only [hStatus, Bool.false_eq_true, if_false] at h
      cases h
      refine ⟨hNumber, hElsewhere₂, hOther, fun hListed => absurd hListed hNew,
        Or.inr ⟨hNew, hKept⟩, fun hError => ?_, fun hError => ?_,
        fun _ => ⟨hNew, hKept, hVariable⟩⟩
      · rw [hStatus] at hError
        cases hError
      · rw [hStatus] at hError
        cases hError
    | true =>
      -- the option was not saved, so that its number has to go again
      obtain ⟨Status₃, s₃, hDelete, hDeletes⟩ := exists_deletes gRT s₂ o.OptionType n
      have hFront : n ∉ (numbers gRT s o.OptionType).take Position.toNat := fun hMem =>
        hNew (List.mem_of_mem_take hMem)
      -- the only `n` in the order is the one that was put there, so erasing it restores the order
      have hErased : (numbers gRT s₂ o.OptionType).erase n = numbers gRT s o.OptionType := by
        rw [hKept, List.erase_append_right _ hFront, List.erase_cons_head, List.take_append_drop]
      have hBack := hDeletes.order
      rw [hErased, hKept] at hBack
      simp only [hStatus, if_true, hNumber, hDelete, Option.bind_eq_bind, Option.bind_some] at h
      cases h
      refine ⟨rfl, hElsewhere₂.trans hDeletes.sameElsewhere,
        fun n' hn' => (hDeletes.get_option_of_ne hn').trans (hOther n' hn'),
        fun hListed => absurd hListed hNew,
        hBack.imp id fun hRefused => ⟨hNew, hRefused.2⟩, fun _ => ?_,
        fun _ hShrinks => hBack.resolve_right fun hRefused => hRefused.1 hShrinks,
        fun hFalse => ?_⟩
      · obtain ⟨-, -, ⟨hPath, hInvalid⟩ | hFirmware⟩ := hSaved.resolve_right fun hStored => by
          rw [hStatus] at hStored
          exact Bool.false_ne_true hStored.1.symm
        · exact hInvalid ▸ .path hPath
        · exact .firmware hFirmware
      · rw [hStatus] at hFalse
        cases hFalse

/-- A number below the bound of the source is a 16 bit one. -/
theorem exists_number {v : UINTN} (h : ¬ v ≥ LoadOptionNumberMax) : ∃ n : UINT16, v = n.toUInt64 := by
  have hLt : v.toNat < 0x10000 := UInt64.lt_iff_toNat_lt.mp (UInt64.not_le.mp h)
  refine ⟨v.toUInt16, ?_⟩
  rw [← UInt64.toNat_inj, UInt16.toNat_toUInt64, UInt64.toNat_toUInt16, Nat.mod_eq_of_lt hLt]

/-- The device path is NULL or valid. -/
def Packable (o : LoadOption) : Prop := ∀ m, o.FilePath = some m → ∃ path, Represents m path

/-- Saving an option comes to an end. It is stored, or there is a status that says why not. -/
theorem exists_saved (s : gRT.State) (h : Packable o) :
    ∃ r, EfiBootManagerLoadOptionToVariable gRT s o = some r := by
  rw [EfiBootManagerLoadOptionToVariable]
  cases hFile : o.FilePath with
  | none => exact ⟨_, rfl⟩
  | some m =>
    obtain ⟨path, hRepresents⟩ := h m hFile
    simp only [packOption_eq hRepresents, optionName_eq]
    split_ifs
    · exact ⟨_, rfl⟩
    · exact ⟨_, rfl⟩
    · exact ⟨_, rfl⟩

/-- What can be packed is added with some result. -/
theorem exists_addNumbered (s : gRT.State) (name : List CHAR16) (Position : UINTN) (h : Packable o) :
    ∃ r, addNumbered gRT s o name Position = some r := by
  rw [addNumbered]
  generalize BmAddOptionNumberToOrderVariable gRT s name o.OptionNumber.toUInt16 Position = added
  obtain ⟨Status₁, s₁⟩ := added
  split_ifs with hMax
  · exact ⟨_, rfl⟩
  · obtain ⟨n, hNumber⟩ := exists_number hMax
    simp only
    split_ifs
    · exact ⟨_, rfl⟩
    · obtain ⟨⟨Status₂, s₂⟩, hSave⟩ := exists_saved s₁ h
      obtain ⟨Status₃, s₃, hDelete, -⟩ := exists_deletes gRT s₂ o.OptionType n
      simp only [hSave, hNumber, hDelete, Option.bind_eq_bind, Option.bind_some]
      split_ifs
      · exact ⟨_, rfl⟩
      · exact ⟨_, rfl⟩

/-- What `EfiBootManagerAddLoadOptionVariable` comes down to: nothing, or an addition under a
number. -/
theorem added_cases {r : Added gRT} (h : EfiBootManagerAddLoadOptionVariable gRT s o Position = some r) :
    (EFI_ERROR r.Status = true ∧ r.state = s) ∨
      ∃ n : UINT16, (o.OptionNumber = n.toUInt64 ∨ o.OptionNumber = LoadOptionNumberUnassigned) ∧
        Adds gRT s { o with OptionNumber := n.toUInt64 } Position n r := by
  rw [EfiBootManagerAddLoadOptionVariable] at h
  cases hName : mBmLoadOptionOrderName o.OptionType with
  | none =>
    rw [hName] at h
    cases h
    exact Or.inl ⟨(by decide : EFI_ERROR EFI_INVALID_PARAMETER = true), rfl⟩
  | some name =>
    rw [hName] at h
    simp only at h
    split_ifs at h with hUnassigned
    · -- the least free number, if there is one
      obtain ⟨free, hFree, h⟩ := Option.bind_eq_some_iff.mp h
      cases free with
      | error Status =>
        cases h
        obtain ⟨rfl, -⟩ := full_of_noFreeNumber hFree
        exact Or.inl ⟨(by decide : EFI_ERROR EFI_OUT_OF_RESOURCES = true), rfl⟩
      | ok n => exact Or.inr ⟨n, Or.inr hUnassigned, adds_of_run hName rfl h⟩
    · by_cases hMax : o.OptionNumber ≥ LoadOptionNumberMax
      · rw [addNumbered, if_pos hMax] at h
        cases h
        exact Or.inl ⟨(by decide : EFI_ERROR EFI_INVALID_PARAMETER = true), rfl⟩
      · obtain ⟨n, hNumber⟩ := exists_number hMax
        refine Or.inr ⟨n, Or.inl hNumber, ?_⟩
        rw [← hNumber]
        exact adds_of_run hName hNumber h

/-- An option as it is read back when it was saved under a number. -/
def asSaved (o : LoadOption) (n : UINT16) : LoadOption :=
  { o with
    OptionNumber := n.toUInt64
    Description := some (o.Description.getD WideString.empty)
    FilePath := o.FilePath.bind fun m => m.DuplicateDevicePath.join }

/-- What comes back when it is saved: an option whose device path is shorter than 64 KB. -/
structure Storable (o : LoadOption) : Prop where
  path : ∀ m, o.FilePath = some m → ∃ path, Represents m path ∧ (pathBytes path).length < 0x10000
  fits : ∀ m V, o.FilePath = some m → packOption o m = some V → V.length < 2 ^ 32

/-- Every number that is listed has its option, and no number is listed twice. -/
structure Consistent (gRT : RuntimeServices) (s : gRT.State) : Prop where
  sound : ∀ t, Listing.Sound keyOf (listing gRT s t)
  next : (gRT.bytes s (L "BootNext")).length ≠ 1

/-- A listing is determined by what it has for its numbers. -/
theorem sound_congr (h : Listing.Sound keyOf (listing gRT s t))
    (hOrder : numbers gRT s' t = numbers gRT s t)
    (hSame : ∀ k ∈ numbers gRT s t, loaded gRT s' t k = loaded gRT s t k) :
    Listing.Sound keyOf (listing gRT s' t) ∧
      (listing gRT s' t).contents = (listing gRT s t).contents :=
  ⟨h.congr hOrder hSame keyed, Listing.contents_congr hOrder hSame⟩

/-- An option that was saved is read back. -/
theorem loaded_saved {m : PathMemory} {V : List UINT8} (hStorable : Storable o)
    (hFile : o.FilePath = some m) (hPack : packOption o m = some V)
    (hVariable : gRT.GetVariable s' (variableName o.OptionType n.toNat) = some V) :
    loaded gRT s' o.OptionType n = some (asSaved o n) := by
  obtain ⟨path, hRepresents, hShort⟩ := hStorable.path m hFile
  have hRead := readLoadOption_short (t := o.OptionType) (n := n) hRepresents hPack
    (hStorable.fits m V hFile hPack) hShort
  have hCopy : (o.FilePath.bind fun m => m.DuplicateDevicePath.join) = some (pathBytes path) := by
    rw [hFile, Option.bind_some, DuplicateDevicePath_represents hRepresents]
    rfl
  rw [loaded, EfiBootManagerVariableToLoadOption, isValidName_variableName, hVariable, asSaved, hCopy]
  simp only [hRead]
  rfl

/-- So the listing has an option that was added. -/
theorem Adds.listing_eq {r : Added gRT} (hStorable : Storable o)
    (h : Adds gRT s { o with OptionNumber := n.toUInt64 } Position n r)
    (hStatus : EFI_ERROR r.Status = false) :
    n ∉ numbers gRT s o.OptionType ∧ listing gRT r.state o.OptionType =
      (listing gRT s o.OptionType).insert Position.toNat n (asSaved o n) := by
  obtain ⟨hNew, hOrder, m, V, hFile, hPack, hVariable⟩ := h.stored hStatus
  have hFound := loaded_saved hStorable hFile hPack hVariable
  refine ⟨hNew, ?_⟩
  have hLookup : loaded gRT r.state o.OptionType =
      Function.update (loaded gRT s o.OptionType) n (some (asSaved o n)) := by
    funext n'
    by_cases hSame : n' = n
    · rw [hSame, hFound, Function.update_self]
    · rw [Function.update_of_ne hSame]
      exact loaded_congr (h.others n' hSame)
  rw [listing, hOrder, hLookup]
  rfl

/-- A call of BmLoadOption.c. -/
inductive Request where
  | add (o : LoadOption) (Position : UINTN)
  | delete (OptionNumber : UINTN) (t : LoadOptionType)
  | read (t : LoadOptionType)
  | sort (t : LoadOptionType) (CompareFunction : LoadOption → LoadOption → Int)

/-- What a caller gets back. -/
inductive Answer where
  | added (Status : EFI_STATUS) (OptionNumber : UINTN)
  | deleted (Status : EFI_STATUS)
  | options (Options : List LoadOption)
  | sorted

/-- The code's answer. -/
def serve (gRT : RuntimeServices) (s : gRT.State) : Request → Option (Answer × gRT.State)
  | .add o Position => (EfiBootManagerAddLoadOptionVariable gRT s o Position).map fun r =>
      (.added r.Status r.OptionNumber, r.state)
  | .delete OptionNumber t => (EfiBootManagerDeleteLoadOptionVariable gRT s OptionNumber t).map
      fun r => (.deleted r.1, r.2)
  | .read t => (EfiBootManagerGetLoadOptions gRT s t).map fun r => (.options r.1, r.2)
  | .sort t CompareFunction => (EfiBootManagerSortLoadOptionVariable gRT s t CompareFunction).map
      fun s => (.sorted, s)

/-- The options of each type, as a list. -/
abbrev Options := LoadOptionType → List LoadOption

/-- What the calls are for. An addition puts the option at its position, or fails for a reason;
deletions, readings and sortings always do what they are asked to. -/
inductive Answers (gRT : RuntimeServices) : Options → Request → Answer → Options → Prop
  | refused {O : Options} {o : LoadOption} {Position OptionNumber : UINTN} {Status : EFI_STATUS} :
      EFI_ERROR Status = true → Refusal gRT ((O o.OptionType).map keyOf) o Status →
      Answers gRT O (.add o Position) (.added Status OptionNumber) O
  | added {O : Options} {o : LoadOption} {Position : UINTN} {Status : EFI_STATUS} {n : UINT16} :
      EFI_ERROR Status = false →
      o.OptionNumber = n.toUInt64 ∨ o.OptionNumber = LoadOptionNumberUnassigned →
      o.FilePath ≠ none → (∀ o' ∈ O o.OptionType, keyOf o' ≠ n) →
      Answers gRT O (.add o Position) (.added Status n.toUInt64) (Function.update O o.OptionType
        ((O o.OptionType).take Position.toNat ++ asSaved o n ::
          (O o.OptionType).drop Position.toNat))
  | deleted {O : Options} {t : LoadOptionType} {OptionNumber : UINTN} {Status : EFI_STATUS} :
      Answers gRT O (.delete OptionNumber t) (.deleted Status) (Function.update O t
        ((O t).filter fun o => (keyOf o).toUInt64 ≠ OptionNumber))
  | read {O : Options} {t : LoadOptionType} : Answers gRT O (.read t) (.options (O t)) O
  | sorted {O : Options} {t : LoadOptionType} {c : LoadOption → LoadOption → Int}
      {l : List LoadOption} : l.Perm (O t) → (Compares c → l.Pairwise fun x y => c x y ≤ 0) →
      Answers gRT O (.sort t c) .sorted (Function.update O t l)

/-- The calls that callers make: options that can be saved, types that have an order. -/
def Request.Proper : Request → Prop
  | .add o _ => Storable o
  | .delete _ _ => True
  | .read t => mBmLoadOptionOrderName t ≠ none
  | .sort t _ => mBmLoadOptionOrderName t ≠ none

/-- The options that can be read. -/
def options (gRT : RuntimeServices) (s : gRT.State) : Options := fun t => (listing gRT s t).contents

/-- `BootNext` is neither an order nor an option. -/
theorem SameElsewhere.bootNext (h : SameElsewhere gRT s s' t) :
    gRT.bytes s' (L "BootNext") = gRT.bytes s (L "BootNext") := by
  refine bytes_congr (h _ ?_ fun n hSame => ?_)
  · cases t <;> decide
  · have hName := isValidName_variableName t n
    have hNone : EfiBootManagerIsValidLoadOptionVariableName (L "BootNext") = none := by decide
    rw [← hSame, hNone] at hName
    cases hName

/-- What is to be shown of a call that changes one type. -/
theorem consistent_update (h : Consistent gRT s) (hElsewhere : SameElsewhere gRT s s' t)
    {l : List LoadOption} (hSound : Listing.Sound keyOf (listing gRT s' t) ∧
      (listing gRT s' t).contents = l) :
    Consistent gRT s' ∧ options gRT s' = Function.update (options gRT s) t l := by
  refine ⟨⟨fun t' => ?_, ?_⟩, ?_⟩
  · by_cases hSame : t' = t
    · rw [hSame]
      exact hSound.1
    · rw [hElsewhere.listing_eq hSame]
      exact h.sound t'
  · rw [hElsewhere.bootNext]
    exact h.next
  · funext t'
    by_cases hSame : t' = t
    · rw [hSame, Function.update_self]
      exact hSound.2
    · rw [Function.update_of_ne hSame, options, hElsewhere.listing_eq hSame, options]

/-- What can be packed is added with some result, unless a byte is missing in `BootNext`. -/
theorem exists_added (s : gRT.State) (Position : UINTN) (h : Packable o)
    (hNext : o.OptionType = .Boot → (gRT.bytes s (L "BootNext")).length ≠ 1) :
    ∃ r, EfiBootManagerAddLoadOptionVariable gRT s o Position = some r := by
  rw [EfiBootManagerAddLoadOptionVariable]
  cases hName : mBmLoadOptionOrderName o.OptionType with
  | none => exact ⟨_, rfl⟩
  | some name =>
    simp only
    split_ifs
    · obtain ⟨k, -, -, hFree⟩ := BmGetFreeOptionNumber_least (s := s) hName hNext
      rw [hFree]
      simp only [Option.bind_eq_bind, Option.bind_some]
      split_ifs
      · exact ⟨_, rfl⟩
      · exact exists_addNumbered s name Position h
    · exact exists_addNumbered s name Position h

/--
**An option without a number** gets the least one that is not in the order and, for a boot option,
not to be started next. Where there is none, nothing is changed.
-/
theorem added_unassigned (hName : mBmLoadOptionOrderName o.OptionType = some name)
    (hPackable : Packable o)
    (hNext : o.OptionType = .Boot → (gRT.bytes s (L "BootNext")).length ≠ 1)
    (hUnassigned : o.OptionNumber = LoadOptionNumberUnassigned) (Position : UINTN) :
    ∃ k r, IsLeast {m | m ∉ usedNumbers gRT s o.OptionType} k ∧
      EfiBootManagerAddLoadOptionVariable gRT s o Position = some r ∧
      (k = 0x10000 → r.Status = EFI_OUT_OF_RESOURCES ∧ r.state = s) ∧
      (k ≠ 0x10000 → r.OptionNumber.toNat = k ∧
        Adds gRT s { o with OptionNumber := (UInt16.ofNat k).toUInt64 } Position (UInt16.ofNat k) r) := by
  obtain ⟨k, hLeast, hLe, hFree⟩ := BmGetFreeOptionNumber_least (s := s) hName hNext
  obtain ⟨r, hRun⟩ := exists_added s Position hPackable hNext
  refine ⟨k, r, hLeast, hRun, fun hNone => ?_, fun hFound => ?_⟩
  · rw [EfiBootManagerAddLoadOptionVariable, hName] at hRun
    simp only [hUnassigned, if_true, hFree, if_pos hNone, Option.bind_eq_bind, Option.bind_some] at hRun
    cases hRun
    exact ⟨rfl, rfl⟩
  · rw [EfiBootManagerAddLoadOptionVariable, hName] at hRun
    simp only [hUnassigned, if_true, hFree, if_neg hFound, Option.bind_eq_bind,
      Option.bind_some] at hRun
    have hAdds := adds_of_run (o := { o with OptionNumber := (UInt16.ofNat k).toUInt64 }) hName rfl hRun
    refine ⟨?_, hAdds⟩
    rw [hAdds.number, UInt16.toNat_toUInt64]
    exact UInt16.toNat_ofNat_of_lt' (lt_of_le_of_ne hLe hFound)

/-- With `BootOrder` and `BootNext` in use, an option without a number gets a third one. -/
theorem added_unassigned_used : ∃ k r,
    IsLeast {m | m ∉ usedNumbers tableServices usedStore .Boot} k ∧
      EfiBootManagerAddLoadOptionVariable tableServices usedStore
        { numberedOption with OptionNumber := LoadOptionNumberUnassigned } 0 = some r ∧
      (k = 0x10000 → r.Status = EFI_OUT_OF_RESOURCES ∧ r.state = usedStore) ∧
      (k ≠ 0x10000 → r.OptionNumber.toNat = k ∧ Adds tableServices usedStore
        { numberedOption with OptionNumber := (UInt16.ofNat k).toUInt64 } 0 (UInt16.ofNat k) r) := by
  refine @added_unassigned tableServices usedStore _
    { numberedOption with OptionNumber := LoadOptionNumberUnassigned } rfl (fun m hm => ?_)
    (fun _ => by decide) rfl 0
  cases hm
  exact ⟨numberedPath 1, represents_numberedPath 1⟩

/--
**Reading settles the order.** What is read once is read again, whatever the firmware refuses. Where
it lets the order shrink, the numbers of what was read are all that is left of it.
-/
theorem GetLoadOptions_settles (hName : mBmLoadOptionOrderName t = some name)
    (hReadable : Readable gRT s t (numbers gRT s t)) :
    ∃ Options s' s'', EfiBootManagerGetLoadOptions gRT s t = some (Options, s') ∧
      Options = (listing gRT s t).contents ∧
      EfiBootManagerGetLoadOptions gRT s' t = some (Options, s'') ∧
      (Shrinks gRT → numbers gRT s' t = Options.map keyOf ∧ numbers gRT s'' t = numbers gRT s' t) := by
  obtain ⟨s', hRun, hReadable', hContents, hListing⟩ := GetLoadOptions_eq hName hReadable
  obtain ⟨s'', hAgain, -, -, hListing'⟩ := GetLoadOptions_eq hName hReadable'
  refine ⟨_, s', s'', hRun, rfl, by rw [hAgain, hContents], fun hShrinks => ?_⟩
  -- the first call leaves no number without its option, so that the second one prunes nothing
  have hComplete : ∀ k ∈ (listing gRT s' t).order, ∃ o, (listing gRT s' t).lookup k = some o := by
    rw [hListing hShrinks]
    exact Listing.complete_prune _
  constructor
  · rw [← hContents]
    exact (Listing.map_key_contents hComplete keyed).symm
  · exact congrArg Listing.order ((hListing' hShrinks).trans (Listing.prune_eq_self hComplete))

/-- An order that lists an option that is gone settles in one reading. -/
theorem GetLoadOptions_settles_used : ∃ Options s' s'',
    EfiBootManagerGetLoadOptions tableServices usedStore .Boot = some (Options, s') ∧
      Options = (listing tableServices usedStore .Boot).contents ∧
      EfiBootManagerGetLoadOptions tableServices s' .Boot = some (Options, s'') ∧
      numbers tableServices s' .Boot = Options.map keyOf ∧
      numbers tableServices s'' .Boot = numbers tableServices s' .Boot := by
  obtain ⟨Options, s', s'', hRun, hOptions, hAgain, hOrder⟩ :=
    @GetLoadOptions_settles tableServices usedStore .Boot _ rfl readable_usedStore
  exact ⟨Options, s', s'', hRun, hOptions, hAgain, hOrder shrinks_tableServices⟩

/-- Reading options that are all there changes nothing. -/
theorem GetLoadOptions_consistent (h : Consistent gRT s) (hName : mBmLoadOptionOrderName t = some name) :
    EfiBootManagerGetLoadOptions gRT s t = some (options gRT s t, s) := by
  have hAll := collectOptions_complete (h.sound t).complete
  rw [show (listing gRT s t).order = numbers gRT s t from rfl, numbers_eq hName] at hAll
  rw [EfiBootManagerGetLoadOptions, hName]
  exact hAll.trans (by rw [options, Listing.contents, listing, numbers_eq hName])

/-- An option with a short path can be saved. -/
theorem storable_numberedOption : Storable numberedOption where
  path m hm := by
    cases hm
    exact ⟨numberedPath 1, represents_numberedPath 1, by decide⟩
  fits m V hm hPack := by
    cases hm
    rw [packOption_eq (represents_numberedPath 1)] at hPack
    rw [← Option.some.inj hPack, length_optionBytes]
    decide

/-- Where nothing is stored, nothing is missing. -/
theorem consistent_empty : Consistent tableServices fun _ => none where
  sound t :=
    { nodup := by cases t <;> exact List.nodup_nil
      complete := by cases t <;> exact fun k hk => absurd hk List.not_mem_nil
      keyed := keyed }
  next := by decide

/-- One call, of any option, with a firmware that may refuse anything. -/
theorem serve_nodup {q : Request} {a : Answer} (hNodup : ∀ t, (numbers gRT s t).Nodup)
    (h : serve gRT s q = some (a, s')) (t : LoadOptionType) : (numbers gRT s' t).Nodup := by
  -- it is enough to look at the order of the type that the call is about
  have hOther : ∀ {t'}, SameElsewhere gRT s s' t' → (numbers gRT s' t').Nodup →
      (numbers gRT s' t).Nodup := fun {t'} hElsewhere hSelf => by
    by_cases hSame : t = t'
    · rw [hSame]
      exact hSelf
    · have hOrder : numbers gRT s' t = numbers gRT s t :=
        congrArg Listing.order (hElsewhere.listing_eq hSame)
      rw [hOrder]
      exact hNodup t
  cases q with
  | add o Position =>
    obtain ⟨r, hRun, hPair⟩ := Option.map_eq_some_iff.mp h
    cases hPair
    rcases added_cases hRun with ⟨-, hState⟩ | ⟨n, -, hAdds⟩
    · rw [hState]
      exact hNodup t
    · refine hOther hAdds.elsewhere ?_
      -- the order is kept, or has a number more, which was not listed
      rcases hAdds.order with hKept | ⟨hNew, hInserted⟩
      · rw [hKept]
        exact hNodup _
      · rw [hInserted]
        exact Listing.nodup_insert (L := listing gRT s o.OptionType) (a := o) (hNodup _) hNew
  | delete OptionNumber t' =>
    obtain ⟨⟨Status, s''⟩, hRun, hPair⟩ := Option.map_eq_some_iff.mp h
    cases hPair
    by_cases hMax : OptionNumber ≥ LoadOptionNumberMax
    · rw [EfiBootManagerDeleteLoadOptionVariable, if_pos hMax] at hRun
      cases hRun
      exact hNodup t
    · obtain ⟨n, rfl⟩ := exists_number hMax
      obtain ⟨Status', s'', hRun', hDeletes⟩ := exists_deletes gRT s t' n
      rw [hRun'] at hRun
      cases hRun
      exact hOther hDeletes.sameElsewhere (hDeletes.sublist.nodup (hNodup t'))
  | read t' =>
    obtain ⟨⟨l, s''⟩, hRun, hPair⟩ := Option.map_eq_some_iff.mp h
    cases hPair
    obtain ⟨name, -, hCollect⟩ := Option.bind_eq_some_iff.mp hRun
    obtain ⟨hElsewhere, hSublist⟩ := collectOptions_sublist hCollect
    exact hOther hElsewhere (hSublist.nodup (hNodup t'))
  | sort t' c =>
    obtain ⟨s'', hRun, hPair⟩ := Option.map_eq_some_iff.mp h
    cases hPair
    cases hName : mBmLoadOptionOrderName t' with
    | none =>
      rw [EfiBootManagerSortLoadOptionVariable, hName] at hRun
      cases hRun
    | some name =>
      obtain ⟨l, between, hRead, hSame, hOrder⟩ := sort_cases hName hRun
      obtain ⟨name', hName', hCollect⟩ := Option.bind_eq_some_iff.mp hRead
      obtain ⟨hElsewhere, hSublist⟩ := collectOptions_sublist hCollect
      refine hOther (hElsewhere.trans fun m hm _ => hSame m fun hEq => hm (hEq ▸ hName)) ?_
      -- the sorted order is written, or the one that the reading left stands
      rcases hOrder with hTaken | ⟨-, hState⟩
      · rw [hTaken, ((sortOptions_spec c l).1.map keyOf).nodup_iff]
        refine (collectOptions_keys hCollect).nodup ?_
        rw [← numbers_eq hName']
        exact hNodup t'
      · rw [numbers_eq hName, bytes_congr (congrFun hState name), ← numbers_eq hName]
        exact hSublist.nodup (hNodup t')

/--
**No number is listed twice**, after any calls with any options, whatever the firmware refuses.
-/
theorem run_nodup {requests : List Request} {answers : List Answer}
    (hNodup : ∀ t, (numbers gRT s t).Nodup)
    (h : Service.run (serve gRT) s requests = some (answers, s')) (t : LoadOptionType) :
    (numbers gRT s' t).Nodup :=
  Service.run_keeps (fun _ _ _ _ hInv hServe => serve_nodup hInv hServe) hNodup h t

/-- An addition and a deletion of the same number. -/
theorem run_nodup_used : ∃ answers s', Service.run (serve tableServices) usedStore
    [.add numberedOption 0, .delete 0 .Boot] = some (answers, s') ∧
      (numbers tableServices s' .Boot).Nodup := by
  have hPackable : Packable numberedOption := fun m hm => by
    cases hm
    exact ⟨numberedPath 1, represents_numberedPath 1⟩
  have hStart : ∀ t, (numbers tableServices usedStore t).Nodup := by
    intro t
    cases t <;> decide
  obtain ⟨r, hAdd⟩ := @exists_added tableServices numberedOption usedStore 0 hPackable fun _ => by decide
  obtain ⟨Status, s', hDelete, -⟩ := exists_deletes tableServices r.state .Boot 0
  have hRun : Service.run (serve tableServices) usedStore [.add numberedOption 0, .delete 0 .Boot] =
      some ([.added r.Status r.OptionNumber, .deleted Status], s') := by
    have hServeAdd : serve tableServices usedStore (.add numberedOption 0) =
        some (.added r.Status r.OptionNumber, r.state) := by
      rw [serve, hAdd]
      rfl
    have hServeDelete : serve tableServices r.state (.delete 0 .Boot) = some (.deleted Status, s') := by
      have hZero : (0 : UINTN) = (0 : UINT16).toUInt64 := rfl
      rw [serve, hZero, hDelete]
      rfl
    rw [Service.run_cons_of_some hServeAdd, Service.run_cons_of_some hServeDelete]
    rfl
  exact ⟨_, s', hRun, run_nodup hStart hRun .Boot⟩

end TianJi.Model
