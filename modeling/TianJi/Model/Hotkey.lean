import TianJi.Lib.Sequence
import TianJi.Lib.Service
import TianJi.Model.OptionStore

/-!
# TianJi — hotkeys of boot options

`BmHotkeyCallback` (BmHotkey.c) follows every hotkey through its key strokes. A hotkey whose last key
was pressed names the boot option that is started next (`EfiBootManagerHotkeyBoot`), and until then no
stroke is looked at.

* `strokeHotkey_heard` — a hotkey waits as the strokes say.
* `hotkeys_run`        — any strokes and starts, whatever becomes of the variables that can be read.
* `hotkey_reacts_iff`  — which strokes a hotkey reacts to, and when it misses its keys.
-/

namespace TianJi.Model

open Sequence PathMemory

-- ---------------------------------------------------------------------------
-- The code
-- ---------------------------------------------------------------------------

/-- A key that was pressed, or that a hotkey waits for. -/
structure EFI_KEY_DATA where
  Key : EFI_INPUT_KEY
  /-- `KeyState.KeyShiftState` -/
  KeyShiftState : UINT32
  deriving DecidableEq, Repr

def EFI_SHIFT_STATE_VALID : UINT32 := 0x80000000

/-- The part of a hotkey that its strokes need. `IsContinue` makes it start nothing. -/
structure BM_HOTKEY where
  IsContinue : Bool
  BootOption : UINT16
  CodeCount : UINT8
  WaitingKey : UINT8
  KeyData : Vector EFI_KEY_DATA 3

/-- "Is this Key Stroke we are waiting for?" -/
def isWaitedFor (KeyData HotkeyData : EFI_KEY_DATA) : Bool :=
  KeyData.Key.ScanCode = HotkeyData.Key.ScanCode && KeyData.Key.UnicodeChar = HotkeyData.Key.UnicodeChar &&
    if KeyData.KeyShiftState &&& EFI_SHIFT_STATE_VALID ≠ 0 then
      decide (KeyData.KeyShiftState = HotkeyData.KeyShiftState)
    else true

/-- One hotkey in the loop of `BmHotkeyCallback`: whether it "received the whole key stroke sequence".
There is no result where it would wait for a key behind its array. -/
def strokeHotkey (Hotkey : BM_HOTKEY) (KeyData : EFI_KEY_DATA) : Option (BM_HOTKEY × Bool) := do
  let HotkeyData ← Hotkey.KeyData[Hotkey.WaitingKey.toNat]?
  if isWaitedFor KeyData HotkeyData then
    let WaitingKey := Hotkey.WaitingKey + 1
    if WaitingKey = Hotkey.CodeCount then return ({ Hotkey with WaitingKey := 0 }, true)
    else return ({ Hotkey with WaitingKey := WaitingKey }, false)
  else return ({ Hotkey with WaitingKey := 0 }, false)

/-- The variables of the service. There is no option where its number is unassigned. -/
structure HotkeyService where
  mBmHotkeyList : List BM_HOTKEY
  mBmHotkeyBootOption : Option LoadOption

section Code

variable (gRT : RuntimeServices)

/-- "Launch its BootOption" -/
def readHotkeyOption (s : gRT.State) (Hotkey : BM_HOTKEY) : Option (Option LoadOption) := do
  let OptionName ← OptionName .Boot Hotkey.BootOption.toUInt64
  match ← EfiBootManagerVariableToLoadOption gRT s OptionName with
  | .error _ => return none
  | .ok BootOption => return some BootOption

/-- The loop, with the number of times that `mBmHotkeyTriggered` is signaled. -/
def strokeHotkeys (s : gRT.State) (KeyData : EFI_KEY_DATA) :
    List BM_HOTKEY → Option LoadOption → Nat → Option (List BM_HOTKEY × Option LoadOption × Nat)
  | [], mBmHotkeyBootOption, signals => some ([], mBmHotkeyBootOption, signals)
  | Hotkey :: Link, mBmHotkeyBootOption, signals => do
    let (Hotkey, complete) ← strokeHotkey Hotkey KeyData
    let mBmHotkeyBootOption ←
      if complete && !Hotkey.IsContinue then readHotkeyOption gRT s Hotkey else some mBmHotkeyBootOption
    let (Link, mBmHotkeyBootOption, signals) ← strokeHotkeys s KeyData Link mBmHotkeyBootOption
      (if complete then signals + 1 else signals)
    return (Hotkey :: Link, mBmHotkeyBootOption, signals)

/-- What the firmware calls for a stroke, with the number of signals. -/
def BmHotkeyCallback (s : gRT.State) (service : HotkeyService) (KeyData : EFI_KEY_DATA) :
    Option (Nat × HotkeyService) :=
  -- "Do not process sequential hotkey stroke until the current boot option returns"
  if service.mBmHotkeyBootOption.isSome then some (0, service)
  else do
    let (mBmHotkeyList, mBmHotkeyBootOption, signals) ← strokeHotkeys gRT s KeyData
      service.mBmHotkeyList service.mBmHotkeyBootOption 0
    return (signals, ⟨mBmHotkeyList, mBmHotkeyBootOption⟩)

/-- `EfiBootManagerHotkeyBoot`, with the option that it gives to `EfiBootManagerBoot`. A stroke before that
comes back is one before the whole call. -/
def EfiBootManagerHotkeyBoot (service : HotkeyService) : Option LoadOption × HotkeyService :=
  (service.mBmHotkeyBootOption, { service with mBmHotkeyBootOption := none })

/-- What happens to the service: a key is pressed, with the variables of that moment, or the boot manager
asks for an option. -/
inductive HotkeyEvent where
  | stroke (s : gRT.State) (KeyData : EFI_KEY_DATA)
  | boot

/-- What comes of it. -/
inductive HotkeyAnswer where
  | signaled (signals : Nat)
  | booted (BootOption : Option LoadOption)

variable {gRT}

/-- The code's answer. -/
def serveHotkey (service : HotkeyService) : HotkeyEvent gRT → Option (HotkeyAnswer × HotkeyService)
  | .stroke s KeyData => (BmHotkeyCallback gRT s service KeyData).map fun r => (.signaled r.1, r.2)
  | .boot => some (.booted (EfiBootManagerHotkeyBoot service).1, (EfiBootManagerHotkeyBoot service).2)

end Code

-- ---------------------------------------------------------------------------
-- One hotkey
-- ---------------------------------------------------------------------------

/-!
A hotkey has no memory but for the key that it waits for, and that depends on the strokes alone. A
stroke that does not fit starts it from its first key, even where that stroke is the first key.
-/

namespace BM_HOTKEY

/-- The keys that are pressed for it. -/
def code (h : BM_HOTKEY) : List EFI_KEY_DATA := h.KeyData.toList.take h.CodeCount.toNat

/-- It has one to three keys. A key option without keys makes a hotkey that does not. -/
def Sized (h : BM_HOTKEY) : Prop := 1 ≤ h.CodeCount.toNat ∧ h.CodeCount.toNat ≤ 3

instance (h : BM_HOTKEY) : Decidable h.Sized := inferInstanceAs (Decidable (_ ∧ _))

/-- The hotkey behind some strokes. -/
def heard (h : BM_HOTKEY) (strokes : List EFI_KEY_DATA) : BM_HOTKEY :=
  { h with WaitingKey := UInt8.ofNat (progress isWaitedFor h.code strokes) }

/-- One stroke more completes its keys. -/
def Reacts (h : BM_HOTKEY) (strokes : List EFI_KEY_DATA) (KeyData : EFI_KEY_DATA) : Bool :=
  reacts isWaitedFor h.code strokes KeyData

end BM_HOTKEY

variable {h hotkey : BM_HOTKEY} {strokes : List EFI_KEY_DATA} {KeyData : EFI_KEY_DATA}

/-- A key is waited for by itself. -/
theorem isWaitedFor_self (KeyData : EFI_KEY_DATA) : isWaitedFor KeyData KeyData = true := by
  simp [isWaitedFor]

/-- There are as many keys as the counter says. -/
theorem length_code (hSized : h.Sized) : h.code.length = h.CodeCount.toNat := by
  rw [BM_HOTKEY.code, List.length_take, Vector.length_toList]
  exact Nat.min_eq_left hSized.2

/-- And one at least. -/
theorem code_ne_nil (hSized : h.Sized) : h.code ≠ [] := fun hNil => by
  have hLength := length_code hSized
  rw [hNil, List.length_nil] at hLength
  exact absurd hSized.1 (by omega)

/-- A hotkey never waits behind its last key. -/
theorem progress_lt_codeCount (hSized : h.Sized) (strokes : List EFI_KEY_DATA) :
    progress isWaitedFor h.code strokes < h.CodeCount.toNat := by
  have hLess : progress isWaitedFor h.code strokes < h.code.length :=
    progress_lt (code_ne_nil hSized) strokes
  rwa [length_code hSized] at hLess

/-- `WaitingKey` is wide enough for this. -/
theorem toNat_waitingKey (hSized : h.Sized) (strokes : List EFI_KEY_DATA) :
    (h.heard strokes).WaitingKey.toNat = progress isWaitedFor h.code strokes :=
  UInt8.toNat_ofNat_of_lt' ((progress_lt_codeCount hSized strokes).trans h.CodeCount.toNat_lt)

/-- It waits for one of its own keys. -/
theorem exists_waitedFor (hSized : h.Sized) (strokes : List EFI_KEY_DATA) :
    ∃ HotkeyData, h.KeyData[progress isWaitedFor h.code strokes]? = some HotkeyData ∧
      h.code[progress isWaitedFor h.code strokes]? = some HotkeyData := by
  have hLess := progress_lt_codeCount hSized strokes
  generalize progress isWaitedFor h.code strokes = waiting at hLess ⊢
  have hIn : waiting < 3 := hLess.trans_le hSized.2
  refine ⟨h.KeyData[waiting], Vector.getElem?_eq_getElem hIn, ?_⟩
  rw [BM_HOTKEY.code, List.getElem?_take_of_lt hLess, Vector.getElem?_toList]
  exact Vector.getElem?_eq_getElem hIn

/-- The counter is at the last key when the strokes are. -/
theorem waitingKey_succ_iff (hSized : h.Sized) (strokes : List EFI_KEY_DATA) :
    (h.heard strokes).WaitingKey + 1 = h.CodeCount ↔
      progress isWaitedFor h.code strokes + 1 = h.code.length := by
  have hLess := progress_lt_codeCount hSized strokes
  have hSmall := hSized.2
  rw [← UInt8.toNat_inj, UInt8.toNat_add, toNat_waitingKey hSized, length_code hSized,
    UInt8.toNat_one, Nat.mod_eq_of_lt (by omega)]

/-- A stroke more. -/
theorem heard_concat (strokes : List EFI_KEY_DATA) (KeyData : EFI_KEY_DATA) :
    h.heard (strokes ++ [KeyData]) = { h with
      WaitingKey := .ofNat (advance isWaitedFor h.code (progress isWaitedFor h.code strokes) KeyData).1 } := by
  rw [BM_HOTKEY.heard, progress_concat]

/-- **A hotkey waits as the strokes say**, always for one of its own keys. -/
theorem strokeHotkey_heard (hSized : h.Sized) (strokes : List EFI_KEY_DATA) (KeyData : EFI_KEY_DATA) :
    strokeHotkey (h.heard strokes) KeyData =
      some (h.heard (strokes ++ [KeyData]), h.Reacts strokes KeyData) := by
  obtain ⟨HotkeyData, hKey, hCode⟩ := exists_waitedFor hSized strokes
  have hRead : (h.heard strokes).KeyData[(h.heard strokes).WaitingKey.toNat]? = some HotkeyData := by
    rw [toNat_waitingKey hSized]
    exact hKey
  have hLast := waitingKey_succ_iff hSized strokes
  rw [strokeHotkey, hRead, heard_concat, BM_HOTKEY.Reacts, reacts, advance, hCode, Option.any_some]
  simp only [Option.bind_eq_bind, Option.bind_some]
  -- the code compares its counter where the strokes have their length
  split_ifs with hFits hComplete hWhole hWhole
  · rfl
  · exact absurd (hLast.mp hComplete) hWhole
  · exact absurd (hLast.mpr hWhole) hComplete
  · have hNext : (h.heard strokes).WaitingKey + 1 =
        UInt8.ofNat (progress isWaitedFor h.code strokes + 1) := by
      rw [UInt8.ofNat_add]
      rfl
    rw [hNext]
    rfl
  · rfl

/-- Without strokes a new hotkey is as it was made. -/
theorem heard_nil (hWaiting : h.WaitingKey = 0) : h.heard [] = h := by
  obtain ⟨IsContinue, BootOption, CodeCount, WaitingKey, KeyData⟩ := h
  obtain rfl : WaitingKey = 0 := hWaiting
  rfl

/-- **Which strokes a hotkey reacts to.** Its keys are the last ones, and it waited for the first of them
before. A hotkey reacts to its keys whenever they are the last ones exactly when it has one key. -/
theorem hotkey_reacts_iff (hSized : h.Sized) :
    (∀ strokes KeyData, h.Reacts strokes KeyData = true ↔
      ∃ front last, strokes = front ++ last ∧ (h.heard front).WaitingKey = 0 ∧
        List.Forall₂ (fun pressed key => isWaitedFor pressed key = true) (last ++ [KeyData]) h.code) ∧
    ((∀ strokes KeyData, Ends isWaitedFor (strokes ++ [KeyData]) h.code →
      h.Reacts strokes KeyData = true) ↔ h.CodeCount = 1) := by
  have hWaiting : ∀ front, (h.heard front).WaitingKey = 0 ↔ progress isWaitedFor h.code front = 0 := by
    intro front
    rw [← UInt8.toNat_inj, toNat_waitingKey hSized, UInt8.toNat_zero]
  have hTypes : ∀ key ∈ h.code, ∃ pressed, isWaitedFor pressed key = true :=
    fun key _ => ⟨key, isWaitedFor_self key⟩
  constructor
  · intro strokes KeyData
    simp only [hWaiting]
    exact reacts_iff
  · rw [← UInt8.toNat_inj, UInt8.toNat_one, ← length_code hSized]
    exact reacts_all_iff (code_ne_nil hSized) hTypes

/-- F1 and then F2, without other keys. -/
def twoKeys : BM_HOTKEY where
  IsContinue := false
  BootOption := 0
  CodeCount := 2
  WaitingKey := 0
  KeyData := #v[⟨⟨0x000B, 0⟩, EFI_SHIFT_STATE_VALID⟩, ⟨⟨0x000C, 0⟩, EFI_SHIFT_STATE_VALID⟩, ⟨⟨0, 0⟩, 0⟩]

/-- Two keys are enough, and not too many. -/
theorem sized_twoKeys : twoKeys.Sized := by decide

/-- Two keys, of which the strokes can miss the second one. -/
theorem hotkey_reacts_iff_twoKeys :
    (∀ strokes KeyData, twoKeys.Reacts strokes KeyData = true ↔
      ∃ front last, strokes = front ++ last ∧ (twoKeys.heard front).WaitingKey = 0 ∧
        List.Forall₂ (fun pressed key => isWaitedFor pressed key = true) (last ++ [KeyData]) twoKeys.code) ∧
    ((∀ strokes KeyData, Ends isWaitedFor (strokes ++ [KeyData]) twoKeys.code →
      twoKeys.Reacts strokes KeyData = true) ↔ twoKeys.CodeCount = 1) :=
  hotkey_reacts_iff sized_twoKeys

-- ---------------------------------------------------------------------------
-- All hotkeys
-- ---------------------------------------------------------------------------

/-!
All hotkeys hear the same strokes. While an option waits to be started, a stroke is heard by none of
them, so that the strokes of `Listened` are those that were looked at and no others.
-/

/-- The last of the hotkeys that a stroke completes, among those that start an option. -/
def lastStarting (hotkeys : List BM_HOTKEY) (strokes : List EFI_KEY_DATA) (KeyData : EFI_KEY_DATA) :
    Option BM_HOTKEY :=
  (hotkeys.filter fun h => h.Reacts strokes KeyData && !h.IsContinue).getLast?

/-- A hotkey in front starts its option unless one behind it does. -/
theorem lastStarting_cons (h : BM_HOTKEY) (hotkeys : List BM_HOTKEY) (strokes : List EFI_KEY_DATA)
    (KeyData : EFI_KEY_DATA) : lastStarting (h :: hotkeys) strokes KeyData =
      if h.Reacts strokes KeyData && !h.IsContinue then
        some ((lastStarting hotkeys strokes KeyData).getD h)
      else lastStarting hotkeys strokes KeyData := by
  rw [lastStarting, List.filter_cons]
  split_ifs with hStarts
  · exact List.getLast?_cons
  · rfl

section Listening

variable {gRT : RuntimeServices} {s : gRT.State} {hotkeys : List BM_HOTKEY}

/-- The option is what its variable holds, if anything. -/
theorem readHotkeyOption_eq
    (h : EfiBootManagerVariableToLoadOption gRT s (variableName .Boot hotkey.BootOption.toNat) ≠ none) :
    readHotkeyOption gRT s hotkey = some (loaded gRT s .Boot hotkey.BootOption) := by
  obtain ⟨r, hRead⟩ := Option.ne_none_iff_exists'.mp h
  rw [readHotkeyOption, optionName_small, loaded, hRead]
  simp only [Option.bind_eq_bind, Option.bind_some, hRead]
  cases r with
  | error Status => rfl
  | ok BootOption => rfl

/-- All hotkeys hear the stroke. Of those that it completes, the last one that starts an option has it
read. -/
theorem strokeHotkeys_heard (hSized : ∀ h ∈ hotkeys, h.Sized)
    (hReadable : Readable gRT s .Boot (hotkeys.map BM_HOTKEY.BootOption))
    (strokes : List EFI_KEY_DATA) (KeyData : EFI_KEY_DATA) (pending : Option LoadOption) (signals : Nat) :
    strokeHotkeys gRT s KeyData (hotkeys.map (·.heard strokes)) pending signals =
      some (hotkeys.map (·.heard (strokes ++ [KeyData])),
        (lastStarting hotkeys strokes KeyData).elim pending (loaded gRT s .Boot ·.BootOption),
        signals + hotkeys.countP (·.Reacts strokes KeyData)) := by
  induction hotkeys generalizing pending signals with
  | nil => rfl
  | cons h hotkeys ih =>
    obtain ⟨hFirst, hRest⟩ := List.forall_mem_cons.mp hSized
    obtain ⟨hRead, hReads⟩ := List.forall_mem_cons.mp hReadable
    have hOption : readHotkeyOption gRT s (h.heard (strokes ++ [KeyData])) =
        some (loaded gRT s .Boot h.BootOption) := readHotkeyOption_eq hRead
    have hContinue : (h.heard (strokes ++ [KeyData])).IsContinue = h.IsContinue := rfl
    rw [List.map_cons, strokeHotkeys, strokeHotkey_heard hFirst, lastStarting_cons, List.countP_cons]
    simp only [Option.bind_eq_bind, Option.bind_some, hContinue, hOption]
    cases hReacts : h.Reacts strokes KeyData with
    | false =>
      -- nothing is read, and nothing signaled
      simp only [Bool.false_and, Bool.false_eq_true, if_false, Option.bind_some, ih hRest hReads]
      rfl
    | true =>
      cases h.IsContinue with
      | true =>
        simp only [Bool.not_true, Bool.and_false, Bool.false_eq_true, if_false, if_true,
          Option.bind_some, ih hRest hReads, Nat.add_assoc, Nat.add_comm 1]
        rfl
      | false =>
        simp only [Bool.not_false, Bool.and_true, if_true, Option.bind_some, ih hRest hReads,
          Nat.add_assoc, Nat.add_comm 1]
        -- what is read here stays only if no later hotkey reads another option
        cases lastStarting hotkeys strokes KeyData with
        | none => rfl
        | some last => rfl

/-- A hotkey without keys waits for what its array holds, and then behind it. -/
theorem run_leaves (hNone : hotkey.CodeCount = 0) (hNew : hotkey.WaitingKey = 0) (s : gRT.State) :
    Service.run serveHotkey ⟨[hotkey], none⟩
      ((hotkey.KeyData.toList ++ [KeyData]).map (HotkeyEvent.stroke s)) = none := by
  obtain ⟨IsContinue, BootOption, CodeCount, WaitingKey, ⟨⟨keys⟩, hSize⟩⟩ := hotkey
  obtain rfl : CodeCount = 0 := hNone
  obtain rfl : WaitingKey = 0 := hNew
  obtain ⟨a, b, c, rfl⟩ := List.length_eq_three.mp hSize
  simp [Service.run, serveHotkey, BmHotkeyCallback, strokeHotkeys, strokeHotkey, isWaitedFor_self]

/-- The strokes that were looked at, and the option that waits to be started. -/
structure Listened where
  strokes : List EFI_KEY_DATA
  pending : Option LoadOption

/-- What an event is for. -/
inductive Listens (hotkeys : List BM_HOTKEY) : Listened → HotkeyEvent gRT → HotkeyAnswer → Listened → Prop
  | ignored {strokes : List EFI_KEY_DATA} {o : LoadOption} {s : gRT.State} {KeyData : EFI_KEY_DATA} :
      Listens hotkeys ⟨strokes, some o⟩ (.stroke s KeyData) (.signaled 0) ⟨strokes, some o⟩
  | heard {strokes : List EFI_KEY_DATA} {s : gRT.State} {KeyData : EFI_KEY_DATA} :
      Listens hotkeys ⟨strokes, none⟩ (.stroke s KeyData)
        (.signaled (hotkeys.countP (·.Reacts strokes KeyData)))
        ⟨strokes ++ [KeyData], (lastStarting hotkeys strokes KeyData).bind (loaded gRT s .Boot ·.BootOption)⟩
  | booted {strokes : List EFI_KEY_DATA} {pending : Option LoadOption} :
      Listens hotkeys ⟨strokes, pending⟩ .boot (.booted pending) ⟨strokes, none⟩

/-- The variables of the hotkeys' options do not make the reader look behind their ends. -/
def HotkeyEvent.Proper (hotkeys : List BM_HOTKEY) : HotkeyEvent gRT → Prop
  | .stroke s _ => Readable gRT s .Boot (hotkeys.map BM_HOTKEY.BootOption)
  | .boot => True

/-- The service behind some strokes. -/
def HotkeyService.of (hotkeys : List BM_HOTKEY) (x : Listened) : HotkeyService :=
  ⟨hotkeys.map (·.heard x.strokes), x.pending⟩

/-- The option that waits is one of a hotkey whose keys were pressed last. -/
def Listened.Justified (hotkeys : List BM_HOTKEY) (x : Listened) : Prop :=
  ∀ o, x.pending = some o → ∃ h ∈ hotkeys, h.IsContinue = false ∧ o.OptionNumber = h.BootOption.toUInt64 ∧
    Ends isWaitedFor x.strokes h.code

/-- **One event.** -/
theorem serveHotkey_spec (hSized : ∀ h ∈ hotkeys, h.Sized) (x : Listened) {event : HotkeyEvent gRT}
    (hProper : event.Proper hotkeys) : ∃ answer y,
      serveHotkey (.of hotkeys x) event = some (answer, .of hotkeys y) ∧ Listens hotkeys x event answer y := by
  obtain ⟨strokes, pending⟩ := x
  cases event with
  | boot => exact ⟨_, _, rfl, .booted⟩
  | stroke s KeyData =>
    cases pending with
    | some o => exact ⟨_, _, rfl, .ignored⟩
    | none =>
      refine ⟨_, _, ?_, .heard⟩
      have hStrokes := strokeHotkeys_heard hSized hProper strokes KeyData none 0
      rw [Nat.zero_add] at hStrokes
      rw [serveHotkey, BmHotkeyCallback, HotkeyService.of, if_neg (by simp), hStrokes]
      cases lastStarting hotkeys strokes KeyData with
      | none => rfl
      | some last => rfl

/-- The one that starts an option is a hotkey that the stroke completes. -/
theorem mem_lastStarting {strokes : List EFI_KEY_DATA} {KeyData : EFI_KEY_DATA} {last : BM_HOTKEY}
    (h : lastStarting hotkeys strokes KeyData = some last) :
    last ∈ hotkeys ∧ last.Reacts strokes KeyData = true ∧ last.IsContinue = false := by
  obtain ⟨hMem, hStarts⟩ := List.mem_filter.mp (List.mem_of_getLast? h)
  obtain ⟨hReacts, hContinue⟩ := Bool.and_eq_true_iff.mp hStarts
  exact ⟨hMem, hReacts, by simpa using hContinue⟩

/-- An event keeps a waiting option justified: only a stroke that completes its hotkey sets one. -/
theorem justified_step {x y : Listened} {event : HotkeyEvent gRT} {answer : HotkeyAnswer}
    (h : Listens hotkeys x event answer y) (hJustified : x.Justified hotkeys) : y.Justified hotkeys := by
  cases h with
  | ignored => exact hJustified
  | booted =>
    intro o hPending
    cases hPending
  | heard =>
    intro o hPending
    obtain ⟨last, hLast, hLoaded⟩ := Option.bind_eq_some_iff.mp hPending
    obtain ⟨hMem, hReacts, hContinue⟩ := mem_lastStarting hLast
    exact ⟨last, hMem, hContinue, number_of_loaded hLoaded, ends_of_reacts hReacts⟩

/-- So it holds behind any events. -/
theorem justified_of_explains {x y : Listened} {events : List (HotkeyEvent gRT)}
    {answers : List HotkeyAnswer} (h : Service.Explains (Listens hotkeys) x events answers y)
    (hJustified : x.Justified hotkeys) : y.Justified hotkeys := by
  induction h with
  | nil => exact hJustified
  | cons hStep hRest ih => exact ih (justified_step hStep hJustified)

/-- The service that nothing has happened to. -/
theorem of_new (hNew : ∀ h ∈ hotkeys, h.WaitingKey = 0) :
    HotkeyService.of hotkeys ⟨[], none⟩ = ⟨hotkeys, none⟩ := by
  have hSame : hotkeys.map (·.heard []) = hotkeys.map id :=
    List.map_congr_left fun h hMem => heard_nil (hNew h hMem)
  rw [HotkeyService.of, hSame, List.map_id]

/--
**Strokes and starts.** In every run of strokes and starts, whatever becomes of the variables between them
as long as those of the hotkeys' options can be read, no hotkey looks behind its keys, and every answer is as
`Listens` says. The option that waits in the end is one of a hotkey whose keys were the last strokes that
were looked at.
-/
theorem hotkeys_run (hSized : ∀ h ∈ hotkeys, h.Sized) (hNew : ∀ h ∈ hotkeys, h.WaitingKey = 0)
    {events : List (HotkeyEvent gRT)} (hProper : ∀ event ∈ events, event.Proper hotkeys) :
    ∃ answers x, Service.run serveHotkey ⟨hotkeys, none⟩ events = some (answers, .of hotkeys x) ∧
      Service.Explains (Listens hotkeys) ⟨[], none⟩ events answers x ∧ x.Justified hotkeys := by
  have hStep : ∀ service x (event : HotkeyEvent gRT), service = HotkeyService.of hotkeys x →
      event.Proper hotkeys → ∃ answer service' y, serveHotkey service event = some (answer, service') ∧
        service' = HotkeyService.of hotkeys y ∧ Listens hotkeys x event answer y := by
    rintro service x event rfl hProper
    obtain ⟨answer, y, hServe, hListens⟩ := serveHotkey_spec hSized x hProper
    exact ⟨answer, _, y, hServe, rfl, hListens⟩
  obtain ⟨answers, service', x, hRun, rfl, hExplains⟩ :=
    Service.exists_run_related hStep (of_new hNew).symm hProper
  refine ⟨answers, x, hRun, hExplains, justified_of_explains hExplains ?_⟩
  intro o hPending
  cases hPending

end Listening

/-- The variable of an option. -/
def storedBytes : List UINT8 :=
  optionBytes 1 10 (numberedOption.Description.getD WideString.empty) (pathBytes (numberedPath 1) ++ [7])

/-- A variable is not empty. -/
theorem storedBytes_ne_nil : storedBytes ≠ [] := by decide

/-- Where Boot0000 has that option. -/
def storedOption : tableServices.State := fun name =>
  if name = variableName .Boot 0 then some ⟨storedBytes, storedBytes_ne_nil⟩ else none

/-- The option is read back. -/
theorem read_storedOption : EfiBootManagerVariableToLoadOption tableServices storedOption
    (variableName .Boot (0 : UINT16).toNat) = some (.ok { numberedOption with OptionNumber := 0 }) := by
  have hVariable : tableServices.GetVariable storedOption (variableName .Boot (0 : UINT16).toNat) =
      some storedBytes := by decide
  rw [EfiBootManagerVariableToLoadOption, isValidName_variableName, hVariable]
  exact readLoadOption_area (represents_numberedPath 1) (by decide) (by decide)
    (by rw [length_optionBytes]; decide)

/-- The two keys of the hotkey. -/
def keyF1 : EFI_KEY_DATA := ⟨⟨0x000B, 0⟩, EFI_SHIFT_STATE_VALID⟩
def keyF2 : EFI_KEY_DATA := ⟨⟨0x000C, 0⟩, EFI_SHIFT_STATE_VALID⟩

/-- F1 twice and then F2, which the hotkey misses; the two keys again, and one that is not looked at
because an option waits; and behind the start the same. -/
def twoKeysEvents : List (HotkeyEvent tableServices) :=
  let F1 : HotkeyEvent tableServices := .stroke storedOption keyF1
  let F2 : HotkeyEvent tableServices := .stroke storedOption keyF2
  [F1, F1, F2, F1, F2, F1, .boot, F1, F2, F1]

/-- The one variable that the hotkey names can be read. -/
theorem proper_twoKeysEvents : ∀ event ∈ twoKeysEvents, event.Proper [twoKeys] := by
  have hReadable : Readable tableServices storedOption .Boot ([twoKeys].map BM_HOTKEY.BootOption) := by
    intro n hn
    rw [List.mem_singleton.mp hn, twoKeys, read_storedOption]
    exact Option.some_ne_none _
  intro event hEvent
  cases event with
  | boot => trivial
  | stroke s KeyData =>
    have hStore : s = storedOption := by
      simp only [twoKeysEvents, List.mem_cons, HotkeyEvent.stroke.injEq, reduceCtorEq, List.not_mem_nil,
        or_false, false_or] at hEvent
      tauto
    rw [hStore]
    exact hReadable

/-- The hotkey behind F1. -/
def oneKey : BM_HOTKEY := { twoKeys with WaitingKey := 1 }

/-- Told by running the code. -/
theorem answers_twoKeysEvents : Service.run serveHotkey ⟨[twoKeys], none⟩ twoKeysEvents =
    some ([.signaled 0, .signaled 0, .signaled 0, .signaled 0, .signaled 1, .signaled 0,
        .booted (some { numberedOption with OptionNumber := 0 }), .signaled 0, .signaled 1, .signaled 0],
      ⟨[twoKeys], some { numberedOption with OptionNumber := 0 }⟩) := by
  have hFirst : strokeHotkey twoKeys keyF1 = some (oneKey, false) := rfl
  have hOther : strokeHotkey twoKeys keyF2 = some (twoKeys, false) := rfl
  have hAgain : strokeHotkey oneKey keyF1 = some (twoKeys, false) := rfl
  have hSecond : strokeHotkey oneKey keyF2 = some (twoKeys, true) := rfl
  have hStarts : twoKeys.IsContinue = false := rfl
  have hRead : readHotkeyOption tableServices storedOption twoKeys =
      some (some { numberedOption with OptionNumber := 0 }) := by
    rw [readHotkeyOption, optionName_small]
    simp only [Option.bind_eq_bind, Option.bind_some, twoKeys, read_storedOption]
    rfl
  simp [twoKeysEvents, Service.run, serveHotkey, BmHotkeyCallback, EfiBootManagerHotkeyBoot, strokeHotkeys,
    hFirst, hOther, hAgain, hSecond, hStarts, hRead]

/-- The option is started once, and waits again in the end. -/
theorem hotkeys_run_twoKeys : ∃ x : Listened,
    x.pending = some { numberedOption with OptionNumber := 0 } ∧
    Service.run serveHotkey ⟨[twoKeys], none⟩ twoKeysEvents =
      some ([.signaled 0, .signaled 0, .signaled 0, .signaled 0, .signaled 1, .signaled 0,
        .booted (some { numberedOption with OptionNumber := 0 }), .signaled 0, .signaled 1, .signaled 0],
        .of [twoKeys] x) ∧
    Service.Explains (Listens [twoKeys]) ⟨[], none⟩ twoKeysEvents
      [.signaled 0, .signaled 0, .signaled 0, .signaled 0, .signaled 1, .signaled 0,
        .booted (some { numberedOption with OptionNumber := 0 }), .signaled 0, .signaled 1, .signaled 0] x ∧
    x.Justified [twoKeys] := by
  obtain ⟨answers, x, hRun, hExplains, hJustified⟩ := @hotkeys_run tableServices [twoKeys]
    (fun h hMem => List.mem_singleton.mp hMem ▸ sized_twoKeys)
    (fun h hMem => by rw [List.mem_singleton.mp hMem]; rfl) _ proper_twoKeysEvents
  have hAnswers := answers_twoKeysEvents
  rw [hRun, Option.some.injEq, Prod.mk.injEq] at hAnswers
  obtain ⟨rfl, hLeft⟩ := hAnswers
  exact ⟨x, congrArg HotkeyService.mBmHotkeyBootOption hLeft, hRun, hExplains, hJustified⟩

end TianJi.Model
