import TianJi.Model.BmpReader
import TianJi.Model.KeyLoop

/-!
# TianJi — a whole run and its resources

`UefiMain` (天玑.c) from its first call to its return, as far as it acquires and releases
pool buffers, the load-option array and file handles. The firmware's answers are the
argument. A run ends at one of three places: behind `FREE_BUFFER` it releases every local
that is not null, whether or not it was assigned by then, at `CLOSE_FILE` it closes the
root directory, and a plain `return` releases nothing.

* `clean_freeBuffer_iff` — when the shared cleanup is enough.
* `keyLoop_returns_iff`  — which keys leave the loop past the cleanup.
* `uefiMain_clean_iff`   — exactly which runs release everything once and nothing else.
-/

namespace TianJi.Model

open Ownership

variable {α : Type}

/-- What a run finds in locals before they are assigned: whether it happens to be NULL. -/
structure «残留» where
  BootOptions : Bool
  «指针背景图» : Bool
  «指针混合结果» : Bool
  deriving DecidableEq

/-- An unassigned local. -/
def residue (isNull : Bool) : Ptr := if isNull then .null else .wild

/-- One turn of the key loop: what the calls in it return. -/
structure «按键事件» where
  WaitForEvent : EFI_STATUS
  ReadKeyStroke : EFI_STATUS
  Key : EFI_INPUT_KEY
  HandleProtocol : EFI_STATUS
  /-- `OcLocateFileSystem` finds one. -/
  FileSystem : Bool

/-- What the firmware answers to the calls of one run. -/
structure «运行环境» (α : Type) where
  HorizontalResolution : UINT32
  VerticalResolution : UINT32
  SetWatchdogTimer : EFI_STATUS
  /-- The three calls of `获取根目录`. -/
  LoadedImage : EFI_STATUS
  FsProtocol : EFI_STATUS
  OpenVolume : EFI_STATUS
  LocateProtocol : EFI_STATUS
  «随机背景文件名» : Bool
  «背景» : «读图环境»
  Blt : EFI_STATUS
  /-- `EfiBootManagerGetLoadOptions`; NULL comes with a count of 0. -/
  BootOptions : Option (List (BootOption α))
  «启动项» : Bool
  «图标尺寸» : «读图环境»
  «图标» : Nat → «读图环境»
  «图标背景图» : Nat → Bool
  «图标混合结果» : Nat → Bool
  «指针» : «读图环境»
  «指针背景图» : Bool
  «指针混合结果» : Bool
  «残留» : «残留»
  /-- Whether the two literals `L"Apple"` have one address. -/
  «同址» : Bool
  /-- Whether a table slot that was never stored passes for `L"Apple"`. -/
  «空位» : UINTN → Bool

/-- `BootOptions[0 .. BootCount]` -/
def «运行环境».options (m : «运行环境» α) : List (BootOption α) := m.BootOptions.getD []

/-- The locals that the cleanup releases. -/
structure «局部指针» where
  «随机背景文件名» : Ptr
  BootOptions : Ptr
  «启动项» : Ptr := .null
  «背景» : Ptr := .null
  «图标尺寸» : Ptr := .null
  «指针» : Ptr := .null
  «指针背景图» : Ptr
  «指针混合结果» : Ptr
  «根目录» : Ptr

/-- `FREE_BUFFER:` and `CLOSE_FILE:` -/
def FREE_BUFFER (s : «局部指针») (L : Ledger) : Ledger :=
  let L := L.releaseIf s.«随机背景文件名»
  let L := L.releaseIf s.BootOptions
  let L := L.releaseIf s.«启动项»
  let L := L.releaseIf s.«背景»
  let L := L.releaseIf s.«图标尺寸»
  let L := L.releaseIf s.«指针»
  let L := L.releaseIf s.«指针背景图»
  let L := L.releaseIf s.«指针混合结果»
  L.release s.«根目录»

/-- `启动项[选择启动项].启动项名称 == L"Apple"`, a comparison of addresses. -/
def «运行环境».«选中Apple» (m : «运行环境» α) («选择启动项» : UINTN) : Bool :=
  match («建表» m.options).«启动项».cells «选择启动项».toNat with
  | some entry => decide (entry.«启动项名称» = .Apple) && m.«同址»
  | none => m.«空位» «选择启动项»

/-- How the key loop is left. -/
inductive «循环出口» where
  | «跳出» (Status : EFI_STATUS)
  | «返回» (Status : EFI_STATUS)

/-- `while (1)`; `none` as long as keys are still waited for. -/
def «键循环» (m : «运行环境» α) (v : «版面») : «键状态» → List «按键事件» → Option «循环出口»
  | _, [] => none
  | s, ev :: events =>
    if EFI_ERROR ev.WaitForEvent then some (.«跳出» ev.WaitForEvent)
    else if EFI_ERROR ev.ReadKeyStroke then some (.«跳出» ev.ReadKeyStroke)
    else
      let s := «处理按键» v s ev.Key
      if ev.Key.UnicodeChar = CHAR_CARRIAGE_RETURN ∧ m.«选中Apple» s.«选择启动项» then
        -- both failures are plain returns
        if EFI_ERROR ev.HandleProtocol ∨ ev.FileSystem = false then some (.«返回» EFI_NOT_FOUND)
        else «键循环» m v s events
      else «键循环» m v s events

/-- `获取根目录` -/
def «获取根目录» (m : «运行环境» α) (L : Ledger) : EFI_STATUS × Ptr × Ledger :=
  if EFI_ERROR m.LoadedImage then (m.LoadedImage, .wild, L)
  else if EFI_ERROR m.FsProtocol then (m.FsProtocol, .wild, L)
  else if EFI_ERROR m.OpenVolume then (m.OpenVolume, .wild, L)
  else (m.OpenVolume, L.acquire)

/-- The text that `ConvertDevicePathToText` allocates for one boot option. -/
def «扫描文本» (L : Ledger) (o : BootOption α) : Ledger :=
  match o.DevicePathText with
  | none => L
  | some _ =>
    let (DevicePathText, L) := L.acquire
    L.release DevicePathText

/-- One turn of the icon loop. -/
def «绘制图标» (m : «运行环境» α) (L : Ledger) (i : Nat) : Ledger :=
  let (r, L) := «读取并转换Bmp» (m.«图标» i) L
  if EFI_ERROR r.Status then L
  else
    let («图标背景图», L) := L.tryAcquire (m.«图标背景图» i)
    let («图标混合结果», L) := L.tryAcquire (m.«图标混合结果» i)
    ((L.release r.GopBlt).release «图标背景图»).release «图标混合结果»

/-- From the pointer image on. -/
def «自指针起» (m : «运行环境» α) («图标宽度» : UINTN) (s : «局部指针») (L : Ledger)
    (events : List «按键事件») : Option (EFI_STATUS × Ledger) :=
  let (r, L) := «读取并转换Bmp» m.«指针» L
  let s := { s with «指针» := r.GopBlt }
  if EFI_ERROR r.Status then some (r.Status, FREE_BUFFER s L)
  else
    let («指针背景图», L) := L.tryAcquire m.«指针背景图»
    let («指针混合结果», L) := L.tryAcquire m.«指针混合结果»
    let s := { s with «指针背景图» := «指针背景图», «指针混合结果» := «指针混合结果» }
    let v : «版面» := ⟨m.HorizontalResolution, m.VerticalResolution, «图标宽度», r.PixelWidth,
      UInt64.ofNat («启动项数» m.options)⟩
    match «键循环» m v («初态» v) events with
    | none => none
    | some (.«跳出» Status) => some (Status, FREE_BUFFER s L)
    | some (.«返回» Status) => some (Status, L)

/-- From the icon template on. -/
def «自图标起» (m : «运行环境» α) (s : «局部指针») (L : Ledger) (events : List «按键事件») :
    Option (EFI_STATUS × Ledger) :=
  let (r, L) := «读取并转换Bmp» m.«图标尺寸» L
  let s := { s with «图标尺寸» := r.GopBlt }
  if EFI_ERROR r.Status then some (r.Status, FREE_BUFFER s L)
  else
    let L := (List.range («启动项数» m.options)).foldl («绘制图标» m) L
    «自指针起» m r.PixelWidth s L events

/-- From the boot options on. -/
def «自启动项起» (m : «运行环境» α) (s : «局部指针») (L : Ledger) (events : List «按键事件») :
    Option (EFI_STATUS × Ledger) :=
  let (BootOptions, L) := L.tryAcquire m.BootOptions.isSome
  let («启动项», L) := L.tryAcquire (decide (0 < m.options.length) && m.«启动项»)
  let s := { s with BootOptions := BootOptions, «启动项» := «启动项» }
  if «启动项» = .null then some (m.Blt, FREE_BUFFER s L)
  else «自图标起» m s (m.options.foldl «扫描文本» L) events

/-- From the background image on. -/
def «自背景起» (m : «运行环境» α) (s : «局部指针») (L : Ledger) (events : List «按键事件») :
    Option (EFI_STATUS × Ledger) :=
  let (r, L) := «读取并转换Bmp» m.«背景» L
  let s := { s with «背景» := r.GopBlt }
  if EFI_ERROR r.Status then some (r.Status, FREE_BUFFER s L)
  else «自启动项起» m s L events

/-- `UefiMain`: the status returned and what was acquired and released by then. -/
def UefiMain (m : «运行环境» α) (events : List «按键事件») : Option (EFI_STATUS × Ledger) :=
  if EFI_ERROR m.SetWatchdogTimer then some (m.SetWatchdogTimer, .empty)
  else
    let (Status, «根目录», L) := «获取根目录» m .empty
    if EFI_ERROR Status then some (Status, L.release «根目录»)
    else if EFI_ERROR m.LocateProtocol then some (m.LocateProtocol, L)
    else
      let («随机背景文件名», L) := L.tryAcquire m.«随机背景文件名»
      let s : «局部指针» :=
        { «随机背景文件名» := «随机背景文件名»
          BootOptions := residue m.«残留».BootOptions
          «指针背景图» := residue m.«残留».«指针背景图»
          «指针混合结果» := residue m.«残留».«指针混合结果»
          «根目录» := «根目录» }
      if «随机背景文件名» = .null then some (m.LocateProtocol, FREE_BUFFER s L)
      else «自背景起» m s L events

-- ---------------------------------------------------------------------------
-- The cleanup
-- ---------------------------------------------------------------------------

/-!
The cleanup releases every local that is not NULL, and the locals are not all set to NULL. The state
of a run is the ledger with the pointers that something is still owed for (`Owes`): the locals in the
order of the cleanup, the root directory, and what no local points to any more.
-/

/-- What `FREE_BUFFER` tests, in its order. -/
def «局部指针».buffers (s : «局部指针») : List Ptr :=
  [s.«随机背景文件名», s.BootOptions, s.«启动项», s.«背景», s.«图标尺寸», s.«指针», s.«指针背景图»,
    s.«指针混合结果»]

/-- A run owes its locals, the root directory, and what it lost track of. -/
def «局部指针».Owed (s : «局部指针») (L : Ledger) (lost : List Ptr) : Prop :=
  (∃ id, s.«根目录» = .ref id) ∧ L.Owes (s.buffers ++ s.«根目录» :: lost)

variable {L : Ledger} {s : «局部指针»} {lost : List Ptr}

/-- The tests in a row are one walk over the locals. -/
theorem freeBuffer_eq (s : «局部指针») (L : Ledger) :
    FREE_BUFFER s L = (L.releaseEach s.buffers).release s.«根目录» := rfl

/-- **The shared cleanup** is enough when every local was assigned and nothing was lost. -/
theorem clean_freeBuffer_iff (h : s.Owed L lost) :
    (FREE_BUFFER s L).Clean ↔ .wild ∉ s.buffers ∧ ∀ q ∈ lost, q.ids = [] := by
  obtain ⟨⟨id, hRoot⟩, hOwes⟩ := h
  rw [freeBuffer_eq]
  by_cases hWild : .wild ∈ s.buffers
  · refine iff_of_false ?_ (fun hAnd => hAnd.1 hWild)
    rintro ⟨hSound, -⟩
    exact Ledger.not_sound_releaseEach hWild (Ledger.sound_of_release hSound)
  · have hBuffers := Ledger.owes_releaseEach hOwes fun p hp hEq => hWild (hEq ▸ hp)
    have hClosed := Ledger.owes_release hBuffers (by rw [hRoot]; simp)
    rw [Ledger.clean_iff_of_owes hClosed]
    exact (and_iff_right hWild).symm

/-- A plain return leaves the root directory open. -/
theorem not_clean_return (h : s.Owed L lost) : ¬ L.Clean := by
  obtain ⟨⟨id, hRoot⟩, hOwes⟩ := h
  rw [Ledger.clean_iff_of_owes hOwes]
  intro hAll
  have hIds := hAll s.«根目录» (List.mem_append_right _ List.mem_cons_self)
  rw [hRoot] at hIds
  cases hIds

/-- A picture read into a local that owed nothing. -/
theorem read_spec (l₁ l₂ : List Ptr) {d root : Ptr} (hd : d.ids = [])
    (h : L.Owes ((l₁ ++ d :: l₂) ++ root :: lost)) (e : «读图环境») :
    ∃ r L₁ q, «读取并转换Bmp» e L = (r, L₁) ∧ (q.ids = [] ↔ e.leaks = false) ∧
      L₁.Owes ((l₁ ++ r.GopBlt :: l₂) ++ root :: q :: lost) ∧ r.GopBlt ≠ .wild ∧
      EFI_ERROR r.Status = e.fails ∧ (e.fails = true → r.GopBlt = .null) := by
  obtain ⟨q, hq, hOwes, hWild, hNull⟩ := owes_reader h e
  have hStatus := reader_error_iff e L
  rw [hStatus] at hNull
  generalize «读取并转换Bmp» e L = r at *
  -- the lost block moves behind the root directory, the picture into its slot
  have hMoved : (r.1.GopBlt :: q :: ((l₁ ++ d :: l₂) ++ root :: lost)).Perm
      (r.1.GopBlt :: (l₁ ++ d :: (l₂ ++ root :: q :: lost))) := by
    refine List.Perm.cons _ ?_
    have hSwap : (q :: ((l₁ ++ d :: l₂ ++ [root]) ++ lost)).Perm
        ((l₁ ++ d :: l₂ ++ [root]) ++ q :: lost) := List.perm_middle.symm
    simpa [List.append_assoc] using hSwap
  have hFilled := Ledger.owes_fill hd (hOwes.perm hMoved)
  refine ⟨r.1, r.2, q, rfl, hq, ?_, hWild, hStatus, hNull.mp⟩
  simpa [List.append_assoc] using hFilled

/-- A buffer allocated into a local that owed nothing. -/
theorem alloc_spec (l₁ : List Ptr) {l₂ : List Ptr} {d : Ptr} (hd : d.ids = [])
    (h : L.Owes (l₁ ++ d :: l₂)) (succeeds : Bool) :
    ∃ p L₁, L.tryAcquire succeeds = (p, L₁) ∧ L₁.Owes (l₁ ++ p :: l₂) ∧ p ≠ .wild ∧
      (p = .null ↔ succeeds = false) := by
  obtain ⟨p, L₁, hEq, hOwes, hWild, hNull⟩ := Ledger.tryAcquire_spec h succeeds
  exact ⟨p, L₁, hEq, Ledger.owes_fill hd hOwes, hWild, hNull⟩

/-- What an unassigned local holds is no block of the run's. -/
theorem ids_residue (isNull : Bool) : (residue isNull).ids = [] := by
  cases isNull <;> rfl

/-- It may be NULL by chance. -/
theorem residue_eq_wild_iff {isNull : Bool} : residue isNull = .wild ↔ isNull = false := by
  cases isNull <;> simp [residue]

-- ---------------------------------------------------------------------------
-- The key loop
-- ---------------------------------------------------------------------------

/-- Both calls that wait for a key succeed. -/
def «按键事件».Arrives (ev : «按键事件») : Prop :=
  EFI_ERROR ev.WaitForEvent = false ∧ EFI_ERROR ev.ReadKeyStroke = false

/-- Enter, and no file system to start OpenCore from. -/
def «按键事件».Strands (ev : «按键事件») : Prop :=
  ev.Key.UnicodeChar = CHAR_CARRIAGE_RETURN ∧
    (EFI_ERROR ev.HandleProtocol = true ∨ ev.FileSystem = false)

/-- Among the keys that arrive there is one that strands on the `L"Apple"` entry. -/
def «运行环境».Returns (m : «运行环境» α) (v : «版面») (s : «键状态») (events : List «按键事件») :
    Prop :=
  ∃ ks ev rest, events = ks ++ ev :: rest ∧ (∀ k ∈ ks ++ [ev], k.Arrives) ∧ ev.Strands ∧
    m.«选中Apple» (((ks ++ [ev]).map «按键事件».Key).foldl («处理按键» v) s).«选择启动项» = true

variable {m : «运行环境» α} {v : «版面»}

/-- The first key strands, or a later one does. -/
theorem returns_cons_iff {k : «键状态»} {ev : «按键事件»} {events : List «按键事件»}
    (hArrives : ev.Arrives) : m.Returns v k (ev :: events) ↔
      (ev.Strands ∧ m.«选中Apple» («处理按键» v k ev.Key).«选择启动项» = true) ∨
        m.Returns v («处理按键» v k ev.Key) events := by
  constructor
  · rintro ⟨ks, ev', rest, hSplit, hAll, hStrands, hApple⟩
    cases ks with
    | nil =>
      obtain ⟨rfl, rfl⟩ := List.cons.inj hSplit
      exact Or.inl ⟨hStrands, hApple⟩
    | cons k₀ ks =>
      obtain ⟨rfl, rfl⟩ := List.cons.inj hSplit
      exact Or.inr ⟨ks, ev', rest, rfl, fun k hk => hAll k (List.mem_cons_of_mem _ hk), hStrands,
        hApple⟩
  · rintro (⟨hStrands, hApple⟩ | ⟨ks, ev', rest, rfl, hAll, hStrands, hApple⟩)
    · refine ⟨[], ev, events, rfl, ?_, hStrands, hApple⟩
      intro k hk
      rw [List.mem_singleton.mp hk]
      exact hArrives
    · refine ⟨ev :: ks, ev', rest, rfl, ?_, hStrands, hApple⟩
      intro k hk
      rcases List.mem_cons.mp hk with rfl | hk
      · exact hArrives
      · exact hAll k hk

/-- Behind a key that does not arrive nothing is handled. -/
theorem not_returns_of_not_arrives {k : «键状态»} {ev : «按键事件»} {events : List «按键事件»}
    (hArrives : ¬ ev.Arrives) : ¬ m.Returns v k (ev :: events) := by
  rintro ⟨ks, ev', rest, hSplit, hAll, -, -⟩
  cases ks with
  | nil =>
    obtain ⟨rfl, rfl⟩ := List.cons.inj hSplit
    exact hArrives (hAll ev List.mem_cons_self)
  | cons k₀ ks =>
    obtain ⟨rfl, rfl⟩ := List.cons.inj hSplit
    exact hArrives (hAll ev List.mem_cons_self)

/-- **Which keys leave the loop past the cleanup.** -/
theorem keyLoop_returns_iff {k : «键状态»} {events : List «按键事件»} {exit : «循环出口»}
    (hRun : «键循环» m v k events = some exit) :
    (∃ Status, exit = .«返回» Status) ↔ m.Returns v k events := by
  induction events generalizing k with
  | nil => cases hRun
  | cons ev events ih =>
    unfold «键循环» at hRun
    by_cases hWait : EFI_ERROR ev.WaitForEvent = true
    · rw [if_pos hWait] at hRun
      obtain rfl := Option.some.inj hRun
      exact iff_of_false (by simp) (not_returns_of_not_arrives
        fun hA => Bool.false_ne_true (hA.1.symm.trans hWait))
    rw [if_neg hWait] at hRun
    by_cases hRead : EFI_ERROR ev.ReadKeyStroke = true
    · rw [if_pos hRead] at hRun
      obtain rfl := Option.some.inj hRun
      exact iff_of_false (by simp) (not_returns_of_not_arrives
        fun hA => Bool.false_ne_true (hA.2.symm.trans hRead))
    rw [if_neg hRead] at hRun
    have hArrives : ev.Arrives := ⟨by simpa using hWait, by simpa using hRead⟩
    rw [returns_cons_iff hArrives]
    dsimp only at hRun
    -- Enter on the entry, with and without a file system, and any other key
    split_ifs at hRun with hEnter hFail
    · obtain rfl := Option.some.inj hRun
      exact iff_of_true ⟨_, rfl⟩ (Or.inl ⟨⟨hEnter.1, hFail⟩, hEnter.2⟩)
    · rw [ih hRun]
      exact (or_iff_right fun h => hFail h.1.2).symm
    · rw [ih hRun]
      exact (or_iff_right fun h => hEnter ⟨h.1.1, h.2⟩).symm

-- ---------------------------------------------------------------------------
-- The loops over entries
-- ---------------------------------------------------------------------------

/-- The text of a device path is released in the same turn. -/
theorem owes_text {ps : List Ptr} (h : L.Owes ps) (os : List (BootOption α)) :
    (os.foldl «扫描文本» L).Owes ps := by
  induction os generalizing L with
  | nil => exact h
  | cons o os ih =>
    refine ih ?_
    unfold «扫描文本»
    cases o.DevicePathText with
    | none => exact h
    | some t => exact Ledger.owes_release (Ledger.owes_acquire h) Ledger.acquire_ne_wild

/-- One icon loses at most the block for its file's size. -/
theorem owes_icon {ps : List Ptr} (h : L.Owes ps) (m : «运行环境» α) (i : Nat) :
    ∃ q : Ptr, (q.ids = [] ↔ (m.«图标» i).leaks = false) ∧ («绘制图标» m L i).Owes (q :: ps) := by
  obtain ⟨q, hq, hOwes, hWild, hNull⟩ := owes_reader h (m.«图标» i)
  refine ⟨q, hq, ?_⟩
  unfold «绘制图标»
  by_cases hFail : EFI_ERROR («读取并转换Bmp» (m.«图标» i) L).1.Status = true
  · rw [hNull.mp hFail] at hOwes
    simp only [if_pos hFail]
    exact Ledger.owes_null_cons.mp hOwes
  · simp only [if_neg hFail]
    generalize «读取并转换Bmp» (m.«图标» i) L = r at *
    obtain ⟨back, L₁, hTryBack, hBack, hBackWild, -⟩ :=
      Ledger.tryAcquire_spec hOwes (m.«图标背景图» i)
    obtain ⟨mixed, L₂, hTryMixed, hMixed, hMixedWild, -⟩ :=
      Ledger.tryAcquire_spec hBack (m.«图标混合结果» i)
    simp only [hTryBack, hTryMixed]
    -- the picture is released first, the last buffer last
    have hOrder : (mixed :: back :: r.1.GopBlt :: q :: ps).Perm
        (r.1.GopBlt :: back :: mixed :: q :: ps) :=
      ((List.Perm.swap _ _ _).trans (List.Perm.cons _ (List.Perm.swap _ _ _))).trans
        (List.Perm.swap _ _ _)
    exact Ledger.owes_release (Ledger.owes_release (Ledger.owes_release (hMixed.perm hOrder) hWild)
      hBackWild) hMixedWild

/-- So the loop loses those blocks and no others. -/
theorem owes_icons {ps : List Ptr} (h : L.Owes ps) (m : «运行环境» α) (n : Nat) :
    ∃ qs : List Ptr, ((∀ q ∈ qs, q.ids = []) ↔ ∀ i < n, (m.«图标» i).leaks = false) ∧
      ((List.range n).foldl («绘制图标» m) L).Owes (qs ++ ps) := by
  induction n with
  | zero => exact ⟨[], by simp, h⟩
  | succ n ih =>
    obtain ⟨qs, hqs, hOwes⟩ := ih
    obtain ⟨q, hq, hIcon⟩ := owes_icon hOwes m n
    refine ⟨q :: qs, ?_, ?_⟩
    · rw [List.forall_mem_cons, hqs, hq, Nat.forall_lt_succ_right, and_comm]
    · rw [List.range_succ, List.foldl_append, List.foldl_cons, List.foldl_nil]
      exact hIcon

-- ---------------------------------------------------------------------------
-- Runs
-- ---------------------------------------------------------------------------

/-!
A run is taken from behind: each part is tidy by its own condition and that of the part after it. An
early exit meets the locals that later parts would have assigned.
-/

/-- The entry that a key sequence selects, counted round the table from the first one, is
named `L"Apple"`. -/
def «运行环境».AppleAfter (m : «运行环境» α) (keys : List EFI_INPUT_KEY) : Prop :=
  let entries := m.options.flatMap entriesOf
  let i := (netRight keys % places (UInt64.ofNat entries.length)).toNat
  match entries[i]? with
  | some entry => entry.«启动项名称» = .Apple ∧ m.«同址» = true
  | none => m.«空位» (UInt64.ofNat i) = true

/-- Among the keys that arrive there is one that strands while that entry is selected. -/
def «运行环境».Stranded (m : «运行环境» α) (events : List «按键事件») : Prop :=
  ∃ ks ev rest, events = ks ++ ev :: rest ∧ (∀ k ∈ ks ++ [ev], k.Arrives) ∧ ev.Strands ∧
    m.AppleAfter ((ks ++ [ev]).map «按键事件».Key)

/-- The selected entry is the one that the keys count to. -/
theorem apple_iff (m : «运行环境» α) {v : «版面»}
    (hn : v.«启动项数» = UInt64.ofNat («启动项数» m.options)) (keys : List EFI_INPUT_KEY) :
    m.«选中Apple» (runKeys v keys).«选择启动项» = true ↔ m.AppleAfter keys := by
  rw [bootCount_eq] at hn
  have hIndex : (netRight keys %
      places (UInt64.ofNat (m.options.flatMap entriesOf).length)).toNat =
      (runKeys v keys).«选择启动项».toNat := by
    rw [← hn, selection_refines, ← net_map_moveOf, ← Carousel.run_eq_net_emod (places_pos _),
      Int.toNat_natCast]
  unfold «运行环境».«选中Apple» «运行环境».AppleAfter
  simp only [hIndex, cells_bootTable, UInt64.ofNat_toNat]
  cases (m.options.flatMap entriesOf)[(runKeys v keys).«选择启动项».toNat]? with
  | none => rfl
  | some entry => simp

/-- With as many entries as options make, the two ways to tell it are one. -/
theorem returns_iff_stranded (m : «运行环境» α) {v : «版面»}
    (hn : v.«启动项数» = UInt64.ofNat («启动项数» m.options)) (events : List «按键事件») :
    m.Returns v («初态» v) events ↔ m.Stranded events := by
  have hApple := apple_iff m hn
  simp only [runKeys] at hApple
  simp only [«运行环境».Returns, «运行环境».Stranded, hApple]

/-- The locals that only a run past the pointer image assigns. -/
def «残留».Pointer (r : «残留») : Prop := r.«指针背景图» = true ∧ r.«指针混合结果» = true

/-- The pointer image is not lost, and either it fails where the cleanup can cope with it or
no key leaves the loop past the cleanup. -/
def «运行环境».PointerTidy (m : «运行环境» α) (events : List «按键事件») : Prop :=
  m.«指针».leaks = false ∧
    if m.«指针».fails then m.«残留».Pointer else ¬ m.Stranded events

/-- The same from the icon template on: no icon is lost either. -/
def «运行环境».IconsTidy (m : «运行环境» α) (events : List «按键事件») : Prop :=
  m.«图标尺寸».leaks = false ∧
    if m.«图标尺寸».fails then m.«残留».Pointer
    else (∀ i < «启动项数» m.options, (m.«图标» i).leaks = false) ∧ m.PointerTidy events

/-- The same from the boot options on. -/
def «运行环境».TableTidy (m : «运行环境» α) (events : List «按键事件») : Prop :=
  if m.options = [] ∨ m.«启动项» = false then m.«残留».Pointer else m.IconsTidy events

/-- The same from the background on, where `BootOptions` is not assigned yet. -/
def «运行环境».BackgroundTidy (m : «运行环境» α) (events : List «按键事件») : Prop :=
  m.«背景».leaks = false ∧
    if m.«背景».fails then m.«残留».BootOptions = true ∧ m.«残留».Pointer else m.TableTidy events

/-- The same for the whole run. The watchdog is the one early exit that owes nothing; the
other two before `FREE_BUFFER` either close a directory that was never opened or leave it
open. -/
def «运行环境».Tidy (m : «运行环境» α) (events : List «按键事件») : Prop :=
  EFI_ERROR m.SetWatchdogTimer = true ∨
    (EFI_ERROR m.LoadedImage = false ∧ EFI_ERROR m.FsProtocol = false ∧
      EFI_ERROR m.OpenVolume = false) ∧ EFI_ERROR m.LocateProtocol = false ∧
    if m.«随机背景文件名» = false then m.«残留».BootOptions = true ∧ m.«残留».Pointer
    else m.BackgroundTidy events

/-- What the locals are before the pointer image: the pointer's own are not assigned. -/
structure «局部指针».BeforePointer (s : «局部指针») (m : «运行环境» α) : Prop where
  named : s.«随机背景文件名» ≠ .wild
  options : s.BootOptions ≠ .wild
  table : s.«启动项» ≠ .wild
  background : s.«背景» ≠ .wild
  template : s.«图标尺寸» ≠ .wild
  pointer : s.«指针» = .null
  back : s.«指针背景图» = residue m.«残留».«指针背景图»
  mixed : s.«指针混合结果» = residue m.«残留».«指针混合结果»

variable {events : List «按键事件»} {Status : EFI_STATUS} {L' : Ledger}

/-- An exit before the pointer's buffers are assigned. -/
theorem clean_early_iff (hs : s.BeforePointer m) (h : s.Owed L lost) :
    (FREE_BUFFER s L).Clean ↔ m.«残留».Pointer ∧ ∀ q ∈ lost, q.ids = [] := by
  rw [clean_freeBuffer_iff h]
  refine and_congr_left' ?_
  have hPointer : s.«指针» ≠ .wild := by
    rw [hs.pointer]
    simp
  simp only [«局部指针».buffers, List.mem_cons, List.not_mem_nil, or_false, hs.named.symm,
    hs.options.symm, hs.table.symm, hs.background.symm, hs.template.symm, hPointer.symm, hs.back,
    hs.mixed, false_or, eq_comm (a := Ptr.wild), residue_eq_wild_iff, «残留».Pointer, not_or,
    Bool.not_eq_false]

/-- The key loop's two exits: behind the cleanup, or past it with everything still open. -/
theorem clean_exit_iff {k : «键状态»} (h : s.Owed L lost) (hAssigned : .wild ∉ s.buffers)
    (hRun : (match «键循环» m v k events with
      | none => none
      | some (.«跳出» Status) => some (Status, FREE_BUFFER s L)
      | some (.«返回» Status) => some (Status, L)) = some (Status, L')) :
    L'.Clean ↔ (∀ q ∈ lost, q.ids = []) ∧ ¬ m.Returns v k events := by
  cases hLoop : «键循环» m v k events with
  | none =>
    rw [hLoop] at hRun
    cases hRun
  | some exit =>
    rw [hLoop] at hRun
    rw [← keyLoop_returns_iff hLoop]
    cases exit with
    | «跳出» Status₁ =>
      obtain ⟨-, rfl⟩ := Prod.mk.inj (Option.some.inj hRun)
      rw [clean_freeBuffer_iff h, and_iff_right hAssigned]
      simp
    | «返回» Status₁ =>
      obtain ⟨-, rfl⟩ := Prod.mk.inj (Option.some.inj hRun)
      refine iff_of_false (not_clean_return h) ?_
      rintro ⟨-, hNot⟩
      exact hNot ⟨_, rfl⟩

/-- A run from the pointer image on. -/
theorem clean_pointer_iff {«图标宽度» : UINTN} (hs : s.BeforePointer m) (h : s.Owed L lost)
    (hRun : «自指针起» m «图标宽度» s L events = some (Status, L')) :
    L'.Clean ↔ (∀ q ∈ lost, q.ids = []) ∧ m.PointerTidy events := by
  obtain ⟨hRoot, hOwes⟩ := h
  obtain ⟨r, L₁, q, hReader, hq, hRead, hWild, hStatus, hNull⟩ := read_spec
    [s.«随机背景文件名», s.BootOptions, s.«启动项», s.«背景», s.«图标尺寸»]
    [s.«指针背景图», s.«指针混合结果»] (by rw [hs.pointer]; rfl) hOwes m.«指针»
  unfold «自指针起» at hRun
  simp only [hReader, hStatus] at hRun
  rw [«运行环境».PointerTidy, ← hq]
  by_cases hFail : m.«指针».fails = true
  · -- the pointer's buffers stay unassigned
    rw [if_pos hFail] at hRun
    obtain ⟨-, rfl⟩ := Prod.mk.inj (Option.some.inj hRun)
    have hs' : { s with «指针» := r.GopBlt : «局部指针» }.BeforePointer m :=
      { hs with pointer := hNull hFail }
    rw [if_pos hFail, clean_early_iff hs' ⟨hRoot, hRead⟩, List.forall_mem_cons]
    tauto
  -- both buffers go into locals that owed nothing
  obtain ⟨back, L₂, hTryBack, hBack, hBackWild, -⟩ := alloc_spec
    [s.«随机背景文件名», s.BootOptions, s.«启动项», s.«背景», s.«图标尺寸», r.GopBlt]
    (by rw [hs.back]; exact ids_residue _) hRead m.«指针背景图»
  obtain ⟨mixed, L₃, hTryMixed, hMixed, hMixedWild, -⟩ := alloc_spec
    [s.«随机背景文件名», s.BootOptions, s.«启动项», s.«背景», s.«图标尺寸», r.GopBlt, back]
    (by rw [hs.mixed]; exact ids_residue _) hBack m.«指针混合结果»
  simp only [if_neg hFail, hTryBack, hTryMixed] at hRun
  have hOwed : («局部指针».mk s.«随机背景文件名» s.BootOptions s.«启动项» s.«背景» s.«图标尺寸»
      r.GopBlt back mixed s.«根目录»).Owed L₃ (q :: lost) := ⟨hRoot, hMixed⟩
  have hAssigned : Ptr.wild ∉ [s.«随机背景文件名», s.BootOptions, s.«启动项», s.«背景»,
      s.«图标尺寸», r.GopBlt, back, mixed] := by
    simp only [List.mem_cons, List.not_mem_nil, or_false, hs.named.symm, hs.options.symm,
      hs.table.symm, hs.background.symm, hs.template.symm, hWild.symm, hBackWild.symm,
      hMixedWild.symm, not_false_eq_true]
  rw [if_neg hFail, clean_exit_iff hOwed hAssigned hRun, returns_iff_stranded m rfl,
    List.forall_mem_cons]
  tauto

/-- The icon loop only adds to what is lost. -/
theorem owed_icons (h : s.Owed L lost) (m : «运行环境» α) (n : Nat) :
    ∃ qs : List Ptr, ((∀ q ∈ qs, q.ids = []) ↔ ∀ i < n, (m.«图标» i).leaks = false) ∧
      s.Owed ((List.range n).foldl («绘制图标» m) L) (qs ++ lost) := by
  obtain ⟨hRoot, hOwes⟩ := h
  obtain ⟨qs, hqs, hIcons⟩ := owes_icons hOwes m n
  refine ⟨qs, hqs, hRoot, hIcons.perm ?_⟩
  have hPerm : (qs ++ ((s.buffers ++ [s.«根目录»]) ++ lost)).Perm
      ((s.buffers ++ [s.«根目录»]) ++ (qs ++ lost)) := List.perm_append_comm_assoc _ _ _
  simpa [List.append_assoc] using hPerm

/-- A run from the icon template on. -/
theorem clean_icons_iff (hs : s.BeforePointer m) (hTemplate : s.«图标尺寸» = .null)
    (h : s.Owed L lost) (hRun : «自图标起» m s L events = some (Status, L')) :
    L'.Clean ↔ (∀ q ∈ lost, q.ids = []) ∧ m.IconsTidy events := by
  obtain ⟨hRoot, hOwes⟩ := h
  obtain ⟨r, L₁, q, hReader, hq, hRead, hWild, hStatus, -⟩ := read_spec
    [s.«随机背景文件名», s.BootOptions, s.«启动项», s.«背景»]
    [s.«指针», s.«指针背景图», s.«指针混合结果»] (by rw [hTemplate]; rfl) hOwes m.«图标尺寸»
  unfold «自图标起» at hRun
  simp only [hReader, hStatus] at hRun
  rw [«运行环境».IconsTidy, ← hq]
  have hs' : { s with «图标尺寸» := r.GopBlt : «局部指针» }.BeforePointer m :=
    { hs with template := hWild }
  by_cases hFail : m.«图标尺寸».fails = true
  · rw [if_pos hFail] at hRun
    obtain ⟨-, rfl⟩ := Prod.mk.inj (Option.some.inj hRun)
    rw [if_pos hFail, clean_early_iff hs' ⟨hRoot, hRead⟩, List.forall_mem_cons]
    tauto
  · rw [if_neg hFail] at hRun
    obtain ⟨qs, hqs, hIcons⟩ := owed_icons (s := { s with «图标尺寸» := r.GopBlt })
      ⟨hRoot, hRead⟩ m («启动项数» m.options)
    rw [if_neg hFail, clean_pointer_iff hs' hIcons hRun, ← hqs, List.forall_mem_append,
      List.forall_mem_cons]
    tauto

/-- What the locals are before the boot options: theirs are not assigned either. -/
structure «局部指针».BeforeOptions (s : «局部指针») (m : «运行环境» α) : Prop where
  named : s.«随机背景文件名» ≠ .wild
  options : s.BootOptions = residue m.«残留».BootOptions
  table : s.«启动项» = .null
  background : s.«背景» ≠ .wild
  template : s.«图标尺寸» = .null
  pointer : s.«指针» = .null
  back : s.«指针背景图» = residue m.«残留».«指针背景图»
  mixed : s.«指针混合结果» = residue m.«残留».«指针混合结果»

/-- An exit before the boot options are asked for. -/
theorem clean_first_iff (hs : s.BeforeOptions m) (h : s.Owed L lost) :
    (FREE_BUFFER s L).Clean ↔
      (m.«残留».BootOptions = true ∧ m.«残留».Pointer) ∧ ∀ q ∈ lost, q.ids = [] := by
  rw [clean_freeBuffer_iff h]
  refine and_congr_left' ?_
  simp [«局部指针».buffers, hs.named.symm, hs.options, hs.table, hs.background.symm, hs.template,
    hs.pointer, hs.back, hs.mixed, eq_comm (a := Ptr.wild), residue_eq_wild_iff, «残留».Pointer]

/-- A run from the boot options on. -/
theorem clean_table_iff (hs : s.BeforeOptions m) (h : s.Owed L lost)
    (hRun : «自启动项起» m s L events = some (Status, L')) :
    L'.Clean ↔ (∀ q ∈ lost, q.ids = []) ∧ m.TableTidy events := by
  obtain ⟨hRoot, hOwes⟩ := h
  obtain ⟨options, L₁, hTryOptions, hOptions, hOptionsWild, -⟩ := alloc_spec
    [s.«随机背景文件名»] (by rw [hs.options]; exact ids_residue _) hOwes m.BootOptions.isSome
  obtain ⟨table, L₂, hTryTable, hTable, hTableWild, hTableNull⟩ := alloc_spec
    [s.«随机背景文件名», options] (by rw [hs.table]; rfl) hOptions
    (decide (0 < m.options.length) && m.«启动项»)
  unfold «自启动项起» at hRun
  simp only [hTryOptions, hTryTable] at hRun
  have hs' : («局部指针».mk s.«随机背景文件名» options table s.«背景» s.«图标尺寸» s.«指针»
      s.«指针背景图» s.«指针混合结果» s.«根目录»).BeforePointer m :=
    ⟨hs.named, hOptionsWild, hTableWild, hs.background, by rw [hs.template]; simp, hs.pointer,
      hs.back, hs.mixed⟩
  have hMissing : table = .null ↔ m.options = [] ∨ m.«启动项» = false := by
    rw [hTableNull, Bool.and_eq_false_iff, decide_eq_false_iff_not, List.length_pos_iff, not_not]
  rw [«运行环境».TableTidy]
  by_cases hNull : table = .null
  · -- no options, or no room for the table
    rw [if_pos hNull] at hRun
    obtain ⟨-, rfl⟩ := Prod.mk.inj (Option.some.inj hRun)
    rw [if_pos (hMissing.mp hNull), clean_early_iff hs' ⟨hRoot, hTable⟩, and_comm]
  · rw [if_neg hNull] at hRun
    rw [if_neg (mt hMissing.mpr hNull)]
    exact clean_icons_iff hs' hs.template ⟨hRoot, owes_text hTable m.options⟩ hRun

/-- A run from the background on. -/
theorem clean_background_iff (hs : s.BeforeOptions m) (hBackground : s.«背景» = .null)
    (h : s.Owed L lost) (hRun : «自背景起» m s L events = some (Status, L')) :
    L'.Clean ↔ (∀ q ∈ lost, q.ids = []) ∧ m.BackgroundTidy events := by
  obtain ⟨hRoot, hOwes⟩ := h
  obtain ⟨r, L₁, q, hReader, hq, hRead, hWild, hStatus, -⟩ := read_spec
    [s.«随机背景文件名», s.BootOptions, s.«启动项»]
    [s.«图标尺寸», s.«指针», s.«指针背景图», s.«指针混合结果»]
    (by rw [hBackground]; rfl) hOwes m.«背景»
  unfold «自背景起» at hRun
  simp only [hReader, hStatus] at hRun
  rw [«运行环境».BackgroundTidy, ← hq]
  have hs' : { s with «背景» := r.GopBlt : «局部指针» }.BeforeOptions m :=
    { hs with background := hWild }
  by_cases hFail : m.«背景».fails = true
  · rw [if_pos hFail] at hRun
    obtain ⟨-, rfl⟩ := Prod.mk.inj (Option.some.inj hRun)
    rw [if_pos hFail, clean_first_iff hs' ⟨hRoot, hRead⟩, List.forall_mem_cons]
    tauto
  · rw [if_neg hFail] at hRun
    rw [if_neg hFail, clean_table_iff hs' ⟨hRoot, hRead⟩ hRun, List.forall_mem_cons]
    tauto

/-- The root directory is opened, or its pointer stays unassigned. -/
theorem root_cases (m : «运行环境» α) (L : Ledger) :
    ((EFI_ERROR m.LoadedImage = false ∧ EFI_ERROR m.FsProtocol = false ∧
        EFI_ERROR m.OpenVolume = false) ∧ «获取根目录» m L = (m.OpenVolume, L.acquire)) ∨
      (¬ (EFI_ERROR m.LoadedImage = false ∧ EFI_ERROR m.FsProtocol = false ∧
        EFI_ERROR m.OpenVolume = false) ∧ ∃ Status, EFI_ERROR Status = true ∧
        «获取根目录» m L = (Status, .wild, L)) := by
  unfold «获取根目录»
  split_ifs with hImage hFs hVolume
  · exact Or.inr ⟨by simp [hImage], _, hImage, rfl⟩
  · exact Or.inr ⟨by simp [hFs], _, hFs, rfl⟩
  · exact Or.inr ⟨by simp [hVolume], _, hVolume, rfl⟩
  · exact Or.inl ⟨⟨by simpa using hImage, by simpa using hFs, by simpa using hVolume⟩, rfl⟩

/--
**Which runs keep the discipline.** A run that returns has released everything it acquired
exactly once, and nothing else, exactly when the watchdog already failed, or the root
directory and the graphics protocol were found, no picture was lost, every failure met the
locals not yet assigned as NULL, and no Enter left the key loop past the cleanup.
-/
theorem uefiMain_clean_iff (m : «运行环境» α) (events : List «按键事件»)
    (hRun : UefiMain m events = some (Status, L')) : L'.Clean ↔ m.Tidy events := by
  unfold UefiMain at hRun
  rw [«运行环境».Tidy]
  by_cases hWatchdog : EFI_ERROR m.SetWatchdogTimer = true
  · rw [if_pos hWatchdog] at hRun
    obtain ⟨-, rfl⟩ := Prod.mk.inj (Option.some.inj hRun)
    exact iff_of_true (by decide) (Or.inl hWatchdog)
  rw [if_neg hWatchdog] at hRun
  rw [or_iff_right hWatchdog]
  rcases root_cases m .empty with ⟨hRoot, hOpened⟩ | ⟨hRoot, Status₁, hFail, hOpened⟩
  swap
  · -- the root directory was never opened, `CLOSE_FILE` closes it all the same
    simp only [hOpened, if_pos hFail] at hRun
    obtain ⟨-, rfl⟩ := Prod.mk.inj (Option.some.inj hRun)
    refine iff_of_false (fun hClean => ?_) (fun hAnd => hRoot hAnd.1)
    exact Ledger.not_sound_release_wild hClean.1
  obtain ⟨root, L₁, hAcquire, hDirectory, -⟩ := Ledger.acquire_spec Ledger.owes_empty
  have hRef : ∃ id, root = .ref id := ⟨0, (Prod.mk.inj hAcquire).1.symm⟩
  obtain ⟨name, L₂, hTryName, hName, hNameWild, hNameNull⟩ :=
    Ledger.tryAcquire_spec hDirectory m.«随机背景文件名»
  simp only [hOpened, hAcquire, hTryName, hRoot.2.2, Bool.false_eq_true, if_false] at hRun
  rw [and_iff_right hRoot]
  by_cases hGop : EFI_ERROR m.LocateProtocol = true
  · -- a plain return, with the root directory open
    rw [if_pos hGop] at hRun
    obtain ⟨-, rfl⟩ := Prod.mk.inj (Option.some.inj hRun)
    refine iff_of_false (fun hClean => ?_)
      (fun hAnd => Bool.false_ne_true (hAnd.1.symm.trans hGop))
    obtain ⟨id, rfl⟩ := hRef
    exact absurd ((Ledger.clean_iff_of_owes hDirectory).mp hClean _ List.mem_cons_self) (by simp)
  rw [if_neg hGop] at hRun
  rw [and_iff_right (by simpa using hGop)]
  have hs : («局部指针».mk name (residue m.«残留».BootOptions) .null .null .null .null
      (residue m.«残留».«指针背景图») (residue m.«残留».«指针混合结果») root).BeforeOptions m :=
    ⟨hNameWild, rfl, rfl, by simp, rfl, rfl, rfl, rfl⟩
  have hOwed : («局部指针».mk name (residue m.«残留».BootOptions) .null .null .null .null
      (residue m.«残留».«指针背景图») (residue m.«残留».«指针混合结果») root).Owed L₂ [] := by
    refine ⟨hRef, hName.1, ?_⟩
    simpa [«局部指针».buffers, ids_residue] using hName.2
  by_cases hNull : name = .null
  · rw [if_pos hNull] at hRun
    obtain ⟨-, rfl⟩ := Prod.mk.inj (Option.some.inj hRun)
    rw [if_pos (hNameNull.mp hNull), clean_first_iff hs hOwed]
    simp
  · rw [if_neg hNull] at hRun
    rw [if_neg (mt hNameNull.mpr hNull), clean_background_iff hs rfl hOwed hRun]
    simp

/-- A run in which nothing fails: one boot option, pictures of two by two pixels. -/
def «运行环境».smooth : «运行环境» Unit where
  HorizontalResolution := 1920
  VerticalResolution := 1080
  SetWatchdogTimer := EFI_SUCCESS
  LoadedImage := EFI_SUCCESS
  FsProtocol := EFI_SUCCESS
  OpenVolume := EFI_SUCCESS
  LocateProtocol := EFI_SUCCESS
  «随机背景文件名» := true
  «背景» := .ofFile squareFile fun _ => 0
  Blt := EFI_SUCCESS
  BootOptions := some [⟨(), some (Model.L "Microsoft")⟩]
  «启动项» := true
  «图标尺寸» := .ofFile squareFile fun _ => 0
  «图标» := fun _ => .ofFile squareFile fun _ => 0
  «图标背景图» := fun _ => true
  «图标混合结果» := fun _ => true
  «指针» := .ofFile squareFile fun _ => 0
  «指针背景图» := true
  «指针混合结果» := true
  «残留» := ⟨false, false, false⟩
  «同址» := true
  «空位» := fun _ => false

/-- Waiting for a key fails. -/
def «按键事件».gone : «按键事件» := ⟨EFI_DEVICE_ERROR, EFI_SUCCESS, ⟨0, 0⟩, EFI_SUCCESS, true⟩

/-- It keeps the discipline, with a loop that is left for the failed wait. -/
theorem uefiMain_clean_smooth : ∃ Status L, UefiMain .smooth [.gone] = some (Status, L) ∧ L.Clean := by
  have hSome : (UefiMain «运行环境».smooth [.gone]).isSome = true := by decide +kernel
  obtain ⟨⟨Status, L⟩, hRun⟩ := Option.isSome_iff_exists.mp hSome
  refine ⟨Status, L, hRun, (uefiMain_clean_iff _ _ hRun).mpr (Or.inr ⟨by decide, by decide, ?_⟩)⟩
  -- the three pictures are one file
  have hFails : ¬ «运行环境».smooth.«背景».fails = true := by decide +kernel
  have hQuiet : «运行环境».smooth.«背景».leaks = false := by decide
  have hStays : ¬ «运行环境».smooth.Stranded [.gone] := by
    rw [← returns_iff_stranded _ (v := ⟨1920, 1080, 1, 1, 1⟩) (by decide +kernel)]
    exact not_returns_of_not_arrives fun hArrives => absurd hArrives.1 (by decide)
  have hPointer : «运行环境».smooth.PointerTidy [.gone] :=
    ⟨hQuiet, (if_neg hFails).mpr hStays⟩
  have hIcons : «运行环境».smooth.IconsTidy [.gone] :=
    ⟨hQuiet, (if_neg hFails).mpr ⟨fun _ _ => hQuiet, hPointer⟩⟩
  have hTable : «运行环境».smooth.TableTidy [.gone] :=
    (if_neg (by simp [«运行环境».options, «运行环境».smooth])).mpr hIcons
  exact (if_neg (by decide)).mpr ⟨hQuiet, (if_neg hFails).mpr hTable⟩

/-- Without the graphics protocol the root directory stays open. -/
theorem root_left_open :
    UefiMain { «运行环境».smooth with LocateProtocol := EFI_NOT_FOUND } [] =
      some (EFI_NOT_FOUND, ⟨1, [0], []⟩) ∧ ¬ (⟨1, [0], []⟩ : Ledger).Clean := by
  decide +kernel

end TianJi.Model
