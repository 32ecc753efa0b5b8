import Mathlib.Data.List.Flatten
import Mathlib.Data.List.Nodup
import Mathlib.Data.List.Perm.Basic

/-!
# TianJi — the boot menu application

`UefiMain` of 获取启动菜单.c and the freeing loop of BmLoadOption.c, as the sequence of their
releases with the call of `EfiBootManagerBoot` in its place. The printing loop releases
the descriptions of the array it prints, and the array keeps pointing to them.

* `nodup_printed_kept`  — what the printing loop touches is apart from all the rest.
* `atMostOnce_iff`      — when no buffer of the menu is released twice.
* `bootsIntact_iff`     — when the fourth option is there and whole.
* `menu_discipline_iff` — exactly which menus are handled properly.
-/

namespace TianJi.Model.«获取启动菜单»

variable {β : Type}

/-- A load option, down to the buffers it points to; `none` is NULL. -/
structure EFI_BOOT_MANAGER_LOAD_OPTION (β : Type) where
  Description : Option β
  FilePath : Option β
  OptionalData : Option β

def EFI_BOOT_MANAGER_LOAD_OPTION.buffers (o : EFI_BOOT_MANAGER_LOAD_OPTION β) : List β :=
  o.Description.toList ++ o.FilePath.toList ++ o.OptionalData.toList

/-- One turn of the printing loop: an option, and the text `ConvertDevicePathToText` gives. -/
structure «菜单项» (β : Type) extends EFI_BOOT_MANAGER_LOAD_OPTION β where
  DevicePathText : Option β

/-- Every buffer that exists during the turn on its account. -/
def «菜单项».blocks (t : «菜单项» β) : List β := t.buffers ++ t.DevicePathText.toList

/-- What `EfiBootManagerGetLoadOptions` returns when it finds something. Every buffer is
an allocation of its own. -/
structure «菜单» (β : Type) where
  array : β
  items : List («菜单项» β)
  separate : (array :: items.flatMap «菜单项».blocks).Nodup

/-- What the calls of one run give. -/
structure «菜单环境» (β : Type) where
  /-- NULL comes with a count of 0. -/
  BootOptions : Option («菜单» β)
  /-- Whether `EfiBootManagerBoot` comes back. -/
  «返回» : Bool

/-- `BootOptions[0 .. BootCount]` -/
def «菜单环境».items (e : «菜单环境» β) : List («菜单项» β) :=
  match e.BootOptions with
  | none => []
  | some menu => menu.items

/-- The array and what its elements point to. -/
def «菜单环境».owned (e : «菜单环境» β) : List β :=
  match e.BootOptions with
  | none => []
  | some menu => menu.array :: menu.items.flatMap (·.buffers)

inductive «动作» (β : Type) where
  | FreePool (Buffer : β)
  /-- `EfiBootManagerBoot (&BootOptions[Index])` -/
  | EfiBootManagerBoot (Index : Nat)

/-- One turn of the printing loop. -/
def «打印启动选项» (t : «菜单项» β) : List («动作» β) :=
  t.Description.toList.map .FreePool ++ t.DevicePathText.toList.map .FreePool

def EfiBootManagerFreeLoadOption (LoadOption : EFI_BOOT_MANAGER_LOAD_OPTION β) : List («动作» β) :=
  LoadOption.Description.toList.map .FreePool ++ LoadOption.FilePath.toList.map .FreePool ++
    LoadOption.OptionalData.toList.map .FreePool

def EfiBootManagerFreeLoadOptions (BootOptions : Option («菜单» β)) : List («动作» β) :=
  match BootOptions with
  | none => []
  | some menu =>
    menu.items.flatMap (fun t => EfiBootManagerFreeLoadOption t.toEFI_BOOT_MANAGER_LOAD_OPTION) ++
      [.FreePool menu.array]

def UefiMain (e : «菜单环境» β) : List («动作» β) :=
  e.items.flatMap «打印启动选项» ++
    .EfiBootManagerBoot 3 :: if e.«返回» then EfiBootManagerFreeLoadOptions e.BootOptions else []

/-- The releases of a sequence, in order. -/
def released (as : List («动作» β)) : List β :=
  as.filterMap fun
    | .FreePool b => some b
    | .EfiBootManagerBoot _ => none

/-- No buffer of the menu is released twice. -/
def AtMostOnce [DecidableEq β] (e : «菜单环境» β) (as : List («动作» β)) : Prop :=
  ∀ b ∈ e.owned, (released as).count b ≤ 1

/-- Every option given to the boot manager is an element of the array, and none of its
buffers was released before. -/
def BootsIntact (e : «菜单环境» β) (as : List («动作» β)) : Prop :=
  ∀ before Index after, as = before ++ .EfiBootManagerBoot Index :: after →
    ∃ t, e.items[Index]? = some t ∧ ∀ b ∈ t.buffers, b ∉ released before

-- ---------------------------------------------------------------------------
-- Releases
-- ---------------------------------------------------------------------------

/-- What a turn of the printing loop releases. -/
def «菜单项».printed (t : «菜单项» β) : List β := t.Description.toList ++ t.DevicePathText.toList

/-- What it leaves alone. -/
def «菜单项».kept (t : «菜单项» β) : List β := t.FilePath.toList ++ t.OptionalData.toList

theorem blocks_perm (t : «菜单项» β) : t.blocks.Perm (t.printed ++ t.kept) := by
  unfold «菜单项».blocks «菜单项».printed «菜单项».kept EFI_BOOT_MANAGER_LOAD_OPTION.buffers
  simp only [List.append_assoc]
  refine List.Perm.append_left _ ?_
  rw [← List.append_assoc]
  exact List.perm_append_comm

theorem buffers_eq_kept {t : «菜单项» β} (h : t.Description = none) : t.buffers = t.kept := by
  simp [EFI_BOOT_MANAGER_LOAD_OPTION.buffers, «菜单项».kept, h]

@[simp] theorem released_append (as bs : List («动作» β)) :
    released (as ++ bs) = released as ++ released bs := by
  simp [released]

@[simp] theorem released_boot (Index : Nat) (as : List («动作» β)) :
    released (.EfiBootManagerBoot Index :: as) = released as := rfl

@[simp] theorem released_freeEach (bs : List β) : released (bs.map .FreePool) = bs := by
  simp [released, List.filterMap_map]

theorem released_flatMap {ι : Type} (f : ι → List («动作» β)) (g : ι → List β)
    (h : ∀ i, released (f i) = g i) (is : List ι) : released (is.flatMap f) = is.flatMap g := by
  induction is with
  | nil => rfl
  | cons i is ih => rw [List.flatMap_cons, List.flatMap_cons, released_append, h, ih]

theorem released_loop (ts : List («菜单项» β)) :
    released (ts.flatMap «打印启动选项») = ts.flatMap «菜单项».printed :=
  released_flatMap _ _ (fun t => by simp [«打印启动选项», «菜单项».printed]) ts

theorem released_cleanup (menu : «菜单» β) :
    released (EfiBootManagerFreeLoadOptions (some menu)) =
      menu.items.flatMap (·.buffers) ++ [menu.array] := by
  unfold EfiBootManagerFreeLoadOptions
  rw [released_append]
  refine congrArg₂ _ (released_flatMap _ _ (fun t => ?_) _) rfl
  simp [EfiBootManagerFreeLoadOption, EFI_BOOT_MANAGER_LOAD_OPTION.buffers]

/-- What the printing loop releases, what it leaves alone and the array are all distinct. -/
theorem nodup_printed_kept (menu : «菜单» β) :
    (menu.items.flatMap «菜单项».printed ++
      (menu.items.flatMap «菜单项».kept ++ [menu.array])).Nodup := by
  have hBlocks : (menu.items.flatMap «菜单项».blocks).Perm
      (menu.items.flatMap «菜单项».printed ++ menu.items.flatMap «菜单项».kept) :=
    (List.Perm.flatMap_left _ fun t _ => blocks_perm t).trans
      (List.flatMap_append_perm _ _ _).symm
  rw [← List.append_assoc]
  exact ((hBlocks.cons menu.array).trans (List.perm_append_singleton _ _).symm).nodup menu.separate

-- ---------------------------------------------------------------------------
-- The two halves of the discipline
-- ---------------------------------------------------------------------------

/-- A description is released by the printing loop. -/
theorem mem_printed_of_description {ts : List («菜单项» β)} {t : «菜单项» β} {b : β} (ht : t ∈ ts)
    (hb : t.Description = some b) : b ∈ ts.flatMap «菜单项».printed := by
  refine List.mem_flatMap.mpr ⟨t, ht, ?_⟩
  simp [«菜单项».printed, hb]

theorem mem_buffers_of_description {ts : List («菜单项» β)} {t : «菜单项» β} {b : β} (ht : t ∈ ts)
    (hb : t.Description = some b) : b ∈ ts.flatMap (·.buffers) := by
  refine List.mem_flatMap.mpr ⟨t, ht, ?_⟩
  simp [EFI_BOOT_MANAGER_LOAD_OPTION.buffers, hb]

theorem released_uefiMain (menu : «菜单» β) («返回» : Bool) :
    released (UefiMain ⟨some menu, «返回»⟩) = menu.items.flatMap «菜单项».printed ++
      if «返回» then menu.items.flatMap (·.buffers) ++ [menu.array] else [] := by
  unfold UefiMain
  rw [released_append, released_boot]
  refine congrArg₂ _ (released_loop menu.items) ?_
  cases «返回» with
  | true => exact released_cleanup menu
  | false => rfl

/-- **Nothing is released twice exactly when the cleanup finds no description.** -/
theorem atMostOnce_iff [DecidableEq β] (e : «菜单环境» β) :
    AtMostOnce e (UefiMain e) ↔ (e.«返回» = true → ∀ t ∈ e.items, t.Description = none) := by
  obtain ⟨BootOptions, «返回»⟩ := e
  cases BootOptions with
  | none =>
    refine ⟨fun _ _ t ht => ?_, fun _ b hb => ?_⟩
    · cases ht
    · cases hb
  | some menu =>
    have hSeparate := nodup_printed_kept menu
    unfold AtMostOnce
    rw [released_uefiMain]
    cases «返回» with
    | false =>
      refine ⟨fun _ hReturns => absurd hReturns Bool.false_ne_true, fun _ b _ => ?_⟩
      rw [if_neg Bool.false_ne_true, List.append_nil]
      exact List.nodup_iff_count.mp (List.nodup_append.mp hSeparate).1 b
    | true =>
      rw [if_pos rfl]
      constructor
      · intro hOnce _ t ht
        cases hb : t.Description with
        | none => rfl
        | some b =>
          change t ∈ menu.items at ht
          -- the printing loop released it, and the array still points to it
          have hBuffer := mem_buffers_of_description ht hb
          have hTwice := hOnce b (List.mem_cons_of_mem _ hBuffer)
          have hLoop := List.count_pos_iff.mpr (mem_printed_of_description ht hb)
          have hCleanup := List.count_pos_iff.mpr hBuffer
          simp only [List.count_append] at hTwice
          omega
      · intro hNone b _
        have hKept : menu.items.flatMap (·.buffers) = menu.items.flatMap «菜单项».kept :=
          List.flatMap_congr fun t ht => buffers_eq_kept (hNone rfl t ht)
        rw [hKept]
        exact List.nodup_iff_count.mp hSeparate b

/-- The run boots once, right behind the printing loop. -/
theorem boots_once {e : «菜单环境» β} {before after : List («动作» β)} {Index : Nat}
    (h : UefiMain e = before ++ .EfiBootManagerBoot Index :: after) :
    before = e.items.flatMap «打印启动选项» ∧ Index = 3 := by
  have hLoop : (.EfiBootManagerBoot Index : «动作» β) ∉ e.items.flatMap «打印启动选项» := by
    simp [«打印启动选项»]
  have hCleanup : (.EfiBootManagerBoot Index : «动作» β) ∉
      if e.«返回» then EfiBootManagerFreeLoadOptions e.BootOptions else [] := by
    split_ifs
    · cases e.BootOptions with
      | none => exact List.not_mem_nil
      | some menu => simp [EfiBootManagerFreeLoadOptions, EfiBootManagerFreeLoadOption]
    · exact List.not_mem_nil
  obtain ⟨hBefore, hBoot, -⟩ := (List.append_cons_inj_of_notMem hLoop hCleanup).mp h
  cases hBoot
  exact ⟨hBefore.symm, rfl⟩

/-- **The fourth option is booted whole exactly when it exists without a description.** -/
theorem bootsIntact_iff (e : «菜单环境» β) :
    BootsIntact e (UefiMain e) ↔ ∃ t, e.items[3]? = some t ∧ t.Description = none := by
  constructor
  · intro h
    obtain ⟨t, ht, hIntact⟩ := h _ _ _ rfl
    refine ⟨t, ht, ?_⟩
    rw [released_loop] at hIntact
    cases hb : t.Description with
    | none => rfl
    | some b =>
      refine absurd (mem_printed_of_description (List.mem_of_getElem? ht) hb) (hIntact b ?_)
      simp [EFI_BOOT_MANAGER_LOAD_OPTION.buffers, hb]
  · rintro ⟨t, ht, hNone⟩ before Index after hRun
    obtain ⟨rfl, rfl⟩ := boots_once hRun
    refine ⟨t, ht, fun b hb => ?_⟩
    rw [released_loop]
    cases hMenu : e.BootOptions with
    | none => simp [«菜单环境».items, hMenu] at ht
    | some menu =>
      have hItems : e.items = menu.items := by simp only [«菜单环境».items, hMenu]
      rw [hItems] at ht ⊢
      rw [buffers_eq_kept hNone] at hb
      intro hPrinted
      refine (List.nodup_append.mp (nodup_printed_kept menu)).2.2 b hPrinted b ?_ rfl
      exact List.mem_append_left _ (List.mem_flatMap.mpr ⟨t, List.mem_of_getElem? ht, hb⟩)

/-- **Which menus are handled properly**: the fourth option exists and has no description,
and where `EfiBootManagerBoot` comes back no option has one. -/
theorem menu_discipline_iff [DecidableEq β] (e : «菜单环境» β) :
    (AtMostOnce e (UefiMain e) ∧ BootsIntact e (UefiMain e)) ↔
      (∃ t, e.items[3]? = some t ∧ t.Description = none) ∧
        (e.«返回» = true → ∀ t ∈ e.items, t.Description = none) := by
  rw [atMostOnce_iff, bootsIntact_iff, and_comm]

/-- Four options with a name and a path each. -/
def «四项菜单» : «菜单环境» Nat where
  BootOptions := some
    { array := 0
      items := [⟨⟨some 1, some 2, none⟩, some 3⟩, ⟨⟨some 4, some 5, none⟩, some 6⟩,
        ⟨⟨some 7, some 8, none⟩, some 9⟩, ⟨⟨some 10, some 11, none⟩, some 12⟩]
      separate := by decide }
  «返回» := true

/-- All four names are released twice, the last one also before its option is booted. -/
theorem fourItems_released_twice :
    ¬ (AtMostOnce «四项菜单» (UefiMain «四项菜单») ∧
      BootsIntact «四项菜单» (UefiMain «四项菜单»)) := by
  rintro ⟨hOnce, -⟩
  exact absurd (hOnce 10 (by decide)) (by decide)

end TianJi.Model.«获取启动菜单»
