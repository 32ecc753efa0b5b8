import TianJi.Model.UefiMain

/-!
# TianJi — what Enter starts

The `CHAR_CARRIAGE_RETURN` case of the key loop (天玑.c). The table loop stores in every
entry the address of one of four literals, and Enter compares this address with the one of
another literal `L"Apple"`. Where a compiler places its literals is open: two of the same
text may share an address, two of different texts never do.

* `cells_created`         — every table entry with the boot option and the test it is from.
* `selectedApple_iff_address`      — the comparison, as the key loop of `UefiMain` has it.
* `enter_dispatches_iff`  — in every reachable state, when Enter starts what the entry names.
-/

namespace TianJi.Model

variable {α : Type}

/-- The literals that meet in the comparison. -/
inductive «字面量» where
  /-- The one a name was stored from. -/
  | «存入» (name : «名称»)
  /-- `L"Apple"` in the comparison. -/
  | «比较»
  deriving DecidableEq

def «字面量».text : «字面量» → List CHAR16
  | «存入» name => name.text
  | «比较» => L "Apple"

/-- Where a compiler places the literals. -/
structure «字面量位置» where
  address : «字面量» → UINTN
  /-- One address holds one text. -/
  text_eq : ∀ l l', address l = address l' → l.text = l'.text

/-- The two literals `L"Apple"` share an address. -/
def «字面量位置».Shares (p : «字面量位置») : Prop :=
  p.address (.«存入» .Apple) = p.address .«比较»

/-- What Enter comes to. -/
inductive «回车动作» (α : Type) where
  | «启动OpenCore»
  | EfiBootManagerBoot («启动选项» : α)
  | «返回» (Status : EFI_STATUS)
  deriving DecidableEq

/-- `case CHAR_CARRIAGE_RETURN`, for the entry selected. -/
def «执行选中» (p : «字面量位置») (entry : «启动项信息» α) (ev : «按键事件») : «回车动作» α :=
  if p.address (.«存入» entry.«启动项名称») ≠ p.address .«比较» then
    .EfiBootManagerBoot entry.«启动选项»
  else if EFI_ERROR ev.HandleProtocol then .«返回» EFI_NOT_FOUND
  else if ev.FileSystem = false then .«返回» EFI_NOT_FOUND
  else .«启动OpenCore»

/-- One turn of the key loop from its `switch`es on. `none` when no case is taken, or when
the element of the table was never stored. -/
def «处理事件» (p : «字面量位置») (os : List (BootOption α)) (v : «版面») (s : «键状态»)
    (ev : «按键事件») : Option («回车动作» α) :=
  let s := «处理按键» v s ev.Key
  if ev.Key.UnicodeChar = CHAR_CARRIAGE_RETURN then
    match («建表» os).«启动项».cells s.«选择启动项».toNat with
    | some entry => some («执行选中» p entry ev)
    | none => none
  else none

/-- The boot option and the name that every store of the table loop is made for: a test of
the option's path text that succeeds. -/
def created (os : List (BootOption α)) : List (BootOption α × «名称») :=
  os.flatMap fun o => ((o.DevicePathText.map namesOf).getD []).map fun name => (o, name)

/-- Enter does what the entry is for: OpenCore for an `"OC"` match, else its boot option. -/
def DispatchesByName (o : BootOption α) (name : «名称») (action : «回车动作» α) : Prop :=
  (action = .«启动OpenCore» ↔ name.keyword = L "OC") ∧
    (name.keyword ≠ L "OC" → action = .EfiBootManagerBoot o.option)

-- ---------------------------------------------------------------------------
-- Entries and their origin
-- ---------------------------------------------------------------------------

/-- The table's entries are the stores, in order. -/
theorem flatMap_entriesOf (os : List (BootOption α)) :
    os.flatMap entriesOf = (created os).map fun c => ⟨c.1.option, c.2⟩ := by
  unfold created
  rw [List.map_flatMap]
  refine List.flatMap_congr ?_
  intro o _
  rw [entriesOf, List.map_map]
  rfl

/-- **Every table entry carries its boot option and the name of the test it is from.** -/
theorem cells_created (os : List (BootOption α)) (k : Nat) :
    («建表» os).«启动项».cells k = (created os)[k]?.map fun c => ⟨c.1.option, c.2⟩ := by
  rw [cells_bootTable, flatMap_entriesOf, List.getElem?_map]

theorem length_created (os : List (BootOption α)) : (created os).length = «启动项数» os := by
  rw [bootCount_eq, flatMap_entriesOf, List.length_map]

-- ---------------------------------------------------------------------------
-- The comparison
-- ---------------------------------------------------------------------------

theorem keyword_eq_OC {name : «名称»} : name.keyword = L "OC" ↔ name = .Apple := by
  cases name with
  | Windows => decide
  | Ubuntu => decide
  | Apple => decide
  | FydeOS => decide

theorem text_eq_Apple {name : «名称»} : name.text = L "Apple" ↔ name = .Apple := by
  cases name with
  | Windows => decide
  | Ubuntu => decide
  | Apple => decide
  | FydeOS => decide

/-- Only the name `L"Apple"` can compare equal, and only where the two literals of this text
share an address. -/
theorem address_eq_iff (p : «字面量位置») (name : «名称») :
    p.address (.«存入» name) = p.address .«比较» ↔ name = .Apple ∧ p.Shares := by
  constructor
  · intro hShare
    have hName : name = .Apple := text_eq_Apple.mp (p.text_eq _ _ hShare)
    subst hName
    exact ⟨rfl, hShare⟩
  · rintro ⟨rfl, hShare⟩
    exact hShare

/-- **The key loop of `UefiMain` makes the same comparison.** -/
theorem selectedApple_iff_address (m : «运行环境» α) (p : «字面量位置») {«选择启动项» : UINTN}
    {entry : «启动项信息» α}
    (hShare : m.«同址» = true ↔ p.Shares)
    (hEntry : («建表» m.options).«启动项».cells «选择启动项».toNat = some entry) :
    m.«选中Apple» «选择启动项» = true ↔
      p.address (.«存入» entry.«启动项名称») = p.address .«比较» := by
  rw [address_eq_iff, ← hShare]
  simp [«运行环境».«选中Apple», hEntry]

/-- **One entry.** Boot options of other names are always booted. Behind an `"OC"` match
OpenCore is started when the literals share an address and its volume is found. -/
theorem enter_entry_iff (p : «字面量位置») (o : BootOption α) (name : «名称») (ev : «按键事件») :
    DispatchesByName o name («执行选中» p ⟨o.option, name⟩ ev) ↔
      name.keyword ≠ L "OC" ∨
        (p.Shares ∧ EFI_ERROR ev.HandleProtocol = false ∧ ev.FileSystem = true) := by
  unfold DispatchesByName «执行选中»
  have hSame := address_eq_iff p name
  simp only [ne_eq, keyword_eq_OC]
  by_cases hName : name = .Apple
  · by_cases hShare : p.Shares
    · rw [if_neg (not_not.mpr (hSame.mpr ⟨hName, hShare⟩))]
      cases EFI_ERROR ev.HandleProtocol with
      | true => simp [hName]
      | false =>
        cases ev.FileSystem with
        | true => simp [hName, hShare]
        | false => simp [hName]
    · rw [if_pos (fun hBoth => hShare (hSame.mp hBoth).2)]
      simp [hName, hShare]
  · rw [if_pos (fun hBoth => hName (hSame.mp hBoth).1)]
    simp [hName]

/--
**Enter, in every state the keys can reach.** While the selection is in the table Enter acts
on the entry that one boot option and one successful test made. It acts by the entry's name
exactly when the test was not the one for `"OC"`, or the two literals `L"Apple"` share an
address and the volume to start OpenCore from is found.
-/
theorem enter_dispatches_iff (b : LoadOptionArray α) (H V : UINT32) (w x : UINTN)
    (p : «字面量位置») (keys : List EFI_INPUT_KEY) (ev : «按键事件»)
    (hEnter : ev.Key.UnicodeChar = CHAR_CARRIAGE_RETURN)
    (hSelected : (runKeys (b.«版面» H V w x) (keys ++ [ev.Key])).«选择启动项» <
      (b.«版面» H V w x).«启动项数») :
    ∃ o name action,
      (created b.list)[(runKeys (b.«版面» H V w x) (keys ++ [ev.Key])).«选择启动项».toNat]? =
        some (o, name) ∧
      «处理事件» p b.list (b.«版面» H V w x) (runKeys (b.«版面» H V w x) keys) ev = some action ∧
      (DispatchesByName o name action ↔
        name.keyword ≠ L "OC" ∨
          (p.Shares ∧ EFI_ERROR ev.HandleProtocol = false ∧ ev.FileSystem = true)) := by
  have hCount : (b.«版面» H V w x).«启动项数».toNat = «启动项数» b.list := toNat_bootCount b
  generalize b.«版面» H V w x = v at hCount hSelected ⊢
  rw [UInt64.lt_iff_toNat_lt, hCount, ← length_created] at hSelected
  obtain ⟨⟨o, name⟩, hCreated⟩ : ∃ c, (created b.list)[
      (runKeys v (keys ++ [ev.Key])).«选择启动项».toNat]? = some c :=
    ⟨_, List.getElem?_eq_getElem hSelected⟩
  refine ⟨o, name, «执行选中» p ⟨o.option, name⟩ ev, hCreated, ?_, enter_entry_iff p o name ev⟩
  unfold «处理事件»
  simp only [if_pos hEnter, ← runKeys_append_singleton, cells_created, hCreated, Option.map_some]

/-- Literals one after the other, and the compared one at an address of choice. -/
def literalAddress («比较» : UINTN) : «字面量» → UINTN
  | .«存入» .Windows => 0
  | .«存入» .Ubuntu => 16
  | .«存入» .Apple => 30
  | .«存入» .FydeOS => 42
  | .«比较» => «比较»

/-- The text found at an address. -/
def textAt (address : UINTN) : List CHAR16 :=
  if address = 0 then L "Windows" else if address = 16 then L "Ubuntu"
  else if address = 42 then L "FydeOS" else L "Apple"

theorem literalAddress_text_eq {«比较» : UINTN} (h : textAt «比较» = L "Apple") (l l' : «字面量»)
    (hSame : literalAddress «比较» l = literalAddress «比较» l') : l.text = l'.text := by
  have hText : ∀ l, textAt (literalAddress «比较» l) = l.text := by
    intro l
    cases l with
    | «存入» name =>
      cases name with
      | Windows => rfl
      | Ubuntu => rfl
      | Apple => rfl
      | FydeOS => rfl
    | «比较» => exact h
  rw [← hText l, hSame, hText l']

/-- A compiler that keeps one copy of a literal. -/
def «字面量位置».pooled : «字面量位置» := ⟨literalAddress 30, literalAddress_text_eq rfl⟩

/-- A compiler that keeps every literal. -/
def «字面量位置».separate : «字面量位置» := ⟨literalAddress 56, literalAddress_text_eq rfl⟩

/-- One boot option, found by `"OC"`. -/
def onlyOC : LoadOptionArray Nat := ⟨[⟨7, some (L "HD(1,GPT)/\\EFI\\OC\\OpenCore.efi")⟩], by decide⟩

/-- Enter, and a volume to start OpenCore from. -/
def «按键事件».enter : «按键事件» :=
  ⟨EFI_SUCCESS, EFI_SUCCESS, ⟨0, CHAR_CARRIAGE_RETURN⟩, EFI_SUCCESS, true⟩

theorem enter_dispatches_onlyOC : ∃ o name action,
    (created onlyOC.list)[0]? = some (o, name) ∧
      «处理事件» .pooled onlyOC.list (onlyOC.«版面» 1920 1080 128 64)
        (runKeys (onlyOC.«版面» 1920 1080 128 64) []) .enter = some action ∧
      DispatchesByName o name action := by
  obtain ⟨o, name, action, hCreated, hAction, hIff⟩ := enter_dispatches_iff onlyOC 1920 1080 128 64
    .pooled [] .enter rfl (by decide +kernel)
  have hZero : (runKeys (onlyOC.«版面» 1920 1080 128 64)
      ([] ++ [«按键事件».enter.Key])).«选择启动项».toNat = 0 := by decide +kernel
  rw [hZero] at hCreated
  exact ⟨o, name, action, hCreated, hAction, hIff.mpr (Or.inr ⟨rfl, by decide, rfl⟩)⟩

/-- With two copies of `L"Apple"` the entry found by `"OC"` is booted as a boot option. -/
theorem apple_entry_booted :
    «处理事件» .separate onlyOC.list (onlyOC.«版面» 1920 1080 128 64)
        (runKeys (onlyOC.«版面» 1920 1080 128 64) []) .enter = some (.EfiBootManagerBoot 7) ∧
      ∃ o name, (created onlyOC.list)[0]? = some (o, name) ∧
        ¬ DispatchesByName o name (.EfiBootManagerBoot 7) := by
  refine ⟨by decide +kernel, ⟨7, some (L "HD(1,GPT)/\\EFI\\OC\\OpenCore.efi")⟩, .Apple,
    by decide +kernel, ?_⟩
  intro hByName
  exact absurd (hByName.1.mpr (by decide)) (by simp)

end TianJi.Model
