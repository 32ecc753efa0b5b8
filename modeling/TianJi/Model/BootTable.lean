import TianJi.Lib.Memory
import TianJi.Model.BaseLib

/-!
# TianJi — the boot-entry table

The loop of `UefiMain` (天玑.c) that scans the firmware's boot options and fills `启动项`,
the table the icon row, the pointer and the Enter key all work from. The table is
allocated with `BootCount` elements; four substring tests each store an entry at the
write index `i` and advance it.

The tests are independent `if`s, so one path text that contains two keywords takes two
entries. The loop is brought to its list of entries (`entriesOf`): `i` is the length of
that list and the stores lay it out from index 0 (`bootTable_eq`).

* `stores_bootTable`      — the indices stored are exactly `0 .. 启动项数 - 1`, in order.
* `bootTable_selects_iff` — the table is an in-bounds, order-preserving selection of the
  matching boot options, one entry each, exactly when no path text contains two keywords.
-/

namespace TianJi.Model

open Memory

variable {α : Type}

/-- The four literals a table entry can be named with. -/
inductive «名称» where
  | Windows
  | Ubuntu
  | Apple
  | FydeOS
  deriving DecidableEq, Repr

/-- The text of the literal. -/
def «名称».text : «名称» → List CHAR16
  | Windows => L "Windows"
  | Ubuntu => L "Ubuntu"
  | Apple => L "Apple"
  | FydeOS => L "FydeOS"

/-- The substring that the test storing this name looks for. -/
def «名称».keyword : «名称» → List CHAR16
  | Windows => L "Microsoft"
  | Ubuntu => L "ubuntu"
  | Apple => L "OC"
  | FydeOS => L "fydeos"

/-- `启动项信息`: a copy of the load option and the name it was given. -/
structure «启动项信息» (α : Type) where
  «启动选项» : α
  «启动项名称» : «名称»
  deriving DecidableEq, Repr

/-- An element of `BootOptions`, with the text `ConvertDevicePathToText` returns for its
`FilePath` (`none` for NULL). -/
structure BootOption (α : Type) where
  option : α
  DevicePathText : Option (List CHAR16)
  deriving DecidableEq, Repr

/-- The locals of the table loop: the write index and the pool block behind `启动项`,
whose elements hold nothing until they are stored. -/
structure «建表状态» (α : Type) where
  i : Nat
  «启动项» : Region (Option («启动项信息» α))

/-- `启动项[i].启动选项 = option; 启动项[i].启动项名称 = name; i++` -/
def «建表状态».push (s : «建表状态» α) (option : α) (name : «名称») : «建表状态» α :=
  ⟨s.i + 1, s.«启动项».store s.i (some ⟨option, name⟩)⟩

/-- One turn of the loop over `BootOptions`. -/
def «扫描» (s : «建表状态» α) (o : BootOption α) : «建表状态» α :=
  match o.DevicePathText with
  | none => s
  | some DevicePathText =>
    let s := if (StrStr DevicePathText (L "Microsoft")).isSome
      then s.push o.option .Windows else s
    let s := if (StrStr DevicePathText (L "ubuntu")).isSome
      then s.push o.option .Ubuntu else s
    let s := if (StrStr DevicePathText (L "OC")).isSome
      then s.push o.option .Apple else s
    if (StrStr DevicePathText (L "fydeos")).isSome
      then s.push o.option .FydeOS else s

/-- The whole loop, from a freshly allocated table. -/
def «建表» (BootOptions : List (BootOption α)) : «建表状态» α :=
  BootOptions.foldl «扫描» ⟨0, Region.fresh fun _ => none⟩

/-- `启动项数`, the value of `i` after the loop. -/
def «启动项数» (BootOptions : List (BootOption α)) : Nat := («建表» BootOptions).i

/-- The finished table: the first `启动项数` elements of the block. -/
def «启动项表» (BootOptions : List (BootOption α)) : List (Option («启动项信息» α)) :=
  (List.range («启动项数» BootOptions)).map («建表» BootOptions).«启动项».cells

/-! ## The loop as a list of entries -/

/-- The names one path text is given, in the order of the tests. -/
def namesOf (DevicePathText : List CHAR16) : List «名称» :=
  [«名称».Windows, .Ubuntu, .Apple, .FydeOS].filter fun name =>
    (StrStr DevicePathText name.keyword).isSome

/-- The entries one boot option contributes. -/
def entriesOf (o : BootOption α) : List («启动项信息» α) :=
  ((o.DevicePathText.map namesOf).getD []).map fun name => ⟨o.option, name⟩

theorem mem_namesOf {t : List CHAR16} {name : «名称»} :
    name ∈ namesOf t ↔ name.keyword <:+: t := by
  rw [namesOf, List.mem_filter, isSome_StrStr]
  cases name <;> simp

theorem nodup_namesOf (t : List CHAR16) : (namesOf t).Nodup :=
  List.Nodup.filter _ (by decide)

theorem mem_entriesOf {o : BootOption α} {e : «启动项信息» α} :
    e ∈ entriesOf o ↔ e.«启动选项» = o.option ∧
      ∃ t, o.DevicePathText = some t ∧ e.«启动项名称».keyword <:+: t := by
  obtain ⟨option, text⟩ := o
  obtain ⟨option', name⟩ := e
  cases text with
  | none => simp [entriesOf]
  | some t => simp [entriesOf, mem_namesOf, and_comm, eq_comm]

/-- What a loop state holds when it has stored the entries `l`. -/
def TableHolds (s : «建表状态» α) (l : List («启动项信息» α)) : Prop :=
  s.i = l.length ∧
    s.«启动项» = (Region.fresh fun _ => none).storeAll (Region.cursor 0 (l.map some))

theorem holds_push {s : «建表状态» α} {l : List («启动项信息» α)} (h : TableHolds s l)
    (option : α) (name : «名称») : TableHolds (s.push option name) (l ++ [⟨option, name⟩]) := by
  obtain ⟨hLen, hRegion⟩ := h
  refine ⟨by simp [«建表状态».push, hLen], ?_⟩
  rw [List.map_append, Region.cursor_append, Region.storeAll_append, ← hRegion]
  simp [«建表状态».push, hLen]

/-- One turn appends the entries of its boot option. -/
theorem holds_scan {s : «建表状态» α} {l : List («启动项信息» α)} (h : TableHolds s l)
    (o : BootOption α) : TableHolds («扫描» s o) (l ++ entriesOf o) := by
  obtain ⟨option, text⟩ := o
  cases text with
  | none => simpa [«扫描», entriesOf] using h
  | some t =>
    have hTest : ∀ {s : «建表状态» α} {l : List («启动项信息» α)}, TableHolds s l → ∀ name : «名称»,
        TableHolds (if (StrStr t name.keyword).isSome then s.push option name else s)
          (l ++ ([name].filter fun name => (StrStr t name.keyword).isSome).map
            fun name => ⟨option, name⟩) := by
      intro s l hs name
      by_cases hHit : (StrStr t name.keyword).isSome = true
      · simpa [hHit] using holds_push hs option name
      · simpa [hHit] using hs
    have hAll := hTest (hTest (hTest (hTest h .Windows) .Ubuntu) .Apple) .FydeOS
    have hNames : namesOf t =
        ([«名称».Windows].filter fun name => (StrStr t name.keyword).isSome) ++
        ([«名称».Ubuntu].filter fun name => (StrStr t name.keyword).isSome) ++
        ([«名称».Apple].filter fun name => (StrStr t name.keyword).isSome) ++
        ([«名称».FydeOS].filter fun name => (StrStr t name.keyword).isSome) := by
      rw [namesOf, ← List.filter_append, ← List.filter_append, ← List.filter_append]
      rfl
    have hEntries : entriesOf ⟨option, some t⟩ =
        (namesOf t).map fun name => (⟨option, name⟩ : «启动项信息» α) := rfl
    rw [hEntries, hNames]
    simp only [List.map_append, List.append_assoc] at hAll ⊢
    exact hAll

/-- **The loop as a list.** After any boot options the table holds their entries in
order, and nothing else. -/
theorem bootTable_eq (os : List (BootOption α)) : TableHolds («建表» os) (os.flatMap entriesOf) := by
  have hRun : ∀ (os : List (BootOption α)) {s : «建表状态» α} {l : List («启动项信息» α)},
      TableHolds s l → TableHolds (os.foldl «扫描» s) (l ++ os.flatMap entriesOf) := by
    intro os
    induction os with
    | nil => intro s l h; simpa using h
    | cons o os ih =>
      intro s l h
      have := ih (holds_scan h o)
      simpa only [List.foldl_cons, List.flatMap_cons, List.append_assoc] using this
  exact hRun os (s := ⟨0, Region.fresh fun _ => none⟩) (l := []) ⟨rfl, rfl⟩

/-! ## Indices and contents -/

theorem bootCount_eq (os : List (BootOption α)) :
    «启动项数» os = (os.flatMap entriesOf).length :=
  (bootTable_eq os).1

/-- The write index only ever runs upwards from 0, whether or not the block is that long. -/
theorem stores_bootTable (os : List (BootOption α)) :
    («建表» os).«启动项».stores = List.range («启动项数» os) := by
  rw [(bootTable_eq os).2, Region.stores_storeAll, Region.map_fst_cursor, bootCount_eq,
    List.range_eq_range']
  simp

theorem inBounds_bootTable {os : List (BootOption α)} {n : Nat} :
    («建表» os).«启动项».InBounds n ↔ «启动项数» os ≤ n := by
  unfold Region.InBounds
  rw [stores_bootTable]
  constructor
  · intro h
    by_contra hLt
    exact absurd (h n (List.mem_range.mpr (by omega))) (lt_irrefl n)
  · intro h i hi
    have := List.mem_range.mp hi
    omega

/-- Every element of the block, those never stored included. -/
theorem cells_bootTable (os : List (BootOption α)) (k : Nat) :
    («建表» os).«启动项».cells k = (os.flatMap entriesOf)[k]? := by
  rw [(bootTable_eq os).2]
  by_cases hk : k < (os.flatMap entriesOf).length
  · refine Region.cells_storeAll_cursor (Nat.zero_le k) ?_
    rw [Nat.sub_zero, List.getElem?_map, List.getElem?_eq_getElem hk]
    rfl
  · rw [List.getElem?_eq_none (not_lt.mp hk), Region.cells_storeAll_of_not_mem]
    · rfl
    · rw [Region.map_fst_cursor, List.length_map, List.mem_range'_1, Nat.zero_add]
      exact fun hMem => hk hMem.2

theorem bootTable_entries (os : List (BootOption α)) :
    «启动项表» os = (os.flatMap entriesOf).map some := by
  refine List.ext_getElem? fun k => ?_
  rw [«启动项表», List.getElem?_map, List.getElem?_map, bootCount_eq]
  by_cases hk : k < (os.flatMap entriesOf).length
  · rw [List.getElem?_range hk, Option.map_some, cells_bootTable, List.getElem?_eq_getElem hk,
      Option.map_some]
  · rw [List.getElem?_eq_none (by simpa using hk), List.getElem?_eq_none (not_lt.mp hk)]
    rfl

/-! ## The table as a selection of the boot options -/

/-- A boot option the scan is meant to pick up: its path text contains a keyword. -/
def BootOption.matches (o : BootOption α) : Bool :=
  match o.DevicePathText with
  | none => false
  | some t => [«名称».Windows, .Ubuntu, .Apple, .FydeOS].any fun name => decide (name.keyword <:+: t)

/-- A table element that carries the option its name was derived from. -/
def DerivedFrom (cell : Option («启动项信息» α)) (o : BootOption α) : Prop :=
  ∃ e, cell = some e ∧ e.«启动选项» = o.option ∧
    ∃ t, o.DevicePathText = some t ∧ e.«启动项名称».keyword <:+: t

/-- What the table is for: every store stays inside the `BootCount` elements that were
allocated, no boot option takes more than one entry, and the finished table lists the
matching boot options in order. -/
structure TableSelects (os : List (BootOption α)) : Prop where
  inBounds : («建表» os).«启动项».InBounds os.length
  atMostOne : ∀ pre o post, os = pre ++ o :: post →
    «启动项数» (pre ++ [o]) ≤ «启动项数» pre + 1
  selection : List.Forall₂ DerivedFrom («启动项表» os) (os.filter BootOption.matches)

theorem matches_iff {o : BootOption α} : o.matches = true ↔ entriesOf o ≠ [] := by
  obtain ⟨option, text⟩ := o
  cases text with
  | none => simp [BootOption.matches, entriesOf]
  | some t =>
    simp only [BootOption.matches, List.any_eq_true, decide_eq_true_eq]
    constructor
    · rintro ⟨name, -, hInfix⟩
      exact List.ne_nil_of_mem (mem_entriesOf.mpr ⟨rfl, t, rfl, hInfix⟩ :
        (⟨option, name⟩ : «启动项信息» α) ∈ _)
    · intro hNe
      obtain ⟨e, hMem⟩ := List.exists_mem_of_ne_nil _ hNe
      obtain ⟨-, t', hText, hInfix⟩ := mem_entriesOf.mp hMem
      cases hText
      exact ⟨e.«启动项名称», by cases e.«启动项名称» <;> simp, hInfix⟩

/-- No path text of the list contains two of the four keywords. -/
def OneKeyword (os : List (BootOption α)) : Prop :=
  ∀ o ∈ os, ∀ t, o.DevicePathText = some t →
    ∀ name name' : «名称», name.keyword <:+: t → name'.keyword <:+: t → name = name'

theorem length_namesOf_le_one {t : List CHAR16} :
    (namesOf t).length ≤ 1 ↔
      ∀ name name' : «名称», name.keyword <:+: t → name'.keyword <:+: t → name = name' := by
  constructor
  · intro hLen name name' hName hName'
    have hMem := mem_namesOf.mpr hName
    have hMem' := mem_namesOf.mpr hName'
    match hNames : namesOf t, hLen with
    | [], _ => simp [hNames] at hMem
    | [a], _ =>
      rw [hNames, List.mem_singleton] at hMem hMem'
      rw [hMem, hMem']
  · intro hSame
    have hNodup := nodup_namesOf t
    match hNames : namesOf t with
    | [] => simp
    | [_] => simp
    | a :: b :: rest =>
      have hab : a = b := hSame a b (mem_namesOf.mp (by simp [hNames]))
        (mem_namesOf.mp (by simp [hNames]))
      rw [hNames, hab] at hNodup
      simp at hNodup

theorem oneKeyword_iff {os : List (BootOption α)} :
    OneKeyword os ↔ ∀ o ∈ os, (entriesOf o).length ≤ 1 := by
  refine forall₂_congr fun o _ => ?_
  obtain ⟨option, text⟩ := o
  cases text with
  | none => simp [entriesOf]
  | some t => simp [entriesOf, length_namesOf_le_one]

theorem bootCount_append_singleton (pre : List (BootOption α)) (o : BootOption α) :
    «启动项数» (pre ++ [o]) = «启动项数» pre + (entriesOf o).length := by
  simp [bootCount_eq]

/-- With at most `c` entries an option the whole list of entries is at most `c` times as
long as the list of options. -/
theorem length_flatMap_entriesOf_le {os : List (BootOption α)} {c : Nat}
    (h : ∀ o ∈ os, (entriesOf o).length ≤ c) :
    (os.flatMap entriesOf).length ≤ c * os.length := by
  induction os with
  | nil => simp
  | cons o os ih =>
    have hHead := h o List.mem_cons_self
    have hTail := ih fun x hx => h x (List.mem_cons_of_mem _ hx)
    rw [List.flatMap_cons, List.length_append, List.length_cons, Nat.mul_succ]
    omega

theorem forall₂_derivedFrom {os : List (BootOption α)}
    (h : ∀ o ∈ os, (entriesOf o).length ≤ 1) :
    List.Forall₂ DerivedFrom ((os.flatMap entriesOf).map some)
      (os.filter BootOption.matches) := by
  induction os with
  | nil => exact .nil
  | cons o os ih =>
    have hTail := ih fun x hx => h x (List.mem_cons_of_mem _ hx)
    have hHead := h o List.mem_cons_self
    rw [List.flatMap_cons]
    match hEntries : entriesOf o, hHead with
    | [], _ =>
      have hNot : ¬ o.matches = true := by simp [matches_iff, hEntries]
      rwa [List.filter_cons_of_neg hNot]
    | [e], _ =>
      have hMatch : o.matches = true := by simp [matches_iff, hEntries]
      rw [List.filter_cons_of_pos hMatch]
      obtain ⟨hOption, hText⟩ := mem_entriesOf.mp (show e ∈ entriesOf o by simp [hEntries])
      exact .cons ⟨e, rfl, hOption, hText⟩ hTail

/--
**The table is a selection exactly when no path text contains two keywords.** A text with
two keywords takes two entries, and the write index then runs ahead of the loop index
that bounds it.
-/
theorem bootTable_selects_iff (os : List (BootOption α)) :
    TableSelects os ↔ OneKeyword os := by
  rw [oneKeyword_iff]
  constructor
  · intro h o ho
    obtain ⟨pre, post, rfl⟩ := List.append_of_mem ho
    have := h.atMostOne pre o post rfl
    rw [bootCount_append_singleton] at this
    omega
  · intro h
    refine ⟨?_, ?_, ?_⟩
    · rw [inBounds_bootTable, bootCount_eq]
      simpa using length_flatMap_entriesOf_le h
    · rintro pre o post rfl
      have := h o (by simp)
      rw [bootCount_append_singleton]
      omega
    · rw [bootTable_entries]
      exact forall₂_derivedFrom h

/-- One boot option whose path names both Microsoft and OC: the second entry is stored at
index 1 of a table of one element. -/
theorem bootTable_overflows :
    ¬ TableSelects [(⟨0, some (L "HD(1,GPT)/\\EFI\\Microsoft\\OC\\bootmgfw.efi")⟩ : BootOption Nat)] := by
  intro h
  have hStores := h.inBounds 1 (by decide +kernel)
  simp at hStores

end TianJi.Model
