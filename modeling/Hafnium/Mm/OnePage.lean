import Hafnium.Mm.Translation

/-! # Mapping one page anywhere

`mmMapLevelOnePage` is `mm_map_level_one_page`: it maps the page of a virtual address to any physical
page. Blocks on the way to the page are split, unless one of them has the very descriptor that a
block for the physical page would have. Such a block is taken for the mapping that is asked for,
which it is only for its first page: `Pte.Shadows` is the case in which it is not.
-/

namespace Hafnium.Mm

/-- The entry already maps the page, or is already absent when unmapping. -/
def mmOnePageDone {level : Nat} (attrs : PteBits) (unmap : Bool) (pa : Nat) (pte : Pte level) : Bool :=
  if unmap then !archMmPteIsPresent pte.bits
  else archMmPteIsBlock pte.bits level && decide (pte.bits = archMmBlockPte level pa attrs)

/-- The body of `mm_map_level_one_page` for the entry of the page; `descend` handles the table below it. -/
def mmMapEntryOnePage {level : Nat} (descend : Pte level → Mpool → Option (Updated (Pte level)))
    (attrs : PteBits) (flags : MmFlags) (va pa : Nat) (pte : Pte level) (pool : Mpool) :
    Option (Updated (Pte level)) :=
  if mmOnePageDone attrs flags.unmap pa pte then some ⟨true, pte, pool⟩
  else if pageSize ≥ mmEntrySize level ∧ (flags.unmap ∨ archMmIsBlockAllowed level) ∧
    va % mmEntrySize level = 0 then
    if flags.commit then
      let (pte, pool) := mmReplaceEntry pte (.leaf (mmNewPte level attrs flags.unmap pa)) pool
      some ⟨true, pte, pool⟩
    else some ⟨true, pte, pool⟩
  else descend pte pool

/-- Updates the entry of a table for the page; `none` is the failed `CHECK` that the page is in the
range of the table. -/
def mmMapTableOnePage {level : Nat} (mapEntry : Pte level → Mpool → Option (Updated (Pte level))) (va : Nat)
    (t : PageTable level) (pool : Mpool) : Option (Updated (PageTable level)) :=
  if va + pageSize ≤ mmLevelEnd va level then
    (mapEntry (t (mmIndex va level)) pool).map fun r =>
      ⟨r.ok, Function.update t (mmIndex va level) r.value, r.state⟩
  else none

/-- Populates the table below an entry and updates it with `mapBelow`. -/
def mmMapBelowOnePage {level : Nat} (mapBelow : PageTable level → Mpool → Option (Updated (PageTable level)))
    (pte : Pte (level + 1)) (pool : Mpool) : Option (Updated (Pte (level + 1))) :=
  match mmPopulateTablePte pte pool with
  | none => some ⟨false, pte, pool⟩
  | some (page, nt, pool) => (mapBelow nt pool).map fun r => ⟨r.ok, .table page r.value, r.state⟩

def mmMapLevelOnePage (attrs : PteBits) (flags : MmFlags) :
    (level : Nat) → (va pa : Nat) → PageTable level → Mpool → Option (Updated (PageTable level))
  | 0, va, pa, t, pool =>
    -- Pages are always replaced as a whole, so nothing descends from level 0.
    mmMapTableOnePage (mmMapEntryOnePage (fun pte pool => some ⟨false, pte, pool⟩)
      attrs flags va pa) va t pool
  | level + 1, va, pa, t, pool =>
    mmMapTableOnePage (mmMapEntryOnePage
      (mmMapBelowOnePage (mmMapLevelOnePage attrs flags level va pa)) attrs flags va pa) va t pool

variable {c : StageConfig} {attrs : PteBits} {unmap : Bool}

section Ptable

def mmMapRootOnePage (t : MmPtable c) (va pa : Nat) (attrs : PteBits) (flags : MmFlags) (pool : Mpool) :
    Option (Updated (MmPtable c)) :=
  (mmMapLevelOnePage attrs flags c.maxLevel va pa (t.tables (mmIndex va (c.maxLevel + 1))) pool).map fun r =>
    ⟨r.ok, { t with tables := Function.update t.tables (mmIndex va (c.maxLevel + 1)) r.value }, r.state⟩

def mmPtableMapOnePage (t : MmPtable c) (va pa : Nat) (attrs : PteBits) (flags : MmFlags) (pool : Mpool) :
    Option (Updated (MmPtable c)) :=
  if archMmClearPa va + pageSize > mmPtableAddrSpaceEnd c then some ⟨false, t, pool⟩
  else mmMapRootOnePage t (archMmClearPa va) (archMmClearPa pa) attrs flags pool

end Ptable

/-- The tables of the hypervisor. -/
abbrev HypPtable (m : MmConfig) := MmPtable (m.levels .stage1)

def mmMapVaAtPa {m : MmConfig} (t : HypPtable m) (va pa : Nat) (mode : Mode) (pool : Mpool) :
    Option (Updated (HypPtable m)) :=
  mmPtableMapOnePage t va pa (m.modeToAttrs .stage1 mode) ⟨true, mmModeToFlags mode⟩ pool

/-! ## One entry at a time -/

/-- How `mm_map_level_one_page` treats what lies below an entry. -/
def mmDescendOnePage (attrs : PteBits) (flags : MmFlags) :
    (level va pa : Nat) → Pte level → Mpool → Option (Updated (Pte level))
  | 0, _, _, pte, pool => some ⟨false, pte, pool⟩
  | level + 1, va, pa, pte, pool => mmMapBelowOnePage (mmMapLevelOnePage attrs flags level va pa) pte pool

/-- The update of one entry. -/
def mmMapPteOnePage (attrs : PteBits) (flags : MmFlags) (level va pa : Nat) (pte : Pte level) (pool : Mpool) :
    Option (Updated (Pte level)) :=
  mmMapEntryOnePage (mmDescendOnePage attrs flags level va pa) attrs flags va pa pte pool

theorem mmMapLevelOnePage_eq (attrs : PteBits) (flags : MmFlags) (level va pa : Nat)
    (t : PageTable level) (pool : Mpool) :
    mmMapLevelOnePage attrs flags level va pa t pool =
      mmMapTableOnePage (mmMapPteOnePage attrs flags level va pa) va t pool := by
  cases level <;> rfl

/-- The level of the leaf that the walk for an address ends in. -/
def Pte.leafLevel : {level : Nat} → Pte level → Nat → Nat
  | level, .leaf _, _ => level
  | level + 1, .table _ entries, addr => (entries (mmIndex addr level)).leafLevel addr

/-- The page lies in a block, or in a part of a block that splitting would leave, that starts at the
wanted address with the wanted attributes but does not start with the page. -/
def Pte.Shadows {level : Nat} (attrs : PteBits) (va pa : Nat) (e : Pte level) : Prop :=
  ∃ k, 1 ≤ k ∧ k ≤ e.leafLevel va ∧ va % mmEntrySize k ≠ 0 ∧
    e.lookup va = some (pa + va % mmEntrySize k, attrs)

/-- What mapping a page does to an address below an entry. -/
structure MapsPage (attrs : PteBits) (unmap : Bool) (va pa addr : Nat) {level : Nat} (e : Pte level)
    (ok : Bool) (e' : Pte level) : Prop where
  regular : e'.RegularAt addr
  frame : mmRoundDownToPage addr ≠ va → e'.lookup addr = e.lookup addr
  unmapped : ok = true → mmRoundDownToPage addr = va → unmap = true → e'.lookup addr = none
  shadowed : ok = true → mmRoundDownToPage addr = va → unmap = false → e.Shadows attrs va pa →
    e'.lookup addr = e.lookup addr
  mapped : ok = true → mmRoundDownToPage addr = va → unmap = false → ¬e.Shadows attrs va pa →
    e'.lookup addr = some (pa + addr % pageSize, attrs)

/-- The page to be mapped, in the entry at `base`. -/
structure PageRange (level base va pa : Nat) : Prop where
  aligned : base % mmEntrySize level = 0
  lower : base ≤ va
  upper : va < base + mmEntrySize level
  vaPage : va % pageSize = 0
  paPage : pa % pageSize = 0
  paFits : pa + pageSize ≤ 2 ^ 48

theorem pageSize_le_entrySize (level : Nat) : pageSize ≤ mmEntrySize level :=
  Nat.le_of_dvd (mmEntrySize_pos level) (Nat.dvd_of_mod_eq_zero (mmEntrySize_page level))

/-- The addresses of a page have the same entries. -/
theorem mmIndex_page (addr level : Nat) : mmIndex (mmRoundDownToPage addr) level = mmIndex addr level := by
  obtain ⟨k, size⟩ := Nat.dvd_of_mod_eq_zero (mmEntrySize_page level)
  rw [mmIndex, mmIndex, size, mmRoundDownToPage, ← Nat.div_div_eq_div_mul, ← Nat.div_div_eq_div_mul,
    Nat.mul_div_cancel _ (by decide : 0 < pageSize)]

section Entry

variable {level base va pa addr : Nat}

/-- The range of the entry of the table below. -/
theorem PageRange.sub (range : PageRange (level + 1) base va pa) :
    mmIndex va level < mmPtePerPage ∧
      PageRange level (base + mmIndex va level * mmEntrySize level) va pa := by
  obtain ⟨index, lower, upper⟩ := mmIndex_bounds range.aligned range.lower range.upper
  exact ⟨index, entry_aligned range.aligned _, lower, upper, range.vaPage, range.paPage, range.paFits⟩

/-- The `CHECK` passes. -/
theorem PageRange.inTable (range : PageRange (level + 1) base va pa) :
    va + pageSize ≤ mmLevelEnd va level := by
  rw [mmLevelEnd_eq range.aligned range.lower range.upper]
  have vaPage := range.vaPage
  have upper := range.upper
  have basePage := page_of_aligned range.aligned
  have sizePage := mmEntrySize_page (level + 1)
  simp only [pageSize] at *
  omega

variable {page : PageNumber} {e : Pte (level + 1)} {nt : PageTable level}

/-- Splitting a block shadows no page that the block does not shadow, and uncovers none. -/
theorem Populated.shadows (populated : Populated e page nt)
    (regular : e.RegularAt va) (notDone : mmOnePageDone attrs false pa e = false) :
    (nt (mmIndex va level)).Shadows attrs va pa ↔ e.Shadows attrs va pa := by
  obtain ⟨-, lookup, -⟩ := populated.translates regular
  cases populated with
  | table page entries => exact Iff.rfl
  | leaf bits page =>
    rw [Pte.Shadows, Pte.Shadows, lookup]
    refine exists_congr fun k => ⟨
      fun ⟨low, high, offset, here⟩ => ⟨low, Nat.le_succ_of_le high, offset, here⟩,
      fun ⟨low, high, offset, here⟩ => ⟨low, Nat.le_of_lt_succ (Nat.lt_of_le_of_ne high ?_), offset, here⟩⟩
    -- The block itself would have been taken for the mapping.
    rintro rfl
    cases regular with
    | absent =>
      cases here
    | block allowed blockPage fits attrsOk =>
      rw [Pte.lookup_block blockPage (start_lt fits) attrsOk, Option.some.injEq, Prod.mk.injEq] at here
      obtain ⟨start, rfl⟩ := here
      obtain rfl := Nat.add_right_cancel start
      have isBlock := archMmPteIsBlock_archMmBlockPte blockPage (start_lt fits) attrsOk (level + 1)
      rw [archMmIsBlockAllowed, decide_eq_true allowed] at isBlock
      simp [mmOnePageDone, Pte.bits, isBlock] at notDone

/-- An entry that is taken for the mapping. -/
theorem mapsPage_done (attrsOk : AttrsFor attrs unmap) (range : PageRange level base va pa)
    {e : Pte level} (isDone : mmOnePageDone attrs unmap pa e = true) (regular : e.RegularAt addr) :
    MapsPage attrs unmap va pa addr e true e := by
  refine ⟨regular, fun _ => rfl, fun _ _ unmap => ?_, fun _ _ _ _ => rfl, fun _ here mapping clear => ?_⟩
  · rw [mmOnePageDone, if_pos unmap, Bool.not_eq_true'] at isDone
    cases e with
    | leaf bits =>
      rw [Pte.lookup, show archMmPteIsPresent bits = false from isDone, if_neg Bool.false_ne_true]
    | table page entries => simp [Pte.bits] at isDone
  · subst mapping
    rw [mmOnePageDone, if_neg Bool.false_ne_true, Bool.and_eq_true, decide_eq_true_eq] at isDone
    have paFits := range.paFits
    have bound : pa < 2 ^ 48 := by simp only [pageSize] at paFits; omega
    cases e with
    | leaf bits =>
      obtain rfl : bits = archMmBlockPte level pa attrs := isDone.2
      have block (addr : Nat) : (Pte.leaf (archMmBlockPte level pa attrs) : Pte level).lookup addr =
          some (pa + addr % mmEntrySize level, attrs) :=
            Pte.lookup_block range.paPage bound (attrsOk rfl) addr
      rw [block]
      have start : va % mmEntrySize level = 0 := by
        by_contra inside
        rcases Nat.eq_zero_or_pos level with rfl | high
        · exact inside range.vaPage
        · exact clear ⟨level, high, Nat.le_refl _, inside, block va⟩
      have atLeast := pageSize_le_entrySize level
      simp only [mmRoundDownToPage, pageSize] at here atLeast
      rw [mod_entrySize start (by omega) (by omega), pageSize, show addr - va = addr % 4096 by omega]
    | table page entries => simp [Pte.bits] at isDone

/-- The page itself is replaced. -/
theorem mapsPage_whole (attrsOk : AttrsFor attrs unmap) (range : PageRange 0 base va pa) (e : Pte 0)
    (lower : base ≤ addr) (upper : addr < base + mmEntrySize 0) :
    MapsPage attrs unmap va pa addr e true (.leaf (mmNewPte 0 attrs unmap pa)) := by
  have size : mmEntrySize 0 = pageSize := rfl
  have here : mmRoundDownToPage addr = va := by
    have aligned := range.aligned
    have vaPage := range.vaPage
    have first := range.lower
    have last := range.upper
    rw [size] at aligned last upper
    simp only [mmRoundDownToPage, pageSize] at *
    omega
  have paFits := range.paFits
  have bound : pa < 2 ^ 48 := by simp only [pageSize] at paFits; omega
  cases unmap with
  | true =>
    exact ⟨.absent, fun elsewhere => absurd here elsewhere, fun _ _ _ => Pte.lookup_absent addr, by simp,
      by simp⟩
  | false =>
    refine ⟨.block (by decide) range.paPage paFits (attrsOk rfl),
      fun elsewhere => absurd here elsewhere, by simp,
      fun _ _ _ inTable => ?_, fun _ _ _ _ => Pte.lookup_block range.paPage bound (attrsOk rfl) addr⟩
    cases e with
    | leaf bits =>
      obtain ⟨k, low, high, -⟩ := inTable
      exact absurd (low.trans high) (by simp [Pte.leafLevel])

/-- The page below a table that was populated and updated in the entry of the page. -/
theorem mapsPage_below (range : PageRange (level + 1) base va pa) (populated : Populated e page nt)
    (regularVa : e.RegularAt va) (notDone : mmOnePageDone attrs unmap pa e = false) {ok : Bool}
    {entry : Pte level} (below : ∀ addr, base + mmIndex va level * mmEntrySize level ≤ addr →
      addr < base + mmIndex va level * mmEntrySize level + mmEntrySize level →
        (nt (mmIndex va level)).RegularAt addr →
      MapsPage attrs unmap va pa addr (nt (mmIndex va level)) ok entry) (lower : base ≤ addr)
    (upper : addr < base + mmEntrySize (level + 1)) (regular : e.RegularAt addr) :
    MapsPage attrs unmap va pa addr e ok (.table page (Function.update nt (mmIndex va level) entry)) := by
  obtain ⟨regular', lookup, -⟩ := populated.translates regular
  obtain ⟨index, first, last⟩ := mmIndex_bounds range.aligned lower upper
  by_cases same : mmIndex addr level = mmIndex va level
  · rw [same] at first last regular' lookup
    have maps := below addr first last regular'
    have walk : (Pte.table page (Function.update nt (mmIndex va level) entry)).lookup addr =
        entry.lookup addr := by
      rw [Pte.lookup, same, Function.update_self]
    refine ⟨?_, fun elsewhere => ?_, fun ok here on => ?_, fun ok here off shadowed => ?_,
      fun ok here off clear => ?_⟩
    · rw [Pte.RegularAt, same, Function.update_self]
      exact maps.regular
    · rw [walk, maps.frame elsewhere, lookup]
    · rw [walk, maps.unmapped ok here on]
    · subst off
      rw [walk, maps.shadowed ok here rfl ((populated.shadows regularVa notDone).mpr shadowed), lookup]
    · subst off
      rw [walk, maps.mapped ok here rfl fun shadowed =>
        clear ((populated.shadows regularVa notDone).mp shadowed)]
  · -- Another entry, so not the page.
    have elsewhere : mmRoundDownToPage addr ≠ va := by
      rintro rfl
      exact same (mmIndex_page addr level).symm
    have walk : (Pte.table page (Function.update nt (mmIndex va level) entry)).lookup addr =
        e.lookup addr := by
      rw [Pte.lookup, Function.update_of_ne same, lookup]
    refine ⟨?_, fun _ => walk, fun _ here => absurd here elsewhere, fun _ here => absurd here elsewhere,
      fun _ here => absurd here elsewhere⟩
    rw [Pte.RegularAt, Function.update_of_ne same]
    exact regular'

theorem mmMapPteOnePage_maps (attrsOk : AttrsFor attrs unmap) (range : PageRange level base va pa)
    (e : Pte level) (pool : Mpool) (regularVa : e.RegularAt va) :
    ∃ r, mmMapPteOnePage attrs ⟨true, unmap⟩ level va pa e pool = some r ∧ ∀ addr, base ≤ addr →
      addr < base + mmEntrySize level →
      e.RegularAt addr → MapsPage attrs unmap va pa addr e r.ok r.value := by
  induction level generalizing base pool with
  | zero =>
    simp only [mmMapPteOnePage, mmMapEntryOnePage]
    split
    · next isDone => exact ⟨_, rfl, fun addr _ _ regular => mapsPage_done attrsOk range isDone regular⟩
    · have whole : pageSize ≥ mmEntrySize 0 ∧ (unmap = true ∨ archMmIsBlockAllowed 0 = true) ∧
          va % mmEntrySize 0 = 0 :=
        ⟨Nat.le_refl _, .inr rfl, range.vaPage⟩
      rw [if_pos whole, if_pos trivial]
      exact ⟨_, rfl, fun addr lower upper _ => mapsPage_whole attrsOk range e lower upper⟩
  | succ level ih =>
    simp only [mmMapPteOnePage, mmMapEntryOnePage]
    split
    · next isDone => exact ⟨_, rfl, fun addr _ _ regular => mapsPage_done attrsOk range isDone regular⟩
    · next notDone =>
      rw [Bool.not_eq_true] at notDone
      have partly : ¬pageSize ≥ mmEntrySize (level + 1) := by
        have atLeast := pageSize_le_entrySize level
        rw [mmEntrySize_succ]
        simp only [mmPtePerPage, pageSize] at *
        omega
      rw [if_neg fun whole => partly whole.1, mmDescendOnePage, mmMapBelowOnePage]
      cases populate : mmPopulateTablePte e pool with
      | none =>
        exact ⟨_, rfl, fun addr _ _ regular => ⟨regular, fun _ => rfl, by simp, by simp,
          by simp⟩⟩
      | some result =>
        obtain ⟨page, nt, pool'⟩ := result
        have populated := mmPopulateTablePte_populated populate
        obtain ⟨r, ran, below⟩ := ih range.sub.2 _ pool' (populated.translates regularVa).1
        dsimp only
        rw [mmMapLevelOnePage_eq, mmMapTableOnePage, if_pos range.inTable, ran]
        exact ⟨_, rfl, fun addr lower upper regular => mapsPage_below range populated regularVa
          notDone below lower upper regular⟩

end Entry

/-! ## The address space -/

section Ptable

def MmPtable.Shadows (t : MmPtable c) (attrs : PteBits) (va pa : Nat) : Prop :=
  (t.entryAt va).Shadows attrs va pa

theorem MmPtable.entryAt_page (t : MmPtable c) (addr : Nat) :
    t.entryAt (mmRoundDownToPage addr) = t.entryAt addr := by
  rw [MmPtable.entryAt, MmPtable.entryAt, mmIndex_page, mmIndex_page]

/-- The tables with another entry for the page of an address. -/
def MmPtable.setEntry (t : MmPtable c) (va : Nat) (e : Pte c.maxLevel) : MmPtable c :=
  let table := Function.update (t.tables (mmIndex va (c.maxLevel + 1))) (mmIndex va c.maxLevel) e
  { t with tables := Function.update t.tables (mmIndex va (c.maxLevel + 1)) table }

theorem MmPtable.entryAt_setEntry (t : MmPtable c) (va : Nat) (e : Pte c.maxLevel) (addr : Nat) :
    (t.setEntry va e).entryAt addr =
      if mmIndex addr (c.maxLevel + 1) = mmIndex va (c.maxLevel + 1) ∧
      mmIndex addr c.maxLevel = mmIndex va c.maxLevel then e
      else t.entryAt addr := by
  simp only [MmPtable.entryAt, MmPtable.setEntry]
  by_cases root : mmIndex addr (c.maxLevel + 1) = mmIndex va (c.maxLevel + 1)
  · by_cases entry : mmIndex addr c.maxLevel = mmIndex va c.maxLevel
    · rw [if_pos ⟨root, entry⟩, root, entry, Function.update_self, Function.update_self]
    · rw [if_neg fun same => entry same.2, root, Function.update_self, Function.update_of_ne entry]
  · rw [if_neg fun same => root same.1, Function.update_of_ne root]

variable {t : MmPtable c}

/-- Mapping a page in the address space returns, and does to every address what `MapsPage` says. -/
theorem mmMapRootOnePage_maps (attrsOk : AttrsFor attrs unmap) (regular : t.Regular) {va pa : Nat}
    (vaPage : va % pageSize = 0) (inside : va + pageSize ≤ mmPtableAddrSpaceEnd c)
    (paPage : pa % pageSize = 0) (paFits : pa + pageSize ≤ 2 ^ 48) (pool : Mpool) :
    ∃ r, mmMapRootOnePage t va pa attrs ⟨true, unmap⟩ pool = some r ∧ ∀ addr < mmPtableAddrSpaceEnd c,
      MapsPage attrs unmap va pa addr (t.entryAt addr) r.ok (r.value.entryAt addr) := by
  have positive : 0 < pageSize := by decide
  obtain ⟨root, first, last⟩ := root_bounds (c := c) (show va < mmPtableAddrSpaceEnd c by omega)
  have range : PageRange (c.maxLevel + 1)
      (mmIndex va (c.maxLevel + 1) * mmEntrySize (c.maxLevel + 1)) va pa :=
    ⟨Nat.mul_mod_left .., first, last, vaPage, paPage, paFits⟩
  obtain ⟨r, ran, maps⟩ := mmMapPteOnePage_maps attrsOk range.sub.2 (t.entryAt va)
    pool (regular va (by omega))
  have result : mmMapRootOnePage t va pa attrs ⟨true, unmap⟩
      pool = some ⟨r.ok, t.setEntry va r.value, r.state⟩ := by
    rw [MmPtable.entryAt] at ran
    rw [mmMapRootOnePage, mmMapLevelOnePage_eq, mmMapTableOnePage, if_pos range.inTable, ran]
    rfl
  refine ⟨_, result, fun addr addrInside => ?_⟩
  have regularAddr := regular addr addrInside
  rw [MmPtable.entryAt_setEntry]
  split
  · next same =>
    obtain ⟨_, addrFirst, addrLast⟩ := root_bounds addrInside
    obtain ⟨_, lower, upper⟩ := mmIndex_bounds (Nat.mul_mod_left ..) addrFirst addrLast
    have old : t.entryAt addr = t.entryAt va := by rw [MmPtable.entryAt, same.1, same.2, MmPtable.entryAt]
    rw [same.1, same.2] at lower upper
    rw [MmPtable.RegularAt, old] at regularAddr
    rw [old]
    exact maps addr lower upper regularAddr
  · next other =>
    have elsewhere : mmRoundDownToPage addr ≠ va := by
      rintro rfl
      exact other ⟨(mmIndex_page ..).symm, (mmIndex_page ..).symm⟩
    exact ⟨regularAddr, fun _ => rfl, fun _ here => absurd here elsewhere,
      fun _ here => absurd here elsewhere, fun _ here => absurd here elsewhere⟩

theorem mmPtableMapOnePage_maps (attrsOk : AttrsFor attrs unmap) (regular : t.Regular) (va pa : Nat)
    (pool : Mpool) :
    ∃ r, mmPtableMapOnePage t va pa attrs ⟨true, unmap⟩ pool = some r ∧ ∀ addr < mmPtableAddrSpaceEnd c,
      MapsPage attrs unmap (archMmClearPa va) (archMmClearPa pa) addr (t.entryAt addr)
        r.ok (r.value.entryAt addr) := by
  rw [mmPtableMapOnePage]
  split
  · exact ⟨_, rfl, fun addr inside => ⟨regular addr inside, fun _ => rfl, nofun,
      nofun, nofun⟩⟩
  · next inside =>
    refine mmMapRootOnePage_maps attrsOk regular ?_ (Nat.le_of_not_lt inside) ?_ ?_ pool
    · rw [archMmClearPa_eq]
      exact Nat.mul_mod_left ..
    · rw [archMmClearPa_eq]
      exact Nat.mul_mod_left ..
    · rw [archMmClearPa_eq]
      simp only [pageSize]
      omega

end Ptable

end Hafnium.Mm
