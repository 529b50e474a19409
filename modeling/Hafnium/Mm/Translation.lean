import Hafnium.Mm.Stage

/-! # Updates of tables that are no identity maps

Not every leaf of a table maps its own addresses: a page can be mapped anywhere. The updates only
compare attributes, so the translation of an address after an update depends on whether its leaf
was left alone. `Pte.keeps` says when, and `mmPtableIdentityUpdate_translates` what an update does
to the translation of every address of a regular table.
-/

namespace Hafnium.Mm

open BlockWalk

/-- What an address translates to: an output address and its attributes. -/
abbrev Translation := Option (Nat × PteBits)

/-- A leaf that is absent or maps its addresses to consecutive ones that a descriptor can hold. -/
inductive LeafInto (level : Nat) : PteBits → Prop
  | absent : LeafInto level archMmAbsentPte
  | block {pa : Nat} {attrs : PteBits} (allowed : level ≤ 2) (page : pa % pageSize = 0)
      (fits : pa + mmEntrySize level ≤ 2 ^ 48)
      (attrsOk : BlockAttrs attrs) : LeafInto level (archMmBlockPte level pa attrs)

/-- The walk for an address ends in such a leaf. -/
def Pte.RegularAt : {level : Nat} → Pte level → Nat → Prop
  | level, .leaf bits, _ => LeafInto level bits
  | level + 1, .table _ entries, addr => (entries (mmIndex addr level)).RegularAt addr

/-- The entry of some level that contains an address lies in the range as a whole. -/
def EntryInside (level begin_ end_ addr : Nat) : Prop :=
  begin_ ≤ addr - addr % mmEntrySize level ∧ addr - addr % mmEntrySize level + mmEntrySize level ≤ end_

instance (level begin_ end_ addr : Nat) : Decidable (EntryInside level begin_ end_ addr) :=
  inferInstanceAs (Decidable (_ ∧ _))

/-- An update of a range finds the leaf of an address with the wanted attributes and leaves it alone:
no table on the way there is replaced as a whole. -/
def Pte.keeps (attrs : PteBits) (begin_ end_ addr : Nat) : {level : Nat} → Pte level → Bool
  | level, .leaf bits => archMmPteIsBlock bits level && decide (archMmPteAttrs bits = attrs)
  | level + 1, .table _ entries =>
    !decide (level + 1 ≤ 2 ∧ EntryInside (level + 1) begin_ end_ addr) &&
      (entries (mmIndex addr level)).keeps attrs begin_ end_ addr

/-! ## Leaves -/

variable {level addr begin_ end_ : Nat} {attrs : PteBits} {e : Pte level}

section Leaf

variable {base pa : Nat}

theorem Pte.lookup_absent (addr : Nat) : (Pte.leaf archMmAbsentPte : Pte level).lookup addr = none := by
  rfl

theorem Pte.lookup_block (page : pa % pageSize = 0) (bound : pa < 2 ^ 48)
    (attrsOk : BlockAttrs attrs) (addr : Nat) :
    (Pte.leaf (archMmBlockPte level pa attrs) : Pte level).lookup addr =
      some (pa + addr % mmEntrySize level, attrs) := by
  rw [Pte.lookup, archMmPteIsPresent_archMmBlockPte page bound attrsOk,
    archMmBlockFromPte_archMmBlockPte page bound attrsOk,
    archMmPteAttrs_archMmBlockPte page bound attrsOk, if_pos rfl]

theorem start_lt (fits : pa + mmEntrySize level ≤ 2 ^ 48) : pa < 2 ^ 48 := by
  have positive := mmEntrySize_pos level
  omega

/-- The attributes of an address follow from its translation. -/
theorem Pte.RegularAt.attrsAt (regular : e.RegularAt addr) :
    e.attrsAt addr = ((e.lookup addr).map Prod.snd).getD 0 := by
  induction e with
  | leaf bits =>
    cases regular with
    | absent => rfl
    | block allowed page fits attrsOk =>
      have bound := start_lt fits
      rw [Pte.lookup_block page bound attrsOk]
      exact archMmPteAttrs_archMmBlockPte page bound attrsOk _
  | table page entries ih => exact ih _ regular

/-- Well-formed tables are regular everywhere. -/
theorem Pte.WellFormed.regularAt (wf : e.WellFormed base) (aligned : base % mmEntrySize level = 0)
    (bound : base + mmEntrySize level ≤ 2 ^ 48) (lower : base ≤ addr)
    (upper : addr < base + mmEntrySize level) : e.RegularAt addr := by
  induction e generalizing base with
  | leaf bits =>
    cases wf with
    | absent => exact .absent
    | block allowed attrsOk => exact .block allowed (page_of_aligned aligned) bound attrsOk
  | @table level page entries ih =>
    obtain ⟨index, first, last⟩ := mmIndex_bounds aligned lower upper
    have fits := entry_end_le level base index
    exact ih _ (wf _ index) (entry_aligned aligned _) (by omega) first last

end Leaf

/-! ## One entry -/

section Entry

variable {base : Nat} {page : PageNumber} {nt : PageTable level}

/-- A new table stands for the leaf it replaces. -/
theorem Populated.translates {e : Pte (level + 1)} (populated : Populated e page nt)
    (regular : e.RegularAt addr) :
    (nt (mmIndex addr level)).RegularAt addr ∧ (nt (mmIndex addr level)).lookup addr = e.lookup addr ∧
      (nt (mmIndex addr level)).attrsAt addr = e.attrsAt addr := by
  cases populated with
  | table page entries => exact ⟨regular, rfl, rfl⟩
  | leaf bits page =>
    have jBound : mmIndex addr level < mmPtePerPage := Nat.mod_lt _ (by decide)
    have below := entry_end_le level 0 jBound
    cases regular with
    | absent =>
      have entry : (mmPopulateEntries archMmAbsentPte : PageTable level) (mmIndex addr level) =
          .leaf archMmAbsentPte := by
        simp [mmPopulateEntries]
      rw [entry]
      exact ⟨.absent, rfl, rfl⟩
    | @block pa attrs allowed page fits attrsOk =>
      have bound := start_lt fits
      have offsetPage : mmIndex addr level * mmEntrySize level % pageSize = 0 := by
        rw [Nat.mul_mod, mmEntrySize_page level, Nat.mul_zero, Nat.zero_mod]
      have positive := mmEntrySize_pos level
      have entryPage : (pa + mmIndex addr level * mmEntrySize level) % pageSize = 0 := by
        simp only [pageSize] at page offsetPage ⊢
        omega
      have entryBound : pa + mmIndex addr level * mmEntrySize level < 2 ^ 48 := by omega
      have entry : (mmPopulateEntries (archMmBlockPte (level + 1) pa attrs) : PageTable level)
          (mmIndex addr level) =
          .leaf (archMmBlockPte level (pa + mmIndex addr level * mmEntrySize level) attrs) := by
        have isBlock : archMmPteIsBlock (archMmBlockPte (level + 1) pa attrs) (level + 1) = true := by
          rw [archMmPteIsBlock_archMmBlockPte page bound attrsOk]
          simpa [archMmIsBlockAllowed] using allowed
        simp only [mmPopulateEntries]
        rw [if_pos isBlock, archMmBlockFromPte_archMmBlockPte page bound attrsOk,
          archMmPteAttrs_archMmBlockPte page bound attrsOk,
          archMmBlockPte_add page _ offsetPage entryBound attrsOk]
      rw [entry, Pte.lookup_block entryPage entryBound attrsOk, Pte.lookup_block page bound attrsOk]
      refine ⟨.block (by omega) entryPage (by omega) attrsOk, ?_, ?_⟩
      · rw [mod_entrySize_succ, Nat.add_assoc]
      · rw [Pte.attrsAt, Pte.attrsAt, archMmPteAttrs_archMmBlockPte entryPage entryBound attrsOk,
          archMmPteAttrs_archMmBlockPte page bound attrsOk]

/-- The entry that contains an address and that a range starts at. -/
theorem entryInside_iff (aligned : base % mmEntrySize level = 0) (lower : base ≤ addr)
    (upper : addr < base + mmEntrySize level) :
    EntryInside level begin_ end_ addr ↔ begin_ ≤ base ∧ base + mmEntrySize level ≤ end_ := by
  have start : addr - addr % mmEntrySize level = base := by
    rw [mod_entrySize aligned lower upper]
    omega
  rw [EntryInside, start]

/-- Only the part of the range that falls into an entry decides what is left alone there. -/
theorem Pte.keeps_clip (aligned : base % mmEntrySize level = 0) (lower : base ≤ addr)
    (upper : addr < base + mmEntrySize level) {begin' end' : Nat} (first : max begin_ base = max begin' base)
    (last : min end_ (base + mmEntrySize level) = min end' (base + mmEntrySize level)) :
    e.keeps attrs begin_ end_ addr = e.keeps attrs begin' end' addr := by
  induction e generalizing base with
  | leaf bits => rfl
  | @table level page entries ih =>
    obtain ⟨index, first', last'⟩ := mmIndex_bounds aligned lower upper
    have fits := entry_end_le level base index
    have inside : EntryInside (level + 1) begin_ end_ addr ↔ EntryInside (level + 1) begin' end' addr := by
      rw [entryInside_iff aligned lower upper, entryInside_iff aligned lower upper]
      omega
    rw [Pte.keeps, Pte.keeps, ih _ (entry_aligned aligned _) first' last' (by omega) (by omega)]
    simp only [inside]

/-- A new table leaves alone what the leaf it replaces would. -/
theorem Populated.keeps {e : Pte (level + 1)} (populated : Populated e page nt)
    (regular : e.RegularAt addr) (partly : ¬(level + 1 ≤ 2 ∧ EntryInside (level + 1) begin_ end_ addr)) :
    (nt (mmIndex addr level)).keeps attrs begin_ end_ addr = e.keeps attrs begin_ end_ addr := by
  cases populated with
  | table page entries => rw [Pte.keeps, decide_eq_false partly, Bool.not_false, Bool.true_and]
  | leaf bits page =>
    have same := ((Populated.leaf bits page).translates regular).2.2
    have sub := ((Populated.leaf bits page).translates regular).1
    obtain ⟨sub', entry⟩ : ∃ sub', (mmPopulateEntries bits : PageTable level) (mmIndex addr level) =
        .leaf sub' := ⟨_, rfl⟩
    rw [entry] at same sub ⊢
    have same : archMmPteAttrs sub' = archMmPteAttrs bits := same
    -- Both are absent or both are blocks, as their attributes are the same.
    have isBlock {level : Nat} {bits : PteBits} (leaf : LeafInto level bits) :
        archMmPteIsBlock bits level = decide (archMmPteAttrs bits ≠ 0) := by
      cases leaf with
      | absent => simp
      | block allowed page fits attrsOk =>
        rw [archMmPteIsBlock_archMmBlockPte page (start_lt fits) attrsOk,
          archMmPteAttrs_archMmBlockPte page (start_lt fits) attrsOk,
          decide_eq_true attrsOk.ne_zero, archMmIsBlockAllowed, decide_eq_true allowed]
    rw [Pte.keeps, Pte.keeps, isBlock sub, isBlock regular, same]

end Entry

/-! ## Updates of entries and tables -/

/-- What an update leaves at an address of its range: nothing when it unmaps, the old translation
where the leaf was left alone, and the address itself everywhere else. -/
def mapped (attrs : PteBits) (unmap kept : Bool) (addr : Nat) (before : Translation) : Translation :=
  if unmap then none else if kept then before else some (addr, attrs)

/-- What the update of a range does to one address below an entry. -/
structure Translates (attrs : PteBits) (flags : MmFlags) (begin_ end_ addr : Nat) {level : Nat}
    (e : Pte level) (ok : Bool) (e' : Pte level) : Prop where
  regular : e'.RegularAt addr
  frame : flags.commit = false ∨ ¬(begin_ ≤ addr ∧ addr < end_) → e'.lookup addr = e.lookup addr
  keeps : flags.commit = false → flags.unmap = false →
    e'.keeps attrs begin_ end_ addr = e.keeps attrs begin_ end_ addr
  hit : flags.commit = true → ok = true → begin_ ≤ addr → addr < end_ →
    e'.lookup addr = mapped attrs flags.unmap (e.keeps attrs begin_ end_ addr) addr (e.lookup addr)

section Update

variable {flags : MmFlags} {base : Nat} {ok : Bool}

/-- Only the part of the range that falls into the entry matters. -/
theorem Translates.clip (begin_ end_ : Nat) {begin' end' : Nat} {e' : Pte level}
    (translates : Translates attrs flags begin' end' addr e ok e')
    (aligned : base % mmEntrySize level = 0) (lower : base ≤ addr)
    (upper : addr < base + mmEntrySize level) (first : max begin_ base = max begin' base)
    (last : min end_ (base + mmEntrySize level) = min end' (base + mmEntrySize level)) :
    Translates attrs flags begin_ end_ addr e ok e' := by
  have inside : (begin_ ≤ addr ∧ addr < end_) ↔ (begin' ≤ addr ∧ addr < end') := by omega
  refine ⟨translates.regular, fun outside => translates.frame (outside.imp_right (mt inside.mpr)),
    fun commit unmap => ?_, fun commit ok first' last' => ?_⟩
  · rw [Pte.keeps_clip aligned lower upper first last, Pte.keeps_clip aligned lower upper first last]
    exact translates.keeps commit unmap
  · obtain ⟨first', last'⟩ := inside.mp ⟨first', last'⟩
    rw [Pte.keeps_clip aligned lower upper first last]
    exact translates.hit commit ok first' last'

/-- The addresses below a table, from those below its entries. -/
theorem TableSteps.translates {t t' : PageTable level}
    (steps : TableSteps level base begin_ end_ (fun base begin_ end_ e ok e' => ∀ addr, base ≤ addr →
      addr < base + mmEntrySize level → e.RegularAt addr →
        Translates attrs flags begin_ end_ addr e ok e') ok t t')
    (aligned : base % mmEntrySize (level + 1) = 0) (lower : base ≤ addr)
    (upper : addr < base + mmEntrySize (level + 1))
    (regular : (t (mmIndex addr level)).RegularAt addr) :
    Translates attrs flags begin_ end_ addr (t (mmIndex addr level)) ok (t' (mmIndex addr level)) := by
  obtain ⟨jBound, first, last⟩ := mmIndex_bounds aligned lower upper
  have fits := entry_end_le level base jBound
  cases steps _ jBound with
  | touched inside after stepped success =>
    have entry := (stepped.2 addr first last regular).clip begin_ end_ (entry_aligned aligned _)
      first last (by omega) (by omega)
    exact { entry with hit := fun commit ok => entry.hit commit (success ok) }
  | kept same outside =>
    rw [same]
    refine ⟨regular, fun _ => rfl, fun _ _ => rfl, fun _ ok lower upper => ?_⟩
    have := outside ok
    omega

theorem mmMapPte_translates (attrsOk : AttrsFor attrs flags.unmap)
    (range : EntryRange level base begin_ end_) (e : Pte level) (pool : Mpool) (lower : base ≤ addr)
    (upper : addr < base + mmEntrySize level) (regular : e.RegularAt addr) :
    Translates attrs flags begin_ end_ addr e (mmMapPte attrs flags level begin_ end_ begin_ e pool).ok
      (mmMapPte attrs flags level begin_ end_ begin_ e pool).value := by
  refine mmMapPte_rule attrs flags (R := fun level base begin_ end_ e ok e' => ∀ addr, base ≤ addr →
    addr < base + mmEntrySize level → e.RegularAt addr → Translates attrs flags begin_ end_ addr e ok e')
    ?_ ?_ ?_ ?_ range e pool addr lower upper regular
  · intro level base begin_ end_ e range isDone addr lower upper regular
    refine ⟨regular, fun _ => rfl, fun _ _ => rfl, fun _ _ _ _ => ?_⟩
    obtain ⟨bits, rfl⟩ := mmEntryDone_leaf isDone
    rw [mmEntryDone, Pte.bits] at isDone
    rw [mapped]
    split at isDone
    · next unmap =>
      rw [Bool.not_eq_true'] at isDone
      rw [if_pos unmap, Pte.lookup, isDone]
      rfl
    · next map => rw [if_neg map, Pte.keeps, isDone, if_pos rfl]
  · intro level base begin_ end_ e range notDone start size allowed addr lower upper regular
    have bound := range.bound
    have page := page_of_aligned range.aligned
    cases commit : flags.commit with
    | false => exact ⟨regular, fun _ => rfl, fun _ _ => rfl, fun on => absurd on (by rw [commit]; decide)⟩
    | true =>
      cases unmap : flags.unmap with
      | true =>
        refine ⟨.absent, fun outside => ?_, fun off => absurd off (by rw [commit]; decide), fun _ _ _ _ => ?_⟩
        · exact absurd (outside.resolve_left (by rw [commit]; decide)) (by omega)
        · rw [mapped, unmap]
          exact Pte.lookup_absent addr
      | false =>
        have allowed : level ≤ 2 := allowed.resolve_left (by rw [unmap]; decide)
        refine ⟨.block allowed page bound (attrsOk unmap), fun outside => ?_,
          fun off => absurd off (by rw [commit]; decide), fun _ _ _ _ => ?_⟩
        · exact absurd (outside.resolve_left (by rw [commit]; decide)) (by omega)
        · -- The entry is no leaf of the wanted attributes, and a table here is replaced.
          have replaced : e.keeps attrs begin_ end_ addr = false := by
            cases e with
            | leaf bits =>
              simp only [mmEntryDone, unmap, Bool.false_eq_true, if_false] at notDone
              exact notDone
            | table page entries =>
              have whole := (entryInside_iff range.aligned lower upper).mpr ⟨Nat.le_of_eq start, size⟩
              rw [Pte.keeps, decide_eq_true ⟨allowed, whole⟩]
              rfl
          have written : (Pte.leaf (archMmBlockPte level base attrs) : Pte level).lookup addr =
              some (addr, attrs) := by
            rw [Pte.lookup_block page (by omega) (attrsOk unmap), mod_entrySize range.aligned lower upper,
              Nat.add_sub_cancel' lower]
          rw [replaced, mapped, unmap]
          exact written
  · intro level base begin_ end_ bits range addr lower upper regular
    exact ⟨regular, fun _ => rfl, fun _ _ => rfl, by simp⟩
  · intro level base begin_ end_ page e nt nt' ok range notDone partly populated steps addr lower
      upper regular
    obtain ⟨regular', lookup, -⟩ := populated.translates regular
    have below := steps.translates range.aligned lower upper regular'
    have keeps (unmap : flags.unmap = false) :
        ¬(level + 1 ≤ 2 ∧ EntryInside (level + 1) begin_ end_ addr) := by
      rintro ⟨allowed, inside⟩
      obtain ⟨first, last⟩ := (entryInside_iff range.aligned lower upper).mp inside
      exact partly ⟨Nat.le_antisymm first range.lower, last, .inr allowed⟩
    refine ⟨below.regular, fun outside => (below.frame outside).trans lookup, fun commit unmap => ?_,
      fun commit ok first last => ?_⟩
    · rw [Pte.keeps, decide_eq_false (keeps unmap), Bool.not_false, Bool.true_and, below.keeps commit unmap,
        populated.keeps regular (keeps unmap)]
    · refine (below.hit commit ok first last).trans ?_
      cases unmap : flags.unmap with
      | true => rfl
      | false => rw [lookup, populated.keeps regular (keeps unmap)]

theorem mmMapLevel_translates (attrsOk : AttrsFor attrs flags.unmap)
    (range : EntryRange (level + 1) base begin_ end_) (t : PageTable level) (pool : Mpool)
    (lower : base ≤ addr) (upper : addr < base + mmEntrySize (level + 1))
    (regular : (t (mmIndex addr level)).RegularAt addr) :
    Translates attrs flags begin_ end_ addr (t (mmIndex addr level))
    (mmMapLevel attrs flags level begin_ end_ begin_ t pool).ok
      ((mmMapLevel attrs flags level begin_ end_ begin_ t pool).value (mmIndex addr level)) :=
  (mmMapLevel_steps attrs flags range (fun range e pool _ lower upper regular =>
    mmMapPte_translates attrsOk range e pool lower upper regular) t pool).translates range.aligned
      lower upper regular

end Update

/-! ## Updates of an address space -/

section Ptable

variable {c : StageConfig}

/-- The entry of the root tables for an address. -/
def MmPtable.entryAt (t : MmPtable c) (addr : Nat) : Pte c.maxLevel :=
  t.tables (mmIndex addr (c.maxLevel + 1)) (mmIndex addr c.maxLevel)

def MmPtable.RegularAt (t : MmPtable c) (addr : Nat) : Prop := (t.entryAt addr).RegularAt addr

/-- Every leaf of a table is absent or maps its addresses to consecutive ones that a descriptor can
hold, its own or others. -/
def MmPtable.Regular (t : MmPtable c) : Prop := ∀ addr < mmPtableAddrSpaceEnd c, t.RegularAt addr

/-- An update of the range finds the leaf of the address with the wanted attributes and leaves it alone. -/
def MmPtable.keeps (t : MmPtable c) (attrs : PteBits) (begin_ end_ addr : Nat) : Bool :=
  (t.entryAt addr).keeps attrs (mmMapBegin begin_) (mmMapEnd c end_) addr

theorem MmPtable.lookup_entryAt (t : MmPtable c) (addr : Nat) :
    t.lookup addr = (t.entryAt addr).lookup addr := rfl

theorem MmPtable.attrsAt_entryAt (t : MmPtable c) (addr : Nat) :
    t.attrsAt addr = (t.entryAt addr).attrsAt addr := rfl

variable {t : MmPtable c} {unmap : Bool} {pool : Mpool} {r : Updated (MmPtable c)}

theorem MmPtable.WellFormed.regular (wf : t.WellFormed) : t.Regular := by
  intro addr inside
  obtain ⟨root, first, last⟩ := root_bounds inside
  obtain ⟨index, lower, upper⟩ := mmIndex_bounds (Nat.mul_mod_left ..) first last
  exact (wf _ root _ index).regularAt (entry_aligned (Nat.mul_mod_left ..) _)
    ((root_entry_end_le root index).trans c.space_le) lower upper

theorem mmMapRoot_translates (flags : MmFlags) (attrsOk : AttrsFor attrs flags.unmap)
    (range : RootRange c begin_ end_) (t : MmPtable c) (pool : Mpool) (inside : addr < mmPtableAddrSpaceEnd c)
    (regular : t.RegularAt addr) :
    Translates attrs flags begin_ end_ addr (t.entryAt addr) (mmMapRoot t begin_ end_ attrs flags pool).ok
      ((mmMapRoot t begin_ end_ attrs flags pool).value.entryAt addr) := by
  by_cases nonempty : begin_ < end_
  · obtain ⟨bound, first, last⟩ := root_bounds inside
    obtain ⟨index, lower, upper⟩ := mmIndex_bounds (Nat.mul_mod_left ..) first last
    cases mmMapRoot_steps flags range nonempty (R := fun base begin_ end_ t ok t' => ∀ addr, base ≤ addr →
        addr < base + mmEntrySize (c.maxLevel + 1) → (t (mmIndex addr c.maxLevel)).RegularAt addr →
        Translates attrs flags begin_ end_ addr (t (mmIndex addr c.maxLevel))
          ok (t' (mmIndex addr c.maxLevel)))
      (fun range t pool _ lower upper regular => mmMapLevel_translates attrsOk range t pool lower
        upper regular) t pool bound with
    | touched touches after stepped success =>
      have entry := (stepped.2 addr first last regular).clip begin_ end_
        (entry_aligned (Nat.mul_mod_left ..) _) lower upper (by omega) rfl
      exact { entry with hit := fun commit ok => entry.hit commit (success ok) }
    | kept same outside =>
      have unchanged : (mmMapRoot t begin_ end_ attrs flags pool).value.entryAt addr = t.entryAt addr :=
        congrFun same _
      rw [unchanged]
      refine ⟨regular, fun _ => rfl, fun _ _ => rfl, fun _ ok lower upper => ?_⟩
      have := outside ok
      omega
  · rw [mmMapRoot_empty flags t pool nonempty]
    exact ⟨regular, fun _ => rfl, fun _ _ => rfl, fun _ _ lower upper => by omega⟩

/-- An update commits what it prepared, or is the preparation that failed. -/
theorem mmPtableIdentityUpdate_cases (ran : mmPtableIdentityUpdate t begin_ end_ attrs unmap pool = some r) :
    let p := mmPtableIdentityPrepare t begin_ end_ attrs unmap pool
    (p.ok = true ∧ mmPtableIdentityMap p.value begin_ end_ attrs ⟨true, unmap⟩ p.state = r ∧ r.ok = true) ∨
      (p.ok = false ∧ p = r) := by
  simp only [mmPtableIdentityUpdate] at ran
  split at ran
  · next ok =>
    rw [Option.map_eq_some_iff] at ran
    obtain ⟨⟨t', pool'⟩, commit, rfl⟩ := ran
    exact .inl ⟨ok, mmPtableIdentityCommit_some commit, rfl⟩
  · next failed =>
    cases ran
    exact .inr ⟨by simpa using failed, rfl⟩

/-- What an update does to the translation of an address: a successful one maps the addresses that
it touches, and nothing else changes. -/
theorem mmPtableIdentityUpdate_translates (attrsOk : AttrsFor attrs unmap)
    (ran : mmPtableIdentityUpdate t begin_ end_ attrs unmap pool = some r)
    (inside : addr < mmPtableAddrSpaceEnd c) (regular : t.RegularAt addr) :
    r.value.RegularAt addr ∧ r.value.lookup addr =
      if r.ok = true ∧ mmMapBegin begin_ ≤ addr ∧ addr < mmMapEnd c end_ then
        mapped attrs unmap (t.keeps attrs begin_ end_ addr) addr (t.lookup addr)
      else t.lookup addr := by
  have range := rootRange_map c begin_ end_
  have prepare := mmMapRoot_translates ⟨false, unmap⟩ attrsOk range t pool inside regular
  rw [← mmPtableIdentityMap, ← mmPtableIdentityPrepare] at prepare
  rcases mmPtableIdentityUpdate_cases ran with ⟨-, commit, ok⟩ | ⟨failed, rfl⟩
  · have written := mmMapRoot_translates ⟨true, unmap⟩ attrsOk range
      (mmPtableIdentityPrepare t begin_ end_ attrs unmap pool).value
      (mmPtableIdentityPrepare t begin_ end_ attrs unmap pool).state inside prepare.regular
    rw [← mmPtableIdentityMap, commit] at written
    refine ⟨written.regular, ?_⟩
    have same := prepare.frame (.inl rfl)
    split
    · next touched =>
      refine (written.hit rfl ok touched.2.1 touched.2.2).trans ?_
      rw [same, MmPtable.lookup_entryAt, MmPtable.keeps]
      cases unmap with
      | true => rfl
      | false => rw [prepare.keeps rfl rfl]
    · next outside => exact (written.frame (.inr fun touched => outside ⟨ok, touched⟩)).trans same
  · refine ⟨prepare.regular, ?_⟩
    rw [failed, if_neg fun done => Bool.false_ne_true done.1]
    exact prepare.frame (.inl rfl)

end Ptable

end Hafnium.Mm
