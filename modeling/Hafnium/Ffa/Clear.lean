import Hafnium.Ffa.RegionMap
import Hafnium.Lib.Partial

/-! # Clearing memory

`ffaClearMemoryConstituents` maps each constituent it visits into the hypervisor's own address
space, overwrites it with zeros and unmaps it again. Stores go through the hypervisor's stage-1
table, so a store to an address that is not mapped writable aborts. Cache maintenance is left out,
and a physical address is one byte of memory whichever world the mapping names.

The inner loop of the source compares its counter with the count of the fragment that the counter
itself numbers, so it visits the same number of constituents in every fragment (`clearBound`).
-/

namespace Hafnium.Ffa

open Mm Partial Function

variable {m : MmConfig}

/-- The hypervisor's own address space, and the physical memory. -/
structure HypMemory (m : MmConfig) where
  stage1 : MmPtable (m.levels .stage1)
  bytes : Nat → BitVec 8

/-- The pointer that `mm_identity_map` returns, 0 on failure. -/
def mmIdentityMap (t : MmPtable (m.levels .stage1)) (begin_ end_ : Nat) (mode : Mode) (pool : Mpool) :
    Run (Nat × MmPtable (m.levels .stage1) × Mpool) :=
  match stageIdentityMap t begin_ end_ mode pool with
  | none => .error .identityCommit
  | some r => .ok (if r.ok then begin_ else 0, r.value, r.state)

/-- The physical address that a store to a virtual address reaches. The top byte is a tag. -/
def storeTarget (t : MmPtable (m.levels .stage1)) (va : Nat) : Option Nat :=
  let va := va % 2 ^ 56
  if va < mmPtableAddrSpaceEnd (m.levels .stage1) then
    match t.lookup va with
    | some (pa, attrs) => if attrs &&& pteValid ≠ 0 ∧ attrs &&& stage1Ap2 = 0 then some pa else none
    | none => none
  else none

/-- Stores zero to `size` bytes from `va` on; `none` if a store aborts. -/
def memsetZero (t : MmPtable (m.levels .stage1)) (va : Nat) (bytes : Nat → BitVec 8) :
    (size : Nat) → Option (Nat → BitVec 8)
  | 0 => some bytes
  | size + 1 =>
    match memsetZero t va bytes size, storeTarget t (va + size) with
    | some bytes, some pa => some (update bytes pa 0)
    | _, _ => none

def rsizeMax : Nat := 128 * 1024 * 1024

def memsetS (t : MmPtable (m.levels .stage1)) (dest size : Nat) (bytes : Nat → BitVec 8) :
    Run (Nat → BitVec 8) :=
  if dest = 0 ∨ size > rsizeMax then .error .memset
  else
    match memsetZero t dest bytes size with
    | none => .error .dataAbort
    | some bytes => .ok bytes

def clearMode (m : MmConfig) (extra : Mode) : Mode := mmModeW ||| (extra &&& platFfaOtherWorldMode m)

/-- Clears one range. The result of unmapping it again is not looked at. -/
def clearMemory (s : HypMemory m) (begin_ size : Nat) (pool : Mpool) (extra : Mode) :
    Run (Bool × HypMemory m × Mpool) := do
  let end_ := (begin_ + size) % 2 ^ 64
  let (ptr, stage1, pool) ← mmIdentityMap s.stage1 begin_ end_ (clearMode m extra) pool
  if ptr = 0 then
    let (stage1, pool) := mmPtableDefrag m.features stage1 pool
    .ok (false, { s with stage1 }, pool)
  else
    let bytes ← memsetS stage1 ptr size s.bytes
    let (_, stage1, pool) ← mmIdentityMap stage1 begin_ end_ mmModeUnmappedMask pool
    .ok (true, ⟨stage1, bytes⟩, pool)

/-- The first `j` that is not below its own count; counters are 32-bit values. -/
def clearStop (counts : Nat → Nat) : (fuel j : Nat) → Nat
  | 0, j => j
  | fuel + 1, j => if j < counts j then clearStop counts fuel (j + 1) else j

/-- How many constituents of each fragment are visited. -/
def Fragments.clearBound (f : Fragments) : Nat := clearStop f.counts (2 ^ 32) 0

/-- The constituents that are visited. -/
def Fragments.clearList (f : Fragments) : List (Nat × Constituent) :=
  (List.range f.count).flatMap fun i => (List.range f.clearBound).map fun j => (i, f.constituents i j)

/-- The loops of `ffa_clear_memory_constituents`. -/
def clearConstituents (extra : Mode) :
    List (Nat × Constituent) → HypMemory m → Mpool → Run (Bool × HypMemory m × Mpool)
  | [], s, pool => .ok (true, s, pool)
  | (_, c) :: rest, s, pool => do
    let (ok, s, pool) ← clearMemory s c.begin_ c.size pool extra
    if ok then clearConstituents extra rest s pool else .ok (false, s, pool)

def ffaClearMemoryConstituents (securityStateMode : Mode) (f : Fragments) (s : HypMemory m) (pool : Mpool) :
    Run (Bool × HypMemory m × Mpool) := do
  let (ok, s, pool) ← clearConstituents securityStateMode f.clearList s (mpoolInitWithFallback pool)
  if ok then
    let (stage1, pool) := mmPtableDefrag m.features s.stage1 pool
    .ok (true, { s with stage1 }, mpoolFini pool)
  else .ok (false, s, mpoolFini pool)

/-! ## What is overwritten -/

/-- The bytes that a store to each address of a range reaches. -/
def Overwritten (begin_ size addr : Nat) : Prop := ∃ k < size, addr = (begin_ + k) % 2 ^ 56

instance (begin_ size addr : Nat) : Decidable (Overwritten begin_ size addr) :=
  inferInstanceAs (Decidable (∃ k < size, _))

variable {size : Nat} {t : MmPtable (m.levels .stage1)} {bytes bytes' : Nat → BitVec 8}
  {begin_ : Nat}

theorem overwritten_succ {addr : Nat} :
    Overwritten begin_ (size + 1) addr ↔ addr = (begin_ + size) % 2 ^ 56 ∨ Overwritten begin_ size addr := by
  constructor
  · rintro ⟨k, bound, rfl⟩
    rcases Nat.lt_succ_iff_lt_or_eq.mp bound with before | rfl
    · exact .inr ⟨k, before, rfl⟩
    · exact .inl rfl
  · rintro (rfl | ⟨k, bound, rfl⟩)
    · exact ⟨size, Nat.lt_succ_self _, rfl⟩
    · exact ⟨k, Nat.lt_succ_of_lt bound, rfl⟩

section Store

variable {va : Nat} {pa : Nat}

/-- Through an identity-mapped table a store reaches its own address. -/
theorem storeTarget_eq (wf : t.WellFormed) (target : storeTarget t va = some pa) : pa = va % 2 ^ 56 := by
  simp only [storeTarget] at target
  split at target
  · next inside =>
    rw [MmPtable.lookup_eq wf inside] at target
    split at target
    · next pa' attrs found =>
      split at found
      · cases found
      · cases found
        split at target
        · exact (Option.some.inj target).symm
        · cases target
    · cases target
  · cases target

/-- A valid and writable page takes stores. -/
theorem storeTarget_of_attrs (wf : t.WellFormed)
    (inside : va % 2 ^ 56 < mmPtableAddrSpaceEnd (m.levels .stage1))
    (valid : t.attrsAt (va % 2 ^ 56) &&& pteValid ≠ 0)
    (writable : t.attrsAt (va % 2 ^ 56) &&& stage1Ap2 = 0) :
    storeTarget t va = some (va % 2 ^ 56) := by
  have mapped : t.attrsAt (va % 2 ^ 56) ≠ 0 := by
    intro absent
    rw [absent] at valid
    exact valid (by simp)
  simp only [storeTarget, if_pos inside, MmPtable.lookup_eq wf inside, if_neg mapped]
  rw [if_pos ⟨valid, writable⟩]

theorem memsetZero_bytes (wf : t.WellFormed) (ran : memsetZero t va bytes size = some bytes') (addr : Nat) :
    bytes' addr = if Overwritten va size addr then 0 else bytes addr := by
  induction size generalizing bytes' with
  | zero =>
    cases ran
    rw [if_neg]
    rintro ⟨k, bound, -⟩
    omega
  | succ size ih =>
    rw [memsetZero] at ran
    split at ran
    · next before pa prior target =>
      cases ran
      rw [storeTarget_eq wf target, update_apply, ih prior]
      simp only [overwritten_succ]
      by_cases here : addr = (va + size) % 2 ^ 56
      · rw [if_pos here, if_pos (.inl here)]
      · simp only [here, if_false, false_or]
    · cases ran

/-- Overwriting a range succeeds when every store of it does. -/
theorem memsetZero_some_iff :
    (∃ bytes', memsetZero t va bytes size = some bytes') ↔
      ∀ k < size, ∃ pa, storeTarget t (va + k) = some pa := by
  induction size with
  | zero => exact ⟨fun _ k bound => by omega, fun _ => ⟨bytes, rfl⟩⟩
  | succ size ih =>
    constructor
    · rintro ⟨bytes', ran⟩ k bound
      rw [memsetZero] at ran
      split at ran
      · next before pa prior target =>
        rcases Nat.lt_succ_iff_lt_or_eq.mp bound with earlier | rfl
        · exact ih.mp ⟨before, prior⟩ k earlier
        · exact ⟨pa, target⟩
      · cases ran
    · intro targets
      obtain ⟨bytes', prior⟩ := ih.mpr fun k bound => targets k (Nat.lt_succ_of_lt bound)
      obtain ⟨pa, target⟩ := targets size (Nat.lt_succ_self _)
      exact ⟨update bytes' pa 0, by rw [memsetZero, prior, target]⟩

end Store

/-- A range that can be written once it is mapped: not at address 0, which the code takes for a failed
mapping, not larger than `memset_s` and `memcpy_s` accept, and in the hypervisor's address space. -/
structure Writable (m : MmConfig) (begin_ size : Nat) : Prop where
  notNull : begin_ ≠ 0
  size_le : size ≤ rsizeMax
  inside : 0 < size → begin_ % 2 ^ 56 + size ≤ mmPtableAddrSpaceEnd (m.levels .stage1)

/-- A constituent that clearing can get past. -/
abbrev Constituent.Clearable (m : MmConfig) (c : Constituent) : Prop := Writable m c.begin_ c.size

/-- What was written was in the hypervisor's address space. -/
theorem Writable.of_stores (notNull : begin_ ≠ 0) (size_le : size ≤ rsizeMax)
    (stores : ∀ k < size, ∃ pa, storeTarget t (begin_ + k) = some pa) : Writable m begin_ size := by
  have inside : ∀ k < size, (begin_ + k) % 2 ^ 56 < mmPtableAddrSpaceEnd (m.levels .stage1) := by
    intro k bound
    obtain ⟨pa, target⟩ := stores k bound
    simp only [storeTarget] at target
    split at target
    · assumption
    · cases target
  refine ⟨notNull, size_le, fun nonempty => ?_⟩
  have space : mmPtableAddrSpaceEnd (m.levels .stage1) ≤ 2 ^ 48 := (m.levels .stage1).space_le
  have first := inside 0 nonempty
  have last := inside (size - 1) (by omega)
  simp only [rsizeMax] at size_le
  omega

/-- Mapping a range of the hypervisor's own address space returns. -/
theorem mmIdentityMap_returns (wf : t.WellFormed) (begin_ end_ : Nat) (mode : Mode) (pool : Mpool) :
    ∃ ptr t' pool', mmIdentityMap t begin_ end_ mode pool = .ok (ptr, t', pool') ∧ t'.WellFormed ∧
      (ptr ≠ 0 → ptr = begin_ ∧ ModeUpdate mode begin_ end_ t t') := by
  obtain ⟨r, ran, rWf, success, -⟩ := stageIdentityMap_spec wf begin_ end_ mode pool
  refine ⟨_, _, _, by rw [mmIdentityMap, ran], rWf, fun mapped => ?_⟩
  split at mapped
  · next ok => exact ⟨if_pos ok, success ok⟩
  · exact absurd rfl mapped

section Clear

variable {s s' : HypMemory m} {pool pool' : Mpool} {extra : Mode} {ok : Bool}

theorem memsetS_ok {dest : Nat} :
    memsetS t dest size bytes = .ok bytes' ↔ dest ≠ 0 ∧ size ≤ rsizeMax ∧
    memsetZero t dest bytes size = some bytes' := by
  rw [memsetS]
  split
  · next refused =>
    simp only [reduceCtorEq, false_iff, not_and]
    omega
  · next accepted =>
    cases memsetZero t dest bytes size with
    | none => simp
    | some bytes' =>
      simp only [Except.ok.injEq, Option.some.injEq]
      constructor
      · rintro rfl
        exact ⟨by omega, by omega, rfl⟩
      · exact fun done => done.2.2

/-- Clearing a range overwrites exactly its bytes, or none if it fails. -/
theorem clearMemory_spec (wf : s.stage1.WellFormed)
    (ran : clearMemory s begin_ size pool extra = .ok (ok, s', pool')) :
    s'.stage1.WellFormed ∧
      (ok = true → Writable m begin_ size ∧
        ∀ addr, s'.bytes addr = if Overwritten begin_ size addr then 0 else s.bytes addr) ∧
      (ok = false → s'.bytes = s.bytes) := by
  obtain ⟨ptr, t, pool₁, mapped, tWf, update⟩ :=
    mmIdentityMap_returns wf begin_ ((begin_ + size) % 2 ^ 64) (clearMode m extra) pool
  simp only [clearMemory, mapped, bind_ok_iff, Except.ok.injEq, exists_eq_left'] at ran
  by_cases null : ptr = 0
  · rw [if_pos null] at ran
    cases ran
    exact ⟨mmPtableDefrag_wellFormed _ _ _ tWf, nofun, fun _ => rfl⟩
  · obtain ⟨rfl, -⟩ := update null
    obtain ⟨ptr', t', pool₂, unmapped, tWf', -⟩ :=
      mmIdentityMap_returns tWf ptr ((ptr + size) % 2 ^ 64) mmModeUnmappedMask pool₁
    rw [if_neg null] at ran
    simp only [bind_ok_iff, unmapped, Except.ok.injEq, exists_eq_left', Prod.mk.injEq, memsetS_ok] at ran
    obtain ⟨bytes, ⟨notNull, small, set⟩, rfl, rfl, rfl⟩ := ran
    have writable := Writable.of_stores notNull small (memsetZero_some_iff.mp ⟨bytes, set⟩)
    exact ⟨tWf', fun _ => ⟨writable, memsetZero_bytes tWf set⟩, nofun⟩

/-- The bytes that clearing a list of constituents overwrites. -/
def OverwrittenBy (l : List (Nat × Constituent)) (addr : Nat) : Prop :=
  ∃ p ∈ l, Overwritten p.2.begin_ p.2.size addr

instance (l : List (Nat × Constituent)) (addr : Nat) : Decidable (OverwrittenBy l addr) :=
  inferInstanceAs (Decidable (∃ p ∈ l, Overwritten p.2.begin_ p.2.size addr))

/-- Clearing overwrites the bytes of all constituents it visits, if it succeeds. -/
theorem clearConstituents_spec {l : List (Nat × Constituent)} (wf : s.stage1.WellFormed)
    (ran : clearConstituents extra l s pool = .ok (ok, s', pool')) :
    s'.stage1.WellFormed ∧ (ok = true → (∀ p ∈ l, p.2.Clearable m) ∧
      ∀ addr, s'.bytes addr = if OverwrittenBy l addr then 0 else s.bytes addr) := by
  induction l generalizing s pool with
  | nil =>
    cases ran
    exact ⟨wf, fun _ => ⟨fun p member => (by cases member), fun addr => by simp [OverwrittenBy]⟩⟩
  | cons p rest ih =>
    obtain ⟨i, c⟩ := p
    rw [clearConstituents, bind_ok_iff] at ran
    obtain ⟨⟨oneOk, s₁, pool₁⟩, one, ran⟩ := ran
    have oneSpec := clearMemory_spec wf one
    cases oneOk with
    | false =>
      cases ran
      exact ⟨oneSpec.1, nofun⟩
    | true =>
      obtain ⟨endWf, others⟩ := ih oneSpec.1 ran
      refine ⟨endWf, fun success => ⟨?_, fun addr => ?_⟩⟩
      · rw [List.forall_mem_cons]
        exact ⟨(oneSpec.2.1 rfl).1, (others success).1⟩
      · have head : OverwrittenBy ((i, c) :: rest) addr ↔ Overwritten c.begin_ c.size addr ∨
            OverwrittenBy rest addr :=
          List.exists_mem_cons_iff ..
        rw [(others success).2 addr, (oneSpec.2.1 rfl).2 addr]
        simp only [head]
        by_cases later : OverwrittenBy rest addr
        · rw [if_pos later, if_pos (.inr later)]
        · simp only [later, if_false, or_false]

/-- Clearing a region keeps the hypervisor's tables well formed and, if it succeeds, overwrites the
constituents it visits and nothing else. -/
theorem ffaClearMemoryConstituents_spec {f : Fragments} (wf : s.stage1.WellFormed)
    (ran : ffaClearMemoryConstituents extra f s pool = .ok (ok, s', pool')) :
    s'.stage1.WellFormed ∧ (ok = true → (∀ p ∈ f.clearList, p.2.Clearable m) ∧
      ∀ addr, s'.bytes addr = if OverwrittenBy f.clearList addr then 0 else s.bytes addr) := by
  simp only [ffaClearMemoryConstituents, bind_ok_iff] at ran
  obtain ⟨⟨done, s₁, pool₁⟩, visited, ran⟩ := ran
  obtain ⟨wf₁, success⟩ := clearConstituents_spec wf visited
  cases done with
  | true =>
    cases ran
    exact ⟨mmPtableDefrag_wellFormed _ _ _ wf₁, success⟩
  | false =>
    cases ran
    exact ⟨wf₁, success⟩

end Clear

end Hafnium.Ffa
