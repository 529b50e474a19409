import Hafnium.Mm.Forest

/-! # The scratch memory of the manifest parser

What the partitions of a manifest have claimed so far is kept in pages that `manifest_init` takes
from the pool and `manifest_deinit` gives back. Between, the packages of the partitions are mapped
and unmapped in the hypervisor's own table, which takes and returns pages of the same pool.
-/

namespace Hafnium.Manifest

open Mm

/-- The number of pages for a `struct allocated_fields` of the given size. -/
def allocatedFieldsPpoolEntries (size : Nat) : Nat := (size + pageSize - 1) / pageSize * pageSize / pageSize

/-- `mpool_add_chunk` for memory that is given by its address and its size in bytes. -/
def mpoolAddChunkBytes (pool : Mpool) (begin_ size : Nat) : Mpool :=
  let newBegin := (begin_ + pageSize - 1) / pageSize * pageSize
  let newEnd := (begin_ + size) / pageSize * pageSize
  if newEnd ≤ newBegin ∨ newEnd - newBegin < pageSize then pool
  else mpoolAddChunk pool (BitVec.ofNat 36 (newBegin / pageSize)) ((newEnd - newBegin) / pageSize)

def manifestAllocatedFieldsInit (size : Nat) (pool : Mpool) : Option (PageNumber × Mpool) :=
  mpoolAllocContiguous (allocatedFieldsPpoolEntries size) 1 pool

def manifestAllocatedFieldsDeinit (size : Nat) (allocatedFields : PageNumber) (pool : Mpool) : Mpool :=
  mpoolAddChunkBytes pool (allocatedFields.toNat * pageSize) (allocatedFieldsPpoolEntries size)

variable {m : MmConfig}

/-- What `manifest_init` does to the pool and to tables; `calls` are the mappings of packages up to
the end or to an error. `none` stands for a `panic` or a failed `CHECK`. -/
def manifestInit (size : Nat) (calls : List PtableCall) (s : PtableStore m) :
    Option (PageNumber × PtableStore m) := do
  let (allocatedFields, pool) ← manifestAllocatedFieldsInit size s.pool
  let s ← calls.foldlM PtableStore.run { s with pool }
  some (allocatedFields, s)

def manifestDeinit (size : Nat) (allocatedFields : PageNumber) (s : PtableStore m) : PtableStore m :=
  { s with pool := manifestAllocatedFieldsDeinit size allocatedFields s.pool }

/-- Of memory that begins with a page the whole pages are added. -/
theorem mpoolAddChunkBytes_moves (pool : Mpool) (page : PageNumber) (size : Nat) :
    pool.Moves (mpoolAddChunkBytes pool (page.toNat * pageSize) size)
    (chunkPages (page, size / pageSize)) 0 := by
  have unit : pageSize = 4096 := rfl
  have start : (page.toNat * pageSize + pageSize - 1) / pageSize * pageSize = page.toNat * pageSize := by
    rw [unit]
    omega
  have stop : (page.toNat * pageSize + size) / pageSize * pageSize = page.toNat * pageSize +
      size / pageSize * pageSize := by
    rw [unit]
    omega
  simp only [mpoolAddChunkBytes, start, stop, Nat.add_sub_cancel_left,
    Nat.mul_div_cancel _ (show 0 < pageSize by decide), BitVec.ofNat_toNat, BitVec.setWidth_eq]
  split
  · next none_ =>
    have zero : size / pageSize = 0 := by
      rw [unit] at none_ ⊢
      omega
    rw [zero]
    exact .refl _ _
  · next some_ =>
    have positive : 0 < (page, size / pageSize).2 := by
      rw [unit] at some_ ⊢
      omega
    exact mpoolAddChunk_moves pool positive

/-- The pool gets back what it held, apart from the pages of tables, only if there was nothing to
allocate: pages are taken, but as many bytes are given back. -/
theorem scratch_returned_iff {size n : Nat} {s s' : PtableStore m} {calls : List PtableCall}
    {page : PageNumber} (sound : s.pool.Sound n)
    (parsed : manifestInit size calls s = some (page, s')) :
    (manifestDeinit size page s').pool.pages + s'.tablePages = s.pool.pages + s.tablePages ↔ size = 0 := by
  have count : allocatedFieldsPpoolEntries size = (size + 4095) / 4096 := Nat.mul_div_cancel _ (by decide)
  simp only [manifestInit, Option.bind_eq_bind, Option.bind_eq_some_iff, Option.some.injEq,
    Prod.mk.injEq] at parsed
  obtain ⟨⟨page, pool⟩, allocation, s', ran, rfl, rfl⟩ := parsed
  obtain ⟨sound₁, taken⟩ := mpoolAllocContiguous_moves Nat.one_pos allocation n sound
  obtain ⟨sound₂, mapped⟩ := PtableStore.runs_moves ran n sound₁
  obtain ⟨-, returned⟩ := mpoolAddChunkBytes_moves s'.pool page _ n sound₂
  change s'.pool.pages + _ = (manifestDeinit size page s').pool.pages + 0 at returned
  change pool.pages + s.tablePages = _ at mapped
  rw [add_zero] at taken returned
  constructor
  · intro same
    have cards := congrArg Multiset.card same
    rw [taken, ← returned] at cards
    have moved := congrArg Multiset.card mapped
    simp only [Multiset.card_add, chunkPages, Multiset.coe_card, List.length_map, List.length_range, count,
      show pageSize = 4096 from rfl] at cards moved
    omega
  · rintro rfl
    have none_ : chunkPages (page, 0) = 0 := rfl
    rw [count] at taken returned
    rw [← returned, taken, show (0 + 4095) / 4096 / pageSize =
      0 by decide, show (0 + 4095) / 4096 = 0 by decide, none_, add_zero, add_zero]
    exact mapped.symm

/-- Three pages of scratch memory for a manifest without packages. -/
theorem scratch_returned_three_pages :
    let s : PtableStore smallConfig := ⟨[], [⟨[], [(0, 5)]⟩]⟩
    ∃ page s', manifestInit 10000 [] s = some (page, s') ∧
      (manifestDeinit 10000 page s').pool.pages + s'.tablePages ≠ s.pool.pages + s.tablePages := by
  intro s
  have parsed : manifestInit 10000 [] s = some (0, ⟨[], [⟨[], [(3, 2)]⟩]⟩) := rfl
  refine ⟨_, _, parsed, fun same => ?_⟩
  exact absurd ((scratch_returned_iff (n := 0) ⟨rfl, by decide⟩ parsed).mp same) (by decide)

/-- Scratch memory of 2056 bytes is one page, which the pool no longer holds. -/
theorem scratch_not_returned :
    let s : PtableStore smallConfig := ⟨[], [⟨[], [(0, 5)]⟩]⟩
    (manifestInit 2056 [] s).map (fun (page, s') => (manifestDeinit 2056 page s').pool) =
      some [⟨[], [(1, 4)]⟩] := by
  decide

end Hafnium.Manifest
