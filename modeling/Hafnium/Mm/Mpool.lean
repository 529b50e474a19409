import Hafnium.Mm.Arch
import Mathlib.Data.List.Basic

/-! # Page pools with fallbacks

A pool holds single free pages and chunks of consecutive pages, and may fall back on another pool
when it runs dry. Pools hold whole pages here, so pages are named by their number and the entry
size is one. A pool together with its chain of fallbacks is a list with the pool itself first;
the free list is searched before the chunks and a pool before its fallback, as in `mpool.c`.
-/

namespace Hafnium.Mm

/-- The free pages of one pool: the free list, and chunks given by first page and size. -/
structure MpoolLevel where
  entryList : List PageNumber := []
  chunkList : List (PageNumber × Nat) := []
deriving DecidableEq, Repr

/-- A pool followed by its fallbacks. -/
abbrev Mpool := List MpoolLevel

def mpoolInitWithFallback (fallback : Mpool) : Mpool := {} :: fallback

def mpoolAllocNoFallback (p : MpoolLevel) : Option (PageNumber × MpoolLevel) :=
  match p.entryList with
  | entry :: next => some (entry, { p with entryList := next })
  | [] =>
    match p.chunkList with
    | [] => none
    | (chunk, size) :: nextChunk =>
      if size ≤ 1 then some (chunk, { p with chunkList := nextChunk })
      else some (chunk, { p with chunkList := (chunk + 1, size - 1) :: nextChunk })

def mpoolAlloc : Mpool → Option (PageNumber × Mpool)
  | [] => none
  | p :: fallback =>
    match mpoolAllocNoFallback p with
    | some (page, p') => some (page, p' :: fallback)
    | none => (mpoolAlloc fallback).map fun (page, fallback') => (page, p :: fallback')

/-- Frees go to the front of the pool's own free list. -/
def mpoolFree : Mpool → PageNumber → Mpool
  | [], _ => []
  | p :: fallback, page => { p with entryList := page :: p.entryList } :: fallback

/-- Adds `size` pages from `begin_` on as one chunk, if there are any. -/
def mpoolAddChunk : Mpool → PageNumber → Nat → Mpool
  | [], _, _ => []
  | p :: fallback, begin_, size =>
    if size = 0 then p :: fallback else { p with chunkList := (begin_, size) :: p.chunkList } :: fallback

/-- Returns everything a pool holds to its fallback; a pool without fallback keeps its pages. -/
def mpoolFini : Mpool → Mpool
  | [] => []
  | [p] => [p]
  | p :: fallback =>
    p.chunkList.foldl (fun pool chunk => mpoolAddChunk pool chunk.1 chunk.2)
      (p.entryList.foldl mpoolFree fallback)

/-- The first chunk with room for `count` pages aligned to `align` pages. The pages skipped for
the alignment and those after the allocation stay in the list, the skipped ones first. -/
def mpoolTakeContiguous (count align : Nat) :
    List (PageNumber × Nat) → Option (PageNumber × List (PageNumber × Nat))
  | [] => none
  | (chunk, size) :: nextChunk =>
    let start := (chunk.toNat + align - 1) / align * align
    let skipped := start - chunk.toNat
    if skipped + count ≤ size then
      let rest := if skipped + count = size then nextChunk
        else (BitVec.ofNat 36 (start + count), size - (skipped + count)) :: nextChunk
      some (BitVec.ofNat 36 start, if 0 < skipped then (chunk, skipped) :: rest else rest)
    else
      (mpoolTakeContiguous count align nextChunk).map fun (page, rest) => (page, (chunk, size) :: rest)

def mpoolAllocContiguous (count align : Nat) : Mpool → Option (PageNumber × Mpool)
  | [] => none
  | p :: fallback =>
    match mpoolTakeContiguous count align p.chunkList with
    | some (page, chunkList) => some (page, { p with chunkList } :: fallback)
    | none => (mpoolAllocContiguous count align fallback).map fun (page, fallback') => (page, p :: fallback')

/-! ## Counting free pages -/

def MpoolLevel.freeCount (p : MpoolLevel) : Nat :=
  p.entryList.length + (p.chunkList.map Prod.snd).sum

/-- The number of pages that single-page allocations can still take from a pool. -/
def Mpool.freeCount (pool : Mpool) : Nat := (pool.map MpoolLevel.freeCount).sum

@[simp] theorem Mpool.freeCount_cons (p : MpoolLevel) (fallback : Mpool) :
    Mpool.freeCount (p :: fallback) = p.freeCount + Mpool.freeCount fallback := rfl

@[simp] theorem freeCount_mpoolInitWithFallback (fallback : Mpool) :
    Mpool.freeCount (mpoolInitWithFallback fallback) = fallback.freeCount := by
  simp [mpoolInitWithFallback, MpoolLevel.freeCount]

variable {p : MpoolLevel} {page : PageNumber} {pool : Mpool}

/-- A pool without entry and chunk has no free page. -/
theorem mpoolAllocNoFallback_none (empty : mpoolAllocNoFallback p = none) : p.freeCount = 0 := by
  rcases p with ⟨_ | ⟨entry, next⟩, _ | ⟨chunk, nextChunk⟩⟩
  · rfl
  all_goals simp only [mpoolAllocNoFallback] at empty
  · split at empty <;> cases empty
  all_goals cases empty

theorem mpoolAllocNoFallback_some {p' : MpoolLevel}
    (success : mpoolAllocNoFallback p = some (page, p')) : p.freeCount ≤ p'.freeCount + 1 := by
  rcases p with ⟨_ | ⟨entry, next⟩, _ | ⟨⟨chunk, size⟩, nextChunk⟩⟩
  · cases success
  · simp only [mpoolAllocNoFallback] at success
    split at success
    all_goals
      cases success
      simp only [MpoolLevel.freeCount, List.length_nil, List.map_cons, List.sum_cons]
      omega
  all_goals
    cases success
    simp only [MpoolLevel.freeCount, List.length_cons]
    omega

/-- Allocation fails only when no page is free. -/
theorem mpoolAlloc_none (empty : mpoolAlloc pool = none) : pool.freeCount = 0 := by
  induction pool with
  | nil => rfl
  | cons p fallback ih =>
    simp only [mpoolAlloc] at empty
    cases own : mpoolAllocNoFallback p with
    | some result => simp [own] at empty
    | none =>
      simp only [own, Option.map_eq_none_iff] at empty
      simp [mpoolAllocNoFallback_none own, ih empty]

/-- One allocation takes at most one page. -/
theorem mpoolAlloc_some {pool' : Mpool} (success : mpoolAlloc pool = some (page, pool')) :
    pool.freeCount ≤ pool'.freeCount + 1 := by
  induction pool generalizing pool' with
  | nil => cases success
  | cons p fallback ih =>
    simp only [mpoolAlloc] at success
    cases own : mpoolAllocNoFallback p with
    | some result =>
      simp only [own, Option.some.injEq, Prod.mk.injEq] at success
      obtain ⟨rfl, rfl⟩ := success
      have := mpoolAllocNoFallback_some own
      simp only [Mpool.freeCount_cons]
      omega
    | none =>
      simp only [own, Option.map_eq_some_iff, Prod.mk.injEq, Prod.exists] at success
      obtain ⟨_, fallback', found, rfl, rfl⟩ := success
      have := ih found
      simp only [Mpool.freeCount_cons]
      omega

theorem freeCount_mpoolFree_le (pool : Mpool) (page : PageNumber) :
    pool.freeCount ≤ (mpoolFree pool page).freeCount := by
  cases pool with
  | nil => exact Nat.le_refl _
  | cons p fallback =>
    simp only [mpoolFree, Mpool.freeCount_cons, MpoolLevel.freeCount, List.length_cons]
    omega

/-- What becomes of a pool that pages are only given to. -/
def Mpool.Freed (pool pool' : Mpool) : Prop := ∃ pages : List PageNumber, pool' = pages.foldl mpoolFree pool

theorem Mpool.Freed.refl (pool : Mpool) : pool.Freed pool := ⟨[], rfl⟩

theorem Mpool.Freed.free (pool : Mpool) (page : PageNumber) : pool.Freed (mpoolFree pool page) :=
  ⟨[page], rfl⟩

theorem Mpool.Freed.trans {pool' pool'' : Mpool} (first : pool.Freed pool') (second : pool'.Freed pool'') :
    pool.Freed pool'' := by
  obtain ⟨pages, rfl⟩ := first
  obtain ⟨more, rfl⟩ := second
  exact ⟨pages ++ more, (List.foldl_append ..).symm⟩

theorem Mpool.Freed.freeCount_le {pool' : Mpool} (freed : pool.Freed pool') :
    pool.freeCount ≤ pool'.freeCount := by
  obtain ⟨pages, rfl⟩ := freed
  induction pages generalizing pool with
  | nil => exact Nat.le_refl _
  | cons page rest ih => exact (freeCount_mpoolFree_le pool page).trans ih

end Hafnium.Mm
