import Hafnium.Ffa.UpdateSpec

/-! # Share states

The table of memory transactions that are being sent or are outstanding. A slot without share
function is free. What a free slot still holds is never read again: allocation sets everything but
the sender's original mode, which is set when sending completes, and the constituent counts, which
freeing has reset.
-/

namespace Hafnium.Ffa

open Mm Function

variable {m : MmConfig}

def maxFragments : Nat := 20
def maxMemShares : Nat := 100

/-- An allocated share state. Behind the array of constituent counts lies the number of fragments;
it is at most the array's size, so a loop that compares it with its own index stops there just as
at a zero. -/
structure ShareState where
  memoryRegion : MemoryRegion
  fragments : Fragments
  /-- The page of each fragment; the first one also holds the memory region. -/
  pages : Nat → PageNumber
  shareFunc : ShareFunc
  senderOrigMode : Mode
  sendingComplete : Bool
  retrievedFragmentCount : Nat → Nat

abbrev ShareStates := Fin maxMemShares → Option ShareState

/-- What the memory-sharing functions work on besides the calling partition. -/
structure Sharing (m : MmConfig) where
  shareStates : ShareStates
  memory : HypMemory m
  pool : Mpool

def Sharing.set (s : Sharing m) (i : Fin maxMemShares) (state : Option ShareState) : Sharing m :=
  { s with shareStates := update s.shareStates i state }

/-- The receivers that a descriptor lists. -/
def MemoryRegion.receiverList (region : MemoryRegion) : List MemoryAccess :=
  (List.range region.receiverCount.toNat).map region.receivers

def ffaMemoryHandleGetIndex (handle : Handle) : Nat := (handle &&& ~~~ffaMemoryHandleAllocatorMask).toNat

/-- The constituents that come with the descriptor itself. -/
def firstFragment (region : MemoryRegion) (fragmentLength : BitVec 32) : Fragments :=
  let compositeOffset := (region.receivers 0).compositeMemoryRegionOffset
  { constituents := fun _ => constituentsFrom region.bytes (compositeOffset.toNat + 16)
    counts := update (fun _ => 0) 0 ((fragmentLength - (compositeOffset + 16)).toNat / 16)
    count := 1
    offsets := fun _ => compositeOffset.toNat + 16 }

/-- One more fragment in a page of its own. -/
def Fragments.add (f : Fragments) (fragment : Bytes) (length : BitVec 32) : Fragments where
  constituents := update f.constituents f.count (constituentsFrom fragment 0)
  counts := update f.counts f.count (length.toNat / 16)
  count := f.count + 1
  offsets := update f.offsets f.count 0

/-- The share state for a memory region of which the first fragment has arrived, and its slot. -/
def allocateShareState (m : MmConfig) (states : ShareStates) (func : ShareFunc) (page : PageNumber)
    (region : MemoryRegion) (fragmentLength : BitVec 32) (handle : Handle) :
    Run (Option (Fin maxMemShares × ShareState)) :=
  match (List.finRange maxMemShares).find? fun i => (states i).isNone with
  | none => .ok none
  | some i => do
    let _ ← ffaCompositeConstituentOffset region 0
    let handle := if handle = ffaMemoryHandleInvalid then platFfaMemoryHandleMake m i else handle
    .ok (some (i,
      { memoryRegion := { region with handle }
        fragments := firstFragment region fragmentLength
        pages := fun _ => page
        shareFunc := func
        senderOrigMode := 0
        sendingComplete := false
        retrievedFragmentCount := fun _ => 0 }))

/-- A handle of the current world names its slot; any other one is searched for. -/
def getShareState (m : MmConfig) (states : ShareStates) (handle : Handle) :
    Option (Fin maxMemShares × ShareState) :=
  let scan := (List.finRange maxMemShares).findSome? fun i =>
    match states i with
    | some state => if state.memoryRegion.handle = handle then some (i, state) else none
    | none => none
  if platFfaMemoryHandleAllocatedByCurrentWorld m handle then
    if bound : ffaMemoryHandleGetIndex handle < maxMemShares then
      match states ⟨ffaMemoryHandleGetIndex handle, bound⟩ with
      | some state => some (⟨ffaMemoryHandleGetIndex handle, bound⟩, state)
      | none => scan
    else scan
  else scan

/-- Frees a share state with its pages. -/
def shareStateFree (s : Sharing m) (i : Fin maxMemShares) (state : ShareState) : Sharing m :=
  { s.set i none with
    pool := (List.range state.fragments.count).tail.foldl (fun pool j => mpoolFree pool (state.pages j))
      (mpoolFree s.pool (state.pages 0)) }

/-- The number of constituents in the first fragments. -/
def Fragments.total (f : Fragments) (count : Nat) : Nat := ((List.range count).map f.counts).sum

def shareStateSendingComplete (state : ShareState) : Run Bool := do
  let composite ← ffaMemoryRegionGetComposite hfMailboxSize state.memoryRegion 0
  .ok (decide (BitVec.ofNat 32 (state.fragments.total state.fragments.count) = composite.constituentCount))

/-- The offset of the fragment that follows the first `count` ones. -/
def shareStateFragmentOffset (state : ShareState) (count : Nat) : Run (BitVec 32) := do
  let constituentOffset ← ffaCompositeConstituentOffset state.memoryRegion 0
  .ok (constituentOffset + BitVec.ofNat 32 (16 * state.fragments.total count))

def shareStateNextFragmentOffset (state : ShareState) : Run (BitVec 32) :=
  shareStateFragmentOffset state state.fragments.count

/-- The state after one more fragment has arrived. -/
def ShareState.addFragment (state : ShareState) (page : PageNumber) (fragment : Bytes)
    (length : BitVec 32) : ShareState :=
  { state with
    fragments := state.fragments.add fragment length
    pages := update state.pages state.fragments.count page }

/-! ## Lookup -/

variable {states : ShareStates} {handle : Handle} {i : Fin maxMemShares} {state : ShareState}

/-- A slot that is found is allocated with what is found. -/
theorem getShareState_some (found : getShareState m states handle = some (i, state)) :
    states i = some state := by
  have scan : (List.finRange maxMemShares).findSome? (fun i =>
      match states i with
      | some state => if state.memoryRegion.handle = handle then some (i, state) else none
      | none => none) = some (i, state) → states i = some state := by
    intro scanned
    obtain ⟨j, -, here⟩ := List.exists_of_findSome?_eq_some scanned
    split at here
    · next other held =>
      split at here
      · cases here
        exact held
      · cases here
    · cases here
  simp only [getShareState] at found
  split at found
  · split at found
    · split at found
      · next held =>
        cases found
        exact held
      · exact scan found
    · exact scan found
  · exact scan found

/-- A share state is put into a free slot. -/
theorem allocateShareState_some {func : ShareFunc} {page : PageNumber} {region : MemoryRegion}
    {fragmentLength : BitVec 32} (allocated : allocateShareState m states func page region
      fragmentLength handle = .ok (some (i, state))) :
    states i = none ∧ ∃ given, (handle = ffaMemoryHandleInvalid → given = platFfaMemoryHandleMake m i) ∧
      state =
        { memoryRegion := { region with handle := given }
          fragments := firstFragment region fragmentLength
          pages := fun _ => page
          shareFunc := func
          senderOrigMode := 0
          sendingComplete := false
          retrievedFragmentCount := fun _ => 0 } := by
  simp only [allocateShareState] at allocated
  split at allocated
  · cases allocated
  · next j free =>
    simp only [Partial.bind_ok_iff] at allocated
    obtain ⟨offset, -, ⟨⟩⟩ := allocated
    have isFree := List.find?_some free
    exact ⟨Option.isNone_iff_eq_none.mp isFree, _, fun invalid => if_pos invalid, rfl⟩

end Hafnium.Ffa
