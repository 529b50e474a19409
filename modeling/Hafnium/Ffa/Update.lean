import Hafnium.Ffa.Clear

/-! # Checked updates of a partition's address space

Sending, retrieving, relinquishing and reclaiming memory each check the mode of the region in the
caller's page table, reserve the tables for the new mode and then commit it. Sending and
relinquishing commit first and clear afterwards, with a roll-back to the old mode if clearing
fails; retrieving and reclaiming clear first.
-/

namespace Hafnium.Ffa

open Mm

variable {m : MmConfig}

/-- The rights R and W of a data access. -/
def dataAccessMode (defaultMode : Mode) : DataAccess → Run Mode
  | .readOnly => .ok mmModeR
  | .readWrite => .ok (mmModeR ||| mmModeW)
  | .notSpecified => .ok (defaultMode &&& (mmModeR ||| mmModeW))
  | .reserved => .error .reservedPermission

def ffaMemoryPermissionsToMode (permissions : Permissions) (defaultMode : Mode) : Run Mode := do
  let mode ← dataAccessMode defaultMode (ffaGetDataAccessAttr permissions)
  match ffaGetInstructionAccessAttr permissions with
  | .executeNever => .ok mode
  | .execute => .ok (mode ||| mmModeX)
  | .notSpecified => .ok (mode ||| (defaultMode &&& mmModeX))
  | .reserved => .error .reservedPermission

/-- The sender must have the rights it passes on to each receiver. -/
def sendCheckReceivers (origMode : Mode) : List MemoryAccess → Run (Except FfaError Unit)
  | [] => .ok (.ok ())
  | receiver :: rest => do
    let requiredMode ← ffaMemoryPermissionsToMode receiver.permissions origMode
    if origMode &&& requiredMode ≠ requiredMode then
      .ok (.error .denied)
    else sendCheckReceivers origMode rest

/-- The state of the sender's pages while they are sent. -/
def ShareFunc.sentState : ShareFunc → Mode
  | .donate => mmModeInvalid ||| mmModeUnowned
  | .lend => mmModeInvalid
  | .share => mmModeShared

def sentMode (func : ShareFunc) (origMode : Mode) : Mode := ~~~stateMask &&& origMode ||| func.sentState

/-- Returns the mode of the region and the mode it changes to. -/
def ffaSendCheckTransition (vm : Vm m) (func : ShareFunc) (receivers : List MemoryAccess) (f : Fragments) :
    Run (Except FfaError (Mode × Mode)) :=
  match constituentsGetMode vm f with
  | .error e => .ok (.error e)
  | .ok origMode =>
    if origMode &&& mmModeD ≠ 0 then .ok (.error .denied)
    else if origMode &&& stateMask ≠ 0 then .ok (.error .denied)
    else do
      match ← sendCheckReceivers origMode receivers with
      | .error e => .ok (.error e)
      | .ok () => .ok (.ok (origMode, sentMode func origMode))

def relinquishedMode (origMode : Mode) : Mode := ~~~stateMask &&& origMode ||| mmModeUnmappedMask

def ffaRelinquishCheckTransition (vm : Vm m) (f : Fragments) : Except FfaError (Mode × Mode) :=
  match constituentsGetMode vm f with
  | .error e => .error e
  | .ok origMode =>
    if origMode &&& mmModeD ≠ 0 then .error .denied
    else if origMode &&& stateMask &&& ~~~mmModeShared ≠ mmModeUnowned then .error .denied
    else .ok (origMode, relinquishedMode origMode)

/-- Why a region is mapped into a partition. -/
inductive MapFunc
  | retrieve (func : ShareFunc)
  | reclaim
deriving DecidableEq, Repr

/-- The state of pages that are mapped into a partition. -/
def MapFunc.state : MapFunc → Mode
  | .retrieve .donate => 0
  | .retrieve .lend => mmModeUnowned
  | .retrieve .share => mmModeUnowned ||| mmModeShared
  | .reclaim => 0

def ffaRetrieveCheckTransition (vm : Vm m) (func : MapFunc) (f : Fragments) (memoryToAttributes : Mode) :
    Run (Except FfaError Mode) :=
  match constituentsGetMode vm f with
  | .error e => .ok (.error e)
  | .ok origMode =>
    match func with
    | .reclaim =>
      if origMode &&& stateMask = 0 then .error .reclaimState else
        .ok (.ok (memoryToAttributes ||| func.state))
    | .retrieve _ =>
      if origMode &&& mmModeUnmappedMask ≠ mmModeUnmappedMask then .ok (.error .denied)
      else .ok (.ok (memoryToAttributes ||| func.state))

/-! ## Updates -/

/-- The outcome of a checked update. -/
structure UpdateResult (m : MmConfig) where
  ret : Except FfaError Unit
  vm : Vm m
  memory : HypMemory m
  pool : Mpool

/-- The way out of every update: the local pool goes back and the tables are tidied up. -/
def finishUpdate (ret : Except FfaError Unit) (vm : Vm m) (s : HypMemory m) (pool : Mpool) : UpdateResult m :=
  let (vm, pool) := vmPtableDefrag vm pool
  ⟨ret, vm, s, pool⟩

/-- `CHECK(ffa_region_group_identity_map(..., true))`. -/
def commitRegion (vm : Vm m) (f : Fragments) (mode : Mode) (pool : Mpool) : Run (Vm m × Mpool) := do
  let r ← ffaRegionGroupIdentityMap vm f mode pool true
  if r.ok then .ok (r.value, r.state) else .error .regionGroupIdentityMap

/-- Clears the region if asked to. -/
def clearRegion (owner : VmId) (f : Fragments) (clear : Bool) (s : HypMemory m) (pool : Mpool) :
    Run (Bool × HypMemory m × Mpool) :=
  if clear then ffaClearMemoryConstituents (platFfaOwnerWorldMode m owner) f s pool else .ok (true, s, pool)

/-- Takes a region away from a partition: the common part of `ffa_send_check_update` and
`ffa_relinquish_check_update`. Pages freed by the commit stay in a local pool, in front of the
page pool, until the end. -/
def demoteRegion (vm : Vm m) (f : Fragments) (origMode fromMode : Mode) (s : HypMemory m)
    (pool : Mpool) (clear : Bool) : Run (UpdateResult m) := do
  let prepared ← ffaRegionGroupIdentityMap vm f fromMode pool false
  if prepared.ok then
    let (vm, localPool) ← commitRegion prepared.value f fromMode (mpoolInitWithFallback prepared.state)
    let (cleared, s, pool) ← clearRegion vm.id f clear s localPool.tail
    let localPool := localPool.take 1 ++ pool
    if cleared then .ok (finishUpdate (.ok ()) vm s (mpoolFini localPool))
    else
      let (vm, localPool) ← commitRegion vm f origMode localPool
      .ok (finishUpdate (.error .noMemory) vm s (mpoolFini localPool))
  else .ok (finishUpdate (.error .noMemory) prepared.value s prepared.state)

/-- Every fragment starts at a 64-bit boundary. -/
def Fragments.aligned (f : Fragments) : Bool := (List.range f.count).all fun i => f.offsets i % 8 = 0

/-- Returns the original mode too, as far as the code got to store it. -/
def ffaSendCheckUpdate (vm : Vm m) (f : Fragments) (func : ShareFunc)
    (receivers : List MemoryAccess) (s : HypMemory m) (pool : Mpool) (clear : Bool) :
    Run (Option Mode × UpdateResult m) :=
  if f.aligned then do
    match ← ffaSendCheckTransition vm func receivers f with
    | .error e => .ok (none, ⟨.error e, vm, s, pool⟩)
    | .ok (origMode, fromMode) =>
      let r ← demoteRegion vm f origMode fromMode s pool clear
      .ok (some origMode, r)
  else .ok (none, ⟨.error .invalidParameters, vm, s, pool⟩)

def ffaRelinquishCheckUpdate (vm : Vm m) (f : Fragments) (s : HypMemory m) (pool : Mpool) (clear : Bool) :
    Run (UpdateResult m) :=
  match ffaRelinquishCheckTransition vm f with
  | .error e => .ok ⟨.error e, vm, s, pool⟩
  | .ok (origMode, fromMode) => demoteRegion vm f origMode fromMode s pool clear

def ffaRetrieveCheckUpdate (vm : Vm m) (sender : VmId) (f : Fragments) (memoryToAttributes : Mode)
    (func : MapFunc) (clear : Bool) (s : HypMemory m) (pool : Mpool) : Run (UpdateResult m) :=
  if f.aligned then do
    match ← ffaRetrieveCheckTransition vm func f memoryToAttributes with
    | .error e => .ok ⟨.error e, vm, s, pool⟩
    | .ok toMode =>
      let prepared ← ffaRegionGroupIdentityMap vm f toMode pool false
      if prepared.ok then
        let (cleared, s, pool) ← clearRegion sender f clear s prepared.state
        if cleared then
          let (vm, pool) ← commitRegion prepared.value f toMode pool
          .ok (finishUpdate (.ok ()) vm s pool)
        else .ok (finishUpdate (.error .noMemory) prepared.value s pool)
      else .ok (finishUpdate (.error .noMemory) prepared.value s prepared.state)
  else .ok ⟨.error .invalidParameters, vm, s, pool⟩

end Hafnium.Ffa
