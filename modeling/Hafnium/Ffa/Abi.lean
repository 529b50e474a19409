import Hafnium.Lib.LittleEndian
import Hafnium.Mm.Stage

/-! # The FF-A memory-management interface

Register values, error codes and the descriptors that memory transactions exchange. A descriptor
is read from the bytes of a message; the header fields that the code changes afterwards are a
record of their own, beside the bytes they were read from. The code only reads the composite
part of a descriptor after it has checked that it lies behind the header, so the two never
overlap.

Whether the code runs as hypervisor or as SPMC is the `secureWorld` build flag.
-/

namespace Hafnium.Ffa

open Mm LittleEndian

abbrev VmId := BitVec 16

abbrev Handle := BitVec 64

abbrev Bytes := Nat → BitVec 8

/-! ## Register values -/

/-- The registers of an FF-A call or return. -/
structure FfaValue where
  func : BitVec 64
  arg1 : BitVec 64 := 0
  arg2 : BitVec 64 := 0
  arg3 : BitVec 64 := 0
  arg4 : BitVec 64 := 0
deriving DecidableEq, Repr

def ffaError32 : BitVec 64 := 0x84000060
def ffaSuccess32 : BitVec 64 := 0x84000061
def ffaMemRetrieveResp32 : BitVec 64 := 0x84000075
def ffaMemFragRx32 : BitVec 64 := 0x8400007A
def ffaMemFragTx32 : BitVec 64 := 0x8400007B

inductive FfaError
  | invalidParameters
  | noMemory
  | busy
  | denied
  | notSupported
  | interrupted
  | retry
  | aborted
  | noData
deriving DecidableEq, Repr

def FfaError.code : FfaError → BitVec 32
  | .invalidParameters => -2
  | .noMemory => -3
  | .busy => -4
  | .denied => -6
  | .notSupported => -1
  | .interrupted => -5
  | .retry => -7
  | .aborted => -8
  | .noData => -9

def ffaError (error : FfaError) : FfaValue := { func := ffaError32, arg2 := error.code.setWidth 64 }

theorem ffaError_func (e : FfaError) : (ffaError e).func ≠ ffaSuccess32 :=
  show ffaError32 ≠ ffaSuccess32 by decide

/-- The low and the high half of a handle. -/
def handleLow (handle : Handle) : BitVec 64 := (handle.setWidth 32).setWidth 64

def handleHigh (handle : Handle) : BitVec 64 := handle >>> 32

def ffaMemSuccess (handle : Handle) : FfaValue :=
  { func := ffaSuccess32, arg2 := handleLow handle, arg3 := handleHigh handle }

def ffaFragHandle (args : FfaValue) : Handle :=
  (args.arg1.setWidth 32).setWidth 64 ||| (args.arg2.setWidth 32).setWidth 64 <<< 32

def ffaFragSender (args : FfaValue) : VmId := (args.arg4 >>> 16).setWidth 16

/-- The three ways to send memory. -/
inductive ShareFunc
  | donate
  | lend
  | share
deriving DecidableEq, Repr

/-! ## Access permissions and memory attributes -/

inductive DataAccess
  | notSpecified
  | readOnly
  | readWrite
  | reserved
deriving DecidableEq, Repr

inductive InstructionAccess
  | notSpecified
  | executeNever
  | execute
  | reserved
deriving DecidableEq, Repr

abbrev Permissions := BitVec 8

def DataAccess.bits : DataAccess → Permissions
  | .notSpecified => 0
  | .readOnly => 1
  | .readWrite => 2
  | .reserved => 3

def InstructionAccess.bits : InstructionAccess → Permissions
  | .notSpecified => 0
  | .executeNever => 1
  | .execute => 2
  | .reserved => 3

def ffaGetDataAccessAttr (permissions : Permissions) : DataAccess :=
  if permissions &&& 3 = 0 then .notSpecified
  else if permissions &&& 3 = 1 then .readOnly
  else if permissions &&& 3 = 2 then .readWrite
  else .reserved

def ffaSetDataAccessAttr (permissions : Permissions) (access : DataAccess) : Permissions :=
  permissions &&& ~~~3 ||| access.bits

def ffaGetInstructionAccessAttr (permissions : Permissions) : InstructionAccess :=
  if permissions >>> 2 &&& 3 = 0 then .notSpecified
  else if permissions >>> 2 &&& 3 = 1 then .executeNever
  else if permissions >>> 2 &&& 3 = 2 then .execute
  else .reserved

def ffaSetInstructionAccessAttr (permissions : Permissions) (access : InstructionAccess) : Permissions :=
  permissions &&& ~~~(3#8 <<< 2) ||| access.bits <<< 2

abbrev MemoryAttributes := BitVec 8

def ffaGetMemoryTypeAttr (attributes : MemoryAttributes) : BitVec 8 := attributes >>> 4 &&& 3
def ffaGetMemoryCacheabilityAttr (attributes : MemoryAttributes) : BitVec 8 := attributes >>> 2 &&& 3
def ffaGetMemoryShareabilityAttr (attributes : MemoryAttributes) : BitVec 8 := attributes &&& 3

def ffaMemoryNotSpecifiedMem : BitVec 8 := 0
def ffaMemoryNormalMem : BitVec 8 := 2
def ffaMemoryCacheWriteBack : BitVec 8 := 3
def ffaMemoryInnerShareable : BitVec 8 := 3

/-! ## Descriptors -/

/-- The flags of a memory region. -/
abbrev RegionFlags := BitVec 32

def ffaMemoryRegionFlagClear : RegionFlags := 0x1
def ffaMemoryRegionFlagTimeSlice : RegionFlags := 0x2
def ffaMemoryRegionFlagClearRelinquish : RegionFlags := 0x4
def ffaMemoryRegionTransactionTypeMask : RegionFlags := 0x3 <<< 3
def ffaMemoryRegionTransactionTypeUnspecified : RegionFlags := 0x0 <<< 3
def ffaMemoryRegionAddressRangeHintValid : RegionFlags := 0x1 <<< 9
def ffaMemoryRegionAddressRangeHintMask : RegionFlags := 0xf <<< 5
def ffaMemReclaimClear : RegionFlags := 0x1

def ShareFunc.transactionType : ShareFunc → RegionFlags
  | .share => 0x1 <<< 3
  | .lend => 0x2 <<< 3
  | .donate => 0x3 <<< 3

def hfMailboxSize : Nat := 4096
def maxMemShareRecipients : Nat := 2

/-- A range of pages; the sizes of ranges are 32-bit values in the source. -/
structure Constituent where
  address : BitVec 64
  pageCount : BitVec 32
deriving DecidableEq, Repr

/-- The array of constituents that starts at an offset of a message. -/
def constituentsFrom (bytes : Bytes) (offset : Nat) (j : Nat) : Constituent where
  address := u64 bytes (offset + 16 * j)
  pageCount := u32 bytes (offset + 16 * j + 8)

/-- An endpoint memory access descriptor. -/
structure MemoryAccess where
  receiver : VmId
  permissions : Permissions
  compositeMemoryRegionOffset : BitVec 32
deriving DecidableEq, Repr

/-- A memory region descriptor: the header, and the message it is the start of. -/
structure MemoryRegion where
  sender : VmId
  attributes : MemoryAttributes
  flags : RegionFlags
  handle : Handle
  tag : BitVec 64
  receiverCount : BitVec 32
  receivers : Nat → MemoryAccess
  bytes : Bytes

def memoryRegionFrom (bytes : Bytes) : MemoryRegion where
  sender := u16 bytes 0
  attributes := bytes 2
  flags := u32 bytes 4
  handle := u64 bytes 8
  tag := u64 bytes 16
  receiverCount := u32 bytes 28
  receivers := fun i =>
    { receiver := u16 bytes (32 + 16 * i)
      permissions := bytes (32 + 16 * i + 2)
      compositeMemoryRegionOffset := u32 bytes (32 + 16 * i + 4) }
  bytes := bytes

/-- The header of a composite memory region. -/
structure Composite where
  pageCount : BitVec 32
  constituentCount : BitVec 32
  /-- Where the constituents start. -/
  constituentsOffset : Nat

/-- The reasons for which the code stops instead of returning. -/
inductive Abort
  /-- `CHECK` in `mm_ptable_identity_commit`. -/
  | identityCommit
  /-- `CHECK` around `ffa_region_group_identity_map`. -/
  | regionGroupIdentityMap
  /-- `CHECK`s in `ffa_composite_constituent_offset`. -/
  | compositeConstituentOffset
  /-- A composite memory region outside the page that holds the descriptor. -/
  | compositeOutOfBounds
  /-- `panic` in `ffa_memory_permissions_to_mode` and the retrieve checks. -/
  | reservedPermission
  /-- `panic` in `memset_s`. -/
  | memset
  /-- An access to an address that the hypervisor has not mapped. -/
  | dataAbort
  /-- `assert` on the state of reclaimed memory. -/
  | reclaimState
  /-- `CHECK` on an allocated share state without memory region. -/
  | shareState
  /-- `CHECK` around `ffa_retrieved_memory_region_init`. -/
  | retrievedMemoryRegionInit
  /-- `CHECK` on the constituents that do not fit into a fragment. -/
  | memoryFragmentInit
  /-- `assert` on the receiver of a transaction with the other world. -/
  | otherWorldReceiver
  /-- Use of a pointer that `vm_find` returned as null. -/
  | nullVm
  /-- Use of a mailbox buffer that has not been set up. -/
  | nullMailbox
  /-- `CHECK` in `ffa_memory_tee_reclaim`. -/
  | teeReclaim
  /-- A call to the other world that never returns. -/
  | otherWorldSilent
  /-- `CHECK` around `vm_identity_map`. -/
  | vmIdentityMap
  /-- `CHECK` around `mm_unmap`. -/
  | mmUnmap
  /-- Use of the page table of a normal-world VM, which is never set up. -/
  | nullPtable
  /-- `panic` in `memcpy_s`. -/
  | memcpy
  /-- `CHECK` or `panic` on the answer of the other world to a forwarded call. -/
  | forwardedAnswer
  /-- `CHECK` or `assert` on the index of a vCPU. -/
  | vcpuIndex
  /-- `CHECK` on the count of pending notifications. -/
  | notificationCount
  /-- `CHECK` or `assert` on the state of a vCPU. -/
  | vcpuState
  /-- Use of a null pointer to a vCPU. -/
  | nullVcpu
  /-- `CHECK` around `mm_identity_prepare` in `api_ffa_mem_perm_set`. -/
  | memPermSet
  /-- `CHECK`s on the number of VMs in `api_ffa_partition_info_get` and its forwarding. -/
  | partitionCount
  /-- An access past the end of an array. -/
  | outOfBounds
deriving DecidableEq, Repr

/-- Computations that may abort. -/
abbrev Run (α : Type) := Except Abort α

def ffaMemoryRegionGetComposite (size : Nat) (region : MemoryRegion) (index : Nat) : Run Composite :=
  let offset := (region.receivers index).compositeMemoryRegionOffset.toNat
  if offset = 0 ∨ size < offset + 16 then .error .compositeOutOfBounds
  else .ok
    { pageCount := u32 region.bytes offset
      constituentCount := u32 region.bytes (offset + 4)
      constituentsOffset := offset + 16 }

def ffaCompositeConstituentOffset (region : MemoryRegion) (index : Nat) : Run (BitVec 32) :=
  if ¬index < region.receiverCount.toNat then .error .compositeConstituentOffset
  else if (region.receivers index).compositeMemoryRegionOffset = 0 then .error .compositeConstituentOffset
  else .ok ((region.receivers index).compositeMemoryRegionOffset + 16)

/-! ## The two worlds -/

def hfTeeVmId : VmId := 0x8000
def hfHypervisorVmId : VmId := 0
def hfVmIdWorldMask : VmId := 0x8000

section World

variable (m : MmConfig)

def hfOtherWorldId : VmId := if m.features.secureWorld then hfHypervisorVmId else hfTeeVmId

def vmIdIsCurrentWorld (id : VmId) : Bool :=
  decide (id &&& hfVmIdWorldMask ≠ hfOtherWorldId m &&& hfVmIdWorldMask)

def ffaMemoryHandleAllocatorMask : Handle := 1#64 <<< 63
def ffaMemoryHandleAllocatorHypervisor : Handle := 1#64 <<< 63
def ffaMemoryHandleAllocatorSpmc : Handle := 0
def ffaMemoryHandleInvalid : Handle := ~~~0

def platFfaMemoryHandleMake (index : Nat) : Handle :=
  if m.features.secureWorld then
    BitVec.ofNat 64 index &&& ~~~ffaMemoryHandleAllocatorMask ||| ffaMemoryHandleAllocatorSpmc
  else BitVec.ofNat 64 index ||| ffaMemoryHandleAllocatorHypervisor

def platFfaMemoryHandleAllocatedByCurrentWorld (handle : Handle) : Bool :=
  decide (handle &&& ffaMemoryHandleAllocatorMask =
    if m.features.secureWorld then ffaMemoryHandleAllocatorSpmc else ffaMemoryHandleAllocatorHypervisor)

def platFfaOtherWorldMode : Mode := if m.features.secureWorld then mmModeNs else 0

def platFfaOwnerWorldMode (owner : VmId) : Mode :=
  if m.features.secureWorld ∧ vmIdIsCurrentWorld m owner then 0 else platFfaOtherWorldMode m

def platFfaIsMemorySendValid (receiver : VmId) (func : ShareFunc) : Bool :=
  if m.features.secureWorld then decide (func = .donate) || vmIdIsCurrentWorld m receiver else true

end World

end Hafnium.Ffa
