import Hafnium.Ffa.Tee

/-! # Checks that stop the hypervisor

The checks at which the parts of a memory-sharing function can stop: one statement for each part, for
any set of stops that leaves them out.
-/

namespace Hafnium.Ffa

open Mm Partial

variable {m : MmConfig}

/-- Stops of updates of page tables and of memory. -/
def Abort.IsUpdate (abort : Abort) : Prop :=
  abort ∈ [.identityCommit, .regionGroupIdentityMap, .memset, .dataAbort, .reclaimState]

instance (abort : Abort) : Decidable abort.IsUpdate := inferInstanceAs (Decidable (_ ∈ _))

/-! ## Descriptors and permissions -/

variable {bad : Abort → Prop}

section Descriptors

theorem avoids_compositeConstituentOffset (other : ¬bad .compositeConstituentOffset)
    (region : MemoryRegion) (index : Nat) :
    Avoids bad (ffaCompositeConstituentOffset region index) := by
  exact .ite (fun _ => .error other) fun _ => .ite (fun _ => .error other) fun _ => .ok _

theorem avoids_getComposite (other : ¬bad .compositeOutOfBounds) (size : Nat)
    (region : MemoryRegion) (index : Nat) :
    Avoids bad (ffaMemoryRegionGetComposite size region index) := by
  exact .ite (fun _ => .error other) fun _ => .ok _

theorem avoids_sendingComplete (other : ¬bad .compositeOutOfBounds) (state : ShareState) :
    Avoids bad (shareStateSendingComplete state) :=
  .bind (avoids_getComposite other _ _ _) fun _ => .ok _

theorem avoids_nextFragmentOffset (other : ¬bad .compositeConstituentOffset) (state : ShareState) :
    Avoids bad (shareStateNextFragmentOffset state) :=
  .bind (avoids_compositeConstituentOffset other _ _) fun _ => .ok _

theorem avoids_otherWorldCall (other : ¬bad .otherWorldSilent) (answers : List TeeAnswer) :
    Avoids bad (otherWorldCall answers) := by
  cases answers with
  | nil => exact .error other
  | cons answer rest => exact .ok _

end Descriptors

section Permissions

variable (other : ¬bad .reservedPermission)
include other

/-- Permissions are only read in vain if they are reserved. -/
theorem avoids_permissionsToMode (permissions : Permissions) (defaultMode : Mode) :
    Avoids bad (ffaMemoryPermissionsToMode permissions defaultMode) := by
  apply Avoids.bind
  · cases ffaGetDataAccessAttr permissions
    case reserved => exact .error other
    all_goals exact .ok _
  · intro mode
    cases ffaGetInstructionAccessAttr permissions
    case reserved => exact .error other
    all_goals exact .ok _

theorem avoids_sendCheckReceivers (origMode : Mode) (receivers : List MemoryAccess) :
    Avoids bad (sendCheckReceivers origMode receivers) := by
  induction receivers with
  | nil => exact .ok _
  | cons receiver rest ih =>
    exact .bind (avoids_permissionsToMode other _ _) fun _ => .guard fun _ => ih

theorem avoids_sendCheckTransition (vm : Vm m) (func : ShareFunc) (receivers : List MemoryAccess)
    (f : Fragments) : Avoids bad (ffaSendCheckTransition vm func receivers f) := by
  rw [ffaSendCheckTransition]
  split
  · exact .ok _
  refine .guard fun _ => .guard fun _ => .bind (avoids_sendCheckReceivers other _ _) fun checked => ?_
  cases checked <;> exact .ok _

end Permissions

/-! ## Page tables and memory -/

theorem avoids_regionIdentityMap (other : ¬bad .identityCommit) (mode : Mode) (commit : Bool)
    (l : List (Nat × Constituent)) (vm : Vm m) (pool : Mpool) :
    Avoids bad (regionIdentityMap mode commit l vm pool) := by
  induction l generalizing vm pool with
  | nil => exact .ok _
  | cons p rest ih =>
    refine .guard fun _ => .ite (fun _ => ?_) fun _ => .ite (fun _ => ih _ _) fun _ => .ok _
    rw [vmIdentityCommit]
    cases stageIdentityCommit vm.ptable p.2.begin_ p.2.end_ mode pool with
    | none => exact .error other
    | some committed => exact ih _ _

theorem avoids_commitRegion (commit : ¬bad .identityCommit) (whole : ¬bad .regionGroupIdentityMap)
    (vm : Vm m) (f : Fragments) (mode : Mode) (pool : Mpool) : Avoids bad (commitRegion vm f mode pool) := by
  exact .bind (avoids_regionIdentityMap commit _ _ _ _ _) fun _ => .guard fun _ => .error whole

section Memory

variable (other : ∀ {abort : Abort}, abort.IsUpdate → ¬bad abort)
include other

theorem avoids_mmIdentityMap (t : MmPtable (m.levels .stage1)) (begin_ end_ : Nat) (mode : Mode)
    (pool : Mpool) : Avoids bad (mmIdentityMap t begin_ end_ mode pool) := by
  rw [mmIdentityMap]
  split
  · exact .error (other (by decide))
  · exact .ok _

theorem avoids_memsetS (t : MmPtable (m.levels .stage1)) (dest size : Nat) (bytes : Nat → BitVec 8) :
    Avoids bad (memsetS t dest size bytes) := by
  refine .ite (fun _ => .error (other (by decide))) fun _ => ?_
  split
  · exact .error (other (by decide))
  · exact .ok _

theorem avoids_clearMemory (s : HypMemory m) (begin_ size : Nat) (pool : Mpool) (extra : Mode) :
    Avoids bad (clearMemory s begin_ size pool extra) := by
  exact .bind (avoids_mmIdentityMap other _ _ _ _ _) fun _ => .guard fun _ =>
    .bind (avoids_memsetS other _ _ _ _) fun _ =>
    .bind (avoids_mmIdentityMap other _ _ _ _ _) fun _ => .ok _

theorem avoids_clearConstituents (extra : Mode) (l : List (Nat × Constituent)) (s : HypMemory m)
    (pool : Mpool) : Avoids bad (clearConstituents extra l s pool) := by
  induction l generalizing s pool with
  | nil => exact .ok _
  | cons p rest ih =>
    exact .bind (avoids_clearMemory other _ _ _ _ _) fun _ => .ite (fun _ => ih _ _) fun _ => .ok _

theorem avoids_clearRegion (owner : VmId) (f : Fragments) (clear : Bool) (s : HypMemory m) (pool : Mpool) :
    Avoids bad (clearRegion owner f clear s pool) := by
  refine .ite (fun _ => ?_) fun _ => .ok _
  exact .bind (avoids_clearConstituents other _ _ _ _) fun _ => .guard fun _ => .ok _

end Memory

/-! ## Checked updates -/

theorem avoids_retrieveCheckTransition (other : ¬bad .reclaimState) (vm : Vm m) (func : MapFunc)
    (f : Fragments) (attributes : Mode) : Avoids bad (ffaRetrieveCheckTransition vm func f attributes) := by
  rw [ffaRetrieveCheckTransition]
  split
  · exact .ok _
  cases func with
  | reclaim => exact .ite (fun _ => .error other) fun _ => .ok _
  | retrieve _ => exact .guard fun _ => .ok _

theorem avoids_retrieveCheckUpdate (other : ∀ {abort : Abort}, abort.IsUpdate → ¬bad abort)
    (vm : Vm m) (sender : VmId) (f : Fragments) (attributes : Mode) (func : MapFunc) (clear : Bool)
    (s : HypMemory m) (pool : Mpool) :
    Avoids bad (ffaRetrieveCheckUpdate vm sender f attributes func clear s pool) := by
  refine .ite (fun _ => .bind (avoids_retrieveCheckTransition (other (by decide)) _ _ _ _)
    fun transition => ?_) fun _ => .ok _
  cases transition with
  | error e => exact .ok _
  | ok toMode =>
    refine .bind (avoids_regionIdentityMap (other (by decide)) _ _ _ _ _) fun _ =>
      .ite (fun _ => ?_) fun _ => .ok _
    refine .bind (avoids_clearRegion other _ _ _ _ _) fun _ => .ite (fun _ => ?_) fun _ => .ok _
    exact .bind (avoids_commitRegion (other (by decide)) (other (by decide)) _ _ _ _) fun _ => .ok _

end Hafnium.Ffa
