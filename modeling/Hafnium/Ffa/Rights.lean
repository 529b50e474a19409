import Hafnium.Ffa.Access

/-! # Rights of received memory

The rights with which a receiver gets a region come from the permissions that it asks for, as far as
they are compatible with what was sent. Sending checks them against the sender's own rights, except
for permissions that the sender leaves open: then the receiver gets what it asks for, by default all
rights.
-/

namespace Hafnium.Ffa

open Mm Partial

variable {m : MmConfig}

/-- The rights of a mode are among those of another mode. -/
def RightsWithin (mode bound : Mode) : Prop :=
  ∀ right ∈ [mmModeR, mmModeW, mmModeX], mode &&& right ≠ 0 → bound &&& right ≠ 0

variable {mode senderMode : Mode} {permissions sent : Permissions} {region request : MemoryRegion} {id : VmId}

theorem rightsWithin_iff {bound : Mode} :
    RightsWithin mode bound ↔ (mode &&& mmModeR ≠ 0 → bound &&& mmModeR ≠ 0) ∧
    (mode &&& mmModeW ≠ 0 → bound &&& mmModeW ≠ 0) ∧ (mode &&& mmModeX ≠ 0 → bound &&& mmModeX ≠ 0) := by
  simp only [RightsWithin, List.forall_mem_cons, List.not_mem_nil, IsEmpty.forall_iff, implies_true, and_true]

instance (mode bound : Mode) : Decidable (RightsWithin mode bound) := decidable_of_iff _ rightsWithin_iff.symm

/-! ## What is granted -/

theorem getDataAccess_setDataAccess (permissions : Permissions) (access : DataAccess) :
    ffaGetDataAccessAttr (ffaSetDataAccessAttr permissions access) = access := by
  cases access <;> revert permissions <;> decide +kernel

/-- Permissions that are compatible with those that were sent. -/
structure Granted (sent permissions : Permissions) : Prop where
  data : ∃ requested, retrieveDataAccess requested (ffaGetDataAccessAttr sent) =
    .ok (some (ffaGetDataAccessAttr permissions))
  instruction : ∃ requested, retrieveInstructionAccess requested (ffaGetInstructionAccessAttr sent) =
    .ok (some (ffaGetInstructionAccessAttr permissions))

theorem ffaMemoryRetrieveIsMemoryAccessValid_some {requested : Permissions} :
    Post (ffaMemoryRetrieveIsMemoryAccessValid sent requested permissions) fun r =>
      ∀ granted, r = some granted → Granted sent granted := by
  refine .step fun data dataValid => ?_
  cases data with
  | none => exact .ok nofun
  | some dataAccess =>
    refine .step fun instruction instructionValid => ?_
    cases instruction with
    | none => exact .ok nofun
    | some instructionAccess =>
      refine .ok ?_
      rintro _ ⟨⟩
      refine ⟨⟨ffaGetDataAccessAttr requested, ?_⟩, ⟨ffaGetInstructionAccessAttr requested, ?_⟩⟩
      · rw [getDataAccess_setInstructionAccess, getDataAccess_setDataAccess]
        exact dataValid
      · rw [getInstructionAccess_setInstructionAccess]
        exact instructionValid

/-- The permissions that were sent to a receiver. -/
def sentPermissions (region : MemoryRegion) (id : VmId) : Permissions :=
  (region.receivers (ffaMemoryRegionGetReceiver region id)).permissions

/-- A receiver of the request that passes: it is one of those that the memory was sent to, and asks for
permissions that are compatible with what was sent to it. -/
structure ReceiverPasses (region request : MemoryRegion) (permissions granted : Permissions)
    (i : Nat) : Prop where
  found : ffaMemoryRegionGetReceiver region (request.receivers i).receiver ≠ region.receiverCount.toNat
  valid : ffaMemoryRetrieveIsMemoryAccessValid (sentPermissions region (request.receivers i).receiver)
    (request.receivers i).permissions permissions = .ok (some granted)

variable {permissions' : Permissions} {required right : Mode} {vm : Vm m}

/-- One round of the loop over the receivers of a request. -/
theorem retrieveValidateReceivers_cons {i : Nat} {rest : List Nat}
    {met met' : Bool}
    (valid : retrieveValidateReceivers region request id (i :: rest)
      permissions met = .ok (.ok (permissions', met'))) :
    ∃ granted, ReceiverPasses region request permissions granted i ∧
      ((request.receivers i).receiver = id ∧
          retrieveValidateReceivers region request id rest granted true = .ok (.ok (permissions', met')) ∨
        (request.receivers i).receiver ≠ id ∧
          retrieveValidateReceivers region request id rest permissions met =
            .ok (.ok (permissions', met'))) := by
  rw [retrieveValidateReceivers] at valid
  split at valid
  · cases valid
  · next found =>
    split at valid
    · cases valid
    · rw [bind_ok_iff] at valid
      obtain ⟨access, accessValid, valid⟩ := valid
      cases access with
      | none => cases valid
      | some granted =>
        refine ⟨granted, ⟨found, accessValid⟩, ?_⟩
        simp only at valid
        split at valid
        · next isCaller =>
          split at valid
          · cases valid
          · exact .inl ⟨isCaller, valid⟩
        · next other => exact .inr ⟨other, valid⟩

/-- Once the caller has been met, its permissions are compatible with what was sent to it. -/
theorem retrieveValidateReceivers_granted {l : List Nat}
    {met met' : Bool} (before : met = true → Granted (sentPermissions region id) permissions)
    (valid : retrieveValidateReceivers region request id l permissions met = .ok (.ok (permissions', met'))) :
    met' = true → Granted (sentPermissions region id) permissions' := by
  induction l generalizing permissions met with
  | nil =>
    cases valid
    exact before
  | cons i rest ih =>
    obtain ⟨granted, passes, ⟨isCaller, valid⟩ | ⟨-, valid⟩⟩ := retrieveValidateReceivers_cons valid
    · apply ih _ valid
      intro _
      rw [← isCaller]
      exact ffaMemoryRetrieveIsMemoryAccessValid_some _ passes.valid _ rfl
    · exact ih before valid

/-- A request is accepted with the permissions that the loop leaves, if it names the caller. -/
theorem ffaMemoryRetrieveValidateMemoryAccessList_ok :
    Post (ffaMemoryRetrieveValidateMemoryAccessList region request id) fun r =>
      ∀ permissions, r = .ok permissions → request.receiverCount = region.receiverCount ∧
        retrieveValidateReceivers region request id (List.range request.receiverCount.toNat) 0 false =
          .ok (.ok (permissions, true)) := by
  refine .guard nofun fun sameCount => .step fun result loop => ?_
  cases result with
  | error e => exact .ok nofun
  | ok result =>
    obtain ⟨permissions, met⟩ := result
    cases met with
    | false => exact .ok nofun
    | true =>
      refine .ok ?_
      rintro _ ⟨⟩
      exact ⟨not_not.mp sameCount, loop⟩

theorem ffaMemoryRetrieveValidateMemoryAccessList_granted
    (valid : ffaMemoryRetrieveValidateMemoryAccessList region request id = .ok (.ok permissions)) :
    Granted (sentPermissions region id) permissions := by
  obtain ⟨-, loop⟩ := ffaMemoryRetrieveValidateMemoryAccessList_ok _ valid _ rfl
  exact retrieveValidateReceivers_granted (fun absurd => by cases absurd) loop rfl

/-- The sender has the rights that it passes on. -/
theorem sendCheckReceivers_ok {origMode : Mode} {receivers : List MemoryAccess}
    (allowed : sendCheckReceivers origMode receivers = .ok (.ok ())) {access : MemoryAccess}
    (member : access ∈ receivers) :
    ∃ required, ffaMemoryPermissionsToMode access.permissions origMode = .ok required ∧
    origMode &&& required = required := by
  induction receivers with
  | nil => cases member
  | cons receiver rest ih =>
    rw [sendCheckReceivers, bind_ok_iff] at allowed
    obtain ⟨required, converted, allowed⟩ := allowed
    split at allowed
    · cases allowed
    · next covered =>
      rcases List.mem_cons.mp member with rfl | later
      · exact ⟨required, converted, not_not.mp covered⟩
      · exact ih allowed later

/-! ## Rights that a receiver gets -/

/-- The rights that go with granted permissions. -/
theorem granted_rights (granted : Granted sent permissions)
    (converted : ffaMemoryPermissionsToMode permissions senderMode = .ok mode) :
    mode &&& mmModeR = mmModeR ∧ (mode &&& mmModeW ≠ 0 ↔ ffaGetDataAccessAttr permissions = .readWrite) ∧
      (mode &&& mmModeX ≠ 0 ↔ ffaGetInstructionAccessAttr permissions = .execute) := by
  obtain ⟨⟨requestedData, data⟩, ⟨requestedInstruction, instruction⟩⟩ := granted
  have dataSpecified : ffaGetDataAccessAttr permissions = .readOnly ∨
      ffaGetDataAccessAttr permissions = .readWrite := by
    generalize ffaGetDataAccessAttr permissions = access at data
    generalize ffaGetDataAccessAttr sent = sentAccess at data
    revert data
    cases sentAccess <;> cases requestedData <;> cases access <;> decide
  have instructionSpecified : ffaGetInstructionAccessAttr permissions = .executeNever ∨
      ffaGetInstructionAccessAttr permissions = .execute := by
    generalize ffaGetInstructionAccessAttr permissions = access at instruction
    generalize ffaGetInstructionAccessAttr sent = sentAccess at instruction
    revert instruction
    cases sentAccess <;> cases requestedInstruction <;> cases access <;> decide
  rcases dataSpecified with data | data <;> rcases instructionSpecified with instruction | instruction <;>
    simp only [ffaMemoryPermissionsToMode, data, instruction, dataAccessMode, bind_ok_iff] at converted <;>
    obtain ⟨_, ⟨⟩, ⟨⟩⟩ := converted <;> simp only [data, instruction] <;> decide

/-- What the receiver asks for is covered by the sender's mode wherever the sender left it open. -/
structure ShareFunc.Grantable (func : ShareFunc) (senderMode : Mode) (permissions : Permissions) : Prop where
  execute : func ≠ .share → ffaGetInstructionAccessAttr permissions = .execute → senderMode &&& mmModeX ≠ 0
  read : func = .donate → senderMode &&& mmModeR ≠ 0
  write : func = .donate → ffaGetDataAccessAttr permissions = .readWrite → senderMode &&& mmModeW ≠ 0

/-- The sender has the data rights that it has specified. -/
theorem sender_data_rights (specified : ffaGetDataAccessAttr sent ∉ [.notSpecified, .reserved])
    (converted : ffaMemoryPermissionsToMode sent senderMode = .ok required)
    (covered : senderMode &&& required = required) :
    senderMode &&& mmModeR ≠ 0 ∧ (ffaGetDataAccessAttr sent = .readWrite → senderMode &&& mmModeW ≠ 0) := by
  have has {right : Mode} (required_has : required &&& right = right) (some : right ≠ 0) :
      senderMode &&& right ≠ 0 := by
    rw [← required_has, ← BitVec.and_assoc, covered, required_has]
    exact some
  simp only [ffaMemoryPermissionsToMode, bind_ok_iff] at converted
  obtain ⟨data, dataMode, converted⟩ := converted
  -- The instruction access only adds the execute right.
  have keeps {right : Mode} (apart : mmModeX &&& right = 0) (data_has : data &&& right = right) :
      required &&& right = right := by
    split at converted <;> cases converted
    · exact data_has
    · rw [BitVec.and_or_distrib_right, data_has, apart]
      exact BitVec.or_zero
    · rw [BitVec.and_or_distrib_right, data_has, BitVec.and_assoc, apart,
        show senderMode &&& 0 = 0 from BitVec.and_zero]
      exact BitVec.or_zero
  cases access : ffaGetDataAccessAttr sent with
  | notSpecified => exact absurd (access ▸ List.mem_cons_self) specified
  | reserved => exact absurd (access ▸ List.mem_cons_of_mem _ List.mem_cons_self) specified
  | readOnly =>
    rw [access] at dataMode
    cases dataMode
    exact ⟨has (keeps rfl rfl) (by decide), by simp⟩
  | readWrite =>
    rw [access] at dataMode
    cases dataMode
    exact ⟨has (keeps rfl rfl) (by decide), fun _ => has (keeps rfl rfl) (by decide)⟩

/-- Read-only memory is granted read-only, and execute-never memory execute-never. -/
theorem Granted.data_le (granted : Granted sent permissions)
    (specified : ffaGetDataAccessAttr sent ∉ [.notSpecified, .reserved])
    (writes : ffaGetDataAccessAttr permissions = .readWrite) :
    ffaGetDataAccessAttr sent = .readWrite := by
  obtain ⟨requested, data⟩ := granted.data
  rw [writes] at data
  generalize ffaGetDataAccessAttr sent = sentAccess at data specified
  revert data specified
  cases sentAccess <;> cases requested <;> decide

theorem Granted.executeNever (granted : Granted sent permissions)
    (never : ffaGetInstructionAccessAttr sent = .executeNever) :
    ffaGetInstructionAccessAttr permissions ≠ .execute := by
  obtain ⟨requested, instruction⟩ := granted.instruction
  intro executes
  rw [never, executes] at instruction
  revert instruction
  cases requested <;> decide

/-- The receiver gets no rights that the sender does not have, if and only if what it asks for is
covered by the sender's mode. -/
theorem rightsWithin_iff_grantable {func : ShareFunc}
    (permits : func.Permits sent) (sentMode : ffaMemoryPermissionsToMode sent senderMode = .ok required)
    (covered : senderMode &&& required = required) (granted : Granted sent permissions)
    (converted : ffaMemoryPermissionsToMode permissions senderMode = .ok mode) :
    RightsWithin mode senderMode ↔ func.Grantable senderMode permissions := by
  obtain ⟨reads, writes, executes⟩ := granted_rights granted converted
  have readable : mode &&& mmModeR ≠ 0 := by
    rw [reads]
    decide
  rw [rightsWithin_iff, writes, executes]
  cases func with
  | share =>
    obtain ⟨specified, never⟩ := permits
    obtain ⟨senderReads, senderWrites⟩ := sender_data_rights specified sentMode covered
    refine iff_of_true ⟨fun _ => senderReads,
      fun write => senderWrites (granted.data_le specified write), fun execute => ?_⟩
      ⟨fun other => absurd rfl other, nofun, nofun⟩
    exact absurd execute (granted.executeNever never)
  | lend =>
    obtain ⟨senderReads, senderWrites⟩ := sender_data_rights permits.1 sentMode covered
    constructor
    · intro within
      exact ⟨fun _ => within.2.2, nofun, nofun⟩
    · intro grantable
      exact ⟨fun _ => senderReads, fun write => senderWrites (granted.data_le permits.1 write),
        grantable.execute (by decide)⟩
  | donate =>
    constructor
    · intro within
      exact ⟨fun _ => within.2.2, fun _ => within.1 readable, fun _ => within.2.1⟩
    · intro grantable
      exact ⟨fun _ => grantable.read rfl, grantable.write rfl, grantable.execute (by decide)⟩

/-- The same for an accepted retrieve request. -/
theorem ShareState.Valid.rightsWithin_iff {limit : Nat} {i : Fin maxMemShares} {state : ShareState}
    (valid : state.Valid m limit i) (requested : retrieveValidateRequest state request id = .ok ())
    (list : ffaMemoryRetrieveValidateMemoryAccessList state.memoryRegion request id = .ok (.ok permissions))
    (converted : ffaMemoryPermissionsToMode permissions state.senderOrigMode = .ok mode) :
    RightsWithin mode state.senderOrigMode ↔ state.shareFunc.Grantable state.senderOrigMode permissions := by
  obtain ⟨complete, isReceiver, -⟩ := retrieveValidateRequest_ok requested
  have bound := (ffaMemoryRegionGetReceiver_found isReceiver).1
  obtain ⟨required, sentMode, covered⟩ := sendCheckReceivers_ok (valid.allowed complete)
    (List.mem_map.mpr ⟨_, List.mem_range.mpr bound, rfl⟩)
  exact rightsWithin_iff_grantable (valid.storable.permits _ bound) sentMode covered
    (ffaMemoryRetrieveValidateMemoryAccessList_granted list) converted

/-! ## Rights in page tables -/

/-- Unprivileged partitions only run on processors with the virtualization host extensions. -/
def Vm.Supported (vm : Vm m) : Prop := vm.el0Partition = true → m.features.hasVheSupport = true

private theorem rights_cases (member : right ∈ [mmModeR, mmModeW, mmModeX]) :
    right = mmModeR ∨ right = mmModeW ∨ right = mmModeX := by
  simpa only [List.mem_cons, List.not_mem_nil, or_false] using member

/-- Pages have the rights with which they were mapped; an unprivileged partition can read all of
its pages. -/
theorem mappedAttrs_rights (supported : vm.Supported) (mapped : ¬mode.IsUnmapped)
    (readable : vm.el0Partition = true → mode &&& mmModeR ≠ 0)
    (member : right ∈ [mmModeR, mmModeW, mmModeX]) :
    m.attrsToMode vm.stage (vm.mappedAttrs (vm.mapMode mode)) &&& right ≠ 0 ↔ mode &&& right ≠ 0 := by
  have mapped : ¬(vm.mapMode mode).IsUnmapped := by
    rw [Mode.IsUnmapped, mapMode_and vm mode rfl]
    exact mapped
  rw [Vm.mappedAttrs, MmConfig.mappedAttrs, if_neg mapped]
  cases unprivileged : vm.el0Partition with
  | false =>
    have low : right &&& stage2ModeMask = right := by rcases rights_cases member with rfl | rfl | rfl <;> rfl
    have same : vm.mapMode mode = mode := by
      rw [Vm.mapMode, unprivileged]
      rfl
    have stage : vm.stage = .stage2 := by
      rw [Vm.stage, unprivileged]
      rfl
    rw [stage, same]
    change archMmStage2AttrsToMode (archMmModeToStage2Attrs mode) &&& right ≠ 0 ↔ _
    rw [archMmStage2AttrsToMode_of_mode, ← test_low mode right low]
  | true =>
    have stage : vm.stage = .stage1 := by
      rw [Vm.stage, unprivileged]
      rfl
    have rights := archMmStage1AttrsToMode_rights (supported unprivileged) (vm.mapMode mode)
    have within : (mmModeR ||| mmModeW ||| mmModeX) &&& right = right := by
      rcases rights_cases member with rfl | rfl | rfl <;> rfl
    rw [stage]
    change archMmStage1AttrsToMode m.features
      (archMmModeToStage1Attrs m.features (vm.mapMode mode)) &&& right ≠ 0 ↔ _
    rw [← within, ← BitVec.and_assoc, rights, within]
    have keeps {right : Mode} (apart : mmModeR &&& right = 0)
        (within : (mmModeW ||| mmModeX) &&& right = right)
        (user : (mmModeUser ||| mmModeNg) &&& right = 0) :
        (mmModeR ||| vm.mapMode mode &&& (mmModeW ||| mmModeX)) &&& right = mode &&& right := by
      rw [BitVec.and_or_distrib_right, apart, BitVec.and_assoc, within, mapMode_and vm mode user]
      exact BitVec.zero_or
    rcases rights_cases member with rfl | rfl | rfl
    · refine iff_of_true ?_ (readable unprivileged)
      rw [BitVec.and_or_distrib_right, BitVec.and_assoc]
      have none : vm.mapMode mode &&& ((mmModeW ||| mmModeX) &&& mmModeR) = 0 := BitVec.and_zero
      rw [none]
      decide
    · rw [keeps rfl rfl rfl]
    · rw [keeps rfl rfl rfl]

/-- Sending a page keeps the rights in its mode. -/
theorem sentMode_rights (func : ShareFunc) (mode : Mode) (member : right ∈ [mmModeR, mmModeW, mmModeX]) :
    sentMode func mode &&& right = mode &&& right := by
  have kept : ~~~stateMask &&& right = right := by rcases rights_cases member with rfl | rfl | rfl <;> rfl
  have apart : func.sentState &&& right = 0 := by
    cases func <;> rcases rights_cases member with rfl | rfl | rfl <;> rfl
  rw [sentMode, BitVec.and_or_distrib_right, apart, BitVec.and_comm (~~~stateMask), BitVec.and_assoc, kept]
  exact BitVec.or_zero

/-- Received pages have the rights that were granted. -/
theorem retrievedMode_rights (func : ShareFunc) (mode : Mode) (member : right ∈ [mmModeR, mmModeW, mmModeX]) :
    (mode ||| (MapFunc.retrieve func).state) &&& right = mode &&& right := by
  have apart : (MapFunc.retrieve func).state &&& right = 0 := by
    cases func <;> rcases rights_cases member with rfl | rfl | rfl <;> rfl
  rw [BitVec.and_or_distrib_right, apart]
  exact BitVec.or_zero

end Hafnium.Ffa
