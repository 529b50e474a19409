import Hafnium.Mm.Arch

/-! # Reading back modes

Which bits of a mode survive being written as attributes and read back. Stage 2 keeps the rights,
the memory type and the ownership state exactly. Stage 1 keeps the ownership state, makes every
page readable, and keeps the execute right only with the virtualization host extensions; what it
keeps is one formula, `archMmStage1AttrsToMode_of_mode`. Attributes of one stage that are read as
those of the other do not even keep the write right.
-/

namespace Hafnium.Mm

/-! ## Single bits -/

section Bits

variable {w : Nat}

private theorem ite_mask {c : Prop} [Decidable c] (a b m : BitVec w) :
    (if c then a else b) &&& m = if c then a &&& m else b &&& m := by
  split <;> rfl

variable {i : Nat}

/-- A test for one bit selects it or nothing. -/
theorem bit_cases (mode bit : BitVec w) (single : bit = BitVec.twoPow w i) :
    mode &&& bit = 0 ∨ mode &&& bit = bit := by
  rw [single, BitVec.and_twoPow]
  split
  · exact .inr rfl
  · exact .inl rfl

theorem ite_bit (mode bit : Mode) (single : bit = BitVec.twoPow 32 i) :
    (if mode &&& bit = 0 then 0 else bit) = mode &&& bit := by
  rcases bit_cases mode bit single with clear | set
  · rw [if_pos clear, clear]
  · split
    · next clear => rw [clear]
    · rw [set]

end Bits

/-- The ownership state of a mode, bit by bit. -/
theorem mode_state (mode : Mode) :
    mode &&& stateMask = (if mode &&& mmModeUnowned = 0 then 0 else mmModeUnowned) |||
      (if mode &&& mmModeShared = 0 then 0 else mmModeShared) |||
      (if mode &&& mmModeInvalid = 0 then 0 else mmModeInvalid) := by
  rw [ite_bit mode mmModeUnowned (i := 5) rfl, ite_bit mode mmModeShared (i := 6) rfl,
    ite_bit mode mmModeInvalid (i := 4) rfl, ← BitVec.and_or_distrib_left, ← BitVec.and_or_distrib_left]
  rfl

/-! ## Stage 2 -/

/-- Modes read from stage 2 only have the bits that it records. -/
theorem archMmStage2AttrsToMode_low (attrs : PteBits) :
    archMmStage2AttrsToMode attrs &&& stage2ModeMask = archMmStage2AttrsToMode attrs := by
  simp only [archMmStage2AttrsToMode, BitVec.and_or_distrib_right, ite_mask]
  rfl

/-- Writing a mode as stage-2 attributes and reading it back keeps the ownership state. -/
theorem archMmStage2AttrsToMode_state (mode : Mode) :
    archMmStage2AttrsToMode (archMmModeToStage2Attrs mode) &&& stateMask = mode &&& stateMask := by
  rw [archMmStage2AttrsToMode_of_mode, ← test_low mode stateMask rfl]

/-! ## Stage 1 -/

section Stage1

variable (features : ArchFeatures) (mode : Mode)

/-- The bits of stage-1 attributes under a mask. -/
private theorem archMmModeToStage1Attrs_and (mask : PteBits) :
    archMmModeToStage1Attrs features mode &&& mask =
      0x700#64 &&& mask |||
      (if features.secureWorld ∧ mode &&& mmModeNs ≠ 0 then 0x20#64 &&& mask else 0 &&& mask) |||
      (if mode &&& mmModeX ≠ 0 then
        (if features.hasVheSupport then
          (if mode &&& mmModeUser ≠ 0 then 0x20000000000000#64 &&& mask else 0x40000000000000#64 &&& mask)
        else 0 &&& mask) |||
          (if features.branchProtection then 0x4000000000000#64 &&& mask else 0 &&& mask)
      else if features.hasVheSupport then 0x60000000000000#64 &&& mask else 0x40000000000000#64 &&& mask) |||
      (if mode &&& mmModeW ≠ 0 then 0 &&& mask else 0x80#64 &&& mask) |||
      (if features.hasVheSupport ∧ mode &&& mmModeUser ≠ 0 then 0x40#64 &&& mask else 0 &&& mask) |||
      (if features.hasVheSupport ∧ mode &&& mmModeNg ≠ 0 then 0x800#64 &&& mask else 0 &&& mask) |||
      (if mode &&& mmModeD ≠ 0 then 0 &&& mask
      else if mode &&& mmModeT ≠ 0 then 0x8#64 &&& mask else 0x4#64 &&& mask) |||
      (if mode &&& mmModeUnowned = 0 then 0x80000000000000#64 &&& mask else 0 &&& mask) |||
      (if mode &&& mmModeShared = 0 then 0x100000000000000#64 &&& mask else 0 &&& mask) |||
      (if mode &&& mmModeInvalid = 0 then 0x1#64 &&& mask else 0 &&& mask) := by
  simp only [← ite_mask, ← BitVec.and_or_distrib_right]
  rfl

private theorem archMmModeToStage1Attrs_ns :
    archMmModeToStage1Attrs features mode &&& stage1Ns ≠ 0 ↔ features.secureWorld ∧
    mode &&& mmModeNs ≠ 0 := by
  rw [archMmModeToStage1Attrs_and]
  simp [stage1Ns]

private theorem archMmModeToStage1Attrs_readOnly :
    archMmModeToStage1Attrs features mode &&& stage1Ap stage1ReadOnly = stage1Ap stage1ReadOnly ↔
      mode &&& mmModeW = 0 := by
  rw [archMmModeToStage1Attrs_and]
  simp [stage1Ap, stage1ReadOnly]

private theorem archMmModeToStage1Attrs_user :
    archMmModeToStage1Attrs features mode &&& stage1Ap stage1ApUserRw ≠ 0 ↔
      features.hasVheSupport ∧ mode &&& mmModeUser ≠ 0 := by
  rw [archMmModeToStage1Attrs_and]
  simp [stage1Ap, stage1ApUserRw]

/-- Without the virtualization host extensions the second bit is never set. -/
private theorem archMmModeToStage1Attrs_execute :
    (archMmModeToStage1Attrs features mode &&& stage1Xn = 0 ∨
      archMmModeToStage1Attrs features mode &&& stage1Pxn = 0) ↔
      features.hasVheSupport = false ∨ mode &&& mmModeX ≠ 0 := by
  rw [archMmModeToStage1Attrs_and, archMmModeToStage1Attrs_and]
  by_cases execute : mode &&& mmModeX = 0#32 <;> by_cases user : mode &&& mmModeUser = 0#32 <;>
    cases features.hasVheSupport <;> simp [execute, user, stage1Xn, stage1Pxn]

private theorem archMmModeToStage1Attrs_ng :
    archMmModeToStage1Attrs features mode &&& stage1Ng ≠ 0 ↔ features.hasVheSupport ∧
    mode &&& mmModeNg ≠ 0 := by
  rw [archMmModeToStage1Attrs_and]
  simp [stage1Ng]

private theorem archMmModeToStage1Attrs_normal :
    archMmModeToStage1Attrs features mode &&& stage1AttrIndx stage1NormalIndx ≠
      stage1AttrIndx stage1NormalIndx ↔ ¬(mode &&& mmModeD = 0 ∧ mode &&& mmModeT = 0) := by
  rw [archMmModeToStage1Attrs_and]
  by_cases device : mode &&& mmModeD = 0#32 <;> by_cases tagged : mode &&& mmModeT = 0#32 <;>
    simp [device, tagged, stage1AttrIndx, stage1NormalIndx]

private theorem archMmModeToStage1Attrs_state :
    (archMmModeToStage1Attrs features mode &&& stage1SwOwned = 0 ↔ mode &&& mmModeUnowned ≠ 0) ∧
      (archMmModeToStage1Attrs features mode &&& stage1SwExclusive = 0 ↔ mode &&& mmModeShared ≠ 0) ∧
      (archMmModeToStage1Attrs features mode &&& pteValid = 0 ↔ mode &&& mmModeInvalid ≠ 0) := by
  rw [archMmModeToStage1Attrs_and, archMmModeToStage1Attrs_and, archMmModeToStage1Attrs_and]
  simp [stage1SwOwned, stage1SwExclusive, pteValid]

/-- The mode bits that stage 1 records as they are. -/
def stage1ModeMask : Mode :=
  mmModeW ||| mmModeUnowned ||| mmModeShared ||| mmModeInvalid |||
    (if features.secureWorld then mmModeNs else 0) |||
    (if features.hasVheSupport then mmModeUser ||| mmModeX ||| mmModeNg else 0)

/-- Writing a mode as stage-1 attributes and reading it back: the page can be read, memory that is
not normal is taken for device memory, and without the virtualization host extensions every page
can be executed. -/
theorem archMmStage1AttrsToMode_of_mode :
    archMmStage1AttrsToMode features (archMmModeToStage1Attrs features mode) =
      mmModeR ||| mode &&& stage1ModeMask features ||| (if features.hasVheSupport then 0 else mmModeX) |||
        (if mode &&& mmModeD = 0 ∧ mode &&& mmModeT = 0 then 0 else mmModeD) := by
  obtain ⟨owned, exclusive, valid⟩ := archMmModeToStage1Attrs_state features mode
  have write : (if mode &&& mmModeW = 0 then mmModeR else mmModeW ||| mmModeR) =
      mmModeR ||| mode &&& mmModeW := by
    rcases bit_cases mode mmModeW (i := 1) rfl with clear | set
    · rw [if_pos clear, clear]
      rfl
    · rw [set]
      rfl
  have bit (b : Mode) {i : Nat} (single : b = BitVec.twoPow 32 i) :
      (if mode &&& b ≠ 0 then b else 0) = mode &&& b := by
    rw [ite_not]
    exact ite_bit mode b single
  have device : (if ¬(mode &&& mmModeD = 0 ∧ mode &&& mmModeT = 0) then mmModeD else 0) =
      if mode &&& mmModeD = 0 ∧ mode &&& mmModeT = 0 then 0 else mmModeD := ite_not ..
  rw [archMmStage1AttrsToMode]
  simp only [archMmModeToStage1Attrs_ns, archMmModeToStage1Attrs_readOnly, archMmModeToStage1Attrs_user,
    archMmModeToStage1Attrs_execute, archMmModeToStage1Attrs_ng, archMmModeToStage1Attrs_normal,
    owned, exclusive, valid, write,
    device, bit mmModeUnowned (i := 5) rfl, bit mmModeShared (i := 6) rfl,
    bit mmModeInvalid (i := 4) rfl, stage1ModeMask]
  cases features.secureWorld <;> cases features.hasVheSupport <;>
    simp only [Bool.false_eq_true, false_and, true_and, if_true, if_false, reduceCtorEq, true_or, false_or,
      bit mmModeNs (i := 7) rfl, bit mmModeUser (i := 9) rfl, bit mmModeNg (i := 8) rfl,
      bit mmModeX (i := 2) rfl, BitVec.and_or_distrib_left] <;>
    simp only [BitVec.ofNat_eq_ofNat, BitVec.and_zero, BitVec.zero_or, BitVec.or_zero] <;>
    ac_rfl

/-- The part of a mode that was read back under a mask of bits that stage 1 records. -/
private theorem archMmStage1AttrsToMode_and {mask : Mode} (recorded : stage1ModeMask features &&& mask = mask)
    (others : (mmModeR ||| mmModeX ||| mmModeD) &&& mask = 0) :
    archMmStage1AttrsToMode features (archMmModeToStage1Attrs features mode) &&& mask = mode &&& mask := by
  have apart (a : Mode) (within : a &&& (mmModeR ||| mmModeX ||| mmModeD) = a) : a &&& mask = 0 := by
    rw [← within, BitVec.and_assoc, others]
    exact BitVec.and_zero
  rw [archMmStage1AttrsToMode_of_mode, BitVec.and_or_distrib_right, BitVec.and_or_distrib_right,
    BitVec.and_or_distrib_right,
    BitVec.and_assoc, recorded, apart mmModeR rfl, apart _ (ite_within rfl rfl), apart _ (ite_within rfl rfl)]
  simp

/-- Writing a mode as stage-1 attributes and reading it back keeps the ownership state. -/
theorem archMmStage1AttrsToMode_state :
    archMmStage1AttrsToMode features (archMmModeToStage1Attrs features mode) &&& stateMask =
      mode &&& stateMask := by
  refine archMmStage1AttrsToMode_and features mode ?_ rfl
  obtain ⟨vhe, secure, protection⟩ := features
  cases vhe <;> cases secure <;> decide +revert

variable {features mode}

/-- Normal memory is read back as normal memory. -/
theorem archMmStage1AttrsToMode_device (features : ArchFeatures) (notDevice : mode &&& mmModeD = 0)
    (notTagged : mode &&& mmModeT = 0) :
    archMmStage1AttrsToMode features (archMmModeToStage1Attrs features mode) &&& mmModeD = 0 := by
  have recorded : stage1ModeMask features &&& mmModeD = 0 := by
    obtain ⟨vhe, secure, protection⟩ := features
    cases vhe <;> cases secure <;> decide +revert
  rw [archMmStage1AttrsToMode_of_mode]
  simp only [notDevice, notTagged, and_self, if_true, BitVec.and_or_distrib_right, BitVec.and_assoc,
    recorded, ite_mask]
  simp [mmModeR, mmModeX, mmModeD]

/-- Stage-1 mappings can always be read; the other rights are kept. -/
theorem archMmStage1AttrsToMode_rights (vhe : features.hasVheSupport = true) (mode : Mode) :
    archMmStage1AttrsToMode features (archMmModeToStage1Attrs features mode) &&&
      (mmModeR ||| mmModeW ||| mmModeX) = mmModeR ||| mode &&& (mmModeW ||| mmModeX) := by
  have recorded : stage1ModeMask features &&& (mmModeR ||| mmModeW ||| mmModeX) = mmModeW ||| mmModeX := by
    obtain ⟨vhe', secure, protection⟩ := features
    cases secure <;> decide +revert
  rw [archMmStage1AttrsToMode_of_mode, if_pos vhe, BitVec.and_or_distrib_right, BitVec.and_or_distrib_right,
    BitVec.and_or_distrib_right, BitVec.and_assoc, recorded, ite_mask,
    show mmModeD &&& (mmModeR ||| mmModeW ||| mmModeX) = 0 from rfl]
  simp
  rfl

private theorem recorded_untagged (features : ArchFeatures) :
    (mmModeR ||| stage1ModeMask features ||| mmModeD) &&& mmModeT = 0 := by
  obtain ⟨vhe, secure, protection⟩ := features
  cases vhe <;> cases secure <;> decide +revert

/-- A mode of bits that stage 1 records is read back as it was written. -/
theorem archMmStage1AttrsToMode_recorded (vhe : features.hasVheSupport = true)
    (readable : mode &&& mmModeR = mmModeR)
    (within : mode &&& (mmModeR ||| stage1ModeMask features ||| mmModeD) = mode) :
    archMmStage1AttrsToMode features (archMmModeToStage1Attrs features mode) = mode := by
  have untagged : mode &&& mmModeT = 0 := by
    rw [← within, BitVec.and_assoc, recorded_untagged]
    exact BitVec.and_zero
  calc archMmStage1AttrsToMode features (archMmModeToStage1Attrs features mode)
      = mode &&& mmModeR ||| mode &&& stage1ModeMask features ||| 0 ||| mode &&& mmModeD := by
        rw [archMmStage1AttrsToMode_of_mode, if_pos vhe, readable]
        simp only [untagged, and_true, ite_bit mode mmModeD (i := 3) rfl]
    _ = mode &&& (mmModeR ||| stage1ModeMask features ||| mmModeD) := by
        rw [BitVec.and_or_distrib_left, BitVec.and_or_distrib_left]
        exact congrArg (· ||| _) BitVec.or_zero
    _ = mode := within

/-- A mode that stage 1 can record as a whole, in a secure build with the virtualization host
extensions: it is read back as it was written. -/
theorem archMmStage1AttrsToMode_exact (vhe : features.hasVheSupport = true)
    (secure : features.secureWorld = true) (readable : mode &&& mmModeR ≠ 0)
    (within : mode &&& 0x3ff = mode) :
    archMmStage1AttrsToMode features (archMmModeToStage1Attrs features mode) = mode := by
  have mask : mmModeR ||| stage1ModeMask features ||| mmModeD = 0x3ff := by
    obtain ⟨vhe', secure', protection⟩ := features
    decide +revert
  exact archMmStage1AttrsToMode_recorded vhe
    ((bit_cases mode mmModeR (i := 0) rfl).resolve_left readable) (mask ▸ within)

/-- Modes that are read from stage-1 attributes are readable and not tagged. -/
theorem archMmStage1AttrsToMode_readable (features : ArchFeatures) (attrs : PteBits) :
    archMmStage1AttrsToMode features attrs &&& mmModeR = mmModeR := by
  simp only [archMmStage1AttrsToMode, BitVec.and_or_distrib_right, ite_mask]
  simp [mmModeR, mmModeW, mmModeNs, mmModeUser, mmModeX, mmModeNg, mmModeD, mmModeUnowned,
    mmModeShared, mmModeInvalid]

theorem archMmStage1AttrsToMode_untagged (features : ArchFeatures) (attrs : PteBits) :
    archMmStage1AttrsToMode features attrs &&& mmModeT = 0 := by
  simp only [archMmStage1AttrsToMode, BitVec.and_or_distrib_right, ite_mask]
  simp [mmModeR, mmModeW, mmModeNs, mmModeUser, mmModeX, mmModeNg, mmModeD, mmModeUnowned,
    mmModeShared, mmModeInvalid, mmModeT]

/-- The bits of a mode that stage 1 looks at. -/
private theorem archMmModeToStage1Attrs_congr (features : ArchFeatures) {mode mode' : Mode}
    (security : features.secureWorld = true → mode' &&& mmModeNs = mode &&& mmModeNs)
    (bits : ∀ bit ∈ [mmModeD, mmModeT, mmModeX, mmModeUser, mmModeW, mmModeNg, mmModeUnowned,
      mmModeShared, mmModeInvalid], mode' &&& bit = mode &&& bit) :
    archMmModeToStage1Attrs features mode' = archMmModeToStage1Attrs features mode := by
  have secure : (features.secureWorld ∧ mode' &&& mmModeNs ≠ 0) = (features.secureWorld ∧
      mode &&& mmModeNs ≠ 0) :=
    propext (and_congr_right fun secure => by rw [security secure])
  simp only [List.forall_mem_cons] at bits
  obtain ⟨device, tagged, execute, user, write, global, unowned, shared, invalid, -⟩ := bits
  simp only [archMmModeToStage1Attrs, secure, device, tagged, execute, user, write, global, unowned,
    shared, invalid]

theorem stage1ModeMask_of_vhe (vhe : features.hasVheSupport = true) :
    stage1ModeMask features = if features.secureWorld then 0x3f6 else 0x376 := by
  rw [stage1ModeMask, vhe]
  cases features.secureWorld <;> decide

/-- What is read as normal memory was written as untagged normal memory. -/
private theorem archMmStage1AttrsToMode_normal (vhe : features.hasVheSupport = true)
    (normal : archMmStage1AttrsToMode features (archMmModeToStage1Attrs features mode) &&& mmModeD = 0) :
    mode &&& mmModeD = 0 ∧ mode &&& mmModeT = 0 := by
  by_contra other
  rw [archMmStage1AttrsToMode_of_mode, if_pos vhe, if_neg other, BitVec.and_or_distrib_right,
    BitVec.and_self] at normal
  exact absurd (BitVec.or_eq_zero_iff.mp normal).2 (by decide)

private theorem recorded_bits : ∀ bit ∈ [mmModeX, mmModeUser, mmModeW, mmModeNg, mmModeUnowned,
      mmModeShared, mmModeInvalid],
    (0x376 : Mode) &&& bit = bit ∧ (0x3f6 : Mode) &&& bit = bit ∧ (mmModeR ||| mmModeD) &&& bit = 0 := by
  -- `decide` would try all modes.
  simp [mmModeX, mmModeUser, mmModeW, mmModeNg, mmModeUnowned, mmModeShared, mmModeInvalid, mmModeR, mmModeD]

/-- The attributes of normal memory are written again as they were when the mode that is read from them is
written. -/
theorem archMmModeToStage1Attrs_again (vhe : features.hasVheSupport = true)
    (normal : archMmStage1AttrsToMode features (archMmModeToStage1Attrs features mode) &&& mmModeD = 0) :
    archMmModeToStage1Attrs features (archMmStage1AttrsToMode features
      (archMmModeToStage1Attrs features mode)) =
      archMmModeToStage1Attrs features mode := by
  obtain ⟨notDevice, notTagged⟩ := archMmStage1AttrsToMode_normal vhe normal
  have untagged := archMmStage1AttrsToMode_untagged features (archMmModeToStage1Attrs features mode)
  have kept {bit : Mode} (recorded : (stage1ModeMask features) &&& bit = bit)
      (single : (mmModeR ||| mmModeD) &&& bit = 0) :
      archMmStage1AttrsToMode features (archMmModeToStage1Attrs features mode) &&& bit = mode &&& bit := by
    have parts := BitVec.or_eq_zero_iff.mp (BitVec.and_or_distrib_right ▸ single)
    rw [archMmStage1AttrsToMode_of_mode, if_pos vhe, if_pos ⟨notDevice, notTagged⟩,
      BitVec.and_or_distrib_right,
      BitVec.and_or_distrib_right, BitVec.and_or_distrib_right, BitVec.and_assoc, recorded, parts.1]
    simp
  have mask := stage1ModeMask_of_vhe vhe
  refine archMmModeToStage1Attrs_congr features (fun secure => ?_) fun bit member => ?_
  · refine kept ?_ rfl
    rw [mask, if_pos secure]
    rfl
  · rcases List.mem_cons.mp member with rfl | member
    · exact normal.trans notDevice.symm
    rcases List.mem_cons.mp member with rfl | member
    · exact untagged.trans notTagged.symm
    · obtain ⟨recorded, recordedSecure, single⟩ := recorded_bits bit member
      refine kept ?_ single
      rw [mask]
      split
      · exact recordedSecure
      · exact recorded

/-- Stage 1 marks pages that must not be written with the bit that marks the others for stage 2. -/
theorem archMmStage2AttrsToMode_stage1 (features : ArchFeatures) (mode : Mode) :
    archMmStage2AttrsToMode (archMmModeToStage1Attrs features mode) &&& mmModeW = 0 ↔
      mode &&& mmModeW ≠ 0 := by
  have write := archMmModeToStage1Attrs_readOnly features mode
  generalize archMmModeToStage1Attrs features mode = attrs at write
  have read : archMmStage2AttrsToMode attrs &&& mmModeW = if attrs &&&
      stage2S2ap stage2AccessWrite ≠ 0 then mmModeW else 0 := by
    simp only [archMmStage2AttrsToMode, BitVec.and_or_distrib_right, ite_mask]
    simp [mmModeR, mmModeW, mmModeX, mmModeD, mmModeUnowned, mmModeShared, mmModeInvalid]
  have sameBit : stage2S2ap stage2AccessWrite = stage1Ap stage1ReadOnly := rfl
  rw [read, sameBit, ite_not, ne_eq, ← write]
  rcases bit_cases attrs (stage1Ap stage1ReadOnly) (i := 7) rfl with clear | set
  · rw [clear]
    decide
  · rw [set]
    decide

end Stage1

end Hafnium.Mm
