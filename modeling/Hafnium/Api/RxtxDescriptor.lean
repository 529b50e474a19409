import Hafnium.Api.Message

/-! # The descriptor of a forwarded FFA_RXTX_MAP

The hypervisor describes the buffers of a VM in a page that it shares with the SPMC, and forwards the call
with zero in all registers. The SPMC follows two offsets of the descriptor. It reads what the hypervisor
wrote, but nothing keeps the offsets of another descriptor inside the page, or the pointer to the page from
being null.
-/

namespace Hafnium.Api

open Mm Ffa LittleEndian

variable {m : MmConfig}

/-! ## Writing -/

variable {offset : Nat} {memory : HypMemory m}

section Fields

variable (bytes : Bytes) (address : BitVec 64) (pageCount : BitVec 32)

open LittleEndian

theorem read_compositeMemoryRegion_other {composite n : Nat}
    (apart : offset + n ≤ composite ∨ composite + 32 ≤ offset) :
    read (ffaCompositeMemoryRegionInit bytes composite address pageCount) offset n = read bytes offset n := by
  simp (disch := omega) only [ffaCompositeMemoryRegionInit, read_write_other]

theorem compositeMemoryRegion_address (composite : Nat) :
    u64 (ffaCompositeMemoryRegionInit bytes composite address pageCount) (composite + 16) = address := by
  simp (disch := omega) only [ffaCompositeMemoryRegionInit, u64, read_write_other]
  exact u64_write ..

theorem compositeMemoryRegion_pageCount (composite : Nat) :
    u32 (ffaCompositeMemoryRegionInit bytes composite address pageCount) (composite + 16 + 8) =
      pageCount := by
  simp (disch := omega) only [ffaCompositeMemoryRegionInit, u32, read_write_other]
  exact u32_write ..

variable (desc : Nat) (endpointId : VmId) (rxAddress txAddress : BitVec 64)

/-- The fields of a descriptor, with the constituents of the two regions. -/
theorem endpointRxTxDescriptor_fields :
    let bytes := ffaEndpointRxTxDescriptorInit bytes desc endpointId rxAddress txAddress
    u16 bytes desc = endpointId ∧ u32 bytes (desc + 4) = 16 ∧ u32 bytes (desc + 8) = 48 ∧
      u64 bytes (desc + 32) = rxAddress ∧
      u32 bytes (desc + 40) = 1 ∧ u64 bytes (desc + 64) = txAddress := by
  refine ⟨?_, ?_, ?_, ?_, ?_, ?_⟩
  · simp (disch := omega) only [ffaEndpointRxTxDescriptorInit, u16, read_write_other,
      read_compositeMemoryRegion_other]
    exact u16_write ..
  · simp (disch := omega) only [ffaEndpointRxTxDescriptorInit, u32, read_write_other,
      read_compositeMemoryRegion_other]
    exact u32_write _ _ 16
  · simp (disch := omega) only [ffaEndpointRxTxDescriptorInit, u32, read_compositeMemoryRegion_other]
    exact u32_write _ _ 48
  · simp (disch := omega) only [ffaEndpointRxTxDescriptorInit, u64, read_write_other,
      read_compositeMemoryRegion_other]
    exact compositeMemoryRegion_address ..
  · simp (disch := omega) only [ffaEndpointRxTxDescriptorInit, u32, read_write_other,
      read_compositeMemoryRegion_other]
    exact compositeMemoryRegion_pageCount ..
  · exact compositeMemoryRegion_address ..

end Fields

/-! ## Reading -/

/-- A load that stops unless it stays inside a page. -/
def loadWithin (memory : HypMemory m) (page va size : Nat) : Run Bytes :=
  if page = 0 ∨ va < page ∨ page + pageSize < va + size then .error .outOfBounds else load memory va size

/-- All fields that are read lie inside the TX page, and the pointer to it is not null. -/
def ReadsWithinTx (memory : HypMemory m) (vm : Endpoint m) (send recv : BitVec 64)
    (pageCount : BitVec 32) : Prop :=
  Partial.Avoids (· = .outOfBounds) (rxtxDescriptionVia (loadWithin memory vm.send) vm send recv pageCount)

/-- A page that the partition manager has mapped to read it. -/
structure TxPage (memory : HypMemory m) (page : Nat) : Prop where
  inside : page + pageSize ≤ 2 ^ 56
  mapped : ∀ k < pageSize, loadTarget memory.stage1 (page + k) = some (page + k)

theorem TxPage.load {page size : Nat} (tx : TxPage memory page) (fits : offset + size ≤ pageSize) :
    ∃ bytes, load memory (page + offset) size = .ok bytes ∧
    ∀ k < size, bytes k = memory.bytes (page + offset + k) := by
  refine load_of_targets fun k small => ?_
  rw [Nat.add_assoc]
  exact tx.mapped (offset + k) (by omega)

/-- The offsets lead to constituents inside the page. -/
def OffsetsInside (bytes : Bytes) (page : Nat) : Prop :=
  (u32 bytes (page + 4)).toNat + 28 ≤ pageSize ∧ (u32 bytes (page + 8)).toNat + 24 ≤ pageSize

section Read

variable {vm : Endpoint m} {page size : Nat}

/-- A field of what has been loaded is that of the page. -/
theorem read_of_load {bytes : Bytes} {n : Nat} (same : ∀ k < size, bytes k = memory.bytes (page + k))
    (inside : offset + n ≤ size) : read bytes offset n = read memory.bytes (page + offset) n :=
  read_congr fun k small => by rw [same (offset + k) (by omega), Nat.add_assoc]

/-- What is loaded of the descriptor itself. -/
theorem TxPage.header (tx : TxPage memory page) : ∃ desc, Api.load memory page 12 = .ok desc ∧
    u32 desc 4 = u32 memory.bytes (page + 4) ∧
      u32 desc 8 = u32 memory.bytes (page + 8) ∧
        u16 desc 0 = u16 memory.bytes page := by
  obtain ⟨desc, loaded, same⟩ := tx.load (show 0 + 12 ≤ pageSize by decide)
  refine ⟨desc, loaded, ?_, ?_, ?_⟩
  · rw [u32, u32, read_of_load same (by decide), Nat.add_zero]
  · rw [u32, u32, read_of_load same (by decide), Nat.add_zero]
  · rw [u16, u16, read_of_load same (by decide), Nat.add_zero]

variable (isNwd : vm.vm.id = hfOtherWorldId m)
include isNwd

/-- A forwarded call is described by the fields of the page. -/
theorem apiGetRxtxDescription_of_offsets (tx : TxPage memory vm.send)
    (inside : OffsetsInside memory.bytes vm.send) :
    let rx := vm.send + (u32 memory.bytes (vm.send + 4)).toNat + 16
    let tx := vm.send + (u32 memory.bytes (vm.send + 8)).toNat + 16
    apiGetRxtxDescription memory vm 0 0 0 = .ok ⟨u64 memory.bytes tx, u64 memory.bytes rx,
      u32 memory.bytes (rx + 8), u16 memory.bytes vm.send⟩ := by
  obtain ⟨rxInside, txInside⟩ := inside
  have word := tx.inside
  rw [pageSize] at word rxInside txInside
  obtain ⟨desc, loaded, rxOffset, txOffset, owner⟩ := tx.header
  obtain ⟨rx, rxLoaded, rxBytes⟩ := tx.load
    (show ((u32 memory.bytes (vm.send + 4)).toNat + 16) + 12 ≤ pageSize by rw [pageSize]; omega)
  obtain ⟨tx, txLoaded, txBytes⟩ := tx.load
    (show ((u32 memory.bytes (vm.send + 8)).toNat + 16) + 8 ≤ pageSize by rw [pageSize]; omega)
  rw [apiGetRxtxDescription, rxtxDescriptionVia, if_pos ⟨isNwd, rfl, rfl, rfl⟩]
  simp only [Partial.bind_ok_iff]
  refine ⟨desc, loaded, rx, ?_, tx, ?_, ?_⟩
  · rw [rxOffset, Nat.mod_eq_of_lt (by omega), Nat.add_assoc]
    exact rxLoaded
  · rw [txOffset, Nat.mod_eq_of_lt (by omega), Nat.add_assoc]
    exact txLoaded
  · rw [owner, u64, u64, u32, read_of_load txBytes (by decide),
      read_of_load rxBytes (by decide), read_of_load rxBytes (by decide), ← Nat.add_assoc, ← Nat.add_assoc]
    rfl

/-- The SPMC reads what the hypervisor wrote. -/
theorem apiGetRxtxDescription_init (tx : TxPage memory vm.send) (id : VmId)
    (rxAddress txAddress : BitVec 64) :
    apiGetRxtxDescription { memory with
      bytes := ffaEndpointRxTxDescriptorInit memory.bytes vm.send id rxAddress txAddress } vm 0 0 0 =
      .ok ⟨txAddress, rxAddress, 1, id⟩ := by
  obtain ⟨owner, rxOffset, txOffset, rxField, pagesField, txField⟩ :=
    endpointRxTxDescriptor_fields memory.bytes vm.send id rxAddress txAddress
  let memory' : HypMemory m := { memory with
    bytes := ffaEndpointRxTxDescriptorInit memory.bytes vm.send id rxAddress txAddress }
  have tx' : TxPage memory' vm.send := ⟨tx.inside, tx.mapped⟩
  refine (apiGetRxtxDescription_of_offsets isNwd tx' ⟨?_, ?_⟩).trans ?_
  · rw [rxOffset]
    decide
  · rw [txOffset]
    decide
  · rw [rxOffset, txOffset]
    simp only [RxtxDescription.mk.injEq, Except.ok.injEq]
    exact ⟨txField, rxField, pagesField, owner⟩

omit isNwd in
/-- A load at an offset of the page. -/
theorem loadWithin_offset (isSet : page ≠ 0) (fits : offset + size ≤ pageSize) :
    loadWithin memory page (page + offset) size = load memory (page + offset) size :=
  if_neg (by omega)

omit isNwd in
theorem loadWithin_outside (outside : pageSize < offset + size) :
    loadWithin memory page (page + offset) size = .error .outOfBounds :=
  if_pos (by omega)

/-- A call is read safely if it is not forwarded, or its offsets stay inside the page that the hypervisor has
registered. -/
theorem readsWithinTx_iff (tx : vm.send ≠ 0 → TxPage memory vm.send) (send recv : BitVec 64)
    (pageCount : BitVec 32) :
    ReadsWithinTx memory vm send recv pageCount ↔
      (send = 0 ∧ recv = 0 ∧ pageCount = 0 → vm.send ≠ 0 ∧ OffsetsInside memory.bytes vm.send) := by
  by_cases forwarded : send = 0 ∧ recv = 0 ∧ pageCount = 0
  · rw [ReadsWithinTx, rxtxDescriptionVia, if_pos ⟨isNwd, forwarded⟩]
    simp only [forwarded, true_and, forall_const]
    by_cases isSet : vm.send = 0
    · have stopped : loadWithin memory vm.send vm.send 12 = .error .outOfBounds := if_pos (.inl isSet)
      exact iff_of_false (Partial.not_avoids_bind stopped rfl) fun holds => holds.1 isSet
    · have tx := tx isSet
      have word := tx.inside
      obtain ⟨desc, loaded, rxOffset, txOffset, -⟩ := tx.header
      have header : loadWithin memory vm.send vm.send 12 = .ok desc := by
        exact (loadWithin_offset isSet (show 0 + 12 ≤ pageSize by decide)).trans loaded
      rw [Partial.avoids_bind_iff header, rxOffset, txOffset, OffsetsInside]
      generalize u32 memory.bytes (vm.send + 4) = rxOffset
      generalize u32 memory.bytes (vm.send + 8) = txOffset
      rw [Nat.mod_eq_of_lt (by omega), Nat.mod_eq_of_lt (by omega), Nat.add_assoc, Nat.add_assoc]
      by_cases rxInside : rxOffset.toNat + 16 + 12 ≤ pageSize
      · obtain ⟨rx, rxLoaded, -⟩ := tx.load rxInside
        rw [Partial.avoids_bind_iff ((loadWithin_offset isSet rxInside).trans rxLoaded)]
        by_cases txInside : txOffset.toNat + 16 + 8 ≤ pageSize
        · obtain ⟨tx, txLoaded, -⟩ := tx.load txInside
          rw [Partial.avoids_bind_iff ((loadWithin_offset isSet txInside).trans txLoaded)]
          exact iff_of_true (.ok _) ⟨isSet, rxInside, txInside⟩
        · exact iff_of_false (Partial.not_avoids_bind (loadWithin_outside (by omega)) rfl)
            fun holds => txInside holds.2.2
      · exact iff_of_false (Partial.not_avoids_bind (loadWithin_outside (by omega)) rfl)
          fun holds => rxInside holds.2.1
  · rw [ReadsWithinTx, rxtxDescriptionVia, if_neg fun holds => forwarded holds.2]
    exact iff_of_true (.ok _) fun holds => absurd holds forwarded

/-- A forwarded call is read safely if its offsets stay inside the page that the hypervisor has
registered, and what the hypervisor writes there is read as it was written. -/
theorem rxtxDescriptor_safe_iff (tx : vm.send ≠ 0 → TxPage memory vm.send) :
    (∀ send recv pageCount, ReadsWithinTx memory vm send recv pageCount ↔
      (send = 0 ∧ recv = 0 ∧ pageCount = 0 → vm.send ≠ 0 ∧ OffsetsInside memory.bytes vm.send)) ∧
    (vm.send ≠ 0 → ∀ id rxAddress txAddress,
      apiGetRxtxDescription { memory with
        bytes := ffaEndpointRxTxDescriptorInit memory.bytes vm.send id rxAddress txAddress } vm 0 0 0 =
        .ok ⟨txAddress, rxAddress, 1, id⟩) :=
  ⟨readsWithinTx_iff isNwd tx, fun isSet => apiGetRxtxDescription_init isNwd (tx isSet)⟩

end Read

/-! ## Descriptors that lead out of the page -/

/-- A page that is part of a mapped range. -/
theorem mappedTable_txPage {end_ : Nat} {mode : Mode} (endPage : end_ % pageSize = 0)
    (covered : 0x4000 ≤ end_) (bound : end_ ≤ 2 ^ 30)
    (readable : m.mappedAttrs .stage1 mode &&& pteValid ≠ 0) (bytes : Nat → BitVec 8) :
    TxPage ⟨mappedTable m .stage1 0x3000 end_ mode, bytes⟩ 0x3000 := by
  obtain ⟨wf, attrs⟩ := mappedTable_spec m .stage1 (show 0x3000 % pageSize = 0 from rfl)
    endPage (by omega) bound mode
  refine ⟨by decide, fun k small => ?_⟩
  rw [pageSize] at small
  refine loadTarget_of_attrs wf (by omega) ?_
  rw [attrs _ (by omega) (by omega)]
  exact readable

/-- A table through which one page can be read. -/
theorem exists_txPage (m : MmConfig) : ∃ t : MmPtable (m.levels .stage1), ∀ bytes, TxPage ⟨t, bytes⟩ 0x3000 :=
  ⟨_, mappedTable_txPage rfl le_rfl (by decide) (mappedAttrs_readable m)⟩

/-- The hypervisor with a TX buffer at a page. -/
def nwdWithTx (m : MmConfig) (page : Nat) : Endpoint m :=
  { Endpoint.new (emptyVm m hfHypervisorVmId .empty) with send := page }

theorem nwdWithTx_id (page : Nat) : (nwdWithTx spmcConfig page).vm.id = hfOtherWorldId spmcConfig := rfl

/-- The descriptor of the VM 1 is read as it was written. -/
theorem rxtxDescriptor_safe_written : ∃ memory : HypMemory spmcConfig, ∀ rxAddress txAddress,
    apiGetRxtxDescription { memory with
        bytes := ffaEndpointRxTxDescriptorInit memory.bytes 0x3000 1 rxAddress txAddress }
      (nwdWithTx spmcConfig 0x3000) 0 0 0 = .ok ⟨txAddress, rxAddress, 1, 1⟩ := by
  obtain ⟨t, tx⟩ := exists_txPage spmcConfig
  exact ⟨⟨t, fun _ => 0⟩, (rxtxDescriptor_safe_iff (nwdWithTx_id 0x3000) fun _ => tx _).2 (by decide) 1⟩

/-- The normal world has no TX buffer yet, or a descriptor whose RX region lies 64 KiB behind the page. -/
theorem rxtxDescriptor_unsafe : (∀ memory, ¬ReadsWithinTx memory (nwdWithTx spmcConfig 0) 0 0 0) ∧
    ∃ memory, TxPage memory 0x3000 ∧ ¬ReadsWithinTx memory (nwdWithTx spmcConfig 0x3000) 0 0 0 := by
  obtain ⟨t, tx⟩ := exists_txPage spmcConfig
  refine ⟨fun memory safe => ?_, ⟨t, write (fun _ => 0) 0x3004 4 0x10000⟩, tx _, fun safe => ?_⟩
  · exact ((readsWithinTx_iff (nwdWithTx_id 0) (absurd rfl) 0 0 0).mp safe ⟨rfl, rfl, rfl⟩).1 rfl
  · obtain ⟨-, inside, -⟩ := (readsWithinTx_iff (nwdWithTx_id 0x3000) (fun _ => tx _) 0 0 0).mp safe
      ⟨rfl, rfl, rfl⟩
    have offset : u32 (write (fun _ => 0) 0x3004 4 0x10000) 0x3004 = 0x10000 :=
      u32_write _ _ 0x10000
    have inside : (u32 (write (fun _ => 0) 0x3004 4 0x10000) 0x3004).toNat + 28 ≤ pageSize := inside
    exact absurd inside (by decide)

end Hafnium.Api
