import Hafnium.Ffa.Descriptor
import Hafnium.Ffa.Handles

/-! # Fragmented transfers

A long list of constituents is sent and retrieved in several messages. The sender's first message is a
descriptor whose header has a size of the sender's choice; the first message to a receiver has a header
of 64 bytes. Either side tells its position in the transfer as an offset in bytes.
-/

namespace Hafnium.Ffa

open Mm LittleEndian Partial Function

variable {m : MmConfig}

/-! ## The messages to a receiver -/

/-- The constituents in a message from an offset on. -/
def readConstituents (bytes : Bytes) (offset count : Nat) : List Constituent :=
  (List.range count).map (constituentsFrom bytes offset)

/-- `ffa_copy_memory_region_constituents` for one constituent after another. -/
def putConstituents (bytes : Bytes) (offset : Nat) : List Constituent → Bytes
  | [] => bytes
  | c :: rest =>
    putConstituents (write (write (write bytes offset 8 c.address.toNat) (offset + 8)
      4 c.pageCount.toNat) (offset + 12) 4 0)
      (offset + 16) rest

/-- The fields that `ffa_retrieved_memory_region_init` sets, each with its offset, size and value. -/
def responseFields (region : MemoryRegion) (handle : Handle) (receiver : VmId) (permissions : Permissions) :
    List (Nat × Nat × Nat) :=
  [(0, 2, region.sender.toNat), (2, 1, region.attributes.toNat), (3, 1, 0), (4, 4, region.flags.toNat),
    (8, 8, handle.toNat), (16, 8, 0), (24, 4, 0), (28, 4, 1), (32, 2, receiver.toNat),
    (34, 1, permissions.toNat), (35, 1, region.flags.toNat), (36, 4, 48), (40, 8, 0),
    (48, 4, (u32 region.bytes region.compositeOffset).toNat),
    (52, 4, region.constituentCount), (56, 8, 0)]

/-- The receive buffer after `ffa_retrieved_memory_region_init`. -/
def retrieveResponse (state : ShareState) (handle : Handle) (receiver : VmId)
    (permissions : Permissions) (stale : Bytes) : Bytes :=
  let region := state.memoryRegion
  let header := (responseFields region handle receiver permissions).foldl
    (fun bytes field => write bytes field.1 field.2.1 field.2.2) stale
  copy header responseHeaderSize region.bytes (region.compositeOffset + 16) (16 * state.fragments.counts 0)

/-- The constituents of one fragment. -/
def Fragments.row (f : Fragments) (k : Nat) : List Constituent :=
  (List.range (f.counts k)).map (f.constituents k)

/-- The receive buffer after `ffa_memory_fragment_init`. -/
def fragmentMessage (f : Fragments) (k : Nat) (stale : Bytes) : Bytes := putConstituents stale 0 (f.row k)

/-- What a receiver finds in a response of `length` bytes. -/
def receivedConstituents (bytes : Bytes) (length : Nat) : List Constituent :=
  let offset := (memoryRegionFrom bytes).compositeOffset + 16
  readConstituents bytes offset ((length - offset) / 16)

variable {current state : ShareState} {sent : List Constituent}
  {fragmentLength memoryShareLength offset : BitVec 32} {stale : Bytes} {func : ShareFunc}
  {states : ShareStates} {page : PageNumber} {region : MemoryRegion}

theorem constituentsFrom_succ (bytes : Bytes) (offset j : Nat) :
    constituentsFrom bytes offset (j + 1) = constituentsFrom bytes (offset + 16) j := by
  have place : offset + 16 * (j + 1) = offset + 16 + 16 * j := by omega
  rw [constituentsFrom, constituentsFrom, place]

theorem readConstituents_succ (bytes : Bytes) (offset count : Nat) :
    readConstituents bytes offset (count + 1) =
      constituentsFrom bytes offset 0 :: readConstituents bytes (offset + 16) count := by
  rw [readConstituents, readConstituents, List.range_succ_eq_map, List.map_cons, List.map_map]
  refine congrArg _ (List.map_congr_left fun j _ => ?_)
  exact constituentsFrom_succ bytes offset j

/-- Constituents are written upwards. -/
theorem putConstituents_before {bytes : Bytes} {offset k : Nat} {l : List Constituent} (before : k < offset) :
    putConstituents bytes offset l k = bytes k := by
  induction l generalizing bytes offset with
  | nil => rfl
  | cons c rest ih =>
    rw [putConstituents, ih (by omega), write_other (by omega), write_other (by omega),
      write_other (by omega)]

theorem constituentsFrom_putConstituents (bytes : Bytes) (offset : Nat) (c : Constituent)
    (rest : List Constituent) :
    constituentsFrom (putConstituents bytes offset (c :: rest)) offset 0 = c := by
  have kept (bytes : Bytes) {d n : Nat} (inside : d + n ≤ offset + 16) :
      read (putConstituents bytes (offset + 16) rest) d n = read bytes d n := by
    apply read_congr
    intro k small
    exact putConstituents_before (by omega)
  have address : u64 (putConstituents bytes offset (c :: rest)) offset = c.address := by
    rw [putConstituents, u64, kept _ (by omega), read_write_other (by omega), read_write_other (by omega)]
    exact u64_write bytes offset c.address
  have pageCount : u32 (putConstituents bytes offset (c :: rest)) (offset + 8) = c.pageCount := by
    rw [putConstituents, u32, kept _ (by omega), read_write_other (by omega)]
    exact u32_write _ (offset + 8) c.pageCount
  rw [constituentsFrom, Nat.mul_zero, Nat.add_zero, address, pageCount]

/-- What is written to a message is read from it. -/
theorem readConstituents_putConstituents (bytes : Bytes) (offset : Nat) (l : List Constituent) :
    readConstituents (putConstituents bytes offset l) offset l.length = l := by
  induction l generalizing bytes offset with
  | nil => rfl
  | cons c rest ih =>
    rw [List.length_cons, readConstituents_succ, constituentsFrom_putConstituents, putConstituents, ih]

/-- A receiver finds the composite descriptor behind the only receiver that it is told of. -/
theorem retrieveResponse_compositeOffset (state : ShareState) (handle : Handle) (receiver : VmId)
    (permissions : Permissions) (stale : Bytes) :
    (memoryRegionFrom (retrieveResponse state handle receiver permissions stale)).compositeOffset = 48 := by
  have field : read (retrieveResponse state handle receiver permissions stale) 36 4 = 48 := by
    rw [retrieveResponse, read_copy_before (by decide)]
    simp only [responseFields, List.foldl_cons, List.foldl_nil]
    rfl
  change (u32 _ 36).toNat = 48
  rfl

/-- A receiver finds the constituents that came with the sender's descriptor. -/
theorem receivedConstituents_retrieveResponse {handle : Handle} {receiver : VmId}
    {permissions : Permissions} {length : Nat}
    (size : length = responseHeaderSize + 16 * state.fragments.counts 0) :
    receivedConstituents (retrieveResponse state handle receiver permissions stale) length =
      readConstituents state.memoryRegion.bytes (state.memoryRegion.compositeOffset + 16)
        (state.fragments.counts 0) := by
  have count : (length - (48 + 16)) / 16 = state.fragments.counts 0 := by
    rw [size, responseHeaderSize]
    omega
  rw [receivedConstituents, retrieveResponse_compositeOffset, count, readConstituents, readConstituents]
  apply List.map_congr_left
  intro j member
  have small := List.mem_range.mp member
  have place : 48 + 16 + 16 * j + 8 = responseHeaderSize + (16 * j + 8) := by
    rw [responseHeaderSize]
    omega
  rw [constituentsFrom, constituentsFrom, u64, u64, u32, u32, retrieveResponse, place, read_copy (by omega),
    show 48 + 16 = responseHeaderSize from rfl, read_copy (by omega), ← Nat.add_assoc]

/-! ## Sending -/

/-- The constituents of the first fragments. -/
def Fragments.rows (f : Fragments) (count : Nat) : List Constituent := (List.range count).flatMap f.row

theorem Fragments.rows_succ (f : Fragments) (count : Nat) :
    f.rows (count + 1) = f.rows count ++ f.row count := by
  rw [rows, rows, List.range_succ, List.flatMap_append, List.flatMap_singleton]

theorem Fragments.total_succ (f : Fragments) (count : Nat) :
    f.total (count + 1) = f.total count + f.counts count := by
  rw [total, total, List.range_succ, List.map_append, List.sum_append, List.map_singleton, List.sum_singleton]

theorem Fragments.rows_one (f : Fragments) : f.rows 1 = f.row 0 := f.rows_succ 0

theorem Fragments.total_one (f : Fragments) :
    f.total 1 = f.counts 0 := by rw [total_succ, total, List.range_zero,
  List.map_nil, List.sum_nil, Nat.zero_add]

theorem Fragments.length_row (f : Fragments) (k : Nat) : (f.row k).length = f.counts k := by
  rw [row, List.length_map, List.length_range]

/-- What a transfer depends on in a share state. -/
structure ShareState.SameTransfer (state state' : ShareState) : Prop where
  memoryRegion : state'.memoryRegion = state.memoryRegion
  fragments : state'.fragments = state.fragments
  sendingComplete : state'.sendingComplete = state.sendingComplete

/-- A sender sends a list of constituents, and the share state of the transaction is in slot `i`. The
bounds on lengths and receivers are those of the calls `FFA_MEM_DONATE`, `FFA_MEM_LEND`, `FFA_MEM_SHARE`
and `FFA_MEM_FRAG_TX`. -/
inductive Sending (m : MmConfig) (i : Fin maxMemShares) : List Constituent → Sharing m → Prop
  | first {vm vm' : Vm m} {page : PageNumber} {region : MemoryRegion}
      {memoryShareLength fragmentLength : BitVec 32}
      {func : ShareFunc} {s s' : Sharing m} {ret : FfaValue} (free : s.shareStates i = none)
      (receivers : region.receiverCount = 1 ∨ region.receiverCount = 2)
        (fits : fragmentLength.toNat ≤ hfMailboxSize)
      (returned : ffaMemorySend vm page region memoryShareLength fragmentLength func s = .ok (ret, vm', s'))
      (stored : s'.shareStates i ≠ none) :
      Sending m i (readConstituents region.bytes (region.compositeOffset + 16)
        ((fragmentLength.toNat - (region.compositeOffset + 16)) / 16)) s'
  | more {vm vm' : Vm m} {page : PageNumber} {fragment : Bytes} {fragmentLength : BitVec 32}
      {s s' : Sharing m}
      {ret : FfaValue} {sent : List Constituent} (sending : Sending m i sent s)
        (least : 16 ≤ fragmentLength.toNat)
      (fits : fragmentLength.toNat ≤ hfMailboxSize)
      (returned : ffaMemorySendContinue vm page fragment fragmentLength
        (platFfaMemoryHandleMake m i) s = .ok (ret, vm', s'))
      (accepted : ret.func ≠ ffaError32) :
        Sending m i (sent ++ readConstituents fragment 0 (fragmentLength.toNat / 16)) s'
  | between {s s' : Sharing m} {sent : List Constituent} {state state' : ShareState}
      (sending : Sending m i sent s)
      (before : s.shareStates i = some state) (after : s'.shareStates i = some state')
        (same : state.SameTransfer state') :
      Sending m i sent s'

/-- The share state of a transaction in which a list has been sent so far. -/
structure ShareState.SentAs (state : ShareState) (sent : List Constituent) : Prop where
  receivers : state.memoryRegion.receiverCount = 1 ∨ state.memoryRegion.receiverCount = 2
  header : 32 + 16 * state.memoryRegion.receiverCount.toNat ≤ state.memoryRegion.compositeOffset
  inside : state.memoryRegion.compositeOffset + 16 + 16 * state.fragments.counts 0 ≤ hfMailboxSize
  first : state.fragments.constituents 0 =
    constituentsFrom state.memoryRegion.bytes (state.memoryRegion.compositeOffset + 16)
  some : 1 ≤ state.fragments.count
  few : state.fragments.count ≤ maxFragments
  sizes : ∀ k, 1 ≤ k → k < state.fragments.count → 1 ≤ state.fragments.counts k ∧
    state.fragments.counts k ≤ hfMailboxSize / 16
  list : sent = state.fragments.rows state.fragments.count

/-- The composite descriptor announces as many bytes as have been sent. -/
def ShareState.Announced (state : ShareState) : Prop :=
  16 * state.memoryRegion.constituentCount % 2 ^ 32 = 16 * state.fragments.total state.fragments.count

theorem ShareState.SentAs.congr {state' : ShareState} (sentAs : state.SentAs sent)
    (region : state'.memoryRegion = state.memoryRegion) (fragments : state'.fragments = state.fragments) :
    state'.SentAs sent := by
  obtain ⟨receivers, header, inside, first, some, few, sizes, list⟩ := sentAs
  rw [← region, ← fragments] at *
  exact ⟨receivers, header, inside, first, some, few, sizes, list⟩

variable {vm vm' : Vm m} {i : Fin maxMemShares} {s s' : Sharing m} {ret : FfaValue}

/-- Completing a transaction stores its share state or frees it. -/
theorem ffaMemorySendComplete_slot {mode : Mode}
    (ran : ffaMemorySendComplete vm s i state = .ok (ret, mode, vm', s')) :
    s'.shareStates = update s.shareStates i (some (state.complete mode)) ∨
      ret.func = ffaError32 ∧ s'.shareStates = update s.shareStates i none := by
  simp only [ffaMemorySendComplete, bind_ok_iff] at ran
  obtain ⟨⟨stored, r⟩, -, ran⟩ := ran
  cases result : r.ret with
  | ok done =>
    simp only [result] at ran
    cases ran
    exact .inl rfl
  | error e =>
    simp only [result] at ran
    cases ran
    exact .inr ⟨rfl, rfl⟩

/-- The share state that a descriptor opens. If the message is the whole transaction, then the length
of the message is what the descriptor announces. -/
theorem allocateShareState_sentAs {region' : MemoryRegion} {flags : RegionFlags} {j : Fin maxMemShares}
    (receivers : region.receiverCount = 1 ∨ region.receiverCount = 2)
    (fits : fragmentLength.toNat ≤ hfMailboxSize)
    (validation : ffaMemorySendValidate vm region memoryShareLength fragmentLength func = .ok (.ok region'))
    (allocation : allocateShareState m states func page { region' with flags }
      fragmentLength ffaMemoryHandleInvalid = .ok (some (j, state))) :
    state.SentAs (readConstituents region.bytes (region.compositeOffset + 16)
        ((fragmentLength.toNat - (region.compositeOffset + 16)) / 16)) ∧
      state.sendingComplete = false ∧ (fragmentLength = memoryShareLength → state.Announced) := by
  obtain ⟨after, readable, before, length, validated⟩ := ffaMemorySendValidate_bounds validation
  obtain ⟨-, handle, -, state_eq⟩ := allocateShareState_some allocation
  have receiverCount : state.memoryRegion.receiverCount = region.receiverCount := by
    rw [state_eq]
    exact validated.same.receiverCount
  have bytes : state.memoryRegion.bytes = region.bytes := by
    rw [state_eq]
    exact validated.same.bytes
  have offset : state.memoryRegion.compositeOffset = region.compositeOffset := by
    rw [state_eq]
    exact congrArg BitVec.toNat (validated.same.composite 0)
  have fragments : state.fragments = firstFragment region fragmentLength := by
    rw [state_eq]
    exact validated.firstFragment_eq fragmentLength
  have constituentCount : state.memoryRegion.constituentCount = region.constituentCount := by
    rw [MemoryRegion.constituentCount, MemoryRegion.constituentCount, offset, bytes]
  have limit : hfMailboxSize = 4096 := rfl
  have one : (firstFragment region fragmentLength).count = 1 := rfl
  have counts : (firstFragment region fragmentLength).counts 0 =
      (fragmentLength.toNat - (region.compositeOffset + 16)) / 16 := firstFragment_counts_zero (by omega)
  refine ⟨⟨?_, ?_, ?_, ?_, ?_, ?_, ?_, ?_⟩, ?_, fun whole => ?_⟩
  · rwa [receiverCount]
  · rw [receiverCount, offset]
    rcases receivers with one | two
    · rw [one] at after ⊢
      exact after
    · rw [two] at after ⊢
      exact after
  · rw [offset, fragments, counts]
    omega
  · rw [offset, bytes, fragments]
    rfl
  · rw [fragments, one]
  · rw [fragments, one]
    decide
  · rw [fragments, one]
    omega
  · rw [fragments, one, ← counts, Fragments.rows_one]
    rfl
  · rw [state_eq]
  · rw [ShareState.Announced, constituentCount, fragments, one, Fragments.total_one, counts]
    have lengths := congrArg BitVec.toNat whole
    omega

/-- A transaction in which a list has been sent so far is in slot `i`. -/
def SentIn (i : Fin maxMemShares) (sent : List Constituent) (states : ShareStates) : Prop :=
  ∃ state, states i = some state ∧ state.SentAs sent ∧ (state.sendingComplete = true → state.Announced)

/-- The first message. -/
theorem ffaMemorySend_sentIn (free : s.shareStates i = none)
    (receivers : region.receiverCount = 1 ∨ region.receiverCount = 2)
    (fits : fragmentLength.toNat ≤ hfMailboxSize)
    (ran : ffaMemorySend vm page region memoryShareLength fragmentLength func s = .ok (ret, vm', s'))
    (stored : s'.shareStates i ≠ none) :
    SentIn i (readConstituents region.bytes (region.compositeOffset + 16)
      ((fragmentLength.toNat - (region.compositeOffset + 16)) / 16)) s'.shareStates := by
  simp only [ffaMemorySend, bind_ok_iff] at ran
  obtain ⟨validated, validation, ran⟩ := ran
  cases validated with
  | error e =>
    cases ran
    exact absurd free stored
  | ok region' =>
    obtain ⟨slot, allocation, ran⟩ := bind_ok_iff.mp ran
    cases slot with
    | none =>
      cases ran
      exact absurd free stored
    | some allocated =>
      obtain ⟨j, state⟩ := allocated
      obtain ⟨sentAs, incomplete, announced⟩ := allocateShareState_sentAs receivers fits validation allocation
      -- The slot that is taken is the one that has been free before.
      have here {states' : ShareStates} {stored' : Option ShareState}
          (update : states' = update s.shareStates j stored')
          (taken : states' i ≠ none) : states' i = stored' := by
        by_cases same : i = j
        · rw [update, same, update_self]
        · rw [update, update_of_ne same] at taken
          exact absurd free taken
      simp only at ran
      split at ran
      · next whole =>
        obtain ⟨⟨ret₁, mode, vm₁, s₁⟩, completion, ⟨⟩⟩ := bind_ok_iff.mp ran
        rcases ffaMemorySendComplete_slot completion with complete | ⟨-, freed⟩
        · exact ⟨_, here complete stored, sentAs.congr rfl rfl, fun _ => announced whole⟩
        · exact absurd (here freed stored) stored
      · cases ran
        refine ⟨state, here rfl stored, sentAs, fun complete => ?_⟩
        rw [incomplete] at complete
        cases complete

theorem Fragments.rows_add (f : Fragments) (fragment : Bytes) (length : BitVec 32) :
    (f.add fragment length).rows (f.count + 1) = f.rows f.count ++ readConstituents fragment 0
      (length.toNat / 16) := by
  have last : (f.add fragment length).row f.count = readConstituents fragment 0 (length.toNat / 16) := by
    simp only [row, add, update_self]
    rfl
  have before : (f.add fragment length).rows f.count = f.rows f.count := by
    refine List.flatMap_congr fun k member => ?_
    have other : k ≠ f.count := (List.mem_range.mp member).ne
    simp only [row, add, update_of_ne other]
  rw [rows_succ, before, last]

/-- One more fragment. -/
theorem ShareState.SentAs.addFragment (sentAs : state.SentAs sent)
    (room : state.fragments.count ≠ maxFragments) (page : PageNumber) (fragment : Bytes)
    (least : 16 ≤ fragmentLength.toNat) (fits : fragmentLength.toNat ≤ hfMailboxSize) :
    (state.addFragment page fragment fragmentLength).SentAs
      (sent ++ readConstituents fragment 0 (fragmentLength.toNat / 16)) := by
  obtain ⟨receivers, header, inside, first, some, few, sizes, list⟩ := sentAs
  have later : 0 ≠ state.fragments.count := by omega
  have count : (state.addFragment page fragment fragmentLength).fragments.count =
      state.fragments.count + 1 := rfl
  have old (k : Nat) (other : k ≠ state.fragments.count) :
      (state.addFragment page fragment fragmentLength).fragments.counts k = state.fragments.counts k :=
    update_of_ne other _ _
  have new : (state.addFragment page fragment fragmentLength).fragments.counts state.fragments.count =
      fragmentLength.toNat / 16 := update_self _ _ _
  refine ⟨receivers, header, ?_, ?_, ?_, ?_, ?_, ?_⟩
  · rw [old 0 later]
    exact inside
  · exact (update_of_ne later _ _).trans first
  · omega
  · omega
  · intro k positive below
    by_cases last : k = state.fragments.count
    · rw [last, new]
      omega
    · rw [old k last]
      exact sizes k positive (by omega)
  · rw [count, list]
    exact (Fragments.rows_add _ _ _).symm

/-- Lengths in bytes do not wrap around in 32 bits. -/
theorem ShareState.SentAs.total_small (sentAs : state.SentAs sent) :
    ∀ k ≤ state.fragments.count, state.fragments.total k ≤ 256 * k := by
  intro k bound
  have limit : hfMailboxSize = 4096 := rfl
  induction k with
  | zero => exact le_refl 0
  | succ k ih =>
    have one : state.fragments.counts k ≤ 256 := by
      by_cases first : k = 0
      · have inside := sentAs.inside
        rw [first]
        omega
      · exact (sentAs.sizes k (by omega) bound).2
    rw [Fragments.total_succ]
    omega

/-- All fragments have arrived when there are as many constituents as announced. -/
theorem ShareState.SentAs.announced (sentAs : state.SentAs sent)
    (complete : shareStateSendingComplete state = .ok true) : state.Announced := by
  simp only [shareStateSendingComplete, bind_ok_iff, ffaMemoryRegionGetComposite] at complete
  obtain ⟨composite, header, counted⟩ := complete
  split at header
  · cases header
  · cases header
    have same : state.fragments.total state.fragments.count % 2 ^ 32 =
        state.memoryRegion.constituentCount := by
      exact congrArg BitVec.toNat (of_decide_eq_true (Except.ok.inj counted))
    have limit : maxFragments = 20 := rfl
    have small := sentAs.total_small _ (le_refl _)
    have few := sentAs.few
    rw [ShareState.Announced]
    omega

theorem ffaMemorySendContinue_sentIn {fragment : Bytes} (sentIn : SentIn i sent s.shareStates)
    (least : 16 ≤ fragmentLength.toNat) (fits : fragmentLength.toNat ≤ hfMailboxSize)
    (ran : ffaMemorySendContinue vm page fragment fragmentLength (platFfaMemoryHandleMake m i)
      s = .ok (ret, vm', s')) (accepted : ret.func ≠ ffaError32) :
    SentIn i (sent ++ readConstituents fragment 0 (fragmentLength.toNat / 16)) s'.shareStates := by
  obtain ⟨state, held, sentAs, -⟩ := sentIn
  simp only [ffaMemorySendContinue] at ran
  split at ran
  · cases ran
    exact absurd rfl accepted
  · next j state' s₁ validation =>
    obtain ⟨rfl, lookup, -, unsent, room⟩ := ffaMemorySendContinueValidate_ok validation
    obtain ⟨rfl, rfl⟩ : j = i ∧ state' = state := by
      have found := getShareState_index (platFfaMemoryHandleMake_own i)
        (ffaMemoryHandleGetIndex_make (m := m) i) held
      rw [found] at lookup
      cases lookup
      exact ⟨rfl, rfl⟩
    split at ran
    · cases ran
      exact absurd rfl accepted
    · have sentAs' := sentAs.addFragment room page fragment least fits
      obtain ⟨complete, completeness, ran⟩ := bind_ok_iff.mp ran
      split at ran
      · next last =>
        obtain ⟨⟨ret₁, mode, vm₁, s₁⟩, completion, ⟨⟩⟩ := bind_ok_iff.mp ran
        rcases ffaMemorySendComplete_slot completion with stored | ⟨failed, -⟩
        · rw [stored, SentIn, update_self]
          refine ⟨_, rfl, sentAs'.congr rfl rfl, fun _ => ?_⟩
          exact sentAs'.announced (last ▸ completeness)
        · exact absurd failed accepted
      · obtain ⟨offset, -, ⟨⟩⟩ := bind_ok_iff.mp ran
        refine ⟨_, update_self _ _ _, sentAs', fun complete => ?_⟩
        cases unsent.symm.trans complete

/-- What a sender has sent is in the share state. -/
theorem Sending.sentIn (sending : Sending m i sent s) : SentIn i sent s.shareStates := by
  induction sending with
  | first free receivers fits ran stored => exact ffaMemorySend_sentIn free receivers fits ran stored
  | more _ least fits ran accepted ih => exact ffaMemorySendContinue_sentIn ih least fits ran accepted
  | between _ before after same ih =>
    obtain ⟨state, held, sentAs, announced⟩ := ih
    cases before.symm.trans held
    refine ⟨_, after, sentAs.congr same.memoryRegion same.fragments, fun complete => ?_⟩
    rw [ShareState.Announced, same.memoryRegion, same.fragments]
    exact announced (same.sendingComplete ▸ complete)

/-! ## Receiving -/

/-- A receiver with the given identifier retrieves the transaction of a share state in slot `i` and
then asks for one fragment after another, until it has as many bytes as were announced. Counts the
fragments, the bytes delivered and the bytes announced, and collects the constituents. Other calls
between may change the share state, but not this transfer. -/
inductive Receiving (m : MmConfig) (i : Fin maxMemShares) (state : ShareState) (id : VmId) :
    (fetched delivered announced : Nat) → (got : List Constituent) → Sharing m → Prop
  | retrieved {vm vm' : Vm m} {request : MemoryRegion} {requestLength : BitVec 32} {permissions : Permissions}
      {stale : Bytes} {s s' : Sharing m} {ret : FfaValue} (receiver : vm.id = id)
      (found : getShareState m s.shareStates request.handle = some (i, state))
      (granted : ffaMemoryRetrieveValidateMemoryAccessList state.memoryRegion request id =
        .ok (.ok permissions))
      (returned : ffaMemoryRetrieve vm request requestLength s = .ok (ret, vm', s'))
      (success : ret.func = ffaMemRetrieveResp32) :
      Receiving m i state id 1 ret.arg2.toNat ret.arg1.toNat
        (receivedConstituents (retrieveResponse state request.handle id permissions stale) ret.arg2.toNat) s'
  | fetched {vm vm' : Vm m} {k n announced : Nat} {got : List Constituent} {stale : Bytes}
      {current : ShareState}
      {s s' : Sharing m} {ret : FfaValue} (receiving : Receiving m i state id k n announced got s)
      (unfinished : n < announced) (receiver : vm.id = id) (held : s.shareStates i = some current)
      (returned : ffaMemoryRetrieveContinue vm (platFfaMemoryHandleMake m i) (BitVec.ofNat 32 n)
        s = .ok (ret, vm', s'))
      (success : ret.func = ffaMemFragTx32) :
      Receiving m i state id (k + 1) (n + ret.arg3.toNat) announced
        (got ++ readConstituents (fragmentMessage current.fragments
          (current.retrievedFragmentCount 0) stale) 0 (ret.arg3.toNat / 16)) s'
  | between {k n announced : Nat} {got : List Constituent} {current current' : ShareState} {s s' : Sharing m}
      (receiving : Receiving m i state id k n announced got s) (before : s.shareStates i = some current)
      (after : s'.shareStates i = some current') (same : current.SameTransfer current')
      (mine : current'.retrievedFragmentCount (ffaMemoryRegionGetReceiver state.memoryRegion id) =
        current.retrievedFragmentCount (ffaMemoryRegionGetReceiver state.memoryRegion id)) :
      Receiving m i state id k n announced got s'

/-- The lengths of a response. -/
theorem ffaRetrievedMemoryRegionInit_ok {composite : Composite} {totalLength : BitVec 32}
    (header : ffaMemoryRegionGetComposite hfMailboxSize state.memoryRegion 0 = .ok composite)
    (lengths : ffaRetrievedMemoryRegionInit state composite = .ok (totalLength, fragmentLength)) :
    (totalLength.setWidth 64).toNat = (responseHeaderSize +
      16 * state.memoryRegion.constituentCount) % 2 ^ 32 ∧
      (fragmentLength.setWidth 64).toNat = responseHeaderSize + 16 * state.fragments.counts 0 := by
  rw [ffaMemoryRegionGetComposite] at header
  split at header
  · cases header
  · cases header
    rw [ffaRetrievedMemoryRegionInit] at lengths
    split at lengths
    · cases lengths
    · next fits =>
      cases lengths
      have sixteen : BitVec.toNat (16 : BitVec 32) = 16 := rfl
      have limit : hfMailboxSize = 4096 := rfl
      simp only [BitVec.toNat_setWidth, BitVec.toNat_add, BitVec.toNat_mul, BitVec.toNat_ofNat, sixteen,
        MemoryRegion.constituentCount, MemoryRegion.compositeOffset]
      omega

/-- The answer to a retrieve request that succeeds. -/
theorem ffaMemoryRetrieve_response {request : MemoryRegion} {requestLength : BitVec 32}
    (found : getShareState m s.shareStates request.handle = some (i, state))
    (ran : ffaMemoryRetrieve vm request requestLength s = .ok (ret, vm', s'))
    (success : ret.func = ffaMemRetrieveResp32) :
    state.sendingComplete = true ∧
      ffaMemoryRegionGetReceiver state.memoryRegion vm.id ≠ state.memoryRegion.receiverCount.toNat ∧
      (∃ permissions, ffaMemoryRetrieveValidateMemoryAccessList state.memoryRegion request vm.id =
        .ok (.ok permissions)) ∧
      ret.arg1.toNat = (responseHeaderSize + 16 * state.memoryRegion.constituentCount) % 2 ^ 32 ∧
      ret.arg2.toNat = responseHeaderSize + 16 * state.fragments.counts 0 ∧
      s'.shareStates = update s.shareStates i
        (state.retrieve (ffaMemoryRegionGetReceiver state.memoryRegion vm.id) 1) := by
  have refused {e : FfaError} {vm₁ : Vm m} {s₁ : Sharing m}
      (same : Except.ok (ffaError e, vm₁, s₁) = (.ok (ret, vm', s') : Run _)) : False := by
    cases same
    cases success
  simp only [ffaMemoryRetrieve, found] at ran
  split at ran
  · exact (refused ran).elim
  · split at ran
    · exact (refused ran).elim
    · next valid =>
      rw [bind_ok_iff] at ran
      obtain ⟨list, granted, ran⟩ := ran
      cases list with
      | error e => exact (refused ran).elim
      | ok permissions =>
        simp only at ran
        split at ran
        · exact (refused ran).elim
        · simp only [retrieveMap, bind_ok_iff] at ran
          obtain ⟨mode, -, r, -, ran⟩ := ran
          cases result : r.ret with
          | error e =>
            simp only [result] at ran
            exact (refused ran).elim
          | ok done =>
            simp only [result, bind_ok_iff] at ran
            obtain ⟨composite, header, ⟨totalLength, fragmentLength⟩, lengths, ⟨⟩⟩ := ran
            obtain ⟨total, fragment⟩ := ffaRetrievedMemoryRegionInit_ok header lengths
            simp only [retrieveValidateRequest, bind_ok_iff, require_ok_iff] at valid
            obtain ⟨-, complete, -, member, -⟩ := valid
            exact ⟨complete, member, ⟨_, granted⟩, total, fragment, setRetrieved_shareStates ..⟩

/-- What a request for the next fragment is checked for. The offset is that in the sender's messages. -/
structure FragmentDue (current : ShareState) (id : VmId) (offset : BitVec 32) : Prop where
  receiver : (current.memoryRegion.receivers 0).receiver = id
  complete : current.sendingComplete = true
  started : current.retrievedFragmentCount 0 ≠ 0
  unfinished : current.retrievedFragmentCount 0 < current.fragments.count
  position : shareStateFragmentOffset current (current.retrievedFragmentCount 0) = .ok offset
  fits : current.fragments.counts (current.retrievedFragmentCount 0) ≤ hfMailboxSize / 16

theorem getShareState_made (held : s.shareStates i = some current) :
    getShareState m s.shareStates (platFfaMemoryHandleMake m i) = some (i, current) :=
  getShareState_index (platFfaMemoryHandleMake_own i) (ffaMemoryHandleGetIndex_make (m := m) i) held

/-- A request for the next fragment that is answered. -/
theorem ffaMemoryRetrieveContinue_answer (held : s.shareStates i = some current)
    (ran : ffaMemoryRetrieveContinue vm (platFfaMemoryHandleMake m i) offset s = .ok (ret, vm', s'))
    (success : ret.func = ffaMemFragTx32) :
    FragmentDue current vm.id offset ∧
      ret.arg3.toNat = 16 * current.fragments.counts (current.retrievedFragmentCount 0) ∧
      s'.shareStates = update s.shareStates i
        (current.retrieve 0 (current.retrievedFragmentCount 0 + 1)) := by
  have refused {e : FfaError} (same : Except.ok (ffaError e, vm,
      s) = (.ok (ret, vm', s') : Run _)) : False := by
    cases same
    cases success
  simp only [ffaMemoryRetrieveContinue, getShareState_made held] at ran
  split at ran
  · exact (refused ran).elim
  · next valid =>
    simp only [retrieveContinueValidate, bind_ok_iff, require_ok_iff, not_or, ge_iff_le, not_le] at valid
    obtain ⟨-, receiver, -, complete, started, unfinished⟩ := valid
    obtain ⟨expected, position, ran⟩ := bind_ok_iff.mp ran
    split at ran
    · exact (refused ran).elim
    · next same =>
      cases not_not.mp same
      split at ran
      · cases ran
      · next fits =>
        cases ran
        have limit : hfMailboxSize = 4096 := rfl
        refine ⟨⟨receiver, complete, started, unfinished, position, not_lt.mp fits⟩, ?_,
          setRetrieved_shareStates ..⟩
        rw [BitVec.toNat_ofNat]
        omega

/-- A request for the next fragment that passes the checks is answered. -/
theorem FragmentDue.answered (due : FragmentDue current vm.id offset)
    (held : s.shareStates i = some current) :
    ∃ ret vm' s', ffaMemoryRetrieveContinue vm (platFfaMemoryHandleMake m i) offset s = .ok (ret, vm', s') ∧
      ret.func = ffaMemFragTx32 := by
  have valid : retrieveContinueValidate current vm.id = .ok () := by
    simp only [retrieveContinueValidate, bind_ok_iff, require_ok_iff, not_or, ge_iff_le, not_le]
    exact ⟨(), due.receiver, (), due.complete, due.started, due.unfinished⟩
  simp only [ffaMemoryRetrieveContinue, getShareState_made held, valid, due.position]
  exact ⟨_, _, _, bind_ok_iff.mpr ⟨offset, rfl,
    (if_neg (not_not.mpr rfl)).trans (if_neg (not_lt.mpr due.fits))⟩, rfl⟩

theorem ShareState.SentAs.receiverCount_pos (sentAs : state.SentAs sent) :
    0 < state.memoryRegion.receiverCount.toNat := by
  rcases sentAs.receivers with one | two
  · rw [one]
    decide
  · rw [two]
    decide

/-- The position of a fragment in the sender's messages. -/
theorem ShareState.SentAs.position (sentAs : state.SentAs sent) (k : Nat) :
    shareStateFragmentOffset state k =
      .ok (BitVec.ofNat 32 (state.memoryRegion.compositeOffset + 16 + 16 * state.fragments.total k)) := by
  have header := sentAs.header
  have nonzero : (state.memoryRegion.receivers 0).compositeMemoryRegionOffset ≠ 0 := by
    intro zero
    rw [MemoryRegion.compositeOffset, zero] at header
    exact absurd header (by simp)
  rw [shareStateFragmentOffset, ffaCompositeConstituentOffset,
    if_neg (not_not.mpr sentAs.receiverCount_pos), if_neg nonzero]
  refine congrArg Except.ok ?_
  apply BitVec.eq_of_toNat_eq
  have sixteen : BitVec.toNat (16 : BitVec 32) = 16 := rfl
  simp only [BitVec.toNat_add, BitVec.toNat_ofNat, sixteen, MemoryRegion.compositeOffset]
  omega

/-- What a receiver has got after `k` fragments. -/
structure Progress (i : Fin maxMemShares) (state : ShareState) (id : VmId) (k n announced : Nat)
    (got : List Constituent) (states : ShareStates) : Prop where
  started : 1 ≤ k
  bounded : k ≤ state.fragments.count
  delivered : n = responseHeaderSize + 16 * state.fragments.total k
  announced : announced = responseHeaderSize + 16 * state.fragments.total state.fragments.count
  got : got = state.fragments.rows k
  held : k < state.fragments.count → ∃ current, states i = some current ∧
    current.memoryRegion = state.memoryRegion ∧
    current.fragments = state.fragments ∧ current.sendingComplete = true ∧
    current.retrievedFragmentCount (ffaMemoryRegionGetReceiver state.memoryRegion id) = k

/-- A share state keeps its slot until all fragments are retrieved. -/
theorem ShareState.retrieve_unfinished {receiverIndex count : Nat}
    (unfinished : count < state.fragments.count) :
    state.retrieve receiverIndex count =
      some { state with retrievedFragmentCount := update state.retrievedFragmentCount receiverIndex count } :=
  if_neg fun last => unfinished.ne last.1

/-- The first receiver is found first. -/
theorem ffaMemoryRegionGetReceiver_first (some : 0 < region.receiverCount.toNat) :
    ffaMemoryRegionGetReceiver region (region.receivers 0).receiver = 0 := by
  obtain ⟨count, succ⟩ := Nat.exists_eq_succ_of_ne_zero some.ne'
  rw [ffaMemoryRegionGetReceiver, succ, List.range_succ_eq_map, List.find?_cons_of_pos (by simp)]
  rfl

section Receiving

variable {id : VmId} {k n announced : Nat} {got : List Constituent}

theorem Progress.fetch (sentAs : state.SentAs sent)
    (progress : Progress i state id k n announced got s.shareStates) (unfinished : n < announced)
    (receiver : vm.id = id) (held : s.shareStates i = some current)
    (ran : ffaMemoryRetrieveContinue vm (platFfaMemoryHandleMake m i) (BitVec.ofNat 32 n)
      s = .ok (ret, vm', s')) (success : ret.func = ffaMemFragTx32) :
    Progress i state id (k + 1) (n + ret.arg3.toNat) announced
      (got ++ readConstituents (fragmentMessage current.fragments (current.retrievedFragmentCount 0) stale) 0
        (ret.arg3.toNat / 16)) s'.shareStates := by
  obtain ⟨started, bounded, delivered, announced_eq, got_eq, held'⟩ := progress
  obtain ⟨due, length, becomes⟩ := ffaMemoryRetrieveContinue_answer held ran success
  have below : k < state.fragments.count := by
    refine lt_of_le_of_ne bounded fun all => ?_
    rw [delivered, announced_eq, all] at unfinished
    exact unfinished.false
  obtain ⟨current', here, region, fragments, complete, mine⟩ := held' below
  cases held.symm.trans here
  have first : ffaMemoryRegionGetReceiver state.memoryRegion id = 0 := by
    rw [← receiver, ← due.receiver, region]
    exact ffaMemoryRegionGetReceiver_first sentAs.receiverCount_pos
  rw [first] at mine
  rw [mine, fragments] at length
  refine ⟨by omega, below, ?_, announced_eq, ?_, fun below' => ?_⟩
  · rw [delivered, length, Fragments.total_succ]
    omega
  · have count : ret.arg3.toNat / 16 = (state.fragments.row k).length := by
      rw [length, Fragments.length_row]
      omega
    rw [got_eq, mine, fragments, count, fragmentMessage, readConstituents_putConstituents,
      Fragments.rows_succ]
  · rw [becomes, update_self, mine, ShareState.retrieve_unfinished (by rwa [fragments]), first]
    exact ⟨_, rfl, region, fragments, complete, update_self 0 (k + 1) current.retrievedFragmentCount⟩

/-- What a receiver has got, as long as it goes on. -/
theorem Receiving.progress (sentAs : state.SentAs sent)
    (complete : state.sendingComplete = true → state.Announced)
    (receiving : Receiving m i state id k n announced got s) :
    Progress i state id k n announced got s.shareStates := by
  have most : maxFragments = 20 := rfl
  have header : responseHeaderSize = 64 := rfl
  induction receiving with
  | retrieved receiver found granted ran success =>
    obtain ⟨sendingComplete, -, -, total, fragment, becomes⟩ := ffaMemoryRetrieve_response found ran success
    have announced := complete sendingComplete
    rw [ShareState.Announced] at announced
    have small := sentAs.total_small _ (le_refl _)
    have few := sentAs.few
    refine ⟨le_refl 1, sentAs.some, ?_, ?_, ?_, fun below => ?_⟩
    · rw [fragment, Fragments.total_one]
    · omega
    · rw [receivedConstituents_retrieveResponse fragment, Fragments.rows_one, Fragments.row, sentAs.first]
      rfl
    · rw [becomes, update_self, ShareState.retrieve_unfinished below, receiver]
      exact ⟨_, rfl, rfl, rfl, sendingComplete, update_self _ 1 state.retrievedFragmentCount⟩
  | fetched _ unfinished receiver held ran success ih =>
    exact ih.fetch sentAs unfinished receiver held ran success
  | between _ before after same mine ih =>
    refine { ih with held := fun below => ?_ }
    obtain ⟨current, here, region, fragments, sendingComplete, count⟩ := ih.held below
    cases before.symm.trans here
    exact ⟨_, after, same.memoryRegion.trans region, same.fragments.trans fragments,
      same.sendingComplete.trans sendingComplete, mine.trans count⟩

/-- What a receiver may rely on: as long as it has less than was announced, it gets more, and then it
has what was sent. -/
structure Served (m : MmConfig) (i : Fin maxMemShares) (sent : List Constituent) (id : VmId)
    (n announced : Nat) (got : List Constituent) (s : Sharing m) : Prop where
  next : n < announced → ∀ vm : Vm m, vm.id = id → ∃ ret vm' s',
    ffaMemoryRetrieveContinue vm (platFfaMemoryHandleMake m i) (BitVec.ofNat 32 n) s = .ok (ret, vm', s') ∧
      ret.func = ffaMemFragTx32 ∧ 0 < ret.arg3.toNat
  bounded : n ≤ announced
  complete : n = announced → got = sent

/-- Every fragment but the first one has constituents. -/
theorem ShareState.SentAs.total_lt (sentAs : state.SentAs sent) (started : 1 ≤ k)
    (below : k < state.fragments.count) :
    state.fragments.total k < state.fragments.total state.fragments.count := by
  have step : Monotone state.fragments.total :=
    monotone_nat_of_le_succ fun j => by rw [Fragments.total_succ]; exact Nat.le_add_right _ _
  have positive := (sentAs.sizes k started below).1
  calc state.fragments.total k < state.fragments.total (k + 1) := by
        rw [Fragments.total_succ]
        omega
    _ ≤ state.fragments.total state.fragments.count := step below

theorem Progress.lt_iff (sentAs : state.SentAs sent)
    (progress : Progress i state id k n announced got states) :
    n < announced ↔ k < state.fragments.count := by
  rw [progress.delivered, progress.announced]
  constructor
  · intro less
    refine lt_of_le_of_ne progress.bounded fun all => ?_
    rw [all] at less
    exact less.false
  · intro below
    have less := sentAs.total_lt progress.started below
    omega

/-- A receiver that uses its own header for the offset is served if it is the only one. -/
theorem Progress.served (sentAs : state.SentAs sent)
    (progress : Progress i state id k n announced got s.shareStates)
    (same : state.fragments.count = 1 ∨
      state.memoryRegion.compositeOffset = 48 ∧ (state.memoryRegion.receivers 0).receiver = id) :
    Served m i sent id n announced got s := by
  have header : responseHeaderSize = 64 := rfl
  refine ⟨fun unfinished vm receiver => ?_, ?_, fun all => ?_⟩
  · have below := (progress.lt_iff sentAs).mp unfinished
    have started := progress.started
    obtain ⟨current, held, region, fragments, complete, count⟩ := progress.held below
    obtain ⟨offset, first⟩ : state.memoryRegion.compositeOffset = 48 ∧
        (state.memoryRegion.receivers 0).receiver = id := by
      refine same.resolve_left fun one => ?_
      omega
    rw [← first, ffaMemoryRegionGetReceiver_first sentAs.receiverCount_pos] at count
    have position : shareStateFragmentOffset current k = .ok (BitVec.ofNat 32 n) := by
      rw [(sentAs.congr region fragments).position, region, fragments, offset, progress.delivered,
        header]
    have size := sentAs.sizes k started below
    have due : FragmentDue current vm.id (BitVec.ofNat 32 n) := by
      refine ⟨?_, complete, ?_, ?_, ?_, ?_⟩
      · rw [region, first, receiver]
      · omega
      · rwa [count, fragments]
      · rwa [count]
      · rw [count, fragments]
        exact size.2
    obtain ⟨ret, vm', s', ran, success⟩ := due.answered held
    obtain ⟨-, length, -⟩ := ffaMemoryRetrieveContinue_answer held ran success
    rw [count, fragments] at length
    exact ⟨ret, vm', s', ran, success, by omega⟩
  · rcases progress.bounded.lt_or_eq with below | all
    · exact ((progress.lt_iff sentAs).mpr below).le
    · rw [progress.delivered, progress.announced, all]
  · have last : k = state.fragments.count := by
      refine progress.bounded.lt_or_eq.resolve_left fun below => ?_
      exact ((progress.lt_iff sentAs).mpr below).ne all
    rw [progress.got, last, sentAs.list]

/-- A receiver is served with the offsets that it counts itself, and gets what was sent, exactly if the
transaction is a single message or the sender's header is as long as that of the response. -/
theorem fragmented_transfer_iff {request : MemoryRegion} {requestLength : BitVec 32}
    (sending : Sending m i sent s)
    (found : getShareState m s.shareStates request.handle = some (i, state))
    (returned : ffaMemoryRetrieve vm request requestLength s = .ok (ret, vm', s'))
    (success : ret.func = ffaMemRetrieveResp32) :
    (∀ k n announced got s, Receiving m i state vm.id k n announced got s →
      Served m i sent vm.id n announced got s) ↔
      state.fragments.count = 1 ∨ state.memoryRegion.compositeOffset = 48 := by
  obtain ⟨state', held, sentAs, announced⟩ := sending.sentIn
  cases held.symm.trans (getShareState_some found)
  obtain ⟨-, member, ⟨permissions, granted⟩, -⟩ := ffaMemoryRetrieve_response found returned success
  have header : responseHeaderSize = 64 := rfl
  constructor
  · intro served
    refine or_iff_not_imp_left.mpr fun several => ?_
    have some := sentAs.some
    have start : Receiving m i state vm.id 1 ret.arg2.toNat ret.arg1.toNat (receivedConstituents
        (retrieveResponse state request.handle vm.id permissions fun _ => 0) ret.arg2.toNat) s' :=
      .retrieved rfl found granted returned success
    have progress := start.progress sentAs announced
    obtain ⟨current, held, region, fragments, -, count⟩ := progress.held (by omega)
    obtain ⟨ret', vm'', s'', answer, success', -⟩ :=
      (served _ _ _ _ _ start).next ((progress.lt_iff sentAs).mpr (by omega)) vm rfl
    obtain ⟨due, -, -⟩ := ffaMemoryRetrieveContinue_answer held answer success'
    have first : ffaMemoryRegionGetReceiver state.memoryRegion vm.id = 0 := by
      rw [← due.receiver, region]
      exact ffaMemoryRegionGetReceiver_first sentAs.receiverCount_pos
    rw [first] at count
    have position := due.position
    rw [(sentAs.congr region fragments).position, count, region, fragments, progress.delivered] at position
    have offsets := congrArg BitVec.toNat (Except.ok.inj position)
    rw [BitVec.toNat_ofNat, BitVec.toNat_ofNat] at offsets
    have inside := sentAs.inside
    have limit : hfMailboxSize = 4096 := rfl
    omega
  · rintro fits k n announced' got s receiving
    refine (receiving.progress sentAs announced).served sentAs (fits.imp_right fun offset => ⟨offset, ?_⟩)
    -- Behind two receivers the header would be longer.
    have one : state.memoryRegion.receiverCount = 1 := by
      refine sentAs.receivers.resolve_right fun two => ?_
      have long := sentAs.header
      rw [two, offset] at long
      exact absurd long (by decide)
    by_contra other
    apply member
    rw [ffaMemoryRegionGetReceiver, one]
    exact congrArg (Option.getD · 1) (List.find?_eq_none.mpr (by simpa using other))

end Receiving

/-- Partition 1 lends the page at `0x1000` to partition 2 and announces one more. -/
def lendTwoFrom (offset : Nat) : MemoryRegion :=
  memoryRegionFrom (messageOf [(0, 1), (28, 1), (32, 2), (34, 2), (36, offset), (offset + 4, 2),
    (offset + 17, 0x10), (offset + 24, 1)])

/-- The page at `0x2000`. -/
def secondPage : Bytes := messageOf [(1, 0x20), (8, 1)]

/-- Partition 2 asks for what is in the first slot. -/
def retrieveFirst : MemoryRegion := memoryRegionFrom (messageOf [(0, 1), (15, 0x80), (28, 1),
    (32, 2), (34, 2)])

/-- Partition 1 sends two pages in two messages, and partition 2 retrieves them. Checks the answer to
partition 2 and the state after it. -/
def transferInTwo (offset : Nat) (check : FfaValue → Sharing smallConfig → Bool) : Bool :=
  Partial.returns (ffaMemorySend (blockVm 1 0 none) 8 (lendTwoFrom offset) (BitVec.ofNat 32 (offset + 48))
    (BitVec.ofNat 32 (offset + 32)) .lend freshSharing) fun first =>
  (first.2.2.shareStates firstSlot).isSome &&
  Partial.returns (ffaMemorySendContinue first.2.1 9 secondPage 16
    (platFfaMemoryHandleMake smallConfig firstSlot) first.2.2) fun more =>
  decide (more.1.func ≠ ffaError32) &&
  ((more.2.2.shareStates firstSlot).any fun state => decide (state.memoryRegion.compositeOffset = offset)) &&
  Partial.returns (ffaMemoryRetrieve (blockVm 2 1 none) retrieveFirst 48 more.2.2) fun retrieved =>
  decide (retrieved.1.func = ffaMemRetrieveResp32) && check retrieved.1 retrieved.2.2

theorem transferInTwo_iff {offset : Nat} {check : FfaValue → Sharing smallConfig → Bool}
    (one : (lendTwoFrom offset).receiverCount = 1)
    (fits : (BitVec.ofNat 32 (offset + 32)).toNat ≤ hfMailboxSize)
    (run : transferInTwo offset check = true) :
    ∃ sent state s ret vm' s', Sending smallConfig firstSlot sent s ∧
      getShareState smallConfig s.shareStates retrieveFirst.handle = some (firstSlot, state) ∧
      state.memoryRegion.compositeOffset = offset ∧
      ffaMemoryRetrieve (blockVm 2 1 none) retrieveFirst 48 s = .ok (ret, vm', s') ∧
      ret.func = ffaMemRetrieveResp32 ∧ check ret s' = true := by
  obtain ⟨⟨ret₁, vm₁, s₁⟩, first, run⟩ := returns_iff.mp run
  obtain ⟨stored, run⟩ := Bool.and_eq_true_iff.mp run
  obtain ⟨⟨ret₂, vm₂, s₂⟩, more, run⟩ := returns_iff.mp run
  simp only [Bool.and_eq_true_iff] at run
  obtain ⟨⟨accepted, state⟩, run⟩ := run
  obtain ⟨⟨ret, vm', s'⟩, retrieved, run⟩ := returns_iff.mp run
  obtain ⟨success, checked⟩ := Bool.and_eq_true_iff.mp run
  obtain ⟨state, held, composite⟩ := Option.any_eq_true _ _ |>.mp state
  have sending : Sending smallConfig firstSlot _ s₂ :=
    .more (.first rfl (.inl one) fits first (Option.isSome_iff_ne_none.mp stored)) (by decide)
      (by decide) more (of_decide_eq_true accepted)
  exact ⟨_, state, s₂, ret, vm', s', sending, getShareState_made held, of_decide_eq_true composite, retrieved,
    of_decide_eq_true success, checked⟩

/-- With a header of 48 bytes in front of the composite descriptor, both pages arrive. -/
theorem fragmented_transfer_two_pages :
    ∃ sent state s, Sending smallConfig firstSlot sent s ∧
      getShareState smallConfig s.shareStates retrieveFirst.handle = some (firstSlot, state) ∧
      ∀ k n announced got s, Receiving smallConfig firstSlot state 2 k n announced got s →
        Served smallConfig firstSlot sent 2 n announced got s := by
  have run : transferInTwo 48 (fun _ _ => true) = true := by decide +kernel
  obtain ⟨sent, state, s, ret, vm', s', sending, found, offset, returned, success, -⟩ :=
    transferInTwo_iff (by decide +kernel) (by decide +kernel) run
  exact ⟨sent, state, s, sending, found,
    (fragmented_transfer_iff sending found returned success).mpr (.inr offset)⟩

/-- With a header of 64 bytes, the receiver has 80 of 96 bytes and is refused the rest. -/
theorem fragmented_transfer_refused :
    ∃ sent state s got s', Sending smallConfig firstSlot sent s ∧
      getShareState smallConfig s.shareStates retrieveFirst.handle = some (firstSlot, state) ∧
      Receiving smallConfig firstSlot state 2 1 80 96 got s' ∧
      ∃ vm'' s'', ffaMemoryRetrieveContinue (blockVm 2 1 none) (platFfaMemoryHandleMake smallConfig firstSlot)
        (BitVec.ofNat 32 80) s' = .ok (ffaError .invalidParameters, vm'', s'') := by
  have run : transferInTwo 64 (fun ret s' => decide (ret.arg2.toNat = 80 ∧ ret.arg1.toNat = 96) &&
      Partial.returns (ffaMemoryRetrieveContinue (blockVm 2 1 none)
        (platFfaMemoryHandleMake smallConfig firstSlot)
        (BitVec.ofNat 32 80) s') fun r => decide (r.1 = ffaError .invalidParameters)) = true := by
    decide +kernel
  obtain ⟨sent, state, s, ret, vm', s', sending, found, -, returned, success, checked⟩ :=
    transferInTwo_iff (by decide +kernel) (by decide +kernel) run
  obtain ⟨lengths, refused⟩ := Bool.and_eq_true_iff.mp checked
  obtain ⟨delivered, announced⟩ := of_decide_eq_true lengths
  obtain ⟨⟨ret', vm'', s''⟩, answer, error⟩ := returns_iff.mp refused
  cases of_decide_eq_true error
  obtain ⟨-, -, ⟨permissions, granted⟩, -⟩ := ffaMemoryRetrieve_response found returned success
  have start : Receiving smallConfig firstSlot state 2 1 ret.arg2.toNat ret.arg1.toNat (receivedConstituents
      (retrieveResponse state retrieveFirst.handle 2 permissions fun _ => 0) ret.arg2.toNat) s' :=
    .retrieved rfl found granted returned success
  rw [delivered, announced] at start
  exact ⟨sent, state, s, _, s', sending, found, start, vm'', s'', answer⟩

end Hafnium.Ffa
