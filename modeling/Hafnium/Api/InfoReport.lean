import Hafnium.Ffa.Abi
import Mathlib.Data.Nat.Digits.Lemmas

/-! # The report to the scheduler

FFA_NOTIFICATION_INFO_GET answers with lists of IDs: that of an endpoint, then up to three of its
vCPUs. The second argument of the answer holds the number of lists and their sizes, x3 to x7 hold
the IDs. The hypervisor begins its report with the answer of the SPMC.
-/

namespace Hafnium.Api

open Ffa

def ffaNotificationsInfoGetMaxIds : Nat := 20

def ffaSuccess64 : BitVec 64 := 0xC4000061

/-- The registers of an answer, with x3 to x7 in `ids`. -/
structure InfoGetReturn where
  func : BitVec 64
  arg1 : BitVec 64 := 0
  arg2 : BitVec 64
  ids : Nat → BitVec 64

/-! ## Fields of the registers -/

def ffaNotificationsListShift (l : Nat) : Nat := 2 * (l - 1) + 12

/-- A 32-bit value may be shifted by less than 32. -/
def ifShiftable {α : Type} (shift : Nat) (a : α) : Option α := if shift < 32 then some a else none

def ffaNotificationInfoGetListsCount (ret : InfoGetReturn) : Nat :=
  ((ret.arg2 >>> 7).setWidth 32 &&& 0x1f#32).toNat

/-- Two bits of the second argument, at any place. -/
def InfoGetReturn.size (ret : InfoGetReturn) (i : Nat) : BitVec 32 :=
  ret.arg2.setWidth 32 >>> (2 * i + 12) &&& 3#32

def ffaNotificationInfoGetListSize (ret : InfoGetReturn) (listIdx : Nat) : Option (BitVec 32) :=
  ifShiftable (ffaNotificationsListShift listIdx) (ret.size (listIdx - 1))

def ffaNotificationInfoGetMorePending (ret : InfoGetReturn) : Bool := decide (ret.arg2 &&& 1 ≠ 0)

/-- IDs take two bytes each. -/
def InfoGetReturn.id (ret : InfoGetReturn) (n : Nat) : BitVec 16 :=
  (ret.ids (n / 4)).extractLsb' (16 * (n % 4)) 16

/-! ## Encoding a report -/

/-- A register after the IDs have been copied over zeros. -/
def idRegister (ids : List (BitVec 16)) (k : Nat) : BitVec 64 :=
  let id (j : Nat) := (ids.getD (4 * k + j) 0).toNat
  BitVec.ofNat 64 (id 0 + 2 ^ 16 * id 1 + 2 ^ 32 * id 2 + 2 ^ 48 * id 3)

/-- The loop over the sizes from list `i` on. -/
def addListSizes (i : Nat) : List (BitVec 32) → BitVec 64 → Option (BitVec 64)
  | [], arg2 => some arg2
  | size :: sizes, arg2 => do
    let field ← ifShiftable (ffaNotificationsListShift (i + 1))
        ((size &&& 3#32) <<< ffaNotificationsListShift (i + 1))
    addListSizes (i + 1) sizes (arg2 ||| field.setWidth 64)

/-- `none` for a failed check of `memcpy_s` or a shift that is undefined. -/
def apiFfaNotificationInfoGetSuccessReturn (ids : List (BitVec 16)) (listsSizes : List (BitVec 32))
    (morePending : Bool) : Option InfoGetReturn :=
  if 40 < 2 * ids.length then none
  else do
    let count := (BitVec.ofNat 32 listsSizes.length &&& 0x1f#32) <<< 7
    let arg2 ← addListSizes 0 listsSizes ((if morePending then 1#64 else 0) ||| count.setWidth 64)
    some { func := ffaSuccess64, arg2, ids := idRegister ids }

/-- Lists of one endpoint and up to three vCPUs, one after another. -/
structure Report where
  ids : List (BitVec 16)
  sizes : List (Fin 4)
  morePending : Bool
  counted : ids.length = sizes.length + (sizes.map Fin.val).sum
  fits : ids.length ≤ ffaNotificationsInfoGetMaxIds

def Report.listsSizes (r : Report) : List (BitVec 32) :=
  r.sizes.map fun size => BitVec.ofNat 32 size.val

/-- What a receiver reads is the report, with zeros behind the IDs. -/
structure Report.ReadFrom (r : Report) (ret : InfoGetReturn) : Prop where
  morePending : ffaNotificationInfoGetMorePending ret = r.morePending
  count : ffaNotificationInfoGetListsCount ret = r.sizes.length
  size : ∀ (i : Nat) (inside : i < r.sizes.length), ffaNotificationInfoGetListSize ret (i + 1) =
    some (BitVec.ofNat 32 r.sizes[i])
  id : ∀ n, ret.id n = r.ids.getD n 0
  rest : ret.arg1 = 0

/-- The loop adds each size behind what is there. -/
theorem addListSizes_few (i : Nat) (sizes : List (Fin 4)) (arg2 : BitVec 64)
    (few : i + sizes.length ≤ 10) (low : arg2.toNat < 2 ^ (2 * i + 12)) :
    ∃ arg2', addListSizes i (sizes.map fun size => BitVec.ofNat 32 size.val) arg2 = some arg2' ∧
      arg2'.toNat = arg2.toNat + 2 ^ (2 * i + 12) * Nat.ofDigits 4 (sizes.map Fin.val) := by
  induction sizes generalizing i arg2 with
  | nil => exact ⟨arg2, rfl, rfl⟩
  | cons size sizes ih =>
    rw [List.length_cons] at few
    have next : 2 ^ (2 * (i + 1) + 12) = 2 ^ (2 * i + 12) * 4 := by ring
    have room : 2 ^ (2 * (i + 1) + 12) ≤ 2 ^ 32 := Nat.pow_le_pow_right (by decide) (by omega)
    have small := Nat.mul_lt_mul_of_pos_left size.isLt (Nat.two_pow_pos (2 * i + 12))
    have field : (((BitVec.ofNat 32 size.val &&& 3#32) <<< (2 * i + 12)).setWidth 64).toNat =
        2 ^ (2 * i + 12) * size.val := by
      have masked : ∀ size : Fin 4, (BitVec.ofNat 32 size.val &&& 3#32).toNat = size.val := by decide
      rw [BitVec.toNat_setWidth, BitVec.toNat_shiftLeft, masked, Nat.shiftLeft_eq, Nat.mul_comm]
      omega
    have sum : (arg2 ||| ((BitVec.ofNat 32 size.val &&& 3#32) <<< (2 * i + 12)).setWidth 64).toNat =
        arg2.toNat + 2 ^ (2 * i + 12) * size.val := by
      rw [BitVec.toNat_or, field, Nat.or_comm, ← Nat.two_pow_add_eq_or_of_lt low, Nat.add_comm]
    have below : arg2.toNat + 2 ^ (2 * i + 12) * size.val < 2 ^ (2 * (i + 1) + 12) := by
      calc arg2.toNat + 2 ^ (2 * i + 12) * size.val < 2 ^ (2 * i + 12) * (size.val + 1) := by
            rw [Nat.mul_succ]; omega
        _ ≤ 2 ^ (2 * (i + 1) + 12) := by rw [next]; exact Nat.mul_le_mul_left _ size.isLt
    obtain ⟨arg2', run, value⟩ := ih (i + 1) _ (by omega) (sum ▸ below)
    refine ⟨arg2', ?_, ?_⟩
    · rw [List.map_cons, addListSizes, ifShiftable, if_pos (by rw [ffaNotificationsListShift]; omega)]
      exact run
    · rw [value, sum, next, List.map_cons, Nat.ofDigits_cons]
      ring

theorem addListSizes_many (i : Nat) (sizes : List (BitVec 32)) (arg2 : BitVec 64) (start : i ≤ 10)
    (many : 10 < i + sizes.length) : addListSizes i sizes arg2 = none := by
  induction sizes generalizing i arg2 with
  | nil => exact absurd many (Nat.not_lt.mpr start)
  | cons size sizes ih =>
    rw [List.length_cons] at many
    have shift : ffaNotificationsListShift (i + 1) = 2 * i + 12 := rfl
    rw [addListSizes, ifShiftable]
    by_cases last : i = 10
    · rw [if_neg (by omega)]
      rfl
    · rw [if_pos (by omega)]
      exact ih (i + 1) _ (by omega) (by omega)

variable {i : Nat}

theorem ofDigits_div_mod {sizes : List (Fin 4)} (inside : i < sizes.length) :
    Nat.ofDigits 4 (sizes.map Fin.val) / 4 ^ i % 4 = sizes[i].val := by
  induction sizes generalizing i with
  | nil => cases inside
  | cons size sizes ih =>
    rw [List.map_cons, Nat.ofDigits_cons]
    cases i with
    | zero =>
      rw [pow_zero, Nat.div_one, Nat.add_mul_mod_self_left]
      exact Nat.mod_eq_of_lt size.isLt
    | succ i =>
      rw [pow_succ', ← Nat.div_div_eq_div_mul, Nat.add_mul_div_left _ _ (by decide),
        Nat.div_eq_of_lt size.isLt, Nat.zero_add]
      exact ih _

theorem extract_idRegister (ids : List (BitVec 16)) (n : Nat) :
    (idRegister ids (n / 4)).extractLsb' (16 * (n % 4)) 16 = ids.getD n 0 := by
  have place : n = 4 * (n / 4) + n % 4 := by omega
  have part : n % 4 < 4 := Nat.mod_lt _ (by decide)
  generalize n / 4 = k at place ⊢
  generalize n % 4 = j at place part ⊢
  subst place
  have small (j : Nat) : (ids.getD (4 * k + j) 0).toNat < 2 ^ 16 := BitVec.isLt _
  apply BitVec.eq_of_toNat_eq
  rw [BitVec.extractLsb'_toNat, idRegister, BitVec.toNat_ofNat, Nat.shiftRight_eq_div_pow]
  obtain rfl | rfl | rfl | rfl : j = 0 ∨ j = 1 ∨ j = 2 ∨ j = 3 := by omega
  all_goals
    simp only [Nat.reduceMul, Nat.reducePow]
    omega

/-- A report is read from its registers if it has no more than ten lists. -/
theorem info_report_read_iff (r : Report) :
    (∃ ret, apiFfaNotificationInfoGetSuccessReturn r.ids r.listsSizes r.morePending = some ret ∧
      r.ReadFrom ret) ↔
      r.sizes.length ≤ 10 := by
  have fits : ¬40 < 2 * r.ids.length := by
    have := r.fits
    rw [ffaNotificationsInfoGetMaxIds] at this
    omega
  have length : r.listsSizes.length = r.sizes.length := List.length_map ..
  rw [apiFfaNotificationInfoGetSuccessReturn, if_neg fits, length]
  constructor
  · rintro ⟨ret, run, -⟩
    by_contra many
    dsimp only at run
    rw [addListSizes_many 0 _ _ (by decide) (by omega)] at run
    cases run
  · intro few
    have header : ((if r.morePending then 1#64 else 0) |||
        ((BitVec.ofNat 32 r.sizes.length &&& 0x1f#32) <<< 7).setWidth 64).toNat =
        r.morePending.toNat + 128 * r.sizes.length := by
      have all : ∀ (pending : Bool) (n : Fin 11), ((if pending then 1#64 else 0) |||
          ((BitVec.ofNat 32 n.val &&& 0x1f#32) <<< 7).setWidth 64).toNat =
            pending.toNat + 128 * n.val := by decide
      exact all r.morePending ⟨_, Nat.lt_succ_of_le few⟩
    have flag := Bool.toNat_le r.morePending
    obtain ⟨arg2, run, value⟩ := addListSizes_few 0 r.sizes _ (by omega) (header.trans_lt (by omega))
    refine ⟨_, congrArg (Option.bind · _) run, ?_, ?_, fun i inside => ?_, extract_idRegister r.ids,
      rfl⟩
    · have bit : (arg2 &&& 1).toNat = r.morePending.toNat := by
        rw [BitVec.toNat_and, show (1 : BitVec 64).toNat = 2 ^ 1 - 1 from rfl,
          Nat.and_two_pow_sub_one_eq_mod]
        omega
      have flagged : arg2 &&& 1 ≠ 0 ↔ r.morePending = true := by
        rw [ne_eq, ← BitVec.toNat_inj, bit]
        cases r.morePending <;> decide
      exact decide_eq_decide.mpr flagged |>.trans (Bool.decide_coe _)
    · change ((arg2 >>> 7).setWidth 32 &&& 0x1f#32).toNat = _
      rw [BitVec.toNat_and, BitVec.toNat_setWidth, BitVec.toNat_ushiftRight,
        show (0x1f#32).toNat = 2 ^ 5 - 1 from rfl, Nat.and_two_pow_sub_one_eq_mod,
        Nat.shiftRight_eq_div_pow]
      omega
    · have digits : Nat.ofDigits 4 (r.sizes.map Fin.val) < 4 ^ 10 := by
        refine (Nat.ofDigits_lt_base_pow_length (by decide) fun size member => ?_).trans_le
          (Nat.pow_le_pow_right (by decide) (by rwa [List.length_map]))
        obtain ⟨size, -, rfl⟩ := List.mem_map.mp member
        exact size.isLt
      have power : 2 ^ (2 * i + 12) = 2 ^ 12 * (2 ^ 2) ^ i := by rw [pow_add, pow_mul, Nat.mul_comm]
      rw [ffaNotificationInfoGetListSize, ifShiftable,
        if_pos (by rw [ffaNotificationsListShift]; omega)]
      refine congrArg some (BitVec.eq_of_toNat_eq ?_)
      rw [InfoGetReturn.size, BitVec.toNat_and, BitVec.toNat_ushiftRight, BitVec.toNat_setWidth,
        Nat.add_sub_cancel, show (3#32).toNat = 2 ^ 2 - 1 from rfl,
        Nat.and_two_pow_sub_one_eq_mod, Nat.shiftRight_eq_div_pow, power, ← Nat.div_div_eq_div_mul,
        show arg2.toNat % 2 ^ 32 / 2 ^ 12 = Nat.ofDigits 4 (r.sizes.map Fin.val) by omega]
      exact (ofDigits_div_mod inside).trans (by rw [BitVec.toNat_ofNat]; omega)

/-- Eleven endpoints with notifications, the last with one of a vCPU: its size is shifted by 32. A
processor that shifts modulo 32 sets the flag for further notifications instead. -/
theorem info_report_eleven_lists :
    let r : Report := ⟨List.replicate 12 1, List.replicate 10 0 ++ [1], false, by decide, by decide⟩
    apiFfaNotificationInfoGetSuccessReturn r.ids r.listsSizes r.morePending = none ∧
      1#32 <<< (ffaNotificationsListShift 11 % 32) = 1#32 := by
  decide

/-! ## The answer of the SPMC -/

/-- The sizes of all lists. -/
def InfoGetReturn.sizes (ret : InfoGetReturn) : Option (List (BitVec 32)) :=
  (List.range (ffaNotificationInfoGetListsCount ret)).mapM fun i =>
    ffaNotificationInfoGetListSize ret (i + 1)

theorem mapM_ifShiftable {α β : Type} (shift : α → Nat) (f : α → β) (l : List α) :
    l.mapM (fun a => ifShiftable (shift a) (f a)) =
      if ∀ a ∈ l, shift a < 32 then some (l.map f) else none := by
  induction l with
  | nil => simp
  | cons a l ih =>
    rw [List.mapM_cons, ih, ifShiftable]
    simp only [List.forall_mem_cons]
    by_cases small : shift a < 32
    · simp only [small, true_and, if_true]
      split
      · rfl
      · rfl
    · simp only [small, false_and, if_false]
      rfl

/-- Ten lists have their sizes in the second argument. -/
theorem InfoGetReturn.sizes_eq (ret : InfoGetReturn) : ret.sizes =
    if ffaNotificationInfoGetListsCount ret ≤ 10 then
      some ((List.range (ffaNotificationInfoGetListsCount ret)).map ret.size)
    else none := by
  have few : (∀ i ∈ List.range (ffaNotificationInfoGetListsCount ret),
      ffaNotificationsListShift (i + 1) < 32) ↔ ffaNotificationInfoGetListsCount ret ≤ 10 := by
    simp only [List.mem_range, ffaNotificationsListShift]
    constructor
    · intro all
      by_contra many
      have := all 10 (by omega)
      omega
    · omega
  simp only [sizes, ffaNotificationInfoGetListSize, mapM_ifShiftable, few, Nat.add_sub_cancel]

/-- The lists that the hypervisor reports, in the order of the output variables. -/
structure InfoLists where
  ids : Nat → BitVec 16
  idsCount : Nat
  listsSizes : Nat → BitVec 32
  listsCount : Nat

/-- `localListsSizes` is what the stack holds in place of `local_lists_sizes`. Of the sizes 20 bytes
are copied. -/
def platFfaNotificationInfoGetForward (ret : InfoGetReturn) (localListsSizes : Nat → BitVec 32)
    (out : InfoLists) : Option InfoLists :=
  let listsCount := ffaNotificationInfoGetListsCount ret
  if ret.func = ffaError32 then some out
  else if ffaNotificationsInfoGetMaxIds < listsCount then some { out with listsCount := 0 }
  else do
    let sizes ← ret.sizes
    let idsCount := listsCount + (sizes.map BitVec.toNat).sum
    if ffaNotificationsInfoGetMaxIds < idsCount then some { out with idsCount := 0, listsCount }
    else
      some {
        ids := fun n => if n < ffaNotificationsInfoGetMaxIds then ret.id n else out.ids n
        idsCount
        listsSizes := fun i => if i < 5 then sizes.getD i (localListsSizes i) else out.listsSizes i
        listsCount }

/-- All lists of an answer, and no sizes of more lists. -/
structure InfoLists.Delivers (out : InfoLists) (ret : InfoGetReturn) : Prop where
  count : out.listsCount = ffaNotificationInfoGetListsCount ret
  size : ∀ i < out.listsCount, ffaNotificationInfoGetListSize ret (i + 1) = some (out.listsSizes i)
  rest : ∀ i, out.listsCount ≤ i → out.listsSizes i = 0
  total : out.idsCount = out.listsCount +
    ((List.range out.listsCount).map fun i => (out.listsSizes i).toNat).sum
  most : out.idsCount ≤ ffaNotificationsInfoGetMaxIds
  id : ∀ n < out.idsCount, out.ids n = ret.id n

/-- No lists, and no sizes of lists. -/
def InfoLists.Empty (out : InfoLists) : Prop :=
  out.idsCount = 0 ∧ out.listsCount = 0 ∧ ∀ i, out.listsSizes i = 0

/-- Up to ten lists of up to 20 IDs, and nothing but zeros where sizes are not or should not be
copied. -/
structure InfoGetReturn.Copied (ret : InfoGetReturn) (localListsSizes : Nat → BitVec 32) :
    Prop where
  few : ffaNotificationInfoGetListsCount ret ≤ 10
  most : ffaNotificationInfoGetListsCount ret +
    ((List.range (ffaNotificationInfoGetListsCount ret)).map fun i => (ret.size i).toNat).sum ≤
      ffaNotificationsInfoGetMaxIds
  dropped : ∀ i, 5 ≤ i → i < ffaNotificationInfoGetListsCount ret → ret.size i = 0
  stale : ∀ i, ffaNotificationInfoGetListsCount ret ≤ i → i < 5 → localListsSizes i = 0

section Forward

variable {ret : InfoGetReturn} {localListsSizes : Nat → BitVec 32} {ids : Nat → BitVec 16}

theorem listSize_eq (few : i < 10) : ffaNotificationInfoGetListSize ret (i + 1) = some (ret.size i) :=
  if_pos (show 2 * i + 12 < 32 by omega)

/-- What is copied is all there is if nothing is lost and nothing is added. -/
theorem copied_iff {c : Nat} {out : InfoLists} (count : ffaNotificationInfoGetListsCount ret = c)
    (few : c ≤ 10) (total : out.idsCount = c + ((List.range c).map fun i => (ret.size i).toNat).sum)
    (most : out.idsCount ≤ ffaNotificationsInfoGetMaxIds) (lists : out.listsCount = c)
    (sizes : out.listsSizes = fun i =>
      if i < 5 then if i < c then ret.size i else localListsSizes i else 0)
    (copied : ∀ n < ffaNotificationsInfoGetMaxIds, out.ids n = ret.id n) :
    (out.Delivers ret ∨ out.Empty) ↔
      (∀ i, 5 ≤ i → i < c → ret.size i = 0) ∧ ∀ i, c ≤ i → i < 5 → localListsSizes i = 0 := by
  constructor
  · intro outcome
    refine ⟨fun i high inside => ?_, fun i beyond low => ?_⟩
    · rcases outcome with delivers | ⟨-, none_, -⟩
      · have size := delivers.size i (by omega)
        rw [listSize_eq (by omega), sizes] at size
        simpa [show ¬i < 5 by omega] using size
      · omega
    · have zero := outcome.elim (·.rest i (by omega)) (·.2.2 i)
      rw [sizes] at zero
      simpa [low, show ¬i < c by omega] using zero
  · rintro ⟨dropped, stale⟩
    have size (i : Nat) (inside : i < c) : out.listsSizes i = ret.size i := by
      rw [sizes]
      dsimp only
      by_cases low : i < 5
      · rw [if_pos low, if_pos inside]
      · rw [if_neg low, dropped i (by omega) inside]
    subst lists
    refine .inl ⟨count.symm, fun i inside => ?_, fun i beyond => ?_, ?_, most,
      fun n small => copied n (by omega)⟩
    · rw [size i inside, listSize_eq (by omega)]
    · rw [sizes]
      dsimp only
      split
      · next low => rw [if_neg (by omega), stale i beyond low]
      · rfl
    · rw [total]
      refine congrArg (fun l => out.listsCount + List.sum l) (List.map_congr_left fun i inside => ?_)
      rw [size i (List.mem_range.mp inside)]

end Forward

/-- The hypervisor takes over all lists of the SPMC or none if there is an error or an impossible
number of lists, or if the answer can be copied. -/
theorem info_forward_iff (ret : InfoGetReturn) (localListsSizes : Nat → BitVec 32)
    (ids : Nat → BitVec 16) :
    (∃ out, platFfaNotificationInfoGetForward ret localListsSizes ⟨ids, 0, fun _ => 0, 0⟩ = some out ∧
        (out.Delivers ret ∨ out.Empty)) ↔
      ret.func = ffaError32 ∨ ffaNotificationsInfoGetMaxIds < ffaNotificationInfoGetListsCount ret ∨
        ret.Copied localListsSizes := by
  generalize count : ffaNotificationInfoGetListsCount ret = c
  rw [platFfaNotificationInfoGetForward, ret.sizes_eq, count]
  by_cases failed : ret.func = ffaError32
  · rw [if_pos failed]
    exact iff_of_true ⟨_, rfl, .inr ⟨rfl, rfl, fun _ => rfl⟩⟩ (.inl failed)
  by_cases many : ffaNotificationsInfoGetMaxIds < c
  · rw [if_neg failed, if_pos many]
    exact iff_of_true ⟨_, rfl, .inr ⟨rfl, rfl, fun _ => rfl⟩⟩ (.inr (.inl many))
  rw [if_neg failed, if_neg many]
  simp only [failed, many, false_or]
  by_cases few : c ≤ 10
  · have entry (i : Nat) (d : BitVec 32) : ((List.range c).map ret.size).getD i d =
        if i < c then ret.size i else d := by
      by_cases inside : i < c <;> simp [inside]
    simp only [few, if_true, Option.bind_eq_bind, Option.bind_some, List.map_map, entry]
    split
    · next many =>
      refine iff_of_false ?_ fun copied => absurd many (Nat.not_lt.mpr (count ▸ copied.most))
      rintro ⟨_, ⟨⟩, outcome⟩
      obtain rfl : c = 0 := by
        rcases outcome with delivers | empty
        · have total := delivers.total
          dsimp only at total
          omega
        · exact empty.2.1
      exact absurd many (by simp)
    · next most =>
      have total := Nat.not_lt.mp most
      simp only [Option.some.injEq, exists_eq_left']
      rw [copied_iff count few rfl total rfl rfl fun n small => if_pos small]
      exact ⟨fun ⟨dropped, stale⟩ => by subst count; exact ⟨few, total, dropped, stale⟩,
        fun copied => count ▸ ⟨copied.dropped, copied.stale⟩⟩
  · rw [if_neg few]
    exact iff_of_false nofun fun copied => few (count ▸ copied.few)

/-- The size of a sixth list is lost, and ten lists of too many IDs are reported without IDs. -/
theorem info_forward_loses_sizes :
    let six : InfoGetReturn := ⟨ffaSuccess64, 0, 6 <<< 7 ||| 1 <<< 22, fun _ => 0⟩
    let ten : InfoGetReturn := ⟨ffaSuccess64, 0, 10 <<< 7 ||| 0xfffff <<< 12, fun _ => 0⟩
    ∀ ret ∈ [six, ten], ∃ out,
      platFfaNotificationInfoGetForward ret (fun _ => 0) ⟨fun _ => 0, 0, fun _ => 0, 0⟩ = some out ∧
        ¬(out.Delivers ret ∨ out.Empty) := by
  intro six ten
  let forward (ret : InfoGetReturn) :=
    platFfaNotificationInfoGetForward ret (fun _ => 0) ⟨fun _ => 0, 0, fun _ => 0, 0⟩
  have dropped : (forward six).map (fun out => (out.listsCount, out.listsSizes 5)) =
      some (6, 0) := by decide
  have kept : (forward ten).map (fun out => (out.listsCount, out.idsCount)) = some (10, 0) := by decide
  obtain ⟨out, isOut, read⟩ := Option.map_eq_some_iff.mp dropped
  obtain ⟨out', isOut', read'⟩ := Option.map_eq_some_iff.mp kept
  obtain ⟨lists, size⟩ := Prod.mk.inj read
  obtain ⟨lists', ids⟩ := Prod.mk.inj read'
  simp only [List.forall_mem_cons]
  refine ⟨⟨out, isOut, ?_⟩, ⟨out', isOut', ?_⟩, nofun⟩
  · rintro (delivers | ⟨-, none_, -⟩)
    · have sixth := delivers.size 5 (by omega)
      rw [size] at sixth
      exact absurd sixth (by decide)
    · omega
  · rintro (delivers | ⟨-, none_, -⟩)
    · have total := delivers.total
      omega
    · omega

end Hafnium.Api
