import Hafnium.Lib.Blocks
import Mathlib.Logic.Function.Basic

/-! # Walking the blocks of a range

The loop of a block-structured table: a cursor runs through an address range one block at a time,
the item of each block is updated by a step that threads a state and may fail, and a failure ends
the walk. A second cursor, the address the blocks are mapped to, advances with the first one.

`walk_rule` is its invariant rule, and `walk_entry` says what the walk does to each item.
`scan` is the same loop over items that are only read, to find the one value all addresses of the
range share.
-/

namespace BlockWalk

open Function

variable {α σ : Type}

/-- The outcome of an update: whether it succeeded, the new value and the state left behind. -/
structure Step (σ α : Type) where
  ok : Bool
  value : α
  state : σ

/-- The outcome with its state seen through a projection. -/
def Step.map {τ : Type} (f : σ → τ) (r : Step σ α) : Step τ α := ⟨r.ok, r.value, f r.state⟩

/-- The start of the next block of the given size. -/
def nextBlock (addr size : Nat) : Nat := (addr + size) / size * size

/-- The walk; `fuel` bounds the number of items. -/
def walk (size : Nat) (step : Nat → Nat → α → σ → Step σ α) (last : Nat) :
    (fuel cursor target i : Nat) → (Nat → α) → σ → Step σ (Nat → α)
  | 0, _, _, _, items, state => ⟨true, items, state⟩
  | fuel + 1, cursor, target, i, items, state =>
    if cursor < last then
      let r := step cursor target (items i) state
      if r.ok then
        walk size step last fuel (nextBlock cursor size) (nextBlock target size) (i + 1)
          (update items i r.value) r.state
      else ⟨false, update items i r.value, r.state⟩
    else ⟨true, items, state⟩

/-- What the walk does to item `j`: it updates the item from the larger of the range's and the
block's start, or it leaves an item outside the range alone. After a failure later items of the
range are left alone too. -/
inductive ItemStep (size base first last : Nat) (R : Nat → α → Bool → α → Prop) (ok : Bool) (j : Nat)
    (item item' : α) : Prop
  | touched {itemOk : Bool} (inside : max first (base + j * size) < last)
      (after : first < base + j * size + size)
      (stepped : R (max first (base + j * size)) item itemOk item')
      (success : ok = true → itemOk = true)
  | kept (same : item' = item) (outside : ok = true → base + j * size + size ≤ first ∨
      last ≤ max first (base + j * size))

section Walk

variable {size base last n : Nat} {step : Nat → Nat → α → σ → Step σ α}
  {i cursor fuel : Nat} {I : σ → Prop}

/-- The next block starts where the block of the cursor ends. -/
theorem nextBlock_eq (aligned : base % size = 0) (lower : base + i * size ≤ cursor)
    (upper : cursor < base + i * size + size) : nextBlock cursor size = base + i * size + size := by
  obtain ⟨k, rfl⟩ := Nat.dvd_of_mod_eq_zero aligned
  have start : size * k + i * size = (k + i) * size := by ring
  rw [start] at lower upper ⊢
  rw [nextBlock, Blocks.next_start lower (by rw [Nat.succ_mul]; omega), Nat.succ_mul]

private theorem walk_running (items : Nat → α) (state : σ) (running : cursor < last) :
    walk size step last (fuel + 1) cursor cursor i items state =
      if (step cursor cursor (items i) state).ok then
        walk size step last fuel (nextBlock cursor size) (nextBlock cursor size) (i + 1)
          (update items i (step cursor cursor (items i) state).value)
            (step cursor cursor (items i) state).state
      else ⟨false, update items i (step cursor cursor (items i) state).value,
        (step cursor cursor (items i) state).state⟩ :=
  if_pos running

variable {target : Nat}

/-- An empty range changes nothing. -/
theorem walk_stopped (items : Nat → α) (state : σ) (stopped : ¬cursor < last) :
    walk size step last fuel cursor target i items state = ⟨true, items, state⟩ := by
  cases fuel with
  | zero => rfl
  | succ fuel => rw [walk, if_neg stopped]

private theorem index_lt (lower : base + i * size ≤ cursor) (running : cursor < last)
    (lastBound : last ≤ base + n * size) : i < n := by
  by_contra past
  have := Nat.mul_le_mul_right size (show n ≤ i by omega)
  omega

/-- Each item is stepped at most once, from the start of its part of the range. `P` collects what
is known of the cursor: it holds at the start of the range and at the start of every block. -/
theorem walk_entry (aligned : base % size = 0) (lastBound : last ≤ base + n * size) (P : Nat → Prop)
    (starts : ∀ j, P (base + j * size)) (R : Nat → Nat → α → Bool → α → Prop)
    (steps : ∀ j cursor item state, j < n → base + j * size ≤ cursor → cursor < base + j * size + size →
      cursor < last → P cursor → R j cursor item (step cursor cursor item state).ok
        (step cursor cursor item state).value) (fuel first i : Nat) (items : Nat → α) (state : σ)
    (enough : n ≤ i + fuel) (lower : base + i * size ≤ first)
    (upper : first < base + i * size + size) (atFirst : P first) (j : Nat) (jBound : j < n) :
    let r := walk size step last fuel first first i items state
    ItemStep size base first last (R j) r.ok j (items j) (r.value j) := by
  have scaled (k l : Nat) (le : k + 1 ≤ l) : k * size + size ≤ l * size := by
    rw [← Nat.succ_mul]
    exact Nat.mul_le_mul_right _ le
  induction fuel generalizing first i items state with
  | zero =>
    refine .kept rfl fun _ => .inl ?_
    have := scaled j i (by omega)
    omega
  | succ fuel ih =>
    by_cases running : first < last
    · have stepped := steps i first (items i) state (index_lt lower running lastBound)
        lower upper running atFirst
      have here : max first (base + i * size) = first := by omega
      rw [walk_running items state running]
      generalize step first first (items i) state = r at stepped ⊢
      obtain ⟨_ | _, item', state'⟩ := r
      · simp only [Bool.false_eq_true, if_false]
        by_cases same : j = i
        · subst same
          rw [update_self]
          exact .touched (by omega) upper (by rw [here]; exact stepped) nofun
        · rw [update_of_ne same]
          exact .kept rfl nofun
      · simp only [if_true]
        have succ : base + (i + 1) * size = base + i * size + size := by
          rw [Nat.succ_mul, Nat.add_assoc]
        rw [nextBlock_eq aligned lower upper]
        have rest := ih _ (i + 1) (update items i item') state' (by omega)
          (by omega) (by omega) (succ ▸ starts (i + 1))
        by_cases same : j = i
        · -- The item just updated lies before everything the rest of the walk touches.
          subst same
          rw [update_self] at rest
          cases rest with
          | touched inside after stepped success => omega
          | kept same outside =>
            rw [same]
            exact .touched (by omega) upper (by rw [here]; exact stepped) (fun _ => rfl)
        · rw [update_of_ne same] at rest
          have apart : j + 1 ≤ i ∨ i + 1 ≤ j := by omega
          have order : j * size + size ≤ i * size ∨ i * size + size ≤ j * size :=
            apart.imp (scaled _ _) (scaled _ _)
          cases rest with
          | touched inside after stepped success =>
            have start : max (base + i * size + size) (base + j * size) =
                max first (base + j * size) := by omega
            rw [start] at stepped inside
            exact .touched inside (by omega) stepped success
          | kept same outside => exact .kept same fun ok => by have := outside ok; omega
    · rw [walk_stopped items state running]
      exact .kept rfl fun _ => .inr (by omega)

/-- What each step keeps, the walk keeps: `Q j` holds before item `j` is stepped, and after the walk
for some `j`. -/
theorem walk_rule (aligned : base % size = 0) (lastBound : last ≤ base + n * size)
    {Q : Nat → Bool → (Nat → α) → σ → Prop} (fuel first i : Nat) (items : Nat → α) (state : σ)
    (lower : base + i * size ≤ first) (upper : first < base + i * size + size)
    (steps : ∀ j cursor items' state, i ≤ j → j < n → cursor = max first (base + j * size) →
      cursor < base + j * size + size → cursor < last → items' j = items j → Q j true items' state →
        let r := step cursor cursor (items j) state
        Q (j + 1) r.ok (update items' j r.value) r.state) (start : Q i true items state) :
    let r := walk size step last fuel first first i items state
    ∃ j, Q j r.ok r.value r.state := by
  induction fuel generalizing first i items state with
  | zero => exact ⟨i, start⟩
  | succ fuel ih =>
    by_cases running : first < last
    · have stepped := steps i first items state (Nat.le_refl _) (index_lt lower running lastBound)
        (by omega) upper running rfl start
      have succ : base + (i + 1) * size = base + i * size + size := by rw [Nat.succ_mul, Nat.add_assoc]
      rw [walk_running items state running]
      generalize step first first (items i) state = r at stepped ⊢
      obtain ⟨_ | _, item', state'⟩ := r
      · exact ⟨i + 1, stepped⟩
      · rw [if_pos rfl, nextBlock_eq aligned lower upper]
        refine ih _ (i + 1) _ state' (by omega) (by omega)
          (fun j cursor items' state after jBound from_ high inside same => ?_) stepped
        have order := Nat.mul_le_mul_right size after
        rw [update_of_ne (by omega)] at same ⊢
        exact steps j cursor items' state (by omega) jBound (by omega) high inside same
    · rw [walk_stopped items state running]
      exact ⟨i, start⟩

/-- A projection of the state that every step respects is respected by the walk. -/
theorem walk_map {τ : Type} (f : σ → τ) {step' : Nat → Nat → α → τ → Step τ α}
    (steps : ∀ cursor target item state, (step cursor target item state).map f =
      step' cursor target item (f state))
    (fuel cursor target i : Nat) (items : Nat → α) (state : σ) :
    (walk size step last fuel cursor target i items state).map f =
      walk size step' last fuel cursor target i items (f state) := by
  induction fuel generalizing cursor target i items state with
  | zero => rfl
  | succ fuel ih =>
    have stepped := steps cursor target (items i) state
    rw [walk, walk, ← stepped]
    generalize step cursor target (items i) state = r
    obtain ⟨_ | _, item', state'⟩ := r
    · split <;> rfl
    · split
      · exact ih ..
      · rfl

/-- What the first step establishes and every later one keeps holds after the walk. The later steps
start with their blocks. -/
theorem walk_establishes (aligned : base % size = 0) (lastBound : last ≤ base + n * size)
    (enough : 0 < fuel) (first i : Nat) (items : Nat → α) (state : σ)
    (lower : base + i * size ≤ first) (upper : first < base + i * size + size)
    (running : first < last) (start : I (step first first (items i) state).state)
    (steps : ∀ j, i < j → j < n → base + j * size < last → ∀ state, I state →
      I (step (base + j * size) (base + j * size) (items j) state).state) :
    I (walk size step last fuel first first i items state).state := by
  obtain ⟨fuel, rfl⟩ := Nat.exists_eq_succ_of_ne_zero (Nat.ne_of_gt enough)
  have succ : base + (i + 1) * size = base + i * size + size := by rw [Nat.succ_mul, Nat.add_assoc]
  rw [walk_running items state running]
  generalize step first first (items i) state = r at start ⊢
  obtain ⟨_ | _, item', state'⟩ := r
  · exact start
  · rw [if_pos rfl, nextBlock_eq aligned lower upper, ← succ]
    refine (walk_rule (Q := fun _ _ _ => I) aligned lastBound fuel _ (i + 1)
      _ state' (Nat.le_refl _) (by omega)
      (fun j cursor _ state after jBound from_ _ inside _ kept => ?_) start).elim fun _ kept => kept
    have order := Nat.mul_le_mul_right size after
    obtain rfl : cursor = base + j * size := by omega
    rw [update_of_ne (by omega)]
    exact steps j after jBound inside state kept

end Walk

/-! ## Reading a common value -/

variable {β : Type}

/-- Reads the items of a range one after the other; a step that finds another value than before ends
the scan. -/
def scan (size : Nat) (step : Nat → α → Option β → Option β) (last : Nat) (items : Nat → α) :
    (fuel cursor i : Nat) → Option β → Option β
  | 0, _, _, got => got
  | fuel + 1, cursor, i, got =>
    if cursor < last then
      match step cursor (items i) got with
      | none => none
      | some b => scan size step last items fuel (nextBlock cursor size) (i + 1) (some b)
    else got

/-- Starting from `got`, everything read from `first` to `last` is `b`, and something was read. -/
def Common (f : Nat → β) (first last : Nat) (got : Option β) (b : β) : Prop :=
  (got = none ∨ got = some b) ∧ (∀ a, first ≤ a → a < last → f a = b) ∧ (got = some b ∨ first < last)

variable {f : Nat → β} {first last : Nat} {got : Option β} {b : β}

theorem common_empty (empty : last ≤ first) : Common f first last got b ↔ got = some b := by
  constructor
  · rintro ⟨-, -, known | nonempty⟩
    · exact known
    · omega
  · intro known
    exact ⟨.inr known, fun a lower upper => by omega, .inl known⟩

theorem common_split {mid : Nat} (before : first < mid) (within : mid ≤ last) :
    Common f first last got b ↔ Common f first mid got b ∧ ∀ a, mid ≤ a → a < last → f a = b := by
  constructor
  · rintro ⟨start, values, -⟩
    exact ⟨⟨start, fun a lower upper => values a lower (by omega), .inr before⟩,
      fun a lower => values a (by omega)⟩
  · rintro ⟨⟨start, left, -⟩, right⟩
    refine ⟨start, fun a lower upper => ?_, .inr (by omega)⟩
    by_cases low : a < mid
    · exact left a lower low
    · exact right a (by omega) upper

theorem common_some {b' : β} :
    Common f first last (some b') b ↔ b' = b ∧ ∀ a, first ≤ a → a < last → f a = b := by
  constructor
  · rintro ⟨start, values, -⟩
    rcases start with absurd | same
    · cases absurd
    · exact ⟨Option.some.inj same, values⟩
  · rintro ⟨rfl, values⟩
    exact ⟨.inr rfl, values, .inl rfl⟩

theorem common_congr {g : Nat → β} (same : ∀ a, first ≤ a → a < last → f a = g a) :
    Common g first last got b ↔ Common f first last got b := by
  have values : (∀ a, first ≤ a → a < last → g a = b) ↔ ∀ a, first ≤ a → a < last → f a = b :=
    forall₃_congr fun a lower upper => by rw [same a lower upper]
  rw [Common, Common, values]

/-- An empty range leaves the value read so far. -/
theorem scan_stopped {size fuel cursor i : Nat} {step : Nat → α → Option β → Option β}
    {items : Nat → α} (stopped : ¬cursor < last) :
    scan size step last items fuel cursor i got = got := by
  cases fuel with
  | zero => rfl
  | succ fuel => rw [scan, if_neg stopped]

/-- A scan whose steps find the common value of their blocks finds the common value of the range. -/
theorem scan_iff {size base n : Nat} {step : Nat → α → Option β → Option β} {items : Nat → α}
    (f : Nat → β) (aligned : base % size = 0) (lastBound : last ≤ base + n * size)
    (steps : ∀ j cursor got b, j < n →
      base + j * size ≤ cursor → cursor < base + j * size + size → cursor < last →
      (step cursor (items j) got = some b ↔ Common f cursor (min last (base + j * size + size)) got b))
    (fuel first i : Nat) (got : Option β) (b : β) (enough : n ≤ i + fuel)
    (lower : base + i * size ≤ first) (upper : first < base + i * size + size) :
    scan size step last items fuel first i got = some b ↔ Common f first last got b := by
  induction fuel generalizing first i got with
  | zero =>
    have past : last ≤ first := by
      have := Nat.mul_le_mul_right size (show n ≤ i by omega)
      omega
    rw [common_empty past]
    rfl
  | succ fuel ih =>
    by_cases running : first < last
    · have found (b : β) := steps i first got b (index_lt lower running lastBound) lower upper running
      have succ : base + (i + 1) * size = base + i * size + size := by rw [Nat.succ_mul, Nat.add_assoc]
      rw [scan, if_pos running, common_split
        (show first < min last (base + i * size + size) by omega) (Nat.min_le_left ..), ← found b]
      cases stepped : step first (items i) got with
      | none => simp
      | some b' =>
        simp only [nextBlock_eq aligned lower upper]
        rw [ih _ (i + 1) (some b') (by omega) (by omega) (by omega), common_some, Option.some.injEq]
        refine and_congr_right fun _ => ⟨fun rest a low high => rest a (by omega) high,
          fun rest a low high => rest a (by omega) high⟩
    · rw [scan_stopped running, common_empty (by omega)]

end BlockWalk
