import Hafnium.Lib.History

/-! # Mailboxes

A mailbox has a buffer while one is registered, and it is full from the delivery of a message until
the receiver releases the buffer. If a buffer is only taken away from an empty mailbox and messages
are only delivered to empty ones, then a full mailbox has a buffer, and it keeps its message until it
is released.
-/

namespace Mailboxes

open History

variable {B M : Type}

/-- A mailbox: the registered buffer with what is in it, and whether a message is in it. -/
structure Slot (B M : Type) where
  buffer : Option (B × M)
  full : Bool

/-- What may happen to a mailbox. -/
inductive Slot.Step (released : Prop) (slot : Slot B M) : Slot B M → Prop
  | stay : Slot.Step released slot slot
  | register (unset : slot.buffer = none) (buffer : B) (message : M) :
      Slot.Step released slot { slot with buffer := some (buffer, message) }
  | unregister (empty : slot.full = false) : Slot.Step released slot { slot with buffer := none }
  | deliver {buffer : B} {before : M} (registered : slot.buffer = some (buffer, before))
      (empty : slot.full = false)
      (message : M) (full : Bool) : Slot.Step released slot ⟨some (buffer, message), full⟩
  | release (allowed : released) : Slot.Step released slot { slot with full := false }

/-- A full mailbox has a buffer. -/
def Slot.Consistent (slot : Slot B M) : Prop := slot.full = true → slot.buffer.isSome

/-- A mailbox that can receive a message. -/
def Slot.Ready (slot : Slot B M) : Prop := slot.buffer.isSome ∧ slot.full = false

section Step

variable {released : Prop} {slot slot' : Slot B M}

theorem Slot.Step.consistent (step : slot.Step released slot') (consistent : slot.Consistent) :
    slot'.Consistent := by
  intro full
  cases step with
  | stay => exact consistent full
  | register => rfl
  | unregister empty => exact absurd (empty.symm.trans full) Bool.false_ne_true
  | deliver => rfl
  | release => exact absurd full Bool.false_ne_true

/-- A full mailbox stays as it is until it is released. -/
theorem Slot.Step.keeps (step : slot.Step released slot') (consistent : slot.Consistent)
    (full : slot.full = true) (notReleased : ¬released) : slot' = slot := by
  cases step with
  | stay => rfl
  | register unset =>
    have registered := consistent full
    rw [unset] at registered
    cases registered
  | unregister empty => exact absurd (empty.symm.trans full) Bool.false_ne_true
  | deliver registered empty => exact absurd (empty.symm.trans full) Bool.false_ne_true
  | release allowed => exact absurd allowed notReleased

/-- A mailbox that gets a buffer can receive a message. -/
theorem Slot.Step.ready (step : slot.Step released slot') (consistent : slot.Consistent)
    (before : slot.buffer = none) (after : slot'.buffer.isSome) : slot'.Ready := by
  have empty : slot.full = false := by
    by_contra full
    have registered := consistent (by simpa using full)
    rw [before] at registered
    cases registered
  refine ⟨after, ?_⟩
  cases step with
  | stay => exact empty
  | register => exact empty
  | unregister => cases after
  | deliver registered => cases before.symm.trans registered
  | release => rfl

end Step

section Runs

variable {State Place : Type} {step : State → Option Place → State → Prop} {slots : State → Place → Slot B M}
  {inv : State → Prop} {s s' : State} {events : List (Option Place)}

/-- Runs of a system of mailboxes. An event names the mailbox that is released, if one is. -/
theorem runs_consistent
    (each : ∀ s event s', inv s → step s event s' → inv s' ∧
      ∀ place, (slots s place).Step (event = some place) (slots s' place))
    (start : inv s) (consistent : ∀ place, (slots s place).Consistent)
    (runs : Runs step s events s') : inv s' ∧ ∀ place, (slots s' place).Consistent := by
  induction runs with
  | nil => exact ⟨start, consistent⟩
  | cons runs last ih =>
    obtain ⟨kept, steps⟩ := each _ _ _ ih.1 last
    exact ⟨kept, fun place => (steps place).consistent (ih.2 place)⟩

/-- A message stays until its mailbox is released. -/
theorem runs_keep
    (each : ∀ s event s', inv s → step s event s' → inv s' ∧
      ∀ place, (slots s place).Step (event = some place) (slots s' place))
    (start : inv s) (consistent : ∀ place, (slots s place).Consistent)
    (runs : Runs step s events s') {place : Place} (full : (slots s place).full = true)
    (notReleased : some place ∉ events) : slots s' place = slots s place := by
  induction runs with
  | nil => rfl
  | cons runs last ih =>
    rw [List.mem_cons, not_or] at notReleased
    have same := ih notReleased.2
    obtain ⟨kept, consistent'⟩ := runs_consistent each start consistent runs
    rw [← same] at full
    exact (((each _ _ _ kept last).2 place).keeps (consistent' place) full (Ne.symm notReleased.1)).trans same

end Runs

end Mailboxes
