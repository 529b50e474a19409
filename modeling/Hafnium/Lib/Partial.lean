import Mathlib.Tactic.Common

/-! # Computations that may stop early -/

namespace Partial

variable {ε α β : Type} {x : Except ε α} {f : α → Except ε β} {c : Prop} {a : α} {e : ε}

/-- A sequence returns when both parts do. -/
theorem bind_ok_iff {b : β} : (x >>= f) = .ok b ↔ ∃ a, x = .ok a ∧ f a = .ok b := by
  cases x with
  | error e => simp [bind, Except.bind]
  | ok a => simp [bind, Except.bind]

/-- A guard with an early return. -/
theorem guard_ok [Decidable c] {b : α} (ran : (if c then .ok a else x) = .ok b) : a = b ∨ ¬c ∧ x = .ok b := by
  split at ran
  · exact .inl (Except.ok.inj ran)
  · next passed => exact .inr ⟨passed, ran⟩

/-- Checks of a list pass when they pass for every element. -/
theorem forM_ok_iff {check : α → Except ε Unit} {l : List α} :
    l.forM check = .ok () ↔ ∀ a ∈ l, check a = .ok () := by
  induction l with
  | nil => simp [pure, Except.pure]
  | cons head rest ih =>
    change (check head >>= fun _ => rest.forM check) = .ok () ↔ _
    rw [bind_ok_iff, List.forall_mem_cons, ← ih]
    constructor
    · rintro ⟨⟨⟩, passed⟩
      exact passed
    · intro passed
      exact ⟨(), passed⟩

/-! ## What holds of the result -/

/-- Whatever a computation returns has a property. -/
def Post (x : Except ε α) (Q : α → Prop) : Prop := ∀ a, x = .ok a → Q a

variable {y : Except ε α}

section Post

variable {Q : α → Prop} {R : β → Prop}

theorem Post.ok (holds : Q a) : Post (.ok a : Except ε α) Q := by
  rintro _ ⟨⟩
  exact holds

theorem Post.error : Post (.error e : Except ε α) Q := by
  rintro _ ⟨⟩

theorem Post.bind (first : Post x Q) (next : ∀ a, Q a → Post (f a) R) : Post (x >>= f) R := by
  intro b returned
  obtain ⟨a, ran, rest⟩ := bind_ok_iff.mp returned
  exact next a (first a ran) b rest

/-- The same, with the result of the first part. -/
theorem Post.step (next : ∀ a, x = .ok a → Post (f a) R) : Post (x >>= f) R :=
  Post.bind (fun _ ran => ran) next

/-- A guard with an early return. -/
theorem Post.guard [Decidable c] (early : Q a) (rest : ¬c → Post x Q) : Post (if c then .ok a else x) Q := by
  split
  · exact .ok early
  · next passed => exact rest passed

theorem Post.ite [Decidable c] (positive : c → Post x Q) (negative : ¬c → Post y Q) :
    Post (if c then x else y) Q := by
  split
  · next holds => exact positive holds
  · next fails => exact negative fails

end Post

/-- A computation does not stop for certain reasons. -/
def Avoids (bad : ε → Prop) (x : Except ε α) : Prop := ∀ e, x = .error e → ¬bad e

section Avoids

variable {bad : ε → Prop}

theorem Avoids.ok (a : α) : Avoids bad (.ok a : Except ε α) := nofun

theorem Avoids.error (other : ¬bad e) : Avoids bad (.error e : Except ε α) := by
  intro e' stopped
  cases stopped
  exact other

theorem Avoids.ite [Decidable c] (positive : c → Avoids bad x) (negative : ¬c → Avoids bad y) :
    Avoids bad (if c then x else y) := by
  split
  · next holds => exact positive holds
  · next fails => exact negative fails

/-- A guard with an early return. -/
theorem Avoids.guard [Decidable c] (rest : ¬c → Avoids bad x) :
    Avoids bad (if c then .ok a else x) := .ite (fun _ => .ok a) rest

theorem Avoids.bind (first : Avoids bad x) (next : ∀ a, Avoids bad (f a)) : Avoids bad (x >>= f) := by
  cases x with
  | error e => exact .error (first e rfl)
  | ok a => exact next a

/-- The same, with what the first part returned. -/
theorem Avoids.bind_ok (first : Avoids bad x) (next : ∀ a, x = .ok a → Avoids bad (f a)) :
    Avoids bad (x >>= f) := by
  cases x with
  | error e => exact .error (first e rfl)
  | ok a => exact next a rfl

/-- What follows a part that returned decides. -/
theorem avoids_bind_iff (ran : x = .ok a) : Avoids bad (x >>= f) ↔ Avoids bad (f a) := by
  rw [ran]
  rfl

theorem not_avoids_bind (stopped : x = .error e) (isBad : bad e) : ¬Avoids bad (x >>= f) := by
  rw [stopped]
  exact fun avoids => avoids e rfl isBad

end Avoids

/-- A computation returns a value that passes a check. -/
def returns (x : Except ε α) (check : α → Bool) : Bool :=
  match x with
  | .ok a => check a
  | .error _ => false

theorem returns_iff {check : α → Bool} : returns x check = true ↔ ∃ a, x = .ok a ∧ check a = true := by
  cases x with
  | error e => simp [returns]
  | ok a => simp [returns]

/-- A computation stops with the given exception. -/
def stops [DecidableEq ε] (x : Except ε α) (e : ε) : Bool :=
  match x with
  | .ok _ => false
  | .error e' => decide (e' = e)

theorem stops_iff [DecidableEq ε] : stops x e = true ↔ x = .error e := by
  cases x with
  | error e' => simp [stops]
  | ok a => simp [stops]

end Partial
