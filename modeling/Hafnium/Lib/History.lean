import Mathlib.Tactic.Common

/-! # Items that are put and taken

A system in which events put items and take them again, seen through its history. If every step
adds what its event puts and removes what it takes, then an item is pending exactly if it was put
and not taken since.
-/

namespace History

variable {State Event Item : Type}

/-- Runs of labelled steps, with the latest event first. -/
inductive Runs (step : State → Event → State → Prop) (s : State) : List Event → State → Prop
  | nil : Runs step s [] s
  | cons {events : List Event} {event : Event} {s' s'' : State} (runs : Runs step s events s')
      (last : step s' event s'') :
      Runs step s (event :: events) s''

/-- An item was put, and not taken since. -/
def PutSince (puts takes : Event → Item → Prop) (events : List Event) (item : Item) : Prop :=
  ∃ later event earlier, events = later ++ event :: earlier ∧ puts event item ∧ ∀ e ∈ later, ¬takes e item

section History

variable {puts takes : Event → Item → Prop} {item : Item}

theorem not_putSince_nil : ¬PutSince puts takes [] item := by
  rintro ⟨later, event, earlier, split, -⟩
  cases later <;> cases split

variable {event : Event} {events : List Event}

theorem putSince_cons :
    PutSince puts takes (event :: events) item ↔ puts event item ∨ PutSince puts takes events item ∧
    ¬takes event item := by
  constructor
  · rintro ⟨later, e, earlier, split, put, kept⟩
    cases later with
    | nil =>
      cases split
      exact .inl put
    | cons first rest =>
      cases split
      exact .inr ⟨⟨rest, e, earlier, rfl, put,
        fun e member => kept e (List.mem_cons_of_mem _ member)⟩, kept _ List.mem_cons_self⟩
  · rintro (put | ⟨⟨later, e, earlier, rfl, put, kept⟩, notTaken⟩)
    · exact ⟨[], event, events, rfl, put, fun _ member => absurd member List.not_mem_nil⟩
    · exact ⟨event :: later, e, earlier, rfl, put, List.forall_mem_cons.mpr ⟨notTaken, kept⟩⟩

variable {step : State → Event → State → Prop} {s s' : State}

/-- The step of an event in the middle of a run. -/
theorem Runs.split {later earlier : List Event} (runs : Runs step s (later ++ event :: earlier) s') :
    ∃ before after, Runs step s earlier before ∧ step before event after ∧ Runs step after later s' := by
  induction later generalizing s' with
  | nil =>
    cases runs with
    | cons runs last => exact ⟨_, _, runs, last, .nil⟩
  | cons first rest ih =>
    cases runs with
    | cons runs last =>
      obtain ⟨before, after, earlierRuns, here, laterRuns⟩ := ih runs
      exact ⟨before, after, earlierRuns, here, laterRuns.cons last⟩

/-- From a state without pending items, with an invariant that makes every step exact. -/
theorem Runs.pending_iff {pending : State → Item → Prop} {inv : State → Prop} (start : inv s)
    (none_ : ∀ item, ¬pending s item)
    (exact_ : ∀ s e s', inv s → step s e s' → inv s' ∧ ∀ item, pending s' item ↔ puts e item ∨
      pending s item ∧ ¬takes e item) (runs : Runs step s events s') :
    inv s' ∧ ∀ item, pending s' item ↔ PutSince puts takes events item := by
  induction runs with
  | nil => exact ⟨start, fun item => iff_of_false (none_ item) not_putSince_nil⟩
  | cons runs last ih =>
    obtain ⟨kept, same⟩ := exact_ _ _ _ ih.1 last
    refine ⟨kept, fun item => ?_⟩
    rw [putSince_cons, same, ih.2]

end History

end History
