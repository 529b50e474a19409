import Mathlib.Tactic.Common

/-! # Programs that call their environment

A script issues commands and goes on with the answers to them, whatever they are. `Script.Runs` relates it
to the log of one execution; `Script.run` executes it against an environment that answers every command in
a fixed way.
-/

/-- A program over commands, which may stop early. -/
inductive Script (Cmd : Type) (Ans : Cmd → Type) (ε α : Type)
  | ret (value : α)
  | stop (reason : ε)
  | issue (cmd : Cmd) (next : Ans cmd → Script Cmd Ans ε α)

namespace Script

variable {Cmd : Type} {Ans : Cmd → Type} {ε α β : Type}

def bind : Script Cmd Ans ε α → (α → Script Cmd Ans ε β) → Script Cmd Ans ε β
  | .ret value, f => f value
  | .stop reason, _ => .stop reason
  | .issue cmd next, f => .issue cmd fun answer => (next answer).bind f

instance : Monad (Script Cmd Ans ε) where
  pure := .ret
  bind := .bind

/-- A command on its own. -/
def call (cmd : Cmd) : Script Cmd Ans ε (Ans cmd) := .issue cmd .ret

/-- A computation that issues no commands. -/
def lift : Except ε α → Script Cmd Ans ε α
  | .ok value => .ret value
  | .error reason => .stop reason

/-- The commands of an execution with their answers. -/
abbrev Log (Cmd : Type) (Ans : Cmd → Type) : Type := List (Sigma Ans)

/-- The executions of a script. -/
inductive Runs : Script Cmd Ans ε α → Log Cmd Ans → Except ε α → Prop
  | ret (value : α) : Runs (.ret value) [] (.ok value)
  | stop (reason : ε) : Runs (.stop reason) [] (.error reason)
  | issue {cmd : Cmd} {next : Ans cmd → Script Cmd Ans ε α} {answer : Ans cmd} {log : Log Cmd Ans}
      {result : Except ε α}
      (rest : Runs (next answer) log result) : Runs (.issue cmd next) (⟨cmd, answer⟩ :: log) result

/-- The result in an environment that answers in a fixed way. -/
def run (environment : (cmd : Cmd) → Ans cmd) : Script Cmd Ans ε α → Except ε α
  | .ret value => .ok value
  | .stop reason => .error reason
  | .issue cmd next => (next (environment cmd)).run environment

/-- The commands that are issued to such an environment. -/
def commands (environment : (cmd : Cmd) → Ans cmd) : Script Cmd Ans ε α → List Cmd
  | .ret _ => []
  | .stop _ => []
  | .issue cmd next => cmd :: (next (environment cmd)).commands environment

variable {x : Script Cmd Ans ε α} {c : Prop}

section Runs

variable {log : Log Cmd Ans} {result : Except ε α} {value : α}

@[simp] theorem runs_ret_iff : Runs (.ret value : Script Cmd Ans ε α) log result ↔ log = [] ∧
    result = .ok value := by
  constructor
  · rintro ⟨⟩
    exact ⟨rfl, rfl⟩
  · rintro ⟨rfl, rfl⟩
    exact .ret value

@[simp] theorem runs_pure_iff : (pure value : Script Cmd Ans ε α).Runs log result ↔ log = [] ∧
    result = .ok value := runs_ret_iff

theorem not_runs_stop {reason : ε} : ¬(.stop reason : Script Cmd Ans ε α).Runs log (.ok value) := by
  rintro ⟨⟩

variable {cmd : Cmd} {f : α → Script Cmd Ans ε β}

@[simp] theorem runs_issue_iff {next : Ans cmd → Script Cmd Ans ε α} :
    Runs (.issue cmd next) log result ↔ ∃ answer rest, log = ⟨cmd, answer⟩ :: rest ∧
    (next answer).Runs rest result := by
  constructor
  · intro runs
    cases runs with
    | issue rest => exact ⟨_, _, rfl, rest⟩
  · rintro ⟨answer, rest, rfl, runs⟩
    exact .issue runs

theorem runs_lift_iff {x : Except ε α} :
    (lift x : Script Cmd Ans ε α).Runs log result ↔ log = [] ∧ result = x := by
  cases x with
  | ok value => exact runs_ret_iff
  | error reason =>
    constructor
    · rintro ⟨⟩
      exact ⟨rfl, rfl⟩
    · rintro ⟨rfl, rfl⟩
      exact .stop reason

theorem runs_call_bind_iff {f : Ans cmd → Script Cmd Ans ε α} :
    (call cmd >>= f).Runs log result ↔ ∃ answer rest, log = ⟨cmd, answer⟩ :: rest ∧
    (f answer).Runs rest result :=
  runs_issue_iff

/-- A computation without commands comes first. -/
theorem runs_lift_bind_iff {x : Except ε α} {b : β} :
    (lift x >>= f).Runs log (.ok b) ↔ ∃ a, x = .ok a ∧ (f a).Runs log (.ok b) := by
  cases x with
  | ok value =>
    constructor
    · intro runs
      exact ⟨value, rfl, runs⟩
    · rintro ⟨a, same, runs⟩
      cases same
      exact runs
  | error reason =>
    constructor
    · intro runs
      exact absurd runs not_runs_stop
    · rintro ⟨a, same, -⟩
      cases same

/-- A guard with an early return. -/
theorem runs_guard [Decidable c] {b : α} (runs : (if c then pure value else x).Runs log (.ok b)) :
    (c ∧ log = [] ∧ b = value) ∨ ¬c ∧ x.Runs log (.ok b) := by
  split at runs
  · next stopped =>
    obtain ⟨rfl, same⟩ := runs_pure_iff.mp runs
    exact .inl ⟨stopped, rfl, Except.ok.inj same⟩
  · next passed => exact .inr ⟨passed, runs⟩

/-- A sequence runs one part after the other. -/
theorem runs_bind_iff {b : β} :
    (x >>= f).Runs log (.ok b) ↔ ∃ first second a, log = first ++ second ∧ x.Runs first (.ok a) ∧
    (f a).Runs second (.ok b) := by
  induction x generalizing log with
  | ret value =>
    constructor
    · intro runs
      exact ⟨[], log, value, rfl, .ret value, runs⟩
    · rintro ⟨first, second, a, rfl, ran, runs⟩
      obtain ⟨rfl, ⟨⟩⟩ := runs_ret_iff.mp ran
      exact runs
  | stop reason =>
    constructor
    · intro runs
      cases runs
    · rintro ⟨first, second, a, rfl, ran, -⟩
      cases ran
  | issue cmd next ih =>
    constructor
    · intro runs
      obtain ⟨answer, rest, rfl, following⟩ := runs_issue_iff.mp runs
      obtain ⟨first, second, a, rfl, ran, last⟩ := (ih answer).mp following
      exact ⟨⟨cmd, answer⟩ :: first, second, a, rfl, .issue ran, last⟩
    · rintro ⟨first, second, a, rfl, ran, runs⟩
      obtain ⟨answer, rest, rfl, following⟩ := runs_issue_iff.mp ran
      exact .issue ((ih answer).mpr ⟨rest, second, a, rfl, following, runs⟩)

end Runs

section Run

variable (environment : (cmd : Cmd) → Ans cmd)

@[simp] theorem run_lift (x : Except ε α) : (lift x : Script Cmd Ans ε α).run environment = x := by
  cases x with
  | ok value => rfl
  | error reason => rfl

theorem run_call_bind (cmd : Cmd) (f : Ans cmd → Script Cmd Ans ε α) :
    (call cmd >>= f).run environment = (f (environment cmd)).run environment := rfl

theorem run_bind (x : Script Cmd Ans ε α) (f : α → Script Cmd Ans ε β) :
    (x >>= f).run environment = x.run environment >>= fun a => (f a).run environment := by
  induction x with
  | ret value => rfl
  | stop reason => rfl
  | issue cmd next ih => exact ih (environment cmd)

theorem run_bind_ok {a : α} (ran : x.run environment = .ok a) (f : α → Script Cmd Ans ε β) :
    (x >>= f).run environment = (f a).run environment := by
  rw [run_bind, ran]
  rfl

/-- The branches of a conditional. -/
theorem run_ite [Decidable c] {y : Script Cmd Ans ε α} {a b : Except ε α} (positive : x.run environment = a)
    (negative : y.run environment = b) : (if c then x else y).run environment = if c then a else b := by
  split
  · exact positive
  · exact negative

/-- Such an environment gives one of the executions. -/
theorem runs_run (x : Script Cmd Ans ε α) :
    x.Runs ((x.commands environment).map fun cmd => ⟨cmd, environment cmd⟩) (x.run environment) := by
  induction x with
  | ret value => exact .ret value
  | stop reason => exact .stop reason
  | issue cmd next ih => exact .issue (ih (environment cmd))

end Run

end Script
