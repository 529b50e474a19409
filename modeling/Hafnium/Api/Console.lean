import Hafnium.Ffa.Abi
import Mathlib.Logic.Function.Basic

/-! # The console of a VM

`hf_debug_log` sends one character, FFA_CONSOLE_LOG the characters of up to six registers. Both
collect them in the log buffer of the VM, which is printed under the VM's ID at the end of a line
or when it is full.

A 32-bit FFA_CONSOLE_LOG is recognised by its whole first register, while the dispatcher reads only
the lower half: if the upper half is not zero, then eight characters of each register are taken.
-/

namespace Hafnium.Api

open Function Hafnium.Ffa

def logBufferSize : Nat := 256
def ffaConsoleLog32 : BitVec 64 := 0x8400008A
def ffaConsoleLog64 : BitVec 64 := 0xC400008A

/-- A line that was printed, with the VM that it is labelled with. -/
structure Line where
  vm : VmId
  text : List (BitVec 8)

/-- The log buffers of the VMs, and what was printed. -/
structure Console where
  buffer : VmId → List (BitVec 8) := fun _ => []
  printed : List Line := []

/-- The registers of an FFA_CONSOLE_LOG; `args` are the registers from the second argument on. -/
structure ConsoleArgs where
  func : BitVec 64
  arg1 : BitVec 64
  args : Fin 6 → BitVec 64

def isTerminator (c : BitVec 8) : Bool := c = 10 ∨ c = 0

namespace Console

variable (s : Console) (id : VmId)

def dlogFlushVmBuffer : Console :=
  { buffer := update s.buffer id [], printed := s.printed ++ [⟨id, s.buffer id⟩] }

def apiDebugLog (c : BitVec 8) : Console :=
  if isTerminator c then s.dlogFlushVmBuffer id
  else
    let s := { s with buffer := update s.buffer id (s.buffer id ++ [c]) }
    if (s.buffer id).length = logBufferSize then s.dlogFlushVmBuffer id else s

/-- Character `i` of a register. -/
def character (src : BitVec 64) (i : Nat) : BitVec 8 := (src >>> (8 * i)).setWidth 8

/-- Writes the characters of one register, and returns their number. The loop treats a character
as `api_debug_log` does. -/
def argToCharHelper (src : BitVec 64) (srcSize toWrite : Nat) : Console × Nat :=
  let size := min srcSize toWrite
  ((List.range size).foldl (fun s written => s.apiDebugLog id (character src written)) s, size)

/-- One of the helper calls, given what is left to write. -/
def writeRegister (charsInParam : Nat) (progress : Console × Nat) (src : BitVec 64) : Console × Nat :=
  let written := progress.1.argToCharHelper id src charsInParam progress.2
  (written.1, progress.2 - written.2)

def apiFfaConsoleLog (args : ConsoleArgs) : FfaValue × Console :=
  let charsInParam := if args.func = ffaConsoleLog32 then 4 else 8
  let totalToWrite := args.arg1.toNat
  if totalToWrite = 0 ∨ totalToWrite > charsInParam * 6 then (ffaError .invalidParameters, s)
  else
    ({ func := ffaSuccess32 }, ((List.ofFn args.args).foldl (writeRegister id charsInParam)
      (s, totalToWrite)).1)

end Console

/-- A call of a VM that reaches the console. -/
inductive ConsoleCall
  | debugLog (c : BitVec 8)
  | consoleLog (args : ConsoleArgs)

/-- `ffa_handler` looks at the lower half of the first register only. -/
def ConsoleCall.run (s : Console) (id : VmId) : ConsoleCall → Console
  | debugLog c => s.apiDebugLog id c
  | consoleLog args =>
    if args.func.setWidth 32 = ffaConsoleLog32.setWidth 32 ∨
      args.func.setWidth 32 = ffaConsoleLog64.setWidth 32 then
      (s.apiFfaConsoleLog id args).2
    else s

/-! ## What a VM sends -/

/-- The characters of the registers, taking `width` of each. -/
def ConsoleArgs.characters (args : ConsoleArgs) (width : Nat) : List (BitVec 8) :=
  if args.arg1.toNat ≤ width * 6 then
    ((List.ofFn args.args).flatMap fun src => (List.range width).map (Console.character src)).take
      args.arg1.toNat
  else []

/-- The characters that a call sends. The function ID is the lower half of the first register. -/
def ConsoleCall.sent : ConsoleCall → List (BitVec 8)
  | debugLog c => [c]
  | consoleLog args =>
    if args.func.setWidth 32 = ffaConsoleLog32.setWidth 32 then args.characters 4
    else if args.func.setWidth 32 = ffaConsoleLog64.setWidth 32 then args.characters 8
    else []

/-- The characters without the terminators. -/
def plain (chars : List (BitVec 8)) : List (BitVec 8) := chars.filter fun c => !isTerminator c

/-- The text that a VM sent in a sequence of calls of all VMs. -/
def textOf (id : VmId) (calls : List (VmId × ConsoleCall)) : List (BitVec 8) :=
  plain ((calls.filter (·.1 = id)).flatMap (·.2.sent))

/-- The lines printed for a VM and what is left in its buffer. -/
def Console.stream (s : Console) (id : VmId) : List (BitVec 8) :=
  (s.printed.filter (·.vm = id)).flatMap (·.text) ++ s.buffer id

/-- The buffers have room, and each VM's stream is the text it sent. -/
structure Console.Carries (s : Console) (text : VmId → List (BitVec 8)) : Prop where
  room (id : VmId) : (s.buffer id).length < logBufferSize
  stream (id : VmId) : s.stream id = text id

namespace Console

variable {s : Console} {text : VmId → List (BitVec 8)}

theorem stream_dlogFlushVmBuffer (s : Console) (id other : VmId) :
    (s.dlogFlushVmBuffer id).stream other = s.stream other := by
  by_cases same : other = id
  · subst same
    simp [stream, dlogFlushVmBuffer, List.filter_append]
  · simp [stream, dlogFlushVmBuffer, List.filter_append, update_of_ne same, Ne.symm same]

theorem Carries.flush (id : VmId) (full : ∀ other, other ≠ id → (s.buffer other).length < logBufferSize)
    (stream : ∀ other, s.stream other = text other) : (s.dlogFlushVmBuffer id).Carries text where
  room other := by
    by_cases same : other = id
    · subst same
      simp [dlogFlushVmBuffer, logBufferSize]
    · simpa [dlogFlushVmBuffer, update_of_ne same] using full other same
  stream other := (stream_dlogFlushVmBuffer s id other).trans (stream other)

theorem Carries.apiDebugLog (carries : s.Carries text) (id : VmId) (c : BitVec 8) :
    (s.apiDebugLog id c).Carries (update text id (text id ++ plain [c])) := by
  rw [Console.apiDebugLog]
  split
  · next terminator =>
    have same : update text id (text id ++ plain [c]) = text := by simp [plain, terminator]
    rw [same]
    exact .flush id (fun other _ => carries.room other) carries.stream
  · next ordinary =>
    have stream (other : VmId) :
        ({ s with buffer := update s.buffer id (s.buffer id ++ [c]) } : Console).stream other =
        update text id (text id ++ plain [c]) other := by
      have before := carries.stream other
      by_cases same : other = id
      · subst same
        simp [Console.stream, plain, ordinary, ← before]
      · simpa [Console.stream, update_of_ne same] using before
    have others (other : VmId) (different : other ≠ id) :
        (update s.buffer id (s.buffer id ++ [c]) other).length < logBufferSize := by
      rw [update_of_ne different]
      exact carries.room other
    dsimp only
    split
    · exact .flush id others stream
    · next short =>
      refine ⟨fun other => ?_, stream⟩
      by_cases same : other = id
      · subst same
        have room := carries.room other
        simp only [update_self, List.length_append, List.length_singleton] at short ⊢
        omega
      · exact others other same

theorem Carries.logged (carries : s.Carries text) (id : VmId) (chars : List (BitVec 8)) :
    (chars.foldl (Console.apiDebugLog · id) s).Carries (update text id (text id ++ plain chars)) := by
  induction chars generalizing s text with
  | nil => simpa [plain] using carries
  | cons c rest ih =>
    have step := ih (carries.apiDebugLog id c)
    rw [update_self, update_idem, List.append_assoc, plain, plain, ← List.filter_append] at step
    exact step

/-- The six helper calls write the first `left` characters of their registers. -/
theorem helpers_eq (s : Console) (id : VmId) (width left : Nat) (srcs : List (BitVec 64)) :
    (srcs.foldl (writeRegister id width) (s, left)).1 =
      ((srcs.flatMap fun src => (List.range width).map (character src)).take left).foldl
        (Console.apiDebugLog · id) s := by
  induction srcs generalizing s left with
  | nil => simp
  | cons src rest ih =>
    have first : ((List.range width).map (character src)).take left =
        (List.range (min width left)).map (character src) := by
      rw [← List.map_take, List.take_range, Nat.min_comm]
    have after : left - width = left - min width left := by omega
    rw [List.foldl_cons, List.flatMap_cons, List.take_append, List.foldl_append, first,
      List.foldl_map, ih, List.length_map, List.length_range, after]
    rfl

theorem apiFfaConsoleLog_eq (s : Console) (id : VmId) (args : ConsoleArgs) :
    (s.apiFfaConsoleLog id args).2 =
      (args.characters (if args.func = ffaConsoleLog32 then 4 else 8)).foldl
        (Console.apiDebugLog · id) s := by
  rw [apiFfaConsoleLog, ConsoleArgs.characters]
  generalize (if args.func = ffaConsoleLog32 then 4 else 8) = width
  split
  · next refused =>
    rcases refused with none | many
    · simp [none]
    · rw [if_neg (Nat.not_le.mpr many)]
      rfl
  · next accepted =>
    rw [if_pos (by omega), ← helpers_eq]

end Console

/-- The upper half of the function ID of a 32-bit call is zero. -/
def ConsoleCall.Canonical : ConsoleCall → Prop
  | debugLog _ => True
  | consoleLog args => args.func.setWidth 32 = ffaConsoleLog32.setWidth 32 → args.func = ffaConsoleLog32

theorem ConsoleCall.run_eq (s : Console) (id : VmId) {call : ConsoleCall} (canonical : call.Canonical) :
    call.run s id = call.sent.foldl (Console.apiDebugLog · id) s := by
  cases call with
  | debugLog c => rfl
  | consoleLog args =>
    rw [run, sent, Console.apiFfaConsoleLog_eq]
    by_cases narrow : args.func.setWidth 32 = ffaConsoleLog32.setWidth 32
    · rw [if_pos (.inl narrow), if_pos narrow, if_pos (canonical narrow)]
    · have wide : args.func ≠ ffaConsoleLog32 := fun same => narrow (same ▸ rfl)
      rw [if_neg narrow, if_neg wide]
      by_cases known : args.func.setWidth 32 = ffaConsoleLog64.setWidth 32
      · rw [if_pos (.inr known), if_pos known]
      · rw [if_neg (not_or.mpr ⟨narrow, known⟩), if_neg known]
        rfl

/-- The console after a sequence of calls. -/
def consoleAfter (calls : List (VmId × ConsoleCall)) : Console :=
  calls.foldl (fun s call => call.2.run s call.1) {}

/-- After any sequence of calls of any VMs whose 32-bit function IDs are canonical, every log buffer
has room, and the lines of a VM followed by its buffer are the text that the VM sent. -/
theorem console_stream (calls : List (VmId × ConsoleCall)) (canonical : ∀ call ∈ calls, call.2.Canonical) :
    (consoleAfter calls).Carries (textOf · calls) := by
  suffices general : ∀ (s : Console) (text : VmId → List (BitVec 8)), s.Carries text →
      (calls.foldl (fun s call => call.2.run s call.1) s).Carries (fun id => text id ++ textOf id calls) from
    general {} (fun _ => []) ⟨fun _ => Nat.zero_lt_succ _, fun _ => rfl⟩
  induction calls with
  | nil => simp [textOf, plain]
  | cons call rest ih =>
    obtain ⟨id, call⟩ := call
    intro s text carries
    obtain ⟨first, others⟩ := List.forall_mem_cons.mp canonical
    have step := ih others _ _ (call.run_eq s id first ▸ carries.logged id call.sent)
    refine ⟨step.room, fun other => (step.stream other).trans ?_⟩
    by_cases same : other = id
    · subst same
      simp [textOf, plain]
    · simp [textOf, update_of_ne same, Ne.symm same]

/-- Eight characters in the lower halves of two registers. -/
def twoWords (func : BitVec 64) : ConsoleCall :=
  .consoleLog ⟨func, 8, fun | 0 => 0x64636261 | 1 => 0x68676665 | _ => 0⟩

/-- Two VMs take turns. -/
def twoWriters : List (VmId × ConsoleCall) :=
  [(1, twoWords ffaConsoleLog32), (2, twoWords ffaConsoleLog64), (1, .debugLog 0x0a),
    (2, twoWords ffaConsoleLog32)]

theorem console_stream_two_words :
    (∀ call ∈ twoWriters, call.2.Canonical) ∧ (consoleAfter twoWriters).Carries (textOf · twoWriters) := by
  have canonical : ∀ call ∈ twoWriters, call.2.Canonical := by
    simp only [twoWriters, List.forall_mem_cons]
    exact ⟨fun _ => rfl, fun narrow => absurd narrow (by decide), trivial, fun _ => rfl, nofun⟩
  exact ⟨canonical, console_stream _ canonical⟩

/-- With a bit of the upper half set, the second word of a 32-bit call is lost. -/
theorem console_stream_lost :
    (consoleAfter [(1, twoWords 0x18400008A)]).stream 1 = [0x61, 0x62, 0x63, 0x64] ∧
      textOf 1 [(1, twoWords 0x18400008A)] = [0x61, 0x62, 0x63, 0x64, 0x65, 0x66, 0x67, 0x68] := by
  decide

end Hafnium.Api
