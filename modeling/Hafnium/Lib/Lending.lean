import Mathlib.Data.Set.Basic
import Mathlib.Logic.Function.Basic
import Mathlib.Logic.Relation

/-! # Lending pages between agents

Agents own pages and may give, lend or share a set of them with one other agent. Each such
transaction sits in a slot from the moment its sender lets go of the pages until they are given
away or back. Pages may also go to and come from a party outside the system.

Whatever the agents do, no page has two owners, and a page that an agent has to itself cannot be
reached by anyone else.
-/

namespace Lending

open Function

/-- What an agent has of a page. -/
inductive Access
  | nothing
  | exclusive
  | lent
  | shared
  | borrowed
  | joined
deriving DecidableEq, Repr

/-- Owners keep their title while a page is lent or shared. -/
def Access.Owns : Access → Prop
  | .exclusive | .lent | .shared => True
  | .nothing | .borrowed | .joined => False

inductive Kind
  | give
  | lend
  | share
deriving DecidableEq, Repr

/-- What the sender of a page is left with. -/
def Kind.left : Kind → Access
  | .give => .nothing
  | .lend => .lent
  | .share => .shared

/-- What the receiver of a page gets. -/
def Kind.got : Kind → Access
  | .give => .exclusive
  | .lend => .borrowed
  | .share => .joined

structure Transaction (Agent Page : Type*) where
  sender : Agent
  receiver : Agent
  kind : Kind
  region : Set Page
  taken : Bool

structure State (Agent Page Slot : Type*) where
  access : Agent → Page → Access
  slots : Slot → Option (Transaction Agent Page)

variable {Agent Page Slot : Type*}

/-- One agent now has this access to the pages of a set; nothing else has changed. -/
structure Assigned (agent : Agent) (region : Set Page) (new : Access)
    (before after : Agent → Page → Access) : Prop where
  inside : ∀ p ∈ region, after agent p = new
  outside : ∀ a p, ¬(a = agent ∧ p ∈ region) → after a p = before a p

variable {agent a : Agent} {region : Set Page} {new : Access} {s s' : State Agent Page Slot}
  {p : Page} {i j : Slot} {t u : Transaction Agent Page} {slot : Option (Transaction Agent Page)}

/-- Writing back the access that the agent had. -/
theorem Assigned.same {before after : Agent → Page → Access}
    (assigned : Assigned agent region new before after) (old : ∀ p ∈ region, before agent p = new) :
    after = before := by
  funext a p
  by_cases inside : a = agent ∧ p ∈ region
  · rw [inside.1, assigned.inside p inside.2, old p inside.2]
  · exact assigned.outside a p inside

/-- The pages of no transaction. -/
def State.Idle (s : State Agent Page Slot) (p : Page) : Prop := ∀ i t, s.slots i = some t → p ∉ t.region

section Step

variable [DecidableEq Slot]

inductive Step (s s' : State Agent Page Slot) : Prop
  | send {i : Slot} {t : Transaction Agent Page} (free : s.slots i = none) (fresh : t.taken = false)
      (other : t.receiver ≠ t.sender) (owned : ∀ p ∈ t.region, s.access t.sender p = .exclusive)
      (moved : Assigned t.sender t.region t.kind.left s.access s'.access)
      (opened : s'.slots = update s.slots i (some t))
  | take {i : Slot} {t : Transaction Agent Page} (held : s.slots i = some t) (fresh : t.taken = false)
      (moved : Assigned t.receiver t.region t.kind.got s.access s'.access)
      (marked : s'.slots = update s.slots i (if t.kind = .give then none else some { t with taken := true }))
  | giveBack {i : Slot} {t : Transaction Agent Page} (held : s.slots i = some t) (taken : t.taken = true)
      (moved : Assigned t.receiver t.region .nothing s.access s'.access)
      (marked : s'.slots = update s.slots i (some { t with taken := false }))
  | recover {i : Slot} {t : Transaction Agent Page} (held : s.slots i = some t) (fresh : t.taken = false)
      (moved : Assigned t.sender t.region .exclusive s.access s'.access)
      (closed : s'.slots = update s.slots i none)
  | sendOut {agent : Agent} {region : Set Page} {kind : Kind}
      (owned : ∀ p ∈ region, s.access agent p = .exclusive)
      (moved : Assigned agent region kind.left s.access s'.access) (slots : s'.slots = s.slots)
  | comeBack {agent : Agent} {region : Set Page} (idle : ∀ p ∈ region, s.Idle p)
      (alone : ∀ p ∈ region, ∀ a ≠ agent, s.access a p = .nothing)
      (moved : Assigned agent region .exclusive s.access s'.access) (slots : s'.slots = s.slots)

end Step

/-! ## The invariant -/

/-- What an agent has of the pages of a transaction. -/
def Transaction.Expects (t : Transaction Agent Page) (agent : Agent) (access : Access) : Prop :=
  (agent = t.sender → access = t.kind.left) ∧
    (agent = t.receiver → access = if t.taken then t.kind.got else .nothing) ∧
    (agent ≠ t.sender → agent ≠ t.receiver → access = .nothing)

/-- A page belongs to one transaction and everyone has what that one says, or it is idle and at
most one agent has it. -/
inductive PageOk (s : State Agent Page Slot) (p : Page) : Prop
  | idle (idle : s.Idle p)
      (owned : ∀ a, s.access a p = .nothing ∨ ((s.access a p).Owns ∧ ∀ b ≠ a, s.access b p = .nothing))
  | busy {i : Slot} {t : Transaction Agent Page} (held : s.slots i = some t) (member : p ∈ t.region)
      (only : ∀ {j u}, s.slots j = some u → p ∈ u.region → j = i) (expected : ∀ a, t.Expects a (s.access a p))

/-- A transaction between two agents; what was given away is not listed any more. -/
structure Transaction.Ok (t : Transaction Agent Page) : Prop where
  other : t.receiver ≠ t.sender
  notGiven : t.taken = true → t.kind ≠ .give

structure Inv (s : State Agent Page Slot) : Prop where
  transactions : ∀ {i t}, s.slots i = some t → t.Ok
  pages : ∀ p, PageOk s p

section Pages

/-- The transaction that a page belongs to decides what everyone has of it. -/
theorem PageOk.expects (ok : PageOk s p) (held : s.slots i = some t) (member : p ∈ t.region) :
    (∀ {j u}, s.slots j = some u → p ∈ u.region → j = i) ∧ ∀ a, t.Expects a (s.access a p) := by
  cases ok with
  | idle idle _ => exact absurd member (idle i t held)
  | busy held' member' only expected =>
    obtain rfl := only held member
    cases held.symm.trans held'
    exact ⟨only, expected⟩

/-- Nobody has to itself what belongs to a transaction. -/
theorem PageOk.idle_of_exclusive (ok : PageOk s p) (valid : ∀ {i t}, s.slots i = some t → t.Ok)
    (exclusive : s.access a p = .exclusive) : s.Idle p ∧ ∀ b ≠ a, s.access b p = .nothing := by
  cases ok with
  | idle idle owned =>
    refine ⟨idle, ?_⟩
    rcases owned a with nothing | ⟨-, alone⟩
    · rw [exclusive] at nothing
      cases nothing
    · exact alone
  | @busy i t held member only expected =>
    exfalso
    obtain ⟨asSender, asReceiver, asNobody⟩ := expected a
    rw [exclusive] at asSender asReceiver asNobody
    by_cases sends : a = t.sender
    · have left := asSender sends
      cases kind : t.kind <;> rw [kind] at left <;> cases left
    · by_cases receives : a = t.receiver
      · have got := asReceiver receives
        cases taken : t.taken
        · rw [taken] at got
          cases got
        · rw [taken, if_pos rfl] at got
          have kind : t.kind = .give := by
            cases kind : t.kind
            · rfl
            all_goals
              rw [kind] at got
              cases got
          exact (valid held).notGiven taken kind
      · cases asNobody sends receives

/-- A page that a step does not touch. -/
theorem PageOk.transfer (ok : PageOk s p) (access : ∀ a, s'.access a p = s.access a p)
    (slots : ∀ {j u}, p ∈ u.region → (s'.slots j = some u ↔ s.slots j = some u)) : PageOk s' p := by
  cases ok with
  | idle idle owned =>
    refine .idle (fun j u held member => idle j u ((slots member).mp held) member) fun a => ?_
    simpa only [access] using owned a
  | busy held member only expected =>
    exact .busy ((slots member).mpr held) member (fun held member => only ((slots member).mp held) member)
      fun a => access a ▸ expected a

/-- Pages that no transaction has, of which one agent got something and the others have nothing. -/
theorem Inv.assign (inv : Inv s) (idle : ∀ p ∈ region, s.Idle p)
    (alone : ∀ p ∈ region, ∀ a ≠ agent, s.access a p = .nothing) (owned : new = .nothing ∨ new.Owns)
    (moved : Assigned agent region new s.access s'.access) (slots : s'.slots = s.slots) : Inv s' := by
  refine ⟨fun held => inv.transactions (slots ▸ held), fun p => ?_⟩
  by_cases member : p ∈ region
  · refine .idle (fun j u held => idle p member j u (slots ▸ held)) fun a => ?_
    have others (b : Agent) (different : b ≠ agent) : s'.access b p = .nothing := by
      rw [moved.outside b p fun both => different both.1, alone p member b different]
    by_cases same : a = agent
    · subst same
      rw [moved.inside p member]
      exact owned.imp_right fun owns => ⟨owns, others⟩
    · exact .inl (others a same)
  · exact (inv.pages p).transfer (fun a => moved.outside a p fun both => member both.2) fun _ => by rw [slots]

variable [DecidableEq Slot]

/-- Changing a slot is no matter for the pages of other transactions. -/
theorem slots_outside (updated : s'.slots = update s.slots i slot)
    (before : ∀ t, s.slots i = some t → p ∉ t.region) (after : ∀ t, slot = some t → p ∉ t.region)
    (member : p ∈ u.region) : s'.slots j = some u ↔ s.slots j = some u := by
  rw [updated]
  by_cases same : j = i
  · subst same
    rw [update_self]
    exact iff_of_false (fun held => after u held member) (fun held => before u held member)
  · rw [update_of_ne same]

/-- The pages of a transaction after its slot has been written. -/
theorem PageOk.busy_update (updated : s'.slots = update s.slots i (some t)) (member : p ∈ t.region)
    (others : ∀ {j u}, s.slots j = some u → p ∈ u.region → j = i)
    (expected : ∀ a, t.Expects a (s'.access a p)) : PageOk s' p := by
  refine .busy (by rw [updated, update_self]) member ?_ expected
  intro j u held inside
  rw [updated] at held
  by_contra different
  rw [update_of_ne different] at held
  exact different (others held inside)

/-- The pages of a transaction after its slot has been freed. -/
theorem PageOk.idle_update (updated : s'.slots = update s.slots i none)
    (others : ∀ {j u}, s.slots j = some u → p ∈ u.region → j = i) (owns : (s'.access agent p).Owns)
    (alone : ∀ a ≠ agent, s'.access a p = .nothing) : PageOk s' p := by
  refine .idle ?_ fun a => ?_
  · intro j u held inside
    rw [updated] at held
    by_cases same : j = i
    · rw [same, update_self] at held
      cases held
    · rw [update_of_ne same] at held
      exact same (others held inside)
  · by_cases same : a = agent
    · exact .inr ⟨same ▸ owns, same ▸ alone⟩
    · exact .inl (alone a same)

end Pages

section Preservation

variable [DecidableEq Slot]

/-- The slots of a state after one of them was written. -/
theorem transactions_update (inv : Inv s) (updated : s'.slots = update s.slots i slot)
    (ok : ∀ t, slot = some t → t.Ok) (held : s'.slots j = some u) : u.Ok := by
  rw [updated] at held
  by_cases same : j = i
  · subst same
    rw [update_self] at held
    exact ok u held
  · rw [update_of_ne same] at held
    exact inv.transactions held

/-- A written slot and moved access leave the pages outside a region alone. -/
theorem PageOk.outside (inv : Inv s) (moved : Assigned agent region new s.access s'.access)
    (updated : s'.slots = update s.slots i slot) (outside : p ∉ region)
    (before : ∀ t, s.slots i = some t → t.region = region)
    (after : ∀ t, slot = some t → t.region = region) : PageOk s' p :=
  (inv.pages p).transfer (fun a => moved.outside a p fun both => outside both.2)
    (slots_outside updated (fun t held => before t held ▸ outside) fun t written => after t written ▸ outside)

section Transactions

theorem Inv.send (inv : Inv s) (free : s.slots i = none) (fresh : t.taken = false)
    (other : t.receiver ≠ t.sender) (owned : ∀ p ∈ t.region, s.access t.sender p = .exclusive)
    (moved : Assigned t.sender t.region t.kind.left s.access s'.access)
    (opened : s'.slots = update s.slots i (some t)) : Inv s' := by
  refine ⟨transactions_update inv opened ?_, fun p => ?_⟩
  · rintro _ ⟨⟩
    exact ⟨other, fun taken => by rw [fresh] at taken; cases taken⟩
  · by_cases member : p ∈ t.region
    · obtain ⟨idle, alone⟩ := (inv.pages p).idle_of_exclusive inv.transactions (owned p member)
      refine .busy_update opened member (fun held inside => absurd inside (idle _ _ held)) fun a => ?_
      refine ⟨fun sender => sender ▸ moved.inside p member, fun receiver => ?_, fun notSender _ => ?_⟩
      · have notSender : a ≠ t.sender := receiver ▸ other
        rw [moved.outside a p (fun both => notSender both.1), alone a notSender, fresh]
        rfl
      · rw [moved.outside a p (fun both => notSender both.1), alone a notSender]
    · exact .outside inv moved opened member (fun u held => by rw [free] at held; cases held)
        fun u written => by cases written; rfl

/-- The pages of a transaction that stays, after its receiver's access has changed. -/
theorem PageOk.busy_receiver (taken : Bool) (inv : Inv s) (held : s.slots i = some t) (member : p ∈ t.region)
    (moved : Assigned t.receiver t.region (if taken then t.kind.got else .nothing) s.access s'.access)
    (marked : s'.slots = update s.slots i (some { t with taken })) : PageOk s' p := by
  obtain ⟨only, expected⟩ := (inv.pages p).expects held member
  have others (a : Agent) (different : a ≠ t.receiver) : s'.access a p = s.access a p :=
    moved.outside a p fun both => different both.1
  refine .busy_update marked member only fun a => ⟨fun sender => ?_, fun receiver => ?_,
    fun sender receiver => ?_⟩
  · rw [others a (fun receiver => (inv.transactions held).other (receiver.symm.trans sender))]
    exact (expected a).1 sender
  · exact receiver ▸ moved.inside p member
  · rw [others a receiver]
    exact (expected a).2.2 sender receiver

theorem Inv.take (inv : Inv s) (held : s.slots i = some t)
    (moved : Assigned t.receiver t.region t.kind.got s.access s'.access)
    (marked : s'.slots = update s.slots i (if t.kind = .give then none else some { t with taken := true })) :
    Inv s' := by
  have region (u : Transaction Agent Page)
      (written : (if t.kind = .give then none else some { t with taken := true }) = some u) :
      u.region = t.region := by
    split at written <;> cases written
    rfl
  refine ⟨transactions_update inv marked fun u written => ?_, fun p => ?_⟩
  · split at written
    · cases written
    · next notGiven =>
      cases written
      exact ⟨(inv.transactions held).other, fun _ => notGiven⟩
  · by_cases member : p ∈ t.region
    · by_cases give : t.kind = .give
      · rw [if_pos give] at marked
        obtain ⟨only, expected⟩ := (inv.pages p).expects held member
        have got := moved.inside p member
        rw [give] at got
        refine .idle_update marked only (by rw [got]; trivial) fun a different => ?_
        rw [moved.outside a p fun both => different both.1]
        by_cases sender : a = t.sender
        · rw [(expected a).1 sender, give]
          rfl
        · exact (expected a).2.2 sender different
      · rw [if_neg give] at marked
        exact .busy_receiver true inv held member moved marked
    · exact .outside inv moved marked member (fun u other => by cases held.symm.trans other; rfl) region

theorem Inv.giveBack (inv : Inv s) (held : s.slots i = some t)
    (moved : Assigned t.receiver t.region .nothing s.access s'.access)
    (marked : s'.slots = update s.slots i (some { t with taken := false })) : Inv s' := by
  refine ⟨transactions_update inv marked ?_, fun p => ?_⟩
  · rintro _ ⟨⟩
    exact ⟨(inv.transactions held).other, nofun⟩
  · by_cases member : p ∈ t.region
    · exact .busy_receiver false inv held member moved marked
    · exact .outside inv moved marked member (fun u other => by cases held.symm.trans other; rfl)
        fun u written => by cases written; rfl

theorem Inv.recover (inv : Inv s) (held : s.slots i = some t) (fresh : t.taken = false)
    (moved : Assigned t.sender t.region .exclusive s.access s'.access)
    (closed : s'.slots = update s.slots i none) : Inv s' := by
  refine ⟨transactions_update inv closed nofun, fun p => ?_⟩
  by_cases member : p ∈ t.region
  · obtain ⟨only, expected⟩ := (inv.pages p).expects held member
    refine .idle_update closed only (by rw [moved.inside p member]; trivial) fun a different => ?_
    rw [moved.outside a p fun both => different both.1]
    by_cases receiver : a = t.receiver
    · rw [(expected a).2.1 receiver, fresh]
      rfl
    · exact (expected a).2.2 different receiver
  · exact .outside inv moved closed member (fun u other => by cases held.symm.trans other; rfl)
      fun u written => by cases written

end Transactions

/-- Every step keeps the invariant. -/
theorem Inv.step (inv : Inv s) (step : Step s s') : Inv s' := by
  cases step with
  | send free fresh other owned moved opened => exact inv.send free fresh other owned moved opened
  | take held fresh moved marked => exact inv.take held moved marked
  | giveBack held taken moved marked => exact inv.giveBack held moved marked
  | recover held fresh moved closed => exact inv.recover held fresh moved closed
  | @sendOut agent region kind owned moved slots =>
    have idle (p : Page) (member : p ∈ region) :=
      (inv.pages p).idle_of_exclusive inv.transactions (owned p member)
    refine inv.assign (fun p member => (idle p member).1) (fun p member => (idle p member).2) ?_ moved slots
    cases kind
    · exact .inl rfl
    all_goals exact .inr trivial
  | comeBack idle alone moved slots =>
    exact inv.assign idle alone (.inr (show Access.exclusive.Owns from trivial)) moved slots

end Preservation

/-! ## What the invariant says -/

/-- No page has two owners. -/
theorem Inv.owner_unique (inv : Inv s) {b : Agent} (first : (s.access a p).Owns)
    (second : (s.access b p).Owns) : a = b := by
  cases inv.pages p with
  | idle idle owned =>
    rcases owned a with nothing | ⟨-, alone⟩
    · rw [nothing] at first
      exact first.elim
    · by_contra different
      rw [alone b fun same => different same.symm] at second
      exact second
  | @busy i t held member only expected =>
    -- The receiver of a page never owns it while the transaction is listed.
    have owner (c : Agent) (owns : (s.access c p).Owns) : c = t.sender := by
      by_contra notSender
      by_cases receiver : c = t.receiver
      · rw [(expected c).2.1 receiver] at owns
        cases taken : t.taken
        · rw [taken] at owns
          exact owns
        · rw [taken, if_pos rfl] at owns
          have given := (inv.transactions held).notGiven taken
          cases kind : t.kind
          · exact given kind
          all_goals
            rw [kind] at owns
            exact owns
      · rw [(expected c).2.2 notSender receiver] at owns
        exact owns
    rw [owner a first, owner b second]

/-- Nobody else has anything of a page that an agent has to itself. -/
theorem Inv.alone (inv : Inv s) {b : Agent} (exclusive : s.access a p = .exclusive)
    (other : b ≠ a) : s.access b p = .nothing :=
  ((inv.pages p).idle_of_exclusive inv.transactions exclusive).2 b other

end Lending
