import CoreBanking.AccountAggregate
import CoreBanking.Lib.Numbered
import Mathlib.Algebra.Ring.Int.Defs
import Mathlib.Data.List.Induction

/-!
# Account histories

The streams that accepted commands on one account can make, and what every such
stream replays to. A history is built by commits, each on the replay of what
was there before, so facts about histories are inductions on the last commit.
-/

namespace CoreBanking

namespace AccountAggregate

@[simp] theorem when_version (account : AccountAggregate) (event : DomainEvent) :
    (account.when event).version = event.streamVersion := by
  unfold when
  split <;> rfl

@[simp] theorem when_uncommittedEvents (account : AccountAggregate) (event : DomainEvent) :
    (account.when event).uncommittedEvents = account.uncommittedEvents := by
  unfold when
  split <;> rfl

theorem loadFromHistory_append (account : AccountAggregate) (es fs : List DomainEvent) :
    account.loadFromHistory (es ++ fs) = (account.loadFromHistory es).loadFromHistory fs :=
  List.foldl_append

@[simp] theorem loadFromHistory_uncommittedEvents (es : List DomainEvent) (account : AccountAggregate) :
    (account.loadFromHistory es).uncommittedEvents = account.uncommittedEvents := by
  induction es generalizing account with
  | nil => rfl
  | cons e es ih => exact (ih _).trans (when_uncommittedEvents account e)

@[simp] theorem replay_nil : replay [] = {} := rfl

theorem replay_snoc (es : List DomainEvent) (e : DomainEvent) : replay (es ++ [e]) = (replay es).when e :=
  loadFromHistory_append _ es [e]

@[simp] theorem replay_uncommittedEvents (es : List DomainEvent) : (replay es).uncommittedEvents = [] :=
  loadFromHistory_uncommittedEvents es {}

@[simp] theorem makeEvent_streamVersion (account : AccountAggregate) (data : EventData) (context : CommandContext)
    (streamId : String) (stamp : Stamp) :
    (account.makeEvent data context streamId stamp).streamVersion = account.version + 1 := rfl

@[simp] theorem makeEvent_data (account : AccountAggregate) (data : EventData) (context : CommandContext)
    (streamId : String) (stamp : Stamp) : (account.makeEvent data context streamId stamp).data = data := rfl

@[simp] theorem makeEvent_metadata (account : AccountAggregate) (data : EventData) (context : CommandContext)
    (streamId : String) (stamp : Stamp) : (account.makeEvent data context streamId stamp).metadata = context := rfl

@[simp] theorem makeEvent_streamId (account : AccountAggregate) (data : EventData) (context : CommandContext)
    (streamId : String) (stamp : Stamp) : (account.makeEvent data context streamId stamp).streamId = streamId := rfl

@[simp] theorem makeEvent_eventId (account : AccountAggregate) (data : EventData) (context : CommandContext)
    (streamId : String) (stamp : Stamp) :
    (account.makeEvent data context streamId stamp).eventId = stamp.eventId := rfl

end AccountAggregate

open AccountAggregate (replay replay_snoc)

inductive AccountMethod.Commits (method : AccountMethod) (context : CommandContext) (account : AccountAggregate) :
    DomainEvent → Prop
  | mk {data streamId} (stamp : Stamp) : method.Emits account data streamId →
      method.Commits context account (account.makeEvent data context streamId stamp)

def AccountCommand.Commits (cmd : AccountCommand) (account : AccountAggregate) : DomainEvent → Prop :=
  cmd.method.Commits cmd.context account

inductive AccountHistory (accountId : String) : List DomainEvent → Prop
  | nil : AccountHistory accountId []
  | commit {es cmd event} : AccountHistory accountId es → AccountCommand.accountId cmd = accountId →
      cmd.Commits (replay es) event → AccountHistory accountId (es ++ [event])

def AccountMethod.creates : AccountMethod → Option String
  | .create accountId .. => some accountId
  | _ => none

/-- The streams that calls of the aggregate make, with any amounts and contexts. -/
inductive AccountStream (accountId : String) : List DomainEvent → Prop
  | nil : AccountStream accountId []
  | commit {es method context event} : AccountStream accountId es →
      (∀ a ∈ AccountMethod.creates method, a = accountId) → method.Commits context (replay es) event →
      AccountStream accountId (es ++ [event])

theorem AccountHistory.stream {accountId : String} {es : List DomainEvent} (h : AccountHistory accountId es) :
    AccountStream accountId es := by
  induction h with
  | nil => exact .nil
  | @commit es cmd event h hid hc ih =>
    refine ih.commit ?_ hc
    intro a ha
    cases cmd with
    | CreateAccount => exact (Option.some.inj ha).symm.trans hid
    | _ => cases ha

theorem AccountMethod.Commits.streamVersion {method : AccountMethod} {context : CommandContext}
    {account : AccountAggregate} {event : DomainEvent} (h : method.Commits context account event) :
    event.streamVersion = account.version + 1 := by
  cases h; rfl

theorem AccountCommand.Commits.streamVersion {cmd : AccountCommand} {account : AccountAggregate}
    {event : DomainEvent} (h : cmd.Commits account event) : event.streamVersion = account.version + 1 := by
  cases h; rfl

theorem AccountCommand.Commits.metadata {cmd : AccountCommand} {account : AccountAggregate}
    {event : DomainEvent} (h : cmd.Commits account event) : event.metadata = cmd.context := by
  cases h; rfl

/-- An accepted operation on a replayed account leaves one event to commit. -/
theorem AccountCommand.operation_replay {stamp : Stamp} {es : List DomainEvent} {account' : AccountAggregate}
    {cmd : AccountCommand} (h : cmd.operation stamp (replay es) = .ok account') :
    ∃ event, cmd.Commits (replay es) event ∧
      account' = { replay (es ++ [event]) with uncommittedEvents := [event] } := by
  obtain ⟨data, streamId, he, rfl⟩ := AccountCommand.operation_ok h
  exact ⟨_, .mk stamp he, by simp [AccountAggregate.apply, replay_snoc]⟩

namespace AccountStream

variable {accountId : String} {es fs : List DomainEvent} {event : DomainEvent}

theorem snoc_inv (h : AccountStream accountId (es ++ [event])) :
    AccountStream accountId es ∧ ∃ (method : AccountMethod) (context : CommandContext),
      (∀ a ∈ method.creates, a = accountId) ∧ method.Commits context (replay es) event := by
  generalize hfs : es ++ [event] = fs at h
  cases h with
  | nil => simp at hfs
  | commit h hid hc =>
    obtain ⟨rfl, he⟩ := List.append_inj' hfs rfl
    obtain rfl := List.singleton_inj.mp he
    exact ⟨h, _, _, hid, hc⟩

theorem of_append (h : AccountStream accountId (es ++ fs)) : AccountStream accountId es := by
  induction fs using List.reverseRecOn with
  | nil => simpa using h
  | append_singleton fs e ih =>
    rw [← List.append_assoc] at h
    exact ih h.snoc_inv.1

theorem anti (h : AccountStream accountId fs) (hp : es <+: fs) : AccountStream accountId es := by
  obtain ⟨r, rfl⟩ := hp
  exact h.of_append

theorem version (h : AccountStream accountId es) : (replay es).version = es.length := by
  induction h with
  | nil => rfl
  | @commit es method context event h hid hc ih =>
    rw [replay_snoc, AccountAggregate.when_version, hc.streamVersion, ih, List.length_append,
      List.length_singleton]

theorem numbered (h : AccountStream accountId es) : Numbered DomainEvent.streamVersion es := by
  induction h with
  | nil => exact .nil
  | @commit es method context e h hid hc ih => exact ih.snoc (by rw [hc.streamVersion, h.version])

theorem streamVersion (h : AccountStream accountId es) {k : Nat} (hk : es[k]? = some event) :
    event.streamVersion = k + 1 := h.numbered k event hk

end AccountStream

/-! ## Balances -/

def EventData.signedAmount : EventData → Int
  | .MoneyDeposited _ amount _ _ => amount.minorUnits
  | .MoneyWithdrawn _ amount _ _ => -amount.minorUnits
  | _ => 0

def EventData.deposited : EventData → Int
  | .MoneyDeposited _ amount _ _ => amount.minorUnits
  | _ => 0

def EventData.withdrawn : EventData → Int
  | .MoneyWithdrawn _ amount _ _ => amount.minorUnits
  | _ => 0

theorem EventData.signedAmount_eq (data : EventData) : data.signedAmount = data.deposited - data.withdrawn := by
  cases data <;> simp [signedAmount, deposited, withdrawn]

def sumOf (f : EventData → Int) (es : List DomainEvent) : Int := (es.map fun event => f event.data).sum

@[simp] theorem sumOf_snoc (f : EventData → Int) (es : List DomainEvent) (event : DomainEvent) :
    sumOf f (es ++ [event]) = sumOf f es + f event.data := by
  simp [sumOf]

theorem AccountAggregate.when_balance (account : AccountAggregate) (event : DomainEvent) :
    (account.when event).balanceMinorUnits = account.balanceMinorUnits + event.data.signedAmount := by
  unfold AccountAggregate.when EventData.signedAmount
  cases event.data <;> simp
  rfl

theorem replay_balance (es : List DomainEvent) :
    (replay es).balanceMinorUnits = sumOf EventData.deposited es - sumOf EventData.withdrawn es := by
  induction es using List.reverseRecOn with
  | nil => rfl
  | append_singleton es e ih =>
    rw [replay_snoc, AccountAggregate.when_balance, ih, sumOf_snoc, sumOf_snoc, EventData.signedAmount_eq]
    omega

theorem AccountStream.balance_nonneg {accountId : String} {es : List DomainEvent} (h : AccountStream accountId es) :
    0 ≤ (replay es).balanceMinorUnits := by
  induction h with
  | nil => exact Int.le_refl 0
  | @commit es method context event h hid hc ih =>
    rw [replay_snoc, AccountAggregate.when_balance]
    obtain ⟨stamp, he⟩ := hc
    cases he <;> simp [EventData.signedAmount] <;> omega

/-! ## Shape -/

def EventData.accountId : EventData → Option String
  | .AccountCreated accountId _ _ => some accountId
  | .MoneyDeposited accountId _ _ _ => accountId
  | .MoneyWithdrawn accountId _ _ _ => accountId
  | .AccountFrozen accountId _ => accountId
  | _ => none

def EventData.isAccountCreated : EventData → Bool
  | .AccountCreated .. => true
  | _ => false

def EventData.isAccountFrozen : EventData → Bool
  | .AccountFrozen .. => true
  | _ => false

/-- Creation first and only there, nothing after a freeze, and every event under
its own stream and account. -/
structure AccountShape (accountId : String) (es : List DomainEvent) : Prop where
  first : ∀ e ∈ es.head?, e.data.isAccountCreated = true
  once : ∀ k e, es[k]? = some e → e.data.isAccountCreated = true → k = 0
  last : ∀ k e, es[k]? = some e → e.data.isAccountFrozen = true → k + 1 = es.length
  streamId : ∀ e ∈ es, e.streamId = accountStream accountId
  accountId : ∀ e ∈ es, e.data.accountId = some accountId

theorem AccountShape.nil {accountId : String} : AccountShape accountId [] := by
  constructor <;> simp

theorem AccountShape.snoc {accountId : String} {es : List DomainEvent} {e : DomainEvent}
    (h : AccountShape accountId es) (hfirst : es = [] → e.data.isAccountCreated = true)
    (honce : es ≠ [] → e.data.isAccountCreated = false) (hlast : ∀ e' ∈ es, e'.data.isAccountFrozen = false)
    (hs : e.streamId = accountStream accountId) (hid : e.data.accountId = some accountId) :
    AccountShape accountId (es ++ [e]) := by
  have key : ∀ {k : Nat} {e' : DomainEvent}, (es ++ [e])[k]? = some e' →
      es[k]? = some e' ∨ (k = es.length ∧ e' = e) := by
    intro k e' hk
    rcases Nat.lt_trichotomy k es.length with hlt | rfl | hgt
    · exact .inl (by rwa [List.getElem?_append_left hlt] at hk)
    · simp only [List.getElem?_concat_length, Option.some.injEq] at hk
      exact .inr ⟨rfl, hk.symm⟩
    · rw [List.getElem?_eq_none (by simp; omega)] at hk
      cases hk
  constructor
  · intro e' he'
    cases es with
    | nil => simp at he'; exact he' ▸ hfirst rfl
    | cons a es => exact h.first e' (by simpa using he')
  · intro k e' hk hc
    rcases key hk with hk | ⟨rfl, rfl⟩
    · exact h.once k e' hk hc
    · by_cases hes : es = []
      · simp [hes]
      · rw [honce hes] at hc; cases hc
  · intro k e' hk hf
    rcases key hk with hk | ⟨rfl, rfl⟩
    · rw [hlast e' (List.mem_of_getElem? hk)] at hf; cases hf
    · simp
  · intro e' he'
    rcases List.mem_append.mp he' with he' | he'
    · exact h.streamId e' he'
    · rw [List.mem_singleton.mp he']; exact hs
  · intro e' he'
    rcases List.mem_append.mp he' with he' | he'
    · exact h.accountId e' he'
    · rw [List.mem_singleton.mp he']; exact hid

section
variable {accountId : String} {es : List DomainEvent} (hne : accountId ≠ "")
  (hhead : ∀ e ∈ es.head?, e.data.isAccountCreated = true)
include hne hhead

/-- A stream that starts with a creation has the shape; what it replays to
tells that it was created, and whether it was frozen. -/
theorem AccountStream.shape (h : AccountStream accountId es) : AccountShape accountId es ∧
    (es ≠ [] → (replay es).accountId = some accountId) ∧
    ((replay es).status = .ACTIVE → ∀ e ∈ es, e.data.isAccountFrozen = false) := by
  induction h with
  | nil => exact ⟨.nil, fun h => absurd rfl h, by simp⟩
  | @commit es method context event h hid hc ih =>
    by_cases hes : es = []
    · subst hes
      obtain ⟨stamp, he⟩ := hc
      cases he with
      | create hid' =>
        obtain rfl := hid _ rfl
        refine ⟨.snoc .nil (fun _ => rfl) (fun h => absurd rfl h) (by simp) rfl rfl, fun _ => rfl, fun _ e he => ?_⟩
        rw [List.mem_singleton.mp he]; rfl
      | deposit hs hcur hn hpos => cases hcur
      | withdraw hs hcur hn hpos hle => cases hcur
      | freeze hr hs => exact absurd (hhead _ rfl) (by simp [EventData.isAccountCreated])
    · obtain ⟨hshape, hcreated, hactive⟩ := ih (fun e he => hhead e (by
        cases es with
        | nil => exact absurd rfl hes
        | cons a es => simpa using he))
      have hcreated := hcreated hes
      obtain ⟨stamp, he⟩ := hc
      cases he with
      | create hid' => rw [hcreated] at hid'; simp [truthy, hne] at hid'
      | deposit hs hcur hn hpos =>
        refine ⟨hshape.snoc (absurd · hes) (fun _ => rfl) (hactive hs) (by simp [hcreated, orUndefined])
          (by simp [hcreated, EventData.accountId]), fun _ => ?_, fun _ e he => ?_⟩
        · rw [replay_snoc]; exact hcreated
        · rcases List.mem_append.mp he with he | he
          · exact hactive hs e he
          · rw [List.mem_singleton.mp he]; rfl
      | withdraw hs hcur hn hpos hle =>
        refine ⟨hshape.snoc (absurd · hes) (fun _ => rfl) (hactive hs) (by simp [hcreated, orUndefined])
          (by simp [hcreated, EventData.accountId]), fun _ => ?_, fun _ e he => ?_⟩
        · rw [replay_snoc]; exact hcreated
        · rcases List.mem_append.mp he with he | he
          · exact hactive hs e he
          · rw [List.mem_singleton.mp he]; rfl
      | freeze hr hs =>
        refine ⟨hshape.snoc (absurd · hes) (fun _ => rfl) (hactive hs) (by simp [hcreated, orUndefined])
          (by simp [hcreated, EventData.accountId]), fun _ => ?_, fun hst => ?_⟩
        · rw [replay_snoc]; exact hcreated
        · rw [replay_snoc] at hst; cases hst

end

end CoreBanking
