import CoreBanking.Lib.Machine
import CoreBanking.Lib.OrderedMap

/-!
# The locks of the repositories

Calls of `withAccountLock` and `withTransferLock` in one process. Each call
makes a promise, leaves it in the map for the next call of its key, awaits the
promise it has found there, and awaits its function. The continuations that are
queued run in any order, calls may arrive at any time (also while a function
runs), and a function may throw at once, or return a promise that settles at any
time.
-/

namespace CoreBanking

inductive Outcome
  | resolved
  | rejected
deriving DecidableEq

/-- Where a call stands: at `await prev`, whose promise is pending; with its
continuation queued; with its function under way; with the function's promise
settled and the `finally` block queued; over. -/
inductive LockStage
  | waiting
  | scheduled
  | running
  | settled (outcome : Outcome)
  | over (outcome : Outcome)
deriving DecidableEq

namespace LockStage

def isOver : LockStage → Bool
  | .over _ => true
  | _ => false

def hasStarted : LockStage → Bool
  | .waiting | .scheduled => false
  | _ => true

/-- The function has been called and has not given the lock back. -/
def runs : LockStage → Bool
  | .running | .settled _ => true
  | _ => false

theorem hasStarted_of_runs {a : LockStage} (h : a.runs = true) : a.hasStarted = true := by
  cases a <;> first | rfl | cases h

theorem not_over_of_runs {a : LockStage} (h : a.runs = true) : a.isOver = false := by
  cases a <;> first | rfl | cases h

end LockStage

/-- The promise a call makes is named by the number of the call. -/
structure LockCall where
  key : String
  prev : Option Nat
  stage : LockStage
deriving DecidableEq

/-- The map of one repository, its calls in the order of their arrival, and the
calls whose functions have been called, in the order of their starts. -/
structure KeyedLocks where
  locks : OrderedMap String Nat
  calls : List LockCall
  started : List Nat

/-- The continuation of a call runs; a function throws at once; the promise of a
function settles. -/
inductive LockEvent
  | resume (i : Nat)
  | throws (i : Nat)
  | settles (i : Nat) (outcome : Outcome)
deriving DecidableEq

namespace KeyedLocks

def init : KeyedLocks := ⟨.empty, [], []⟩

def keyOf (s : KeyedLocks) (i : Nat) : Option String := s.calls[i]?.map LockCall.key

def prevOf (s : KeyedLocks) (i : Nat) : Option Nat := s.calls[i]?.bind LockCall.prev

def stageOf (s : KeyedLocks) (i : Nat) : Option LockStage := s.calls[i]?.map LockCall.stage

def isOver (s : KeyedLocks) (i : Nat) : Bool := (s.stageOf i).any LockStage.isOver

def setStage (s : KeyedLocks) (i : Nat) (stage : LockStage) : KeyedLocks :=
  { s with calls := s.calls.modify i fun call => { call with stage := stage } }

/-- Up to `await prev`, which is `Promise.resolve()` where the map has no promise. -/
def withLock (s : KeyedLocks) (key : String) : KeyedLocks where
  locks := s.locks.set key s.calls.length
  calls :=
    let prev := s.locks.get key
    s.calls ++ [⟨key, prev, if prev.all s.isOver then .scheduled else .waiting⟩]
  started := s.started

def release (s : KeyedLocks) (i : Nat) : KeyedLocks :=
  { s with
    calls := s.calls.map fun call =>
      if call.prev = some i ∧ call.stage = .waiting then { call with stage := .scheduled } else call }

/-- The `finally` block. -/
def finish (s : KeyedLocks) (i : Nat) (key : String) (outcome : Outcome) : KeyedLocks :=
  let s := (s.setStage i (.over outcome)).release i
  if s.locks.get key = some i then { s with locks := s.locks.delete key } else s

def step (s : KeyedLocks) : LockEvent → Option KeyedLocks
  | .resume i =>
    match s.calls[i]? with
    | some ⟨_, _, .scheduled⟩ => some { s.setStage i .running with started := s.started ++ [i] }
    | some ⟨key, _, .settled outcome⟩ => some (s.finish i key outcome)
    | _ => none
  | .throws i =>
    match s.calls[i]? with
    | some ⟨key, _, .running⟩ => some (s.finish i key .rejected)
    | _ => none
  | .settles i outcome =>
    match s.calls[i]? with
    | some ⟨_, _, .running⟩ => some (s.setStage i (.settled outcome))
    | _ => none

end KeyedLocks

def AccountRepository.withAccountLock (accountLocks : KeyedLocks) (accountId : String) : KeyedLocks :=
  accountLocks.withLock accountId

def TransferRepository.withTransferLock (transferLocks : KeyedLocks) (transferId : String) : KeyedLocks :=
  transferLocks.withLock transferId

structure RepositoryLocks where
  accountLocks : KeyedLocks
  transferLocks : KeyedLocks

namespace RepositoryLocks

inductive Event
  | withAccountLock (accountId : String)
  | withTransferLock (transferId : String)
  | account (e : LockEvent)
  | transfer (e : LockEvent)
deriving DecidableEq

def init : RepositoryLocks := ⟨.init, .init⟩

def step (s : RepositoryLocks) : Event → Option RepositoryLocks
  | .withAccountLock accountId =>
    some { s with accountLocks := AccountRepository.withAccountLock s.accountLocks accountId }
  | .withTransferLock transferId =>
    some { s with transferLocks := TransferRepository.withTransferLock s.transferLocks transferId }
  | .account e => (s.accountLocks.step e).map fun accountLocks => { s with accountLocks := accountLocks }
  | .transfer e => (s.transferLocks.step e).map fun transferLocks => { s with transferLocks := transferLocks }

def machine : Machine RepositoryLocks Event where
  starts := (· = init)
  allows _ _ := True
  step := step

abbrev Reached : RepositoryLocks → Prop := machine.Reached

end RepositoryLocks

structure KeyedLocks.Guarantees (s : KeyedLocks) : Prop where
  /-- One function of a key runs at a time. -/
  exclusive : ∀ i j a b, s.stageOf i = some a → s.stageOf j = some b → a.runs = true → b.runs = true →
    s.keyOf i = s.keyOf j → i = j
  /-- The functions of a key start in the order of the calls, and none is passed over. -/
  inOrder : s.started.Pairwise fun i j => s.keyOf i = s.keyOf j → i < j
  noneSkipped : ∀ i j, i < j → s.keyOf i = s.keyOf j → j ∈ s.started → i ∈ s.started
  /-- A call that is not scheduled awaits an earlier one of its key that has not released. -/
  suspended : ∀ j, s.stageOf j = some .waiting →
    ∃ i < j, s.prevOf j = some i ∧ s.keyOf i = s.keyOf j ∧ s.isOver i = false
  /-- With no function under way and no continuation queued, no call is left. -/
  noneForever : (∀ j a, s.stageOf j = some a → a = .waiting ∨ a.isOver = true) →
    ∀ j a, s.stageOf j = some a → a.isOver = true
  held : ∀ key, (∃ lock, s.locks.get key = some lock) ↔ ∃ i, s.keyOf i = some key ∧ s.isOver i = false

/-- The calls that await a call which ends, resolved or rejected, are scheduled. -/
def KeyedLocks.Releases (s s' : KeyedLocks) : Prop :=
  ∀ i j, s.isOver i = false → s'.isOver i = true → s.prevOf j = some i → s.stageOf j = some .waiting →
    s'.stageOf j = some .scheduled

/-! ## What a step does to a call -/

namespace KeyedLocks

variable {s s' : KeyedLocks} {e : LockEvent} {i j : Nat} {a b : LockStage} {key : String} {o : Outcome}

@[simp] theorem keyOf_setStage : (s.setStage i b).keyOf j = s.keyOf j := by
  simp only [keyOf, setStage, List.getElem?_modify]
  cases s.calls[j]? with
  | none => rfl
  | some call =>
    simp only [Option.map_eq_map, Option.map_some]
    split <;> rfl

@[simp] theorem prevOf_setStage : (s.setStage i b).prevOf j = s.prevOf j := by
  simp only [prevOf, setStage, List.getElem?_modify]
  cases s.calls[j]? with
  | none => rfl
  | some call =>
    simp only [Option.map_eq_map, Option.map_some, Option.bind_some]
    split <;> rfl

theorem stageOf_setStage :
    (s.setStage i b).stageOf j = if i = j then (s.stageOf j).map fun _ => b else s.stageOf j := by
  simp only [stageOf, setStage, List.getElem?_modify]
  cases s.calls[j]? with
  | none => simp
  | some call =>
    simp only [Option.map_eq_map, Option.map_some]
    split <;> rfl

@[simp] theorem keyOf_release : (s.release i).keyOf j = s.keyOf j := by
  simp only [keyOf, release, List.getElem?_map]
  cases s.calls[j]? with
  | none => rfl
  | some call =>
    simp only [Option.map_some]
    split <;> rfl

@[simp] theorem prevOf_release : (s.release i).prevOf j = s.prevOf j := by
  simp only [prevOf, release, List.getElem?_map]
  cases s.calls[j]? with
  | none => rfl
  | some call =>
    simp only [Option.map_some, Option.bind_some]
    split <;> rfl

theorem stageOf_release : (s.release i).stageOf j =
    if s.prevOf j = some i ∧ s.stageOf j = some .waiting then some .scheduled else s.stageOf j := by
  have key : ∀ x : Option LockCall,
      (x.map fun call =>
        if call.prev = some i ∧ call.stage = .waiting then { call with stage := .scheduled } else
          call).map LockCall.stage =
      if x.bind LockCall.prev = some i ∧ x.map LockCall.stage = some .waiting then some .scheduled
      else x.map LockCall.stage := by
    intro x
    cases x with
    | none => simp
    | some call =>
      simp only [Option.map_some, Option.bind_some, Option.some.injEq]
      split <;> rfl
  rw [stageOf, release, List.getElem?_map]
  exact key _

theorem keyOf_finish : (s.finish i key o).keyOf j = s.keyOf j := by
  unfold finish
  dsimp only
  split
  · exact keyOf_release.trans keyOf_setStage
  · exact keyOf_release.trans keyOf_setStage

theorem prevOf_finish : (s.finish i key o).prevOf j = s.prevOf j := by
  unfold finish
  dsimp only
  split
  · exact prevOf_release.trans prevOf_setStage
  · exact prevOf_release.trans prevOf_setStage

theorem started_finish : (s.finish i key o).started = s.started := by
  unfold finish
  dsimp only
  split <;> rfl

theorem locks_finish : (s.finish i key o).locks = if s.locks.get key = some i then s.locks.delete key else s.locks := by
  unfold finish
  dsimp only
  split
  case isTrue h => exact (if_pos h).symm
  case isFalse h => exact (if_neg h).symm

theorem stageOf_finish : (s.finish i key o).stageOf j =
    if i = j then (s.stageOf j).map fun _ => .over o
    else if s.prevOf j = some i ∧ s.stageOf j = some .waiting then some .scheduled else s.stageOf j := by
  have hstage : (s.finish i key o).stageOf j = ((s.setStage i (.over o)).release i).stageOf j := by
    unfold finish
    dsimp only
    split <;> rfl
  rw [hstage, stageOf_release, prevOf_setStage, stageOf_setStage]
  split
  case isTrue => cases s.stageOf j <;> simp
  case isFalse => rfl

theorem isOver_finish (ha : s.stageOf i = some a) : (s.finish i key o).isOver j = (decide (i = j) || s.isOver j) := by
  unfold isOver
  rw [stageOf_finish]
  by_cases hij : i = j
  · subst hij
    simp [ha, LockStage.isOver]
  · rw [if_neg hij]
    split
    case isTrue h => simp [h.2, hij, LockStage.isOver]
    case isFalse => simp [hij]

theorem step_cases (h : s.step e = some s') :
    (∃ i, s.stageOf i = some .scheduled ∧ s' = { s.setStage i .running with started := s.started ++ [i] }) ∨
    (∃ i a key o, s.stageOf i = some a ∧ a.runs = true ∧ s.keyOf i = some key ∧ s' = s.finish i key o) ∨
    (∃ i o, s.stageOf i = some .running ∧ s' = s.setStage i (.settled o)) := by
  cases e with
  | resume i =>
    simp only [step] at h
    split at h
    case h_1 hcall => exact .inl ⟨i, by simp [stageOf, hcall], (Option.some.inj h).symm⟩
    case h_2 key prev o hcall =>
      exact .inr (.inl ⟨i, .settled o, key, o, by simp [stageOf, hcall], rfl, by simp [keyOf, hcall],
        (Option.some.inj h).symm⟩)
    case h_3 => cases h
  | throws i =>
    simp only [step] at h
    split at h
    case h_1 key prev hcall =>
      exact .inr (.inl ⟨i, .running, key, .rejected, by simp [stageOf, hcall], rfl, by simp [keyOf, hcall],
        (Option.some.inj h).symm⟩)
    case h_2 => cases h
  | settles i o =>
    simp only [step] at h
    split at h
    case h_1 hcall => exact .inr (.inr ⟨i, o, by simp [stageOf, hcall], (Option.some.inj h).symm⟩)
    case h_2 => cases h

theorem calls_withLock : (s.withLock key).calls[j]? =
    if j = s.calls.length then
      some ⟨key, s.locks.get key, if (s.locks.get key).all s.isOver then .scheduled else .waiting⟩
    else s.calls[j]? := by
  simp only [withLock]
  rcases Nat.lt_trichotomy j s.calls.length with hlt | rfl | hgt
  · rw [List.getElem?_append_left hlt, if_neg (by omega)]
  · simp
  · rw [List.getElem?_eq_none (by simp; omega), List.getElem?_eq_none (by omega), if_neg (by omega)]

theorem stageOf_withLock : (s.withLock key).stageOf j =
    if j = s.calls.length then some (if (s.locks.get key).all s.isOver then .scheduled else .waiting)
    else s.stageOf j := by
  rw [stageOf, calls_withLock]
  split <;> rfl

theorem keyOf_withLock : (s.withLock key).keyOf j = if j = s.calls.length then some key else s.keyOf j := by
  rw [keyOf, calls_withLock]
  split <;> rfl

theorem prevOf_withLock :
    (s.withLock key).prevOf j = if j = s.calls.length then s.locks.get key else s.prevOf j := by
  rw [prevOf, calls_withLock]
  split <;> rfl

/-! ## The chain, the map and the calls -/

/-- A call awaits the call of its key before it, if that was not over; a call
that is past its `await` has all of its key behind it; the map has the last call
of a key, while it is not over. -/
structure Chain (s : KeyedLocks) : Prop where
  behind : ∀ {i j}, s.prevOf j = some i →
    i < j ∧ s.keyOf i = s.keyOf j ∧ ∀ k, i < k → k < j → s.keyOf k ≠ s.keyOf j
  turn : ∀ {i j a}, s.stageOf j = some a → a ≠ .waiting → i < j → s.keyOf i = s.keyOf j → s.isOver i = true
  waiting : ∀ {j}, s.stageOf j = some .waiting → ∃ i, s.prevOf j = some i ∧ s.isOver i = false
  held : ∀ {key i}, s.locks.get key = some i ↔
    s.keyOf i = some key ∧ s.isOver i = false ∧ ∀ k, i < k → s.keyOf k ≠ some key

structure Inv (s : KeyedLocks) : Prop extends s.Chain where
  starts : ∀ {j}, j ∈ s.started ↔ ∃ a, s.stageOf j = some a ∧ a.hasStarted = true
  inOrder : s.started.Pairwise fun i j => s.keyOf i = s.keyOf j → i < j

theorem keyOf_some_iff : (∃ key, s.keyOf i = some key) ↔ i < s.calls.length := by
  simp only [keyOf, Option.map_eq_some_iff]
  constructor
  · rintro ⟨_, call, hcall, _⟩
    exact (List.getElem?_eq_some_iff.mp hcall).1
  · intro hlt
    exact ⟨_, _, List.getElem?_eq_getElem hlt, rfl⟩

theorem stageOf_some_iff : (∃ a, s.stageOf i = some a) ↔ i < s.calls.length := by
  simp only [stageOf, Option.map_eq_some_iff]
  constructor
  · rintro ⟨_, call, hcall, _⟩
    exact (List.getElem?_eq_some_iff.mp hcall).1
  · intro hlt
    exact ⟨_, _, List.getElem?_eq_getElem hlt, rfl⟩

theorem isOver_iff : s.isOver i = true ↔ ∃ o, s.stageOf i = some (.over o) := by
  unfold isOver
  cases s.stageOf i with
  | none => simp
  | some a => cases a <;> simp [LockStage.isOver]

theorem inv_init : init.Inv where
  behind := by simp [init, prevOf]
  turn := by simp [init, stageOf]
  waiting := by simp [init, stageOf]
  held := by simp [init, keyOf]
  starts := by simp [init, stageOf]
  inOrder := .nil

/-- The last call of a key that the map has not is over, and so are those before it. -/
theorem Chain.over_of_free (hI : s.Chain) (hfree : s.locks.get key = none) (hi : s.keyOf i = some key) :
    s.isOver i = true := by
  induction hn : s.calls.length - i using Nat.strongRecOn generalizing i with
  | ind n ih =>
    have hlt := keyOf_some_iff.mp ⟨key, hi⟩
    by_cases hlast : ∃ k, i < k ∧ s.keyOf k = some key
    · obtain ⟨k, hk, hkey⟩ := hlast
      have hklt := keyOf_some_iff.mp ⟨key, hkey⟩
      obtain ⟨o, hover⟩ := isOver_iff.mp (ih (s.calls.length - k) (by omega) hkey rfl)
      exact hI.turn hover (by simp) hk (hi.trans hkey.symm)
    · by_contra hpending
      have hheld := hI.held.mpr ⟨hi, by simpa using hpending, fun k hk hkey => hlast ⟨k, hk, hkey⟩⟩
      rw [hfree] at hheld
      cases hheld

theorem stageOf_setStage_of (hi : s.stageOf i = some a) :
    (s.setStage i b).stageOf j = if i = j then some b else s.stageOf j := by
  rw [stageOf_setStage]
  split
  case isTrue heq => rw [← heq, hi, Option.map_some]
  case isFalse => rfl

theorem Chain.setStage (hI : s.Chain) (hi : s.stageOf i = some a) (ha : a ≠ .waiting) (haover : a.isOver = false)
    (hb : b ≠ .waiting) (hbover : b.isOver = false) : (s.setStage i b).Chain := by
  have hover : ∀ j, (s.setStage i b).isOver j = s.isOver j := by
    intro j
    unfold isOver
    rw [stageOf_setStage_of hi]
    split
    case isTrue heq => rw [← heq, hi, Option.any_some, Option.any_some, haover, hbover]
    case isFalse => rfl
  refine ⟨?_, ?_, ?_, ?_⟩
  · intro k j hprev
    simpa using hI.behind (by simpa using hprev)
  · intro k j c hj hc hk hkey
    rw [hover]
    rw [stageOf_setStage_of hi] at hj
    rw [keyOf_setStage, keyOf_setStage] at hkey
    split at hj
    case isTrue heq => exact hI.turn (heq ▸ hi) ha hk hkey
    case isFalse => exact hI.turn hj hc hk hkey
  · intro j hj
    rw [stageOf_setStage_of hi] at hj
    split at hj
    case isTrue => exact absurd (Option.some.inj hj) hb
    case isFalse =>
      obtain ⟨k, hprev, hk⟩ := hI.waiting hj
      exact ⟨k, by rw [prevOf_setStage, hprev], by rw [hover, hk]⟩
  · intro key k
    simp only [keyOf_setStage, hover]
    exact hI.held

theorem Chain.held_finish (hI : s.Chain) (hi : s.stageOf i = some a) (hkey : s.keyOf i = some key) (key' : String)
    (k : Nat) : (s.finish i key o).locks.get key' = some k ↔ (s.finish i key o).keyOf k = some key' ∧
      (s.finish i key o).isOver k = false ∧ ∀ j, k < j → (s.finish i key o).keyOf j ≠ some key' := by
  have hover : (s.finish i key o).isOver k = false ↔ i ≠ k ∧ s.isOver k = false := by
    simp [isOver_finish hi]
  simp only [keyOf_finish, hover]
  rw [locks_finish]
  constructor
  · intro hget
    have hold : s.locks.get key' = some k ∧ i ≠ k := by
      split at hget
      case isTrue hheld =>
        rw [OrderedMap.get_delete] at hget
        split at hget
        case isTrue => cases hget
        case isFalse hne' =>
          refine ⟨hget, fun heq => hne' ?_⟩
          subst heq
          exact Option.some.inj (hkey.symm.trans (hI.held.mp hget).1)
      case isFalse hnot =>
        refine ⟨hget, fun heq => hnot ?_⟩
        subst heq
        obtain rfl := Option.some.inj (hkey.symm.trans (hI.held.mp hget).1)
        exact hget
    obtain ⟨hk, hkover, hlast⟩ := hI.held.mp hold.1
    exact ⟨hk, ⟨hold.2, hkover⟩, hlast⟩
  · rintro ⟨hk, ⟨hik, hkover⟩, hlast⟩
    have hget := hI.held.mpr ⟨hk, hkover, hlast⟩
    split
    case isFalse => exact hget
    case isTrue hheld =>
      rw [OrderedMap.get_delete]
      split
      case isFalse => exact hget
      case isTrue heq =>
        subst heq
        exact absurd (Option.some.inj (hheld.symm.trans hget)) hik

theorem Chain.finish (hI : s.Chain) (hi : s.stageOf i = some a) (ha : a.runs = true) (hkey : s.keyOf i = some key) :
    (s.finish i key o).Chain := by
  have hne : a ≠ .waiting := by
    rintro rfl
    cases ha
  refine ⟨?_, ?_, ?_, ?_⟩
  · intro k j hprev
    rw [prevOf_finish] at hprev
    simpa only [keyOf_finish] using hI.behind hprev
  · intro k j c hj hc hk hkeys
    rw [isOver_finish hi, Bool.or_eq_true, decide_eq_true_eq]
    rw [keyOf_finish, keyOf_finish] at hkeys
    rw [stageOf_finish] at hj
    split at hj
    case isTrue heq => exact .inr (hI.turn (heq ▸ hi) hne hk hkeys)
    case isFalse hij =>
      split at hj
      case isFalse => exact .inr (hI.turn hj hc hk hkeys)
      case isTrue hwoken =>
        -- `j` has waited for `i`; the calls of the key before `i` were over already.
        obtain ⟨hlt, hsame, hbetween⟩ := hI.behind hwoken.1
        rcases Nat.lt_trichotomy k i with hki | rfl | hki
        · exact .inr (hI.turn hi hne hki (hkeys.trans hsame.symm))
        · exact .inl rfl
        · exact absurd hkeys (hbetween k hki hk)
  · intro j hj
    rw [stageOf_finish] at hj
    split at hj
    case isTrue => simp [Option.map_eq_some_iff] at hj
    case isFalse hij =>
      split at hj
      case isTrue => cases hj
      case isFalse hnot =>
        obtain ⟨k, hprev, hk⟩ := hI.waiting hj
        have hik : i ≠ k := fun heq => hnot ⟨heq ▸ hprev, hj⟩
        refine ⟨k, by rw [prevOf_finish, hprev], ?_⟩
        rw [isOver_finish hi, hk]
        simpa using hik
  · exact fun {key' k} => hI.held_finish hi hkey key' k

/-! ### A new call -/

theorem isOver_withLock {k : Nat} (hk : k ≠ s.calls.length) : (s.withLock key).isOver k = s.isOver k := by
  unfold isOver
  rw [stageOf_withLock, if_neg hk]

theorem lt_of_keyOf {k : Nat} (hk : s.keyOf k = some key) : k < s.calls.length := keyOf_some_iff.mp ⟨_, hk⟩

theorem held_withLock_self : i = s.calls.length ↔ (s.withLock key).keyOf i = some key ∧
    (s.withLock key).isOver i = false ∧ ∀ k, i < k → (s.withLock key).keyOf k ≠ some key := by
  constructor
  · rintro rfl
    have hfresh : (s.withLock key).isOver s.calls.length = false := by
      unfold isOver
      rw [stageOf_withLock, if_pos rfl, Option.any_some]
      split <;> rfl
    refine ⟨by rw [keyOf_withLock, if_pos rfl], hfresh, fun k hk => ?_⟩
    rw [keyOf_withLock, if_neg (by omega)]
    exact fun hkey => absurd (lt_of_keyOf hkey) (by omega)
  · rintro ⟨hi, _, hlast⟩
    rw [keyOf_withLock] at hi
    by_contra hin
    rw [if_neg hin] at hi
    exact absurd (by rw [keyOf_withLock, if_pos rfl]) (hlast s.calls.length (lt_of_keyOf hi))

namespace Chain

variable (hI : s.Chain)
include hI

theorem behind_withLock (hprev : (s.withLock key).prevOf j = some i) :
    i < j ∧ (s.withLock key).keyOf i = (s.withLock key).keyOf j ∧
      ∀ k, i < k → k < j → (s.withLock key).keyOf k ≠ (s.withLock key).keyOf j := by
  rw [prevOf_withLock] at hprev
  split at hprev
  case isTrue hj =>
    subst hj
    obtain ⟨hi, _, hlast⟩ := hI.held.mp hprev
    have hi' := lt_of_keyOf hi
    refine ⟨hi', by rw [keyOf_withLock, keyOf_withLock, if_neg (by omega), if_pos rfl, hi], fun k hik hk => ?_⟩
    rw [keyOf_withLock, keyOf_withLock, if_neg (by omega), if_pos rfl]
    exact hlast k hik
  case isFalse hj =>
    obtain ⟨hij, hsame, hbetween⟩ := hI.behind hprev
    have hj' : j < s.calls.length ∨ s.prevOf j = none := by
      rcases Nat.lt_or_ge j s.calls.length with hlt | hge
      · exact .inl hlt
      · exact .inr (by simp [prevOf, List.getElem?_eq_none hge])
    have hj' := hj'.resolve_right (by simp [hprev])
    refine ⟨hij, by rw [keyOf_withLock, keyOf_withLock, if_neg (by omega), if_neg hj, hsame], fun k hik hk => ?_⟩
    rw [keyOf_withLock, keyOf_withLock, if_neg (by omega), if_neg hj]
    exact hbetween k hik hk

theorem turn_withLock (hj : (s.withLock key).stageOf j = some a) (ha : a ≠ .waiting) (hij : i < j)
    (hkeys : (s.withLock key).keyOf i = (s.withLock key).keyOf j) : (s.withLock key).isOver i = true := by
  rw [stageOf_withLock] at hj
  rw [keyOf_withLock, keyOf_withLock] at hkeys
  split at hj
  case isTrue hjn =>
    rw [if_neg (by omega), if_pos hjn] at hkeys
    rw [isOver_withLock (by omega)]
    -- What the map has is not over, so the call goes on at once only if the key is free.
    refine hI.over_of_free ?_ hkeys
    cases hget : s.locks.get key with
    | none => rfl
    | some k =>
      have hk := (hI.held.mp hget).2.1
      simp only [hget, Option.all_some, hk, Bool.false_eq_true, if_false, Option.some.injEq] at hj
      exact absurd hj.symm ha
  case isFalse hjn =>
    have hj' := stageOf_some_iff.mp ⟨a, hj⟩
    rw [if_neg (by omega), if_neg hjn] at hkeys
    rw [isOver_withLock (by omega)]
    exact hI.turn hj ha hij hkeys

theorem waiting_withLock (hj : (s.withLock key).stageOf j = some .waiting) :
    ∃ i, (s.withLock key).prevOf j = some i ∧ (s.withLock key).isOver i = false := by
  rw [stageOf_withLock] at hj
  rw [prevOf_withLock]
  split at hj
  case isTrue hjn =>
    rw [if_pos hjn]
    cases hget : s.locks.get key with
    | none => simp [hget] at hj
    | some k =>
      obtain ⟨hk, hkover, _⟩ := hI.held.mp hget
      have hk' := lt_of_keyOf hk
      exact ⟨k, rfl, by rw [isOver_withLock (by omega), hkover]⟩
  case isFalse hjn =>
    rw [if_neg hjn]
    obtain ⟨i, hprev, hi⟩ := hI.waiting hj
    have hj' := stageOf_some_iff.mp ⟨_, hj⟩
    have hij := (hI.behind hprev).1
    exact ⟨i, hprev, by rw [isOver_withLock (by omega), hi]⟩

theorem held_withLock_other {key' : String} (hne : key ≠ key') :
    s.locks.get key' = some i ↔ (s.withLock key).keyOf i = some key' ∧
      (s.withLock key).isOver i = false ∧ ∀ k, i < k → (s.withLock key).keyOf k ≠ some key' := by
  rw [hI.held, keyOf_withLock]
  by_cases hin : i = s.calls.length
  · rw [if_pos hin]
    constructor
    · rintro ⟨hi, _⟩
      exact absurd (lt_of_keyOf hi) (by omega)
    · rintro ⟨hi, _⟩
      exact absurd (Option.some.inj hi) hne
  · rw [if_neg hin, isOver_withLock hin]
    refine and_congr_right fun hi => and_congr_right fun _ => forall_congr' fun k => forall_congr' fun _ => ?_
    rw [keyOf_withLock]
    split
    case isTrue hk =>
      have hnone : s.keyOf k ≠ some key' := fun hkey => absurd (lt_of_keyOf hkey) (by omega)
      simp [hnone, hne]
    case isFalse => rfl

theorem withLock (key : String) : (s.withLock key).Chain where
  behind := hI.behind_withLock
  turn := hI.turn_withLock
  waiting := hI.waiting_withLock
  held {key' i} := by
    show (s.locks.set key s.calls.length).get key' = some i ↔ _
    rw [OrderedMap.get_set]
    split
    case isTrue heq =>
      subst heq
      rw [Option.some.injEq, eq_comm]
      exact held_withLock_self
    case isFalse hne => exact hI.held_withLock_other hne

end Chain

/-! ## Every run -/

theorem Inv.withLock (hI : s.Inv) (key : String) : (s.withLock key).Inv := by
  have hlt : ∀ {j}, j ∈ s.started → j < s.calls.length := by
    intro j hj
    obtain ⟨a, ha, _⟩ := hI.starts.mp hj
    exact stageOf_some_iff.mp ⟨a, ha⟩
  refine ⟨hI.toChain.withLock key, ?_, ?_⟩
  · intro j
    show j ∈ s.started ↔ _
    rw [stageOf_withLock]
    split
    case isTrue hj =>
      constructor
      · intro hmem
        exact absurd (hlt hmem) (by omega)
      · rintro ⟨a, ha, hstarted⟩
        obtain rfl := Option.some.inj ha
        split at hstarted <;> cases hstarted
    case isFalse => exact hI.starts
  · refine hI.inOrder.imp_of_mem fun {i j} hi hj h hkeys => h ?_
    have hi' := hlt hi
    have hj' := hlt hj
    rwa [keyOf_withLock, keyOf_withLock, if_neg (by omega), if_neg (by omega)] at hkeys

theorem Inv.start (hI : s.Inv) (hi : s.stageOf i = some .scheduled) :
    Inv { s.setStage i .running with started := s.started ++ [i] } := by
  have hchain : (s.setStage i .running).Chain := hI.toChain.setStage hi (by simp) rfl (by simp) rfl
  refine ⟨⟨hchain.behind, hchain.turn, hchain.waiting, hchain.held⟩, ?_, ?_⟩
  · intro j
    show j ∈ s.started ++ [i] ↔ ∃ a, (s.setStage i .running).stageOf j = some a ∧ _
    rw [List.mem_append, List.mem_singleton, stageOf_setStage_of hi, hI.starts]
    split
    case isTrue heq => simp [heq.symm, LockStage.hasStarted]
    case isFalse hne => simp [Ne.symm hne]
  · show List.Pairwise (fun k j => (s.setStage i .running).keyOf k = (s.setStage i .running).keyOf j → k < j) _
    simp only [keyOf_setStage]
    refine List.pairwise_append.mpr ⟨hI.inOrder, List.pairwise_singleton _ _, fun k hk j hj hkeys => ?_⟩
    rw [List.mem_singleton.mp hj] at hkeys ⊢
    obtain ⟨a, ha, hstarted⟩ := hI.starts.mp hk
    rcases Nat.lt_trichotomy k i with hlt | rfl | hgt
    · exact hlt
    · rw [hi] at ha
      obtain rfl := Option.some.inj ha
      cases hstarted
    · -- A later call of the key that has started would have this one behind it.
      have hover := hI.turn ha (by rintro rfl; cases hstarted) hgt hkeys.symm
      obtain ⟨o, ho⟩ := isOver_iff.mp hover
      rw [hi] at ho
      cases ho

theorem Inv.finish (hI : s.Inv) (hi : s.stageOf i = some a) (ha : a.runs = true) (hkey : s.keyOf i = some key) :
    (s.finish i key o).Inv := by
  refine ⟨hI.toChain.finish hi ha hkey, ?_, ?_⟩
  · intro j
    rw [started_finish, hI.starts, stageOf_finish]
    split
    case isTrue heq =>
      subst heq
      rw [hi]
      exact iff_of_true ⟨a, rfl, LockStage.hasStarted_of_runs ha⟩ ⟨.over o, rfl, rfl⟩
    case isFalse =>
      split
      case isTrue hwoken => simp [hwoken.2, LockStage.hasStarted]
      case isFalse => rfl
  · rw [started_finish]
    simp only [keyOf_finish]
    exact hI.inOrder

theorem Inv.settles (hI : s.Inv) (hi : s.stageOf i = some .running) : (s.setStage i (.settled o)).Inv := by
  refine ⟨hI.toChain.setStage hi (by simp) rfl (by simp) rfl, ?_, ?_⟩
  · intro j
    show j ∈ s.started ↔ _
    rw [hI.starts, stageOf_setStage_of hi]
    split
    case isTrue heq =>
      subst heq
      simp [hi, LockStage.hasStarted]
    case isFalse => rfl
  · simp only [keyOf_setStage]
    exact hI.inOrder

theorem Inv.step (hI : s.Inv) (h : s.step e = some s') : s'.Inv := by
  rcases step_cases h with ⟨i, hi, rfl⟩ | ⟨i, a, key, o, hi, ha, hkey, rfl⟩ | ⟨i, o, hi, rfl⟩
  · exact hI.start hi
  · exact hI.finish hi ha hkey
  · exact hI.settles hi

theorem Inv.noneForever (hI : s.Inv)
    (hrest : ∀ j a, s.stageOf j = some a → a = .waiting ∨ a.isOver = true) (j : Nat) (a : LockStage)
    (hj : s.stageOf j = some a) : a.isOver = true := by
  induction j using Nat.strongRecOn generalizing a with
  | ind j ih =>
    refine (hrest j a hj).resolve_left ?_
    rintro rfl
    obtain ⟨i, hprev, hi⟩ := hI.waiting hj
    have hij := (hI.behind hprev).1
    obtain ⟨b, hb⟩ := stageOf_some_iff.mpr (Nat.lt_trans hij (stageOf_some_iff.mp ⟨_, hj⟩))
    have hover := ih i hij b hb
    rw [isOver, hb, Option.any_some, hover] at hi
    cases hi

theorem Chain.held_iff (hI : s.Chain) (key : String) :
    (∃ lock, s.locks.get key = some lock) ↔ ∃ i, s.keyOf i = some key ∧ s.isOver i = false := by
  constructor
  · rintro ⟨i, hi⟩
    obtain ⟨hkey, hover, _⟩ := hI.held.mp hi
    exact ⟨i, hkey, hover⟩
  · rintro ⟨i, hkey, hover⟩
    cases hget : s.locks.get key with
    | some lock => exact ⟨lock, rfl⟩
    | none =>
      rw [hI.over_of_free hget hkey] at hover
      cases hover

/-- Of two calls of a key that run, the earlier one is over. -/
theorem Chain.not_before (hI : s.Chain) (hi : s.stageOf i = some a) (hj : s.stageOf j = some b) (ha : a.runs = true)
    (hb : b.runs = true) (hkeys : s.keyOf i = s.keyOf j) : ¬ i < j := by
  intro hlt
  have hne : b ≠ .waiting := by
    rintro rfl
    cases hb
  have hover := hI.turn hj hne hlt hkeys
  rw [isOver, hi, Option.any_some, LockStage.not_over_of_runs ha] at hover
  cases hover

theorem Inv.guarantees (hI : s.Inv) : s.Guarantees where
  exclusive i j a b hi hj ha hb hkeys := by
    rcases Nat.lt_trichotomy i j with hlt | heq | hgt
    · exact absurd hlt (hI.not_before hi hj ha hb hkeys)
    · exact heq
    · exact absurd hgt (hI.not_before hj hi hb ha hkeys.symm)
  inOrder := hI.inOrder
  noneSkipped i j hij hkeys hj := by
    obtain ⟨a, ha, hstarted⟩ := hI.starts.mp hj
    obtain ⟨o, ho⟩ := isOver_iff.mp (hI.turn ha (by rintro rfl; cases hstarted) hij hkeys)
    exact hI.starts.mpr ⟨_, ho, rfl⟩
  suspended j hj := by
    obtain ⟨i, hprev, hi⟩ := hI.waiting hj
    obtain ⟨hij, hkeys, _⟩ := hI.behind hprev
    exact ⟨i, hij, hprev, hkeys, hi⟩
  noneForever := hI.noneForever
  held := hI.held_iff

theorem isOver_setStage_of (hi : s.stageOf i = some a) (hb : b.isOver = false) (h : (s.setStage i b).isOver j = true) :
    s.isOver j = true := by
  unfold isOver at h ⊢
  rw [stageOf_setStage_of hi] at h
  split at h
  case isTrue =>
    rw [Option.any_some, hb] at h
    cases h
  case isFalse => exact h

theorem Releases.refl : s.Releases s := by
  intro i j hi hi'
  rw [hi] at hi'
  cases hi'

theorem withLock_releases (s : KeyedLocks) (key : String) : s.Releases (s.withLock key) := by
  intro i j hi hi'
  rw [isOver, stageOf_withLock] at hi'
  split at hi'
  case isTrue =>
    rw [Option.any_some] at hi'
    split at hi' <;> cases hi'
  case isFalse =>
    rw [← isOver, hi] at hi'
    cases hi'

theorem step_releases (h : s.step e = some s') : s.Releases s' := by
  intro k j hk hk' hprev hj
  rcases step_cases h with ⟨i, hi, rfl⟩ | ⟨i, a, key, o, hi, ha, _, rfl⟩ | ⟨i, o, hi, rfl⟩
  · have hover := isOver_setStage_of (j := k) hi rfl hk'
    rw [hk] at hover
    cases hover
  · rw [isOver_finish hi, hk, Bool.or_false, decide_eq_true_eq] at hk'
    subst hk'
    rw [stageOf_finish]
    split
    case isFalse => exact if_pos ⟨hprev, hj⟩
    case isTrue heq =>
      subst heq
      rw [hi] at hj
      obtain rfl := Option.some.inj hj
      cases ha
  · have hover := isOver_setStage_of (j := k) hi rfl hk'
    rw [hk] at hover
    cases hover

end KeyedLocks

namespace RepositoryLocks

variable {s s' : RepositoryLocks} {e : Event}

theorem inv_step (h : s.accountLocks.Inv ∧ s.transferLocks.Inv) (hs : s.step e = some s') :
    s'.accountLocks.Inv ∧ s'.transferLocks.Inv := by
  cases e with
  | withAccountLock accountId =>
    cases hs
    exact ⟨h.1.withLock accountId, h.2⟩
  | withTransferLock transferId =>
    cases hs
    exact ⟨h.1, h.2.withLock transferId⟩
  | account e =>
    obtain ⟨_, he, rfl⟩ := Option.map_eq_some_iff.mp hs
    exact ⟨h.1.step he, h.2⟩
  | transfer e =>
    obtain ⟨_, he, rfl⟩ := Option.map_eq_some_iff.mp hs
    exact ⟨h.1, h.2.step he⟩

theorem Reached.inv (h : Reached s) : s.accountLocks.Inv ∧ s.transferLocks.Inv := by
  refine Machine.Reached.invariant (I := fun s => s.accountLocks.Inv ∧ s.transferLocks.Inv) h ?_
    fun _ _ hs ih => inv_step ih hs
  rintro _ rfl
  exact ⟨KeyedLocks.inv_init, KeyedLocks.inv_init⟩

theorem releases (h : s.step e = some s') :
    s.accountLocks.Releases s'.accountLocks ∧ s.transferLocks.Releases s'.transferLocks := by
  cases e with
  | withAccountLock accountId =>
    cases h
    exact ⟨KeyedLocks.withLock_releases _ _, KeyedLocks.Releases.refl⟩
  | withTransferLock transferId =>
    cases h
    exact ⟨KeyedLocks.Releases.refl, KeyedLocks.withLock_releases _ _⟩
  | account e =>
    obtain ⟨_, he, rfl⟩ := Option.map_eq_some_iff.mp h
    exact ⟨KeyedLocks.step_releases he, KeyedLocks.Releases.refl⟩
  | transfer e =>
    obtain ⟨_, he, rfl⟩ := Option.map_eq_some_iff.mp h
    exact ⟨KeyedLocks.Releases.refl, KeyedLocks.step_releases he⟩

/-- In every run of calls of either repository. -/
theorem locks_hold (h : Reached s) :
    s.accountLocks.Guarantees ∧ s.transferLocks.Guarantees ∧ ∀ e s', s.step e = some s' →
      s.accountLocks.Releases s'.accountLocks ∧ s.transferLocks.Releases s'.transferLocks :=
  ⟨h.inv.1.guarantees, h.inv.2.guarantees, fun _ _ hs => releases hs⟩

/-- Two calls on one account and one on another; the first function is rejected. -/
def rejectedFirst : List Event :=
  [.withAccountLock "acc-1", .withAccountLock "acc-1", .account (.resume 0), .withAccountLock "acc-2",
    .account (.settles 0 .rejected)]

theorem locks_hold_rejectedFirst : ∃ s, machine.play (fun _ _ => true) init rejectedFirst = some s ∧
    s.accountLocks.Guarantees ∧ s.accountLocks.stageOf 1 = some .waiting ∧
    ∃ s', s.step (.account (.resume 0)) = some s' ∧
      s.accountLocks.Releases s'.accountLocks ∧ s'.accountLocks.stageOf 1 = some .scheduled := by
  obtain ⟨s, hs⟩ : ∃ s, machine.play (fun _ _ => true) init rejectedFirst = some s := ⟨_, rfl⟩
  obtain ⟨s', hs'⟩ : ∃ s', s.step (.account (.resume 0)) = some s' := by
    cases hs
    exact ⟨_, rfl⟩
  have hstart : Reached init := .start rfl
  obtain ⟨haccount, _, hreleases⟩ := locks_hold (hstart.play (fun _ _ _ => trivial) hs)
  refine ⟨s, hs, haccount, ?_, s', hs', (hreleases _ _ hs').1, ?_⟩
  · cases hs
    rfl
  · cases hs
    cases hs'
    rfl

end RepositoryLocks

end CoreBanking
