import CoreBanking.Operations

/-!
# Loading from snapshots

An account is loaded from the latest snapshot and the events after it. Saves of
snapshots may fail, be lost, or come late and put an older snapshot over a newer
one, and the stream may grow between the two reads; what is loaded is the replay
of the whole stream as the second of them finds it.
-/

namespace CoreBanking

/-! ## The text of a snapshot -/

/-- `BigInt` of decimal text. -/
def bigIntOf (text : String) : Option Int :=
  match text.toList with
  | '-' :: digits => if digits.all Char.isDigit then some (-(Nat.ofDigitChars 10 digits 0 : Int)) else none
  | digits => if digits.all Char.isDigit then some (Nat.ofDigitChars 10 digits 0 : Int) else none

theorem bigIntOf_toString (n : Int) : bigIntOf (toString n) = some n := by
  have hdigits : ∀ m : Nat, (toString m).toList = Nat.toDigits 10 m := by
    intro m
    rw [Nat.toString_eq_ofList_toDigits, String.toList_ofList]
  cases n with
  | ofNat m =>
    have htext : (toString (Int.ofNat m)).toList = Nat.toDigits 10 m := hdigits m
    rw [bigIntOf, htext]
    split
    case h_1 digits heq =>
      have hminus := digits_of_toDigits (n := m) '-' (by rw [heq]; simp)
      simp at hminus
    case h_2 =>
      rw [if_pos (List.all_eq_true.mpr digits_of_toDigits), Nat.ofDigitChars_ten_toDigits]
      rfl
  | negSucc m =>
    have htext : (toString (Int.negSucc m)).toList = '-' :: Nat.toDigits 10 (m + 1) := by
      rw [← hdigits]
      show ("-" ++ toString (m + 1)).toList = _
      rw [String.toList_append]
      rfl
    rw [bigIntOf, htext]
    show (if (Nat.toDigits 10 (m + 1)).all Char.isDigit = true then
      some (-(Nat.ofDigitChars 10 (Nat.toDigits 10 (m + 1)) 0 : Int)) else none) = _
    rw [if_pos (List.all_eq_true.mpr digits_of_toDigits), Nat.ofDigitChars_ten_toDigits]
    rfl

/-- `AccountSnapshotState` as it is stored: the balance is decimal text. -/
structure AccountSnapshotText where
  accountId : Option String
  ownerId : Option String
  currency : Option String
  status : AccountStatus
  balanceMinorUnits : String

def AccountSnapshotState.text (state : AccountSnapshotState) : AccountSnapshotText where
  accountId := state.accountId
  ownerId := state.ownerId
  currency := state.currency
  status := state.status
  balanceMinorUnits := toString state.balanceMinorUnits

namespace AccountAggregate

def restoreSnapshotText (account : AccountAggregate) (state : AccountSnapshotText) (version : Nat) :
    Option AccountAggregate := do
  let balanceMinorUnits ← bigIntOf state.balanceMinorUnits
  return { account with
    accountId := state.accountId
    ownerId := state.ownerId
    currency := state.currency
    status := state.status
    balanceMinorUnits := balanceMinorUnits
    version := version }

/-- The way through the text changes nothing. -/
theorem restoreSnapshotText_text (account : AccountAggregate) (state : AccountSnapshotState) (version : Nat) :
    account.restoreSnapshotText state.text version = some (account.restoreSnapshot state version) := by
  unfold restoreSnapshotText AccountSnapshotState.text
  rw [bigIntOf_toString]
  rfl

end AccountAggregate

/-! ## Operations and loads at once -/

inductive LoadingRequest where
  | operate (accountId : String) (operation : AccountOperation)
  | load (accountId : String)

def LoadingRequest.body : LoadingRequest → Task (Option AccountAggregate)
  | .operate accountId operation => do
    AccountRepository.executeOperation accountId operation
    return none
  | .load accountId => do
    let account ← AccountRepository.getById accountId
    return some account

def loadingService (F : FaultModel) : Service LoadingRequest (Option AccountAggregate) where
  faults := F
  admits _ := True
  allows _ _ _ := True
  body := LoadingRequest.body
  crashes := True

abbrev LoadingConfig :=
  Config StoreOp StoreOp.Result Failure (World LoadingRequest) LoadingRequest (Option AccountAggregate)

def LoadingInv (w : World LoadingRequest) (_ : Nat → Unit) : Prop := w.store.Loadable

theorem LoadingInv.loads (F : FaultModel) : Loads (loadingService F) LoadingInv id where
  loadable h := h
  quiet _ _ _ _ _ h := h
  failed _ _ _ _ h := h

abbrev loadingOutline (F : FaultModel) : Outline (loadingService F).system Unit :=
  (loadingService F).outline () LoadingInv

section
variable {F : FaultModel} {q : LoadingRequest} {w : World LoadingRequest} {accountId : String}

/-- However a save ends, the snapshot it leaves is one of a prefix. -/
theorem wp_loading_save {es : List DomainEvent} {account : AccountAggregate}
    (hes : es <+: w.store.stream (accountStream accountId)) (hahead : account.Ahead es) :
    (loadingOutline F).wp q (AccountRepository.save accountId account) w () fun _ _ _ => True := by
  simp only [AccountRepository.save, AccountAggregate.pullUncommittedEvents, hahead.version, Nat.add_sub_cancel]
  by_cases hnil : account.uncommittedEvents.length = 0
  · rw [if_pos hnil]
    exact Outline.wp_pure trivial
  rw [if_neg hnil]
  let Done : World LoadingRequest → Unit → Prop := fun w' _ =>
    es ++ account.uncommittedEvents <+: w'.store.stream (accountStream accountId)
  refine Outline.wp_bind (@Loads.wp_append _ _ _ _ _ _ _ (LoadingInv.loads F) _ _ _ Done _ _ _ hes
    (fun {i w₁ gs r w₂} _ hinv _ hs _ hw _ => ?_) _ (fun w₁ _ hd => ?_)
    (fun _ _ _ _ _ => trivial) (fun _ _ => trivial) fun _ _ _ => trivial)
  · subst hs
    refine ⟨(), ?_, ?_⟩
    · show w₂.store.Loadable
      exact hw ▸ Store.Loadable.write hinv _ _
    · have hstream : w₂.store.stream (accountStream accountId) =
          w₁.store.stream (accountStream accountId) ++ account.uncommittedEvents := by
        rw [hw, Store.stream_write, if_pos rfl, hahead.renumber]
      show _ <+: w₂.store.stream (accountStream accountId)
      exact hstream ▸ List.prefix_rfl
  · have hp : es ++ account.uncommittedEvents <+: w₁.store.stream (accountStream accountId) := hd
    have hstate : account.getSnapshotState =
        (AccountAggregate.replay (es ++ account.uncommittedEvents)).getSnapshotState :=
      (congrArg AccountAggregate.getSnapshotState hahead.replayed).trans rfl
    dsimp only
    split
    · exact (LoadingInv.loads F).wp_snapshot_save (.of_isPrefix hp List.length_append.symm hstate) (fun _ _ => trivial)
        fun _ _ _ _ => trivial
    · exact Outline.wp_pure trivial

theorem wp_loading_operation (operation : AccountOperation) :
    (loadingOutline F).wp q (AccountRepository.executeOperation accountId operation) w () fun _ _ _ => True := by
  refine wp_retryLoop (fun w₀ _ => ?_) (fun _ => trivial) 2
  refine Outline.wp_mono (fun _ _ r _ _ => ?_) (?_ : (loadingOutline F).wp q _ w₀ () fun _ _ _ => True)
  · by_cases hlost : ∃ streamId expected actual, r = .error (.wrongExpectedVersion streamId expected actual)
    · obtain ⟨streamId, expected, actual, rfl⟩ := hlost
      exact .inl ⟨streamId, expected, actual, rfl, rfl⟩
    · exact .inr ⟨fun streamId expected actual h => hlost ⟨streamId, expected, actual, h⟩, trivial⟩
  refine Outline.wp_bind ((LoadingInv.loads F).wp_account_getById accountId (fun w₁ _ ⟨_, hinv₁⟩ => ?_)
    fun _ _ _ _ => trivial)
  have hl : w₁.store.Loadable := hinv₁
  have hahead := AccountAggregate.Ahead.replay (hl.numbered (accountStream accountId))
  refine Outline.wp_bind ((LoadingInv.loads F).wp_run operation _ (fun w₂ account hle₂ hy => ?_) fun _ _ => trivial)
  exact wp_loading_save (hle₂.store.stream _) (hahead.yields hy)

def LoadingEnds (F : FaultModel) : LoadingRequest → World LoadingRequest → Unit →
    Except Failure (Option AccountAggregate) → Prop
  | .operate .., _, _, _ => True
  | .load accountId, w, _, .ok account =>
    account = some (AccountAggregate.replay (w.store.stream (accountStream accountId)))
  | .load _, _, _, .error e => ∃ message, e = .store message ∧ F.Reports message

theorem wp_loading (q : LoadingRequest) : (loadingOutline F).wp q q.body w () (LoadingEnds F q) := by
  cases q with
  | operate accountId operation =>
    refine Outline.wp_bind (Outline.wp_mono (fun _ _ r _ _ => ?_) (wp_loading_operation operation))
    cases r with
    | ok _ => exact Outline.wp_pure trivial
    | error e => exact trivial
  | load accountId =>
    exact Outline.wp_bind ((LoadingInv.loads F).wp_account_getById accountId (fun _ _ _ => Outline.wp_pure rfl)
      fun _ message _ hm => ⟨message, rfl, hm⟩)

end

def LoadingRequest.MayCall : LoadingRequest → StoreOp → Prop
  | .operate .., _ => True
  | .load _, op => ∀ {F s r s'}, Exec F op s r s' → s' = s

theorem LoadingRequest.body_only (q : LoadingRequest) : q.body.Only q.MayCall := by
  cases q with
  | operate accountId operation => exact Async.only_of_forall (fun _ => trivial) _
  | load accountId =>
    refine Async.only_bind (Async.only_bind (Async.only_call ?_) fun snapshot =>
      Async.only_bind (Async.only_call ?_) fun events => trivial) fun account => trivial
    · intro F s r s' hexec
      cases hexec <;> rfl
    · intro F s r s' hexec
      cases hexec <;> rfl

/-- **Loading.** Every snapshot is the replay of a prefix, also when it is
restored from its text, and a load whose last call is made here returns the
replay of the stream as it is here. -/
structure LoadsReplay (F : FaultModel) (c : LoadingConfig) : Prop where
  faithful : ∀ streamId snapshot, c.state.store.snapshots.get streamId = some snapshot →
    snapshot.Faithful (c.state.store.stream streamId)
  restores : ∀ streamId snapshot, c.state.store.snapshots.get streamId = some snapshot →
    ({} : AccountAggregate).restoreSnapshotText snapshot.state.text snapshot.version =
      some (AccountAggregate.replay ((c.state.store.stream streamId).take snapshot.version))
  returns : ∀ {i accountId op k r w' account}, c.threads[i]? = some ⟨.load accountId, some (.await op k)⟩ →
    (loadingService F).CallStep i (.load accountId) op c.state r w' → k r = .done (.ok account) →
    account = some (AccountAggregate.replay (c.state.store.stream (accountStream accountId)))
  rejects : ∀ {i accountId op k r w' e}, c.threads[i]? = some ⟨.load accountId, some (.await op k)⟩ →
    (loadingService F).CallStep i (.load accountId) op c.state r w' → k r = .done (.error e) →
    ∃ message, e = .store message ∧ F.Reports message

theorem loads_replay (F : FaultModel) {c : LoadingConfig} (hc : (loadingService F).system.Reachable c) :
    LoadsReplay F c := by
  have hinit : LoadingInv ⟨.empty, []⟩ fun _ => () := Store.Loadable.empty
  obtain ⟨gs, ht⟩ := Outline.sound (L := loadingOutline F) hinit (fun q _ _ => wp_loading q) hc
  have hl : c.state.store.Loadable := ht.inv
  -- the postcondition holds in the state that the last call leaves
  have hends : ∀ {i accountId op k r w' out}, c.threads[i]? = some ⟨.load accountId, some (.await op k)⟩ →
      (loadingService F).CallStep i (.load accountId) op c.state r w' → k r = .done out →
      LoadingEnds F (.load accountId) w' () out := by
    intro i accountId op k r w' out hi hstep hdone
    obtain ⟨w, hle, hwp⟩ := ht.wp i _ _ hi
    obtain ⟨_, _, hwp'⟩ := hwp i c.state gs hle ht.inv rfl r w' hstep
    rw [hdone] at hwp'
    exact hwp'
  refine ⟨hl.snapshot, fun streamId snapshot hget => ?_, fun {i accountId op k r w' account} hi hstep hdone => ?_,
    fun hi hstep hdone => hends hi hstep hdone⟩
  · rw [AccountAggregate.restoreSnapshotText_text, hl.restore_snapshot (hl.snapshot streamId snapshot hget)]
  have hreads := (hc.only (fun q _ => q.body_only) _ (List.mem_of_getElem? hi) _ rfl).1
  have hsame : w'.store = c.state.store := hreads hstep.exec
  exact hsame ▸ hends hi hstep hdone

def deposits : Nat → AccountOperation
  | 0 => .done
  | n + 1 => .command (.DepositMoney "acc-1" ⟨"1"⟩ "EUR" operationContext "tx-1") fun _ _ => deposits n

/-- A load reads a snapshot, and then one more deposit is made. -/
def overtakenLoad : LoadingConfig :=
  (loadingService .any).serveAll 200
    (fun q op => match q, op with
      | .load _, .readStream .. => .hold
      | _, _ => .answer)
    [.operate "acc-1" (.ofCommand (.CreateAccount "acc-1" "owner-1" "EUR" operationContext)),
      .operate "acc-1" (deposits 49), .load "acc-1", .operate "acc-1" (deposits 1)]

theorem loads_replay_overtaken :
    ((overtakenLoad.state.store.snapshots.get "account-acc-1").map Snapshot.version = some 50 ∧
      (overtakenLoad.state.store.stream "account-acc-1").length = 51 ∧
      (overtakenLoad.threads.map fun t => t.program.any Async.isDone) = [true, true, false, true]) ∧
    LoadsReplay .any overtakenLoad := by
  refine ⟨by decide +kernel, loads_replay .any ?_⟩
  exact Service.reachable_serveAll 200 (fun _ _ => trivial) fun _ _ => ⟨fun _ _ => trivial, fun _ => trivial⟩

end CoreBanking
