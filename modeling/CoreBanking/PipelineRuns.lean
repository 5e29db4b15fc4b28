import CoreBanking.PipelineRules

/-!
# Eventual consistency of the read model

At any time a summary shows its account as it was after some of the staged
events, the consumers throw nothing but what a store has reported, and when
they have come to the end of the topic the read model is that of all events.
-/

namespace CoreBanking

structure Pipeline.ShowsPast [JsRuntime] (s : Pipeline) (accountId : String) : Prop where
  summary : ∀ {summary}, s.readSide.summaries.get (some accountId) = some summary →
    summary.version ≤ (s.outbox.events (accountStream accountId)).length ∧
      summary.Shows (AccountAggregate.replay ((s.outbox.events (accountStream accountId)).take summary.version))
  sorted : (s.readSide.statement (some accountId)).Pairwise fun left right => left.streamVersion < right.streamVersion
  entries : ∀ entry ∈ s.readSide.statement (some accountId), entry.streamVersion ≤ s.readSide.version accountId ∧
    ∃ event ∈ s.outbox.events (accountStream accountId), ∃ details,
      entry = AccountProjector.statementEntry event details

structure Pipeline.UpToDate (s : Pipeline) (accountId : String) : Prop where
  version : s.readSide.version accountId = (s.outbox.events (accountStream accountId)).length
  absent : s.outbox.events (accountStream accountId) = [] → s.readSide.summaries.get (some accountId) = none
  summary : s.outbox.events (accountStream accountId) ≠ [] → ∃ summary,
    s.readSide.summaries.get (some accountId) = some summary ∧
      summary.Shows (AccountAggregate.replay (s.outbox.events (accountStream accountId)))
  versions : (s.readSide.statement (some accountId)).map (·.streamVersion) =
    List.range' 1 (s.outbox.events (accountStream accountId)).length
  balance : ((s.readSide.statement (some accountId)).map (·.signedAmount)).sum =
    (AccountAggregate.replay (s.outbox.events (accountStream accountId))).balanceMinorUnits

section
variable [JsRuntime] {partitionOf : String → Nat} {reports : String → Prop} {c : PipelineConfig}

theorem pipeline_tied (hc : (pipeline partitionOf reports).Reachable c) :
    ∃ gs, (pipelineOutline partitionOf reports).Tied (fun _ _ g r => g = none ∧ Reported reports r) c gs :=
  Outline.sound (L := pipelineOutline partitionOf reports) PipelineInv.start
    (fun q s _ => Consumer.wp_body q s) hc

/-- **The read model only ever shows what has happened**, and no consumer is
stuck: it throws nothing but errors that a store has reported. -/
theorem read_model_past (hc : (pipeline partitionOf reports).Reachable c) :
    (∀ accountId, c.state.ShowsPast accountId) ∧
      ∀ t ∈ c.threads, ∀ r, t.program = some (.done r) → Reported reports r := by
  obtain ⟨gs, ht⟩ := pipeline_tied hc
  have hinv : PipelineInv partitionOf c.state gs := ht.inv
  refine ⟨fun accountId => ?_, fun t hmem r hr => ?_⟩
  · have hown := hinv.shown accountId
    refine ⟨fun hget => (hown.view.summary hget).2, hown.view.sorted, fun entry hentry => ⟨hown.past entry hentry, ?_⟩⟩
    obtain ⟨k, event, details, hk, rfl⟩ := hown.view.entries entry hentry
    exact ⟨event, List.mem_of_getElem? hk, details, rfl⟩
  · obtain ⟨i, hi⟩ := List.mem_iff_getElem?.mp hmem
    obtain ⟨q, program⟩ := t
    obtain rfl : program = some (.done r) := hr
    obtain ⟨-, -, -, hreported⟩ := ht.ended hi
    exact hreported

/-- With no consumer under way, no entry is owed. -/
theorem PipelineInv.of_quiescent (hc : (pipeline partitionOf reports).Reachable c) (hquiet : System.Quiescent c) :
    PipelineInv partitionOf c.state fun _ => none := by
  obtain ⟨gs, ht⟩ := pipeline_tied hc
  have hidle : gs = fun _ => none := by
    funext i
    by_cases hi : i < c.threads.length
    · obtain ⟨_, _, _, _, hidle, -⟩ := ht.quiescent hc id hquiet (List.getElem?_eq_getElem hi)
      exact hidle
    · exact ht.fresh i (by omega)
  rw [← hidle]
  exact ht.inv

theorem PipelineInv.projected {s : Pipeline} {gs : Nat → Option (String × Nat)} (h : PipelineInv partitionOf s gs)
    (hcaught : s.CaughtUp partitionOf) {accountId : String} {message : OutboxMessage}
    (hstaged : message ∈ s.outbox.outbox.staged) (hkey : message.messageKey = accountStream accountId) :
    message.payload.streamVersion ≤ s.readSide.version accountId := by
  have htopic : message.topic = "account-events" := by
    rw [h.written.topic message hstaged, hkey, OutboxSystem.topic_accountStream]
  obtain ⟨sent, hsent, hid⟩ := List.mem_map.mp (hcaught.published message hstaged htopic)
  obtain rfl : sent.asStaged = message := h.outbox.streams.eq_of_id (h.outbox.staged sent hsent) hstaged hid
  have htopic : sent.topic = "account-events" := htopic
  have hpart : sent ∈ s.outbox.partition partitionOf (partitionOf sent.messageKey) :=
    List.mem_filter.mpr ⟨hsent, by simp [htopic]⟩
  obtain ⟨-, hconsumed⟩ := h.consumed (partitionOf sent.messageKey)
  rw [hcaught.consumed, List.take_length] at hconsumed
  exact hconsumed sent hpart accountId hkey

theorem PipelineInv.version_eq {s : Pipeline} {gs : Nat → Option (String × Nat)} (h : PipelineInv partitionOf s gs)
    (hcaught : s.CaughtUp partitionOf) (accountId : String) :
    s.readSide.version accountId = (s.outbox.events (accountStream accountId)).length := by
  refine Nat.le_antisymm (h.shown accountId).view.version_le ?_
  by_cases hnone : s.outbox.events (accountStream accountId) = []
  · rw [hnone]
    exact Nat.zero_le _
  · have hpos := List.length_pos_of_ne_nil hnone
    have hk : (s.outbox.events (accountStream accountId))[(s.outbox.events (accountStream accountId)).length - 1]? =
        some _ := List.getElem?_eq_getElem (by omega)
    have hversion := (h.shape accountId).1.streamVersion hk
    obtain ⟨message, hmem, hpayload⟩ := List.mem_map.mp (List.mem_of_getElem? hk)
    obtain ⟨hstaged, hkey⟩ := List.mem_filter.mp hmem
    have hle := h.projected hcaught hstaged (of_decide_eq_true hkey)
    rw [hpayload] at hle
    omega

theorem PipelineInv.upToDate {s : Pipeline} (hinv : PipelineInv partitionOf s fun _ => none)
    (hcaught : s.CaughtUp partitionOf) (accountId : String) : s.UpToDate accountId := by
  have hversion := hinv.version_eq hcaught accountId
  obtain ⟨hstream, -⟩ := hinv.shape accountId
  have hown := hinv.shown accountId
  have hdelivered : DeliveryInv accountId (s.outbox.events (accountStream accountId)) s.readSide
      fun _ => none := by
    refine .of_view hstream (hown.view.mono fun k hpending => ?_) hown.past
    obtain ⟨_, hi⟩ := hpending
    cases hi
  have hids := hinv.events_ids accountId
  have hversions := hdelivered.versions hstream hids fun _ => rfl
  refine ⟨hversion, fun hnone => ?_, fun hne => ?_, hversion ▸ hversions, ?_⟩
  · cases hget : s.readSide.summaries.get (some accountId) with
    | none => rfl
    | some summary =>
      obtain ⟨hpos, hle, -⟩ := hown.view.summary hget
      rw [hnone] at hle
      exact absurd hle (Nat.not_le_of_lt hpos)
  · cases hget : s.readSide.summaries.get (some accountId) with
    | none =>
      rw [ReadSide.version_of_none hget] at hversion
      exact absurd (List.length_eq_zero_iff.mp hversion.symm) hne
    | some summary =>
      refine ⟨summary, rfl, ?_⟩
      have hshows := (hown.view.summary hget).2.2
      rwa [← ReadSide.version_of_get hget, hversion, List.take_length] at hshows
  · have hsum := hdelivered.signedSum hstream hversions
    rwa [hversion, List.take_length] at hsum

/-- **Eventual consistency.** When what is staged has been published, and the
consumers have come to the end of the topic, the read model of every account
shows all of its events, each with one entry. -/
theorem read_model_up_to_date (hc : (pipeline partitionOf reports).Reachable c) (hquiet : System.Quiescent c)
    (hcaught : c.state.CaughtUp partitionOf) (accountId : String) : c.state.UpToDate accountId :=
  (PipelineInv.of_quiescent hc hquiet).upToDate hcaught accountId

/-! ## Catching up -/

theorem ConsumerOp.perform_step (i : Nat) (q : ConsumerRequest) (op : ConsumerOp) (s : Pipeline) :
    (pipeline partitionOf reports).step i q op s (op.perform partitionOf s).1 (op.perform partitionOf s).2 := by
  refine ⟨s.outbox, .refl, ?_⟩
  cases op with
  | committedOffset p => exact .committedOffset
  | poll p offset =>
    rw [ConsumerOp.perform]
    cases hget : (s.outbox.partition partitionOf p)[offset]? with
    | none => exact .polledNothing
    | some message => exact .polled hget
  | commitOffset p offset => exact .committed
  | read op => exact .read .performed

section
variable {s : Pipeline} (hinv : PipelineInv partitionOf s fun _ => none)
include hinv

end

end

/-! ## A consumer that loses its connection -/

def depositsStream : List DomainEvent :=
  [⟨"1-0", "account-acc-1", 1, 0, .AccountCreated "acc-1" "owner-1" "EUR",
      { commandId := "key-1", correlationId := "1-0" }⟩,
    ⟨"2-1", "account-acc-1", 2, 0, .MoneyDeposited (some "acc-1") (.format 1025) "EUR" "tx-1",
      { commandId := "key-2", correlationId := "2-1" }⟩,
    ⟨"3-3", "account-acc-1", 3, 0, .MoneyDeposited (some "acc-1") (.format 275) "EUR" "tx-2",
      { commandId := "key-3", correlationId := "3-2" }⟩]

theorem depositsStream_history : AccountHistory "acc-1" depositsStream := by
  let create : AccountCommand :=
    .CreateAccount "acc-1" "owner-1" "EUR" { commandId := "key-1", correlationId := "1-0" }
  let deposit (amount tx key correlationId : String) : AccountCommand :=
    .DepositMoney "acc-1" ⟨amount⟩ "EUR" { commandId := key, correlationId := correlationId } tx
  have created : AccountHistory "acc-1" (depositsStream.take 1) :=
    @AccountHistory.commit _ _ create _ .nil rfl (.mk ⟨"1-0", 0⟩ (.create rfl))
  have deposited : AccountHistory "acc-1" (depositsStream.take 2) :=
    @AccountHistory.commit _ _ (deposit "10.25" "tx-1" "key-2" "2-1") _ created rfl
      (.mk ⟨"2-1", 0⟩ (.deposit rfl rfl (by decide) (by decide)))
  exact @AccountHistory.commit _ _ (deposit "2.75" "tx-2" "key-3" "3-2") _ deposited rfl
    (.mk ⟨"3-3", 0⟩ (.deposit rfl rfl (by decide) (by decide)))

def depositsMessages : List OutboxMessage :=
  depositsStream.mapIdx fun k event =>
    { EventStore.toMessage "account-acc-1" event with eventPosition := some (k + 1) }

theorem deposits_appended : Appends .postgres .empty "account-acc-1" depositsMessages where
  made message hm := by
    obtain ⟨k, hk⟩ := List.mem_iff_getElem?.mp hm
    rw [depositsMessages, List.getElem?_mapIdx] at hk
    obtain ⟨event, -, rfl⟩ := Option.map_eq_some_iff.mp hk
    exact ⟨event, _, rfl⟩
  fresh := by decide
  versions := by decide
  positions _ := ⟨[1, 2, 3], rfl, by decide, by simp [Outbox.empty, OrderedMap.values, OrderedMap.empty]⟩
  unplaced h := by cases h

theorem OutboxMoves.alone {outbox : Outbox} {published abandoned : List OutboxMessage} {p p' : Publisher}
    {action : PublisherAction} {effect : PublisherEffect} {c : OutboxSystem}
    (h : Relation.ReflTransGen OutboxMoves c ⟨outbox, published, [p], abandoned⟩)
    (hs : PublisherStep .postgres outbox p action effect p')
    (hallows : OvertakesNone ⟨outbox, published, [p], abandoned⟩ (.publisher action)) :
    Relation.ReflTransGen OutboxMoves c
      ⟨effect.outbox, published ++ effect.delivered, [p'], abandoned ++ effect.left⟩ :=
  .tail h ⟨_, hallows, trivial, .publisher [] [] rfl hs⟩

def depositsPublished : OutboxSystem where
  outbox := (((((Outbox.empty.stage depositsMessages).claim depositsMessages).markPublished "1-0" 1).markPublished
    "2-1" 2).markPublished "3-3" 3)
  published := depositsMessages
  publishers := [.claiming]
  abandoned := []

theorem deposits_published : Relation.ReflTransGen OutboxMoves .start depositsPublished := by
  have hpairwise : depositsMessages.Pairwise fun left right =>
      PostgresOutboxStore.orderKey left ≤ PostgresOutboxStore.orderKey right := by
    refine List.pairwise_iff_getElem.mpr fun i j hi hj hlt =>
      (orderKey_lt (p := i + 1) (q := j + 1) ?_ ?_ (by omega)).le
    · simp [depositsMessages]
    · simp [depositsMessages]
  have hclaims : OutboxStoreKind.postgres.Claims (Outbox.empty.stage depositsMessages) [] batchSize depositsMessages :=
    ⟨depositsMessages, .refl _, hpairwise, .refl _⟩
  have happended : Relation.ReflTransGen OutboxMoves .start ⟨Outbox.empty.stage depositsMessages, [], [], []⟩ := by
    refine .single ⟨.append "account-acc-1" depositsMessages, trivial, fun _ => ?_, .append deposits_appended⟩
    exact ⟨"acc-1", by decide, by decide, depositsStream_history, by decide⟩
  have hstarted : Relation.ReflTransGen OutboxMoves .start
      ⟨Outbox.empty.stage depositsMessages, [], [.claiming], []⟩ :=
    .tail happended ⟨.start, trivial, trivial, .start⟩
  have hclaimed := OutboxMoves.alone hstarted (.claim hclaims (by decide)) ⟨by decide, by decide⟩
  have hfirst := OutboxMoves.alone (OutboxMoves.alone hclaimed .publish trivial) (.markPublished 1) trivial
  have hsecond := OutboxMoves.alone (OutboxMoves.alone hfirst .publish trivial) (.markPublished 2) trivial
  exact OutboxMoves.alone (OutboxMoves.alone hsecond .publish trivial) (.markPublished 3) trivial

/-- The offset is not committed, and the summary of an account that is there cannot be read. -/
def lossyAnswer : (op : ConsumerOp) → Pipeline → Option (Except Failure op.Result × Pipeline)
  | .commitOffset _ _, s => some (.ok (), s)
  | .read (.getAccountSummary accountId), s =>
    if s.readSide.version "acc-1" = 0 then
      some (ConsumerOp.perform (fun _ => 0) (.read (.getAccountSummary accountId)) s)
    else some (.error (.store "connection lost"), s)
  | op, s => some (op.perform (fun _ => 0) s)

/-- The first consumer fails at the second message. -/
def lostRun : PipelineConfig :=
  let lost := (@Consumer.run decimalRuntime 0 3 0).advance lossyAnswer 20 ⟨depositsPublished, .empty .empty, fun _ => 0⟩
  ⟨lost.2, [⟨⟨0, 3⟩, some lost.1⟩]⟩

/-- The next one starts from the first message again. -/
def recoveredRun : PipelineConfig :=
  (@pipeline decimalRuntime (fun _ => 0) (· = "connection lost")).move
    (fun _ _ op s => some (op.perform (fun _ => 0) s)) lostRun (.serve ⟨0, 4⟩ 30)

theorem lossyAnswer_step {i : Nat} {q : ConsumerRequest} {op : ConsumerOp} {s s' : Pipeline}
    {r : Except Failure op.Result} (h : lossyAnswer op s = some (r, s')) :
    (@pipeline decimalRuntime (fun _ => 0) (· = "connection lost")).step i q op s r s' := by
  unfold lossyAnswer at h
  split at h
  · obtain ⟨rfl, rfl⟩ := Prod.mk.inj (Option.some.inj h)
    exact ⟨_, .refl, .deferred⟩
  · split at h
    · obtain ⟨rfl, rfl⟩ := Prod.mk.inj (Option.some.inj h)
      exact @ConsumerOp.perform_step decimalRuntime _ _ _ _ _ _
    · obtain ⟨rfl, rfl⟩ := Prod.mk.inj (Option.some.inj h)
      exact ⟨_, .refl, .rejected rfl fun _ h => by cases h⟩
  · obtain ⟨rfl, rfl⟩ := Prod.mk.inj (Option.some.inj h)
    exact @ConsumerOp.perform_step decimalRuntime _ _ _ _ _ _

theorem lostRun_reachable : (@pipeline decimalRuntime (fun _ => 0) (· = "connection lost")).Reachable lostRun := by
  have hstep : (@pipeline decimalRuntime (fun _ => 0) (· = "connection lost")).step 0 ⟨0, 3⟩ (.committedOffset 0)
      ⟨.start, .empty .empty, fun _ => 0⟩ (.ok (0 : Nat)) ⟨depositsPublished, .empty .empty, fun _ => 0⟩ :=
    ⟨depositsPublished, deposits_published, .committedOffset⟩
  let S := @pipeline decimalRuntime (fun _ => 0) (· = "connection lost")
  let thread (p : Consumer Unit) : Thread ConsumerOp ConsumerOp.Result Failure ConsumerRequest Unit := ⟨⟨0, 3⟩, some p⟩
  have hspawned : S.Reachable ⟨S.init, [thread (@ConsumerRequest.body decimalRuntime ⟨0, 3⟩)]⟩ :=
    .step .start (.spawn (⟨0, 3⟩ : ConsumerRequest) trivial)
  have hi : [thread (@ConsumerRequest.body decimalRuntime ⟨0, 3⟩)][0]? =
      some (thread (.await (.committedOffset 0) fun r => (Async.done r).bind fun offset : Nat =>
        @Consumer.run decimalRuntime 0 3 offset)) := rfl
  have hcall := System.Step.call (S := S) (c := ⟨S.init, _⟩) hi hstep
  have hjoined : S.Reachable ⟨⟨depositsPublished, .empty .empty, fun _ => 0⟩,
      [thread (@Consumer.run decimalRuntime 0 3 0)]⟩ := .step hspawned hcall
  exact hjoined.resume (f := lossyAnswer) 20 (i := 0) rfl lossyAnswer_step

theorem recoveredRun_reachable :
    (@pipeline decimalRuntime (fun _ => 0) (· = "connection lost")).Reachable recoveredRun := by
  refine lostRun_reachable.serve 30 trivial fun {op s r s'} hanswer => ?_
  obtain ⟨rfl, rfl⟩ := Prod.mk.inj (Option.some.inj hanswer)
  exact @ConsumerOp.perform_step decimalRuntime _ _ _ _ op s

theorem recoveredRun_quiescent : System.Quiescent recoveredRun := System.quiescent_of_all (by decide +kernel)

theorem recoveredRun_caughtUp : recoveredRun.state.CaughtUp fun _ => 0 where
  published := by decide +kernel
  consumed p := by
    cases p with
    | zero => decide +kernel
    | succ p =>
      have hnone : recoveredRun.state.outbox.partition (fun _ => 0) (p + 1) = [] :=
        List.filter_eq_nil_iff.mpr (by simp)
      obtain ⟨-, -, hconsumed, -⟩ := @PipelineInv.of_quiescent decimalRuntime _ _ _ recoveredRun_reachable
        recoveredRun_quiescent
      have hle := (hconsumed (p + 1)).1
      rw [hnone] at hle ⊢
      exact Nat.le_zero.mp hle

theorem read_model_past_recovered :
    (recoveredRun.threads.map fun t => t.rejected) = [true, false] ∧
      (∀ accountId, @Pipeline.ShowsPast decimalRuntime recoveredRun.state accountId) ∧
      ∀ t ∈ recoveredRun.threads, ∀ r, t.program = some (.done r) → Reported (· = "connection lost") r :=
  ⟨by decide +kernel, @read_model_past decimalRuntime _ _ _ recoveredRun_reachable⟩

theorem read_model_up_to_date_recovered :
    recoveredRun.state.readSide.version "acc-1" = 3 ∧ recoveredRun.state.UpToDate "acc-1" :=
  ⟨by decide +kernel, @read_model_up_to_date decimalRuntime _ _ _ recoveredRun_reachable recoveredRun_quiescent
    recoveredRun_caughtUp "acc-1"⟩

end CoreBanking
