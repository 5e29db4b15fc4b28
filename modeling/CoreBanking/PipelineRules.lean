import CoreBanking.Ledger
import CoreBanking.Pipeline
import CoreBanking.RebuildRules

/-!
# Consumers that never get stuck

A consumer at an offset has projected all messages of its partition before it.
Since a partition has the versions of a stream in order, the next message is
never more than one version ahead of the account's summary, and its projection
is not rejected. Two consumers of one partition only repeat each other's work.
-/

namespace CoreBanking

/-! ## What the publishers leave as it is -/

namespace OutboxSystem

structure FromAggregates (c : OutboxSystem) : Prop where
  id : ∀ message ∈ c.outbox.staged, message.id = message.payload.eventId
  topic : ∀ message ∈ c.outbox.staged, message.topic = EventStore.topicForStream message.messageKey
  account : ∀ message ∈ c.outbox.staged, message.topic = "account-events" →
    ∃ accountId, message.messageKey = accountStream accountId
  history : ∀ accountId, AccountHistory accountId (c.events (accountStream accountId))
  created : ∀ accountId, ∀ event ∈ (c.events (accountStream accountId)).head?, event.data.isAccountCreated = true
  named : ∀ accountId, c.events (accountStream accountId) ≠ [] → accountId ≠ ""

theorem topic_accountStream (accountId : String) :
    EventStore.topicForStream (accountStream accountId) = "account-events" := by
  have htake : ("account-" ++ accountId).toList.takeWhile (· != '-') = "account".toList := by
    rw [String.toList_append]
    rfl
  rw [EventStore.topicForStream, accountStream, htake]
  rfl

variable {c c' : OutboxSystem}

structure Grows (c c' : OutboxSystem) : Prop where
  events : ∀ streamId, c.events streamId <+: c'.events streamId
  published : c.published <+: c'.published

theorem Grows.refl (c : OutboxSystem) : Grows c c := ⟨fun _ => List.prefix_rfl, List.prefix_rfl⟩

theorem Grows.trans {c'' : OutboxSystem} (h : Grows c c') (h' : Grows c' c'') : Grows c c'' :=
  ⟨fun streamId => (h.events streamId).trans (h'.events streamId), h.published.trans h'.published⟩

theorem events_append {streamId : String} {messages : List OutboxMessage}
    (ha : Appends .postgres c.outbox streamId messages) (streamId' : String) :
    ({ c with outbox := c.outbox.stage messages } : OutboxSystem).events streamId' =
      c.events streamId' ++ if streamId = streamId' then messages.map OutboxMessage.payload else [] := by
  have hkey : ∀ message ∈ messages, message.messageKey = streamId := by
    intro message hm
    obtain ⟨event, position, rfl⟩ := ha.made message hm
    rfl
  unfold events
  dsimp only
  rw [Outbox.staged_stage ha, List.filter_append, List.map_append]
  congr 1
  split
  case isTrue heq =>
    rw [List.filter_eq_self.mpr fun message hm => by simp [hkey message hm, heq]]
  case isFalse hne =>
    rw [List.filter_eq_nil_iff.mpr fun message hm => by simp [hkey message hm, hne], List.map_nil]

theorem events_of_staged (h : c'.outbox.staged = c.outbox.staged) (streamId : String) :
    c'.events streamId = c.events streamId := by
  unfold events
  rw [h]

theorem FromAggregates.of_staged (h : c.FromAggregates) (hstaged : c'.outbox.staged = c.outbox.staged) :
    c'.FromAggregates := by
  have hevents := events_of_staged hstaged
  refine ⟨hstaged ▸ h.id, hstaged ▸ h.topic, hstaged ▸ h.account, fun accountId => ?_, fun accountId => ?_,
    fun accountId => ?_⟩
  · rw [hevents]
    exact h.history accountId
  · rw [hevents]
    exact h.created accountId
  · rw [hevents]
    exact h.named accountId

theorem FromAggregates.append (h : c.FromAggregates) {streamId : String} {messages : List OutboxMessage}
    (ha : Appends .postgres c.outbox streamId messages)
    (hallows : CoreBanking.FromAggregates c (.append streamId messages)) :
    ({ c with outbox := c.outbox.stage messages } : OutboxSystem).FromAggregates := by
  have hmade : ∀ message ∈ messages, message.id = message.payload.eventId ∧ message.messageKey = streamId ∧
      message.topic = EventStore.topicForStream streamId := by
    intro message hm
    obtain ⟨event, position, rfl⟩ := ha.made message hm
    exact ⟨rfl, rfl, rfl⟩
  have hstaged := Outbox.staged_stage ha
  have hgrown : ∀ accountId, streamId = accountStream accountId → accountId ≠ "" ∧
      AccountHistory accountId (c.events streamId ++ messages.map OutboxMessage.payload) ∧
      ∀ event ∈ (c.events streamId ++ messages.map OutboxMessage.payload).head?,
        event.data.isAccountCreated = true := by
    intro accountId heq
    obtain ⟨accountId', heq', hall⟩ := hallows (heq ▸ topic_accountStream accountId)
    obtain rfl := accountStream_inj.mp (heq.symm.trans heq')
    exact hall
  refine ⟨fun message hm => ?_, fun message hm => ?_, fun message hm htopic => ?_, fun accountId => ?_,
    fun accountId => ?_, fun accountId => ?_⟩
  · dsimp only at hm
    rw [hstaged, List.mem_append] at hm
    rcases hm with hm | hm
    · exact h.id message hm
    · exact (hmade message hm).1
  · dsimp only at hm
    rw [hstaged, List.mem_append] at hm
    rcases hm with hm | hm
    · exact h.topic message hm
    · obtain ⟨-, hkey, htopic⟩ := hmade message hm
      rw [hkey, htopic]
  · dsimp only at hm
    rw [hstaged, List.mem_append] at hm
    rcases hm with hm | hm
    · exact h.account message hm htopic
    · obtain ⟨-, hkey, htopic'⟩ := hmade message hm
      obtain ⟨accountId, heq, -⟩ := hallows (htopic'.symm.trans htopic)
      exact ⟨accountId, hkey.trans heq⟩
  · rw [events_append ha]
    split
    case isTrue heq =>
      rw [← heq]
      exact (hgrown accountId heq).2.1
    · rw [List.append_nil]
      exact h.history accountId
  · rw [events_append ha]
    split
    case isTrue heq =>
      rw [← heq]
      exact (hgrown accountId heq).2.2
    · rw [List.append_nil]
      exact h.created accountId
  · rw [events_append ha]
    split
    case isTrue heq =>
      exact fun _ => (hgrown accountId heq).1
    · rw [List.append_nil]
      exact h.named accountId

theorem FromAggregates.start : OutboxSystem.start.FromAggregates where
  id _ hm := by cases hm
  topic _ hm := by cases hm
  account _ hm := by cases hm
  history _ := .nil
  created _ _ he := by cases he
  named _ hne := absurd rfl hne

theorem moves_grow (hm : OutboxMoves c c') : Grows c c' := by
  obtain ⟨action, -, -, hs⟩ := hm
  cases hs with
  | append ha => exact ⟨fun streamId => events_append ha streamId ▸ List.prefix_append _ _, List.prefix_rfl⟩
  | start => exact ⟨fun _ => List.prefix_rfl, List.prefix_rfl⟩
  | publisher before after hpublishers hs =>
    refine ⟨fun streamId => ⟨[], ?_⟩, List.prefix_append _ _⟩
    rw [List.append_nil]
    exact (events_of_staged hs.staged streamId).symm

theorem all_moves_grow (hm : Relation.ReflTransGen OutboxMoves c c') : Grows c c' := by
  induction hm with
  | refl => exact .refl _
  | tail _ hm ih => exact ih.trans (moves_grow hm)

theorem moves_kept (hm : OutboxMoves c c') (hinv : c.OrderInv) (h : c.FromAggregates) :
    c'.OrderInv ∧ c'.FromAggregates := by
  obtain ⟨action, hovertakes, hallows, hs⟩ := hm
  refine ⟨hinv.step hovertakes hs, ?_⟩
  cases hs with
  | append ha => exact h.append ha hallows
  | start => exact h.of_staged rfl
  | publisher before after hpublishers hs => exact h.of_staged hs.staged

theorem all_moves_kept (hm : Relation.ReflTransGen OutboxMoves c c') (hinv : c.OrderInv) (h : c.FromAggregates) :
    c'.OrderInv ∧ c'.FromAggregates := by
  induction hm with
  | refl => exact ⟨hinv, h⟩
  | tail _ hm ih => exact moves_kept hm ih.1 ih.2

/-! ## Partitions -/

theorem Grows.partition (h : Grows c c') (partitionOf : String → Nat) (p : Nat) :
    c.partition partitionOf p <+: c'.partition partitionOf p :=
  h.published.filter _

section
variable (hinv : c.OrderInv) (h : c.FromAggregates)
include hinv h

/-- What is published in the topic is of an account, and staged for it. -/
theorem published_account {message : OutboxMessage} (hm : message ∈ c.published)
    (htopic : message.topic = "account-events") :
    ∃ accountId, message.messageKey = accountStream accountId ∧
      message.payload ∈ c.events (accountStream accountId) := by
  have hstaged := hinv.staged message hm
  obtain ⟨accountId, hkey⟩ := h.account _ hstaged htopic
  have hkey : message.messageKey = accountStream accountId := hkey
  refine ⟨accountId, hkey, List.mem_map.mpr ⟨message.asStaged, List.mem_filter.mpr ⟨hstaged, ?_⟩, rfl⟩⟩
  exact decide_eq_true hkey

theorem partition_gapless (partitionOf : String → Nat) (p : Nat) :
    Gapless OutboxMessage.messageKey (fun message => message.payload.streamVersion) (c.partition partitionOf p) := by
  have hinOrder : Gapless OutboxMessage.messageKey (fun message => message.payload.streamVersion) c.published :=
    hinv.inOrder
  have hfilter : c.partition partitionOf p = c.published.filter fun message =>
      EventStore.topicForStream message.messageKey = "account-events" && partitionOf message.messageKey = p := by
    refine List.filter_congr fun message hm => ?_
    have htopic : message.topic = EventStore.topicForStream message.messageKey :=
      h.topic message.asStaged (hinv.staged message hm)
    rw [htopic]
  rw [hfilter]
  exact hinOrder.filter fun key => EventStore.topicForStream key = "account-events" && partitionOf key = p

end

end OutboxSystem

/-! ## The invariant -/

/-- The messages of a partition below an offset have been projected. -/
def Pipeline.Consumed (partitionOf : String → Nat) (s : Pipeline) (p offset : Nat) : Prop :=
  offset ≤ (s.outbox.partition partitionOf p).length ∧
  ∀ message ∈ (s.outbox.partition partitionOf p).take offset, ∀ accountId,
    message.messageKey = accountStream accountId → message.payload.streamVersion ≤ s.readSide.version accountId

/-- The read model of an account as a view of what is staged for it; the `i`-th
consumer owes the entry at `(gs i).2` to the account `(gs i).1`. -/
structure AccountShown [JsRuntime] (accountId : String) (s : Pipeline) (gs : Nat → Option (String × Nat)) : Prop where
  view : AccountView accountId (s.outbox.events (accountStream accountId)) s.readSide
    fun k => ∃ i, gs i = some (accountId, k)
  past : ∀ entry ∈ s.readSide.statement (some accountId), entry.streamVersion ≤ s.readSide.version accountId

structure PipelineInv [JsRuntime] (partitionOf : String → Nat) (s : Pipeline) (gs : Nat → Option (String × Nat)) :
    Prop where
  outbox : s.outbox.OrderInv
  written : s.outbox.FromAggregates
  consumed : ∀ p, s.Consumed partitionOf p (s.offsets p)
  shown : ∀ accountId, AccountShown accountId s gs

structure Pipeline.Grows (s s' : Pipeline) : Prop where
  outbox : s.outbox.Grows s'.outbox
  version : ∀ accountId, s.readSide.version accountId ≤ s'.readSide.version accountId

theorem Pipeline.Grows.refl (s : Pipeline) : s.Grows s := ⟨.refl _, fun _ => Nat.le_refl _⟩

theorem Pipeline.Grows.trans {s s' s'' : Pipeline} (h : s.Grows s') (h' : s'.Grows s'') : s.Grows s'' :=
  ⟨h.outbox.trans h'.outbox, fun accountId => Nat.le_trans (h.version accountId) (h'.version accountId)⟩

theorem Pipeline.grows_of_moves {s : Pipeline} {outbox : OutboxSystem}
    (hm : Relation.ReflTransGen OutboxMoves s.outbox outbox) : s.Grows { s with outbox := outbox } :=
  ⟨OutboxSystem.all_moves_grow hm, fun _ => Nat.le_refl _⟩

theorem Pipeline.Consumed.mono {partitionOf : String → Nat} {s s' : Pipeline} {p offset : Nat}
    (h : s.Consumed partitionOf p offset) (hgrows : s.Grows s') : s'.Consumed partitionOf p offset := by
  have hpre := hgrows.outbox.partition partitionOf p
  refine ⟨Nat.le_trans h.1 hpre.length_le, fun message hm accountId hkey => ?_⟩
  rw [hpre.take_eq h.1] at hm
  exact Nat.le_trans (h.2 message hm accountId hkey) (hgrows.version accountId)

theorem DeliveryStep.version_le {op : ReadOp} {s s' : ReadSide} {r : Except Failure op.Result}
    (h : DeliveryStep op s r s') (accountId : String) : s.version accountId ≤ s'.version accountId := by
  cases h with
  | performed => exact ReadSide.version_perform _ _
  | transfer => exact Nat.le_refl _

section
variable {partitionOf : String → Nat} {reports : String → Prop} {s s' : Pipeline}

theorem ConsumerStep.grows {op : ConsumerOp} {r : Except Failure op.Result}
    (h : ConsumerStep partitionOf reports op s r s') : s.Grows s' := by
  cases h with
  | read hstep => exact ⟨.refl _, hstep.version_le⟩
  | unanswered _ _ hstep => exact ⟨.refl _, hstep.version_le⟩
  | _ => exact ⟨.refl _, fun _ => Nat.le_refl _⟩

variable [JsRuntime] {gs : Nat → Option (String × Nat)} {accountId : String} {i k : Nat}

theorem AccountShown.of_view {readSide : ReadSide} (hview : AccountView accountId
      (s.outbox.events (accountStream accountId)) readSide fun k => ∃ i, gs i = some (accountId, k))
    (hpast : ∀ entry ∈ readSide.statement (some accountId), entry.streamVersion ≤ readSide.version accountId) :
    AccountShown accountId { s with readSide := readSide } gs := ⟨hview, hpast⟩

theorem AccountShown.frame (h : AccountShown accountId s gs) {readSide : ReadSide}
    {gs' : Nat → Option (String × Nat)} (hkeyed : readSide.Keyed)
    (hget : readSide.summaries.get (some accountId) = s.readSide.summaries.get (some accountId))
    (hstatement : readSide.statement (some accountId) = s.readSide.statement (some accountId))
    (howed : ∀ k, (∃ i, gs i = some (accountId, k)) → ∃ i, gs' i = some (accountId, k)) :
    AccountShown accountId { s with readSide := readSide } gs' := by
  refine .of_view ((h.view.frame hkeyed hget hstatement).mono howed) fun entry hentry => ?_
  rw [hstatement] at hentry
  have hversion : readSide.version accountId = s.readSide.version accountId := by
    rw [ReadSide.version, hget]
    rfl
  rw [hversion]
  exact h.past entry hentry

omit [JsRuntime] in
theorem owed_update {gs : Nat → Option (String × Nat)} {i : Nat} {g : Option (String × Nat)} {owed : String × Nat}
    (hne : gs i ≠ some owed) (h : ∃ j, gs j = some owed) : ∃ j, Function.update gs i g j = some owed := by
  obtain ⟨j, hj⟩ := h
  refine ⟨j, ?_⟩
  rw [Function.update_of_ne, hj]
  intro heq
  exact hne (heq ▸ hj)

namespace PipelineInv

theorem start : PipelineInv partitionOf ⟨.start, .empty .empty, fun _ => 0⟩ fun _ => none where
  outbox := .start
  written := .start
  consumed _ := ⟨Nat.zero_le _, fun message hm => by cases hm⟩
  shown _ := ⟨.reset (.empty _) rfl rfl, fun entry hentry => by cases hentry⟩

variable (h : PipelineInv partitionOf s gs)
include h

theorem moves {outbox : OutboxSystem} (hm : Relation.ReflTransGen OutboxMoves s.outbox outbox) :
    PipelineInv partitionOf { s with outbox := outbox } gs ∧ s.Grows { s with outbox := outbox } := by
  obtain ⟨houtbox, hwritten⟩ := OutboxSystem.all_moves_kept hm h.outbox h.written
  have hgrows := Pipeline.grows_of_moves hm
  exact ⟨⟨houtbox, hwritten, fun p => (h.consumed p).mono hgrows, fun accountId =>
    ⟨(h.shown accountId).view.grow (hgrows.outbox.events _), (h.shown accountId).past⟩⟩, hgrows⟩

theorem shape (accountId : String) : AccountStream accountId (s.outbox.events (accountStream accountId)) ∧
    AccountShape accountId (s.outbox.events (accountStream accountId)) := by
  have hstream := (h.written.history accountId).stream
  refine ⟨hstream, ?_⟩
  by_cases hnone : s.outbox.events (accountStream accountId) = []
  · rw [hnone]
    exact .nil
  · exact (hstream.shape (h.written.named accountId hnone) (h.written.created accountId)).1

theorem events_ids (accountId : String) :
    ((s.outbox.events (accountStream accountId)).map DomainEvent.eventId).Nodup := by
  have hsame : (s.outbox.events (accountStream accountId)).map DomainEvent.eventId =
      idsOf (s.outbox.outbox.staged.filter fun message => message.messageKey = accountStream accountId) := by
    rw [OutboxSystem.events, List.map_map]
    exact List.map_congr_left fun message hm => (h.written.id message (List.mem_filter.mp hm).1).symm
  rw [hsame]
  exact (List.filter_sublist.map _).nodup h.outbox.streams.ids

/-- The next message of a partition is of an account, and at most one ahead. -/
theorem next {p offset : Nat} (hconsumed : s.Consumed partitionOf p offset) {message : OutboxMessage}
    (hget : (s.outbox.partition partitionOf p)[offset]? = some message) :
    ∃ accountId, message.messageKey = accountStream accountId ∧ message.payload.data.accountId = some accountId ∧
      message.payload ∈ s.outbox.events (accountStream accountId) ∧
      message.payload.streamVersion ≤ s.readSide.version accountId + 1 := by
  obtain ⟨hmem, htopic⟩ := List.mem_filter.mp (List.mem_of_getElem? hget)
  have htopic : message.topic = "account-events" := of_decide_eq_true (Bool.and_eq_true_iff.mp htopic).1
  obtain ⟨accountId, hkey, hevent⟩ := OutboxSystem.published_account h.outbox h.written hmem htopic
  refine ⟨accountId, hkey, (h.shape accountId).2.accountId _ hevent, hevent, ?_⟩
  exact (OutboxSystem.partition_gapless h.outbox h.written partitionOf p).le_succ hget
    fun earlier hm heq => hconsumed.2 earlier hm accountId (heq.trans hkey)

theorem commitOffset {p offset : Nat} (hconsumed : s.Consumed partitionOf p offset) :
    PipelineInv partitionOf { s with offsets := Function.update s.offsets p offset } gs := by
  refine ⟨h.outbox, h.written, fun p' => ?_, fun accountId => ⟨(h.shown accountId).view, (h.shown accountId).past⟩⟩
  by_cases hp : p' = p
  · subst hp
    dsimp only
    rw [Function.update_self]
    exact hconsumed
  · dsimp only
    rw [Function.update_of_ne hp]
    exact h.consumed p'

theorem of_shown {readSide : ReadSide} {gs' : Nat → Option (String × Nat)}
    (hversion : ∀ accountId, s.readSide.version accountId ≤ readSide.version accountId)
    (hshown : ∀ accountId, AccountShown accountId { s with readSide := readSide } gs') :
    PipelineInv partitionOf { s with readSide := readSide } gs' :=
  ⟨h.outbox, h.written, fun p => (h.consumed p).mono ⟨.refl _, hversion⟩, hshown⟩

theorem upsert {event : DomainEvent} (hk : (s.outbox.events (accountStream accountId))[k]? = some event)
    (hg : gs i = none) {next : AccountSummaryReadModel} (hkey : next.accountId = some accountId)
    (hversion : next.version = k + 1)
    (hshows : next.Shows (AccountAggregate.replay ((s.outbox.events (accountStream accountId)).take (k + 1))))
    (hread : k ≤ s.readSide.version accountId) :
    PipelineInv partitionOf { s with readSide := s.readSide.upsertAccountSummary next }
        (Function.update gs i (some (accountId, k))) ∧
      k < (s.readSide.upsertAccountSummary next).version accountId := by
  have hgrown : ∀ accountId', s.readSide.version accountId' ≤
      (s.readSide.upsertAccountSummary next).version accountId' :=
    fun _ => ReadSide.version_perform (.upsertAccountSummary next) s.readSide
  have howed : ∀ owed, (∃ j, gs j = some owed) → ∃ j, Function.update gs i (some (accountId, k)) j = some owed :=
    fun owed => owed_update (by simp [hg])
  have hown := h.shown accountId
  obtain ⟨hview, hstored⟩ := (hown.view.mono fun k' => howed (accountId, k')).upsert hk hkey hversion hshows hread
    ⟨i, by rw [Function.update_self]⟩
  refine ⟨h.of_shown hgrown fun accountId' => ?_, hstored⟩
  by_cases heq : accountId' = accountId
  · subst heq
    refine .of_view hview fun entry hentry => ?_
    rw [ReadSide.upsertAccountSummary_statement] at hentry
    exact Nat.le_trans (hown.past entry hentry) (hgrown accountId')
  · refine (h.shown accountId').frame (hown.view.keyed.perform (.upsertAccountSummary next)) ?_
      (ReadSide.upsertAccountSummary_statement _ _) fun k' => howed (accountId', k')
    exact ReadSide.upsertAccountSummary_get_of_ne (by simpa [hkey] using Ne.symm heq)

theorem append {event : DomainEvent} (hk : (s.outbox.events (accountStream accountId))[k]? = some event)
    (hg : gs i = some (accountId, k)) (hstored : k < s.readSide.version accountId)
    (details : Option AccountProjector.TransferStatementDetails) :
    PipelineInv partitionOf
      { s with readSide := s.readSide.appendAccountStatement (AccountProjector.statementEntry event details) }
      (Function.update gs i none) := by
  obtain ⟨hstream, hshape⟩ := h.shape accountId
  have hid := hshape.accountId event (List.mem_of_getElem? hk)
  have hgrown : ∀ accountId', s.readSide.version accountId' ≤
      (s.readSide.appendAccountStatement (AccountProjector.statementEntry event details)).version accountId' :=
    fun _ => ReadSide.version_perform (.appendAccountStatement _) s.readSide
  have hown := h.shown accountId
  refine h.of_shown hgrown fun accountId' => ?_
  by_cases heq : accountId' = accountId
  · subst heq
    refine .of_view ((hown.view.append hstream hid hk details).mono fun k' hpending => ?_) fun entry hentry => ?_
    · refine owed_update (fun hthis => hpending.2 ?_) hpending.1
      rw [hg] at hthis
      exact (Prod.mk.inj (Option.some.inj hthis)).2.symm
    · refine Nat.le_trans ?_ (hgrown accountId')
      rw [ReadSide.statement_append] at hentry
      split at hentry
      · rw [List.mem_insertionSort, List.mem_append, List.mem_singleton] at hentry
        rcases hentry with hentry | rfl
        · exact hown.past entry hentry
        · rw [AccountProjector.statementEntry_streamVersion, hstream.streamVersion hk]
          exact hstored
      · exact hown.past entry hentry
  · refine (h.shown accountId').frame (hown.view.keyed.perform (.appendAccountStatement _)) ?_ ?_ fun k' hpending => ?_
    · rw [ReadSide.appendAccountStatement_summaries]
    · rw [ReadSide.statement_append, if_neg]
      rw [AccountProjector.statementEntry_accountId, hid]
      exact fun hthis => heq (Option.some.inj hthis.1).symm
    · refine owed_update (fun hthis => heq ?_) hpending
      rw [hg] at hthis
      exact (Prod.mk.inj (Option.some.inj hthis)).1.symm

end PipelineInv

end

/-! ## The consumers -/

def pipelineOutline [JsRuntime] (partitionOf : String → Nat) (reports : String → Prop) :
    Outline (pipeline partitionOf reports) (Option (String × Nat)) where
  idle := none
  le := Pipeline.Grows
  inv := PipelineInv partitionOf
  le_refl := .refl
  le_trans := .trans
  le_step h := by
    obtain ⟨outbox, hmoves, hstep⟩ := h
    exact (Pipeline.grows_of_moves hmoves).trans hstep.grows

def Reported {α : Type} (reports : String → Prop) (r : Except Failure α) : Prop :=
  ∀ e, r = .error e → ∃ message, reports message ∧ e = .store message

theorem Reported.ok {α : Type} {reports : String → Prop} {a : α} : Reported reports (.ok a : Except Failure α) :=
  fun _ h => by cases h

theorem Reported.store {α : Type} {reports : String → Prop} {message : String} (h : reports message) :
    Reported reports (.error (.store message) : Except Failure α) :=
  fun _ he => ⟨message, h, (Except.error.inj he).symm⟩

theorem Reported.rethrow {α β : Type} {reports : String → Prop} {e : Failure}
    (h : Reported reports (.error e : Except Failure α)) : Reported reports (.error e : Except Failure β) :=
  fun _ he => h _ (congrArg _ (Except.error.inj he))

namespace Consumer

variable [JsRuntime] {partitionOf : String → Nat} {reports : String → Prop} {q : ConsumerRequest} {s : Pipeline}
  {g : Option (String × Nat)}

theorem wp_read {op : ReadOp} {Q : Pipeline → Option (String × Nat) → Except Failure op.Result → Prop}
    (h : ∀ i s₁ gs, s.Grows s₁ → PipelineInv partitionOf s₁ gs → gs i = g →
      (∀ r readSide, DeliveryStep op s₁.readSide r readSide → ∃ g',
        PipelineInv partitionOf { s₁ with readSide := readSide } (Function.update gs i g') ∧
        Q { s₁ with readSide := readSide } g' r ∧
        ((∀ summary, op ≠ .upsertAccountSummary summary) → ∀ message, reports message →
          Q { s₁ with readSide := readSide } g' (.error (.store message)))) ∧
      ((∀ entry, op ≠ .appendAccountStatement entry) → ∀ message, reports message →
        Q s₁ g (.error (.store message)))) :
    (pipelineOutline partitionOf reports).wp q (ConsumerOp.call (.read op)) s g Q := by
  refine Outline.wp_call fun i s₀ gs hle hinv hg r s₂ hstep => ?_
  obtain ⟨outbox, hmoves, hstep⟩ := hstep
  obtain ⟨hinv, hgrows⟩ := PipelineInv.moves hinv hmoves
  obtain ⟨hperformed, hrejected⟩ := h i _ gs (Pipeline.Grows.trans hle hgrows) hinv hg
  cases hstep with
  | read hstep =>
    obtain ⟨g', hinv', hQ, -⟩ := hperformed _ _ hstep
    exact ⟨g', hinv', hQ⟩
  | rejected hm hop =>
    refine ⟨g, ?_, hrejected hop _ hm⟩
    rw [Outline.update_ghost hg]
    exact hinv
  | unanswered hm hop hstep =>
    obtain ⟨g', hinv', -, hQ⟩ := hperformed _ _ hstep
    exact ⟨g', hinv', hQ hop _ hm⟩

theorem wp_get {op : ReadOp} (hop : ∀ {readSide r readSide'}, DeliveryStep op readSide r readSide' →
      readSide' = readSide ∧ ∃ a, r = .ok a) :
    (pipelineOutline partitionOf reports).wp q (ConsumerOp.call (.read op)) s g
      fun _ g' r => g' = g ∧ Reported reports r := by
  refine wp_read fun i s₁ gs hle hinv hg => ⟨fun r readSide hstep => ⟨g, ?_⟩, fun _ message hm => ⟨rfl, .store hm⟩⟩
  obtain ⟨rfl, a, rfl⟩ := hop hstep
  rw [Outline.update_ghost hg]
  exact ⟨hinv, ⟨rfl, .ok⟩, fun _ message hm => ⟨rfl, .store hm⟩⟩

theorem wp_consuming_statementDetails (event : DomainEvent) :
    (pipelineOutline partitionOf reports).wp q (Consuming (AccountProjector.statementDetails event)) s none
      fun _ g r => g = none ∧ Reported reports r := by
  have hget : ∀ accountId, (pipelineOutline partitionOf reports).wp q
      (Consuming (AccountProjector.getTransferStatementDetails event accountId)) s none
      fun _ g r => g = none ∧ Reported reports r := by
    intro accountId
    unfold AccountProjector.getTransferStatementDetails
    dsimp only
    split
    · exact Outline.wp_pure ⟨rfl, .ok⟩
    · rw [Consuming, Async.along_bind]
      refine Outline.wp_bind (Outline.wp_mono (fun s' g r _ hr => ?_) (wp_get fun hstep => ?_))
      · obtain ⟨rfl, hreported⟩ := hr
        cases r with
        | error e => exact ⟨rfl, hreported.rethrow⟩
        | ok transfer => cases transfer <;> exact Outline.wp_pure ⟨rfl, .ok⟩
      · cases hstep <;> exact ⟨rfl, _, rfl⟩
  unfold AccountProjector.statementDetails
  split
  · exact hget _
  · exact hget _
  · exact Outline.wp_pure ⟨rfl, .ok⟩

/-- An event that is at most one ahead of the stored summary is not rejected. -/
theorem advance_accepted {accountId : String} {es : List DomainEvent} {readSide : ReadSide} {owed : Nat → Prop}
    (hview : AccountView accountId es readSide owed) (hstream : AccountStream accountId es)
    (hshape : AccountShape accountId es) {event : DomainEvent} {k : Nat} (hk : es[k]? = some event)
    (hnext : event.streamVersion ≤ readSide.version accountId + 1) (e : Failure) :
    AccountProjector.advance event (readSide.summaries.get (some accountId)) ≠ .error e := by
  have hversion := hstream.streamVersion hk
  unfold AccountProjector.advance
  cases hget : readSide.summaries.get (some accountId) with
  | none =>
    rw [ReadSide.version_of_none hget] at hnext
    obtain rfl : k = 0 := by omega
    have hcreated := hshape.first event (by rw [List.head?_eq_getElem?, hk]; rfl)
    cases hd : event.data with
    | AccountCreated => simp [hversion]
    | _ => simp [hd, EventData.isAccountCreated] at hcreated
  | some summary =>
    have hpos := (hview.summary hget).1
    rw [ReadSide.version_of_get hget] at hnext
    dsimp only
    split
    · exact fun h => by cases h
    · have hnotFirst : event.data.isAccountCreated = false := by
        by_contra hcreated
        have := hshape.once k event hk (by simpa using hcreated)
        omega
      rw [hnotFirst, if_neg]
      · exact fun h => by cases h
      · simp only [Bool.false_eq_true, false_or, ne_eq, Decidable.not_not]
        omega

/-- The projection of a message that is at most one ahead is rejected by the
store alone, and leaves no entry to be written. -/
theorem wp_eachMessage {message : OutboxMessage} {accountId : String}
    (hid : message.payload.data.accountId = some accountId)
    (hevent : message.payload ∈ s.outbox.events (accountStream accountId))
    (hnext : message.payload.streamVersion ≤ s.readSide.version accountId + 1) :
    (pipelineOutline partitionOf reports).wp q (eachMessage message) s none fun s' g r =>
      g = none ∧ Reported reports r ∧
        ∀ b, r = .ok b → message.payload.streamVersion ≤ s'.readSide.version accountId := by
  rw [eachMessage, AccountProjector.project_eq hid, AccountProjector.shape, Consuming, Async.along_bind]
  refine Outline.wp_bind (wp_read fun i s₁ gs hle hinv hg => ⟨fun r readSide hstep => ⟨none, ?_⟩,
    fun _ m hm => ⟨rfl, .store hm, fun _ h => by cases h⟩⟩)
  cases hstep
  rw [Outline.update_ghost hg]
  refine ⟨hinv, ?_, fun _ m hm => ⟨rfl, .store hm, fun _ h => by cases h⟩⟩
  dsimp only [ReadSide.perform]
  have hevent₁ := (hle.outbox.events _).subset hevent
  obtain ⟨k, hk⟩ := List.mem_iff_getElem?.mp hevent₁
  obtain ⟨hstream, hshape⟩ := hinv.shape accountId
  have hown := hinv.shown accountId
  have hnext₁ := Nat.le_trans hnext (Nat.succ_le_succ (hle.version accountId))
  split
  case h_1 e hadvance =>
    exact absurd hadvance (advance_accepted hown.view hstream hshape hk hnext₁ e)
  case h_2 hadvance =>
    exact Outline.wp_pure ⟨rfl, .ok, fun _ _ => advance_passed hadvance⟩
  case h_3 next hadvance =>
    obtain ⟨hkey, hversion, hread, hshows⟩ := AccountProjector.advance_shows hk (hstream.streamVersion hk) hid
      (fun summary hget => ⟨hown.view.keyed.account hget, (hown.view.summary hget).2.2⟩) hadvance
    have hread : s₁.readSide.version accountId = k := hread
    rw [Async.along_bind]
    refine Outline.wp_bind (Outline.wp_mono (fun s₂ g r hle₂ hr => ?_)
      (wp_consuming_statementDetails message.payload))
    obtain ⟨rfl, hreported⟩ := hr
    cases r with
    | error e => exact ⟨rfl, hreported.rethrow, fun _ h => by cases h⟩
    | ok details =>
      dsimp only
      rw [Async.along_bind]
      refine Outline.wp_bind (wp_read fun i s₃ gs' hle₃ hinv₃ hg' => ⟨fun r readSide hstep => ⟨some (accountId, k), ?_⟩,
        fun _ m hm => ⟨rfl, .store hm, fun _ h => by cases h⟩⟩)
      have hgrows := Pipeline.Grows.trans hle₂ hle₃
      have hpre := hgrows.outbox.events (accountStream accountId)
      have hk₃ : (s₃.outbox.events (accountStream accountId))[k]? = some message.payload := hpre.getElem?_of_eq_some hk
      have htake : (s₃.outbox.events (accountStream accountId)).take (k + 1) =
          (s₁.outbox.events (accountStream accountId)).take (k + 1) :=
        hpre.take_eq (List.getElem?_eq_some_iff.mp hk).1
      have hread₃ : k ≤ s₃.readSide.version accountId := hread ▸ hgrows.version accountId
      cases hstep
      obtain ⟨hinv₄, hstored⟩ := hinv₃.upsert hk₃ hg' hkey hversion (by rw [htake]; exact hshows) hread₃
      refine ⟨hinv₄, ?_, fun hne => absurd rfl (hne next)⟩
      dsimp only
      rw [Async.along_bind]
      refine Outline.wp_bind (wp_read fun i s₅ gs'' hle₅ hinv₅ hg'' => ⟨fun r readSide hstep => ⟨none, ?_⟩,
        fun hne => absurd rfl (hne _)⟩)
      have hstored₅ : k < s₅.readSide.version accountId := Nat.lt_of_lt_of_le hstored (hle₅.version accountId)
      have hk₅ := (hle₅.outbox.events (accountStream accountId)).getElem?_of_eq_some hk₃
      cases hstep
      refine ⟨hinv₅.append hk₅ hg'' hstored₅ details, Outline.wp_pure ⟨rfl, .ok, fun _ _ => ?_⟩,
        fun _ m hm => ⟨rfl, .store hm, fun _ h => by cases h⟩⟩
      rw [hstream.streamVersion hk]
      exact Nat.le_trans hstored₅ (ReadSide.version_perform (.appendAccountStatement _) s₅.readSide)

omit [JsRuntime] in
theorem consumed_succ {p offset : Nat} (h : s.Consumed partitionOf p offset) {message : OutboxMessage}
    (hget : (s.outbox.partition partitionOf p)[offset]? = some message)
    (hprojected : ∀ accountId, message.messageKey = accountStream accountId →
      message.payload.streamVersion ≤ s.readSide.version accountId) : s.Consumed partitionOf p (offset + 1) := by
  refine ⟨(List.getElem?_eq_some_iff.mp hget).1, fun m hm accountId hkey => ?_⟩
  rw [List.take_add_one, hget, List.mem_append] at hm
  rcases hm with hm | hm
  · exact h.2 m hm accountId hkey
  · obtain rfl := List.mem_singleton.mp hm
    exact hprojected accountId hkey

/-- A consumer that has projected what is before its offset goes on as far as the stores let it. -/
theorem wp_run {p offset : Nat} (polls : Nat) (h : s.Consumed partitionOf p offset) :
    (pipelineOutline partitionOf reports).wp q (run p polls offset) s none fun _ g r =>
      g = none ∧ Reported reports r := by
  induction polls generalizing s offset with
  | zero => exact Outline.wp_pure ⟨rfl, .ok⟩
  | succ polls ih =>
    refine Outline.wp_bind (Outline.wp_call fun i s₀ gs hle hinv hg r s₁ hstep => ⟨none, ?_⟩)
    rw [Outline.update_ghost hg]
    obtain ⟨outbox, hmoves, hstep⟩ := hstep
    obtain ⟨hinv, hgrows⟩ := PipelineInv.moves hinv hmoves
    have h₁ := h.mono (Pipeline.Grows.trans hle hgrows)
    cases hstep with
    | polledNothing => exact ⟨hinv, ih h₁⟩
    | @polled _ _ _ message hget =>
      refine ⟨hinv, ?_⟩
      obtain ⟨accountId, hkey, hid, hevent, hnext⟩ := hinv.next h₁ hget
      refine Outline.wp_bind (Outline.wp_mono (fun s₂ g r hle₂ hr => ?_) (wp_eachMessage hid hevent hnext))
      obtain ⟨rfl, hreported, hprojected⟩ := hr
      cases r with
      | error e => exact ⟨rfl, hreported.rethrow⟩
      | ok b =>
        have hle₂ : Pipeline.Grows _ s₂ := hle₂
        have hget₂ := (hle₂.outbox.partition partitionOf p).getElem?_of_eq_some hget
        have hsucc : s₂.Consumed partitionOf p (offset + 1) := by
          refine consumed_succ (h₁.mono hle₂) hget₂ fun accountId' hkey' => ?_
          obtain rfl := accountStream_inj.mp (hkey.symm.trans hkey')
          exact hprojected b rfl
        refine Outline.wp_bind (Outline.wp_call fun i s₃ gs hle₃ hinv₃ hg₃ r s₄ hstep => ⟨none, ?_⟩)
        rw [Outline.update_ghost hg₃]
        obtain ⟨outbox₃, hmoves₃, hstep⟩ := hstep
        obtain ⟨hinv₃, hgrows₃⟩ := PipelineInv.moves hinv₃ hmoves₃
        have hsucc₃ := hsucc.mono (Pipeline.Grows.trans hle₃ hgrows₃)
        cases hstep with
        | committed => exact ⟨hinv₃.commitOffset hsucc₃, ih (hsucc₃.mono ⟨.refl _, fun _ => Nat.le_refl _⟩)⟩
        | deferred => exact ⟨hinv₃, ih hsucc₃⟩

theorem wp_body (q : ConsumerRequest) (s : Pipeline) :
    (pipelineOutline partitionOf reports).wp q q.body s none fun _ g r => g = none ∧ Reported reports r := by
  refine Outline.wp_bind (Outline.wp_call fun i s₀ gs hle hinv hg r s₁ hstep => ⟨none, ?_⟩)
  rw [Outline.update_ghost hg]
  obtain ⟨outbox, hmoves, hstep⟩ := hstep
  obtain ⟨hinv, -⟩ := PipelineInv.moves hinv hmoves
  cases hstep
  exact ⟨hinv, wp_run q.polls (hinv.consumed q.partition)⟩

end Consumer

end CoreBanking
