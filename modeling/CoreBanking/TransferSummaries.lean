import CoreBanking.Replay
import CoreBanking.TransferMachine
import Mathlib.Data.Prod.Lex

/-!
# Transfer summaries

What the projector makes of the events of one transfer: in their order it keeps
step with the aggregate; in any other order the timestamp is all that tells an
old event from a new one.
-/

namespace CoreBanking

open TransferAggregate (replay replay_snoc)

/-! ## Summary and aggregate -/

structure TransferSummaryReadModel.Agrees (summary : TransferSummaryReadModel) (transfer : TransferAggregate) :
    Prop where
  transferId : summary.transferId = transfer.transferId
  sourceAccountId : some summary.sourceAccountId = transfer.sourceAccountId
  destinationAccountId : some summary.destinationAccountId = transfer.destinationAccountId
  amountMinorUnits : summary.amountMinorUnits = transfer.amountMinorUnits
  currency : some summary.currency = transfer.currency
  status : some summary.status = transfer.status
  failureReason : summary.failureReason = transfer.failureReason
  failureStage : summary.failureStage = transfer.failureStage
  sourceDebitTransactionId : summary.sourceDebitTransactionId = transfer.sourceDebitTransactionId
  destinationCreditTransactionId : summary.destinationCreditTransactionId = transfer.destinationCreditTransactionId
  compensationTransactionId : summary.compensationTransactionId = transfer.compensationTransactionId
  debitAttempts : summary.debitAttempts = transfer.debitAttempts
  creditAttempts : summary.creditAttempts = transfer.creditAttempts
  compensationAttempts : summary.compensationAttempts = transfer.compensationAttempts
  createdAt : some summary.createdAt = transfer.createdAt
  updatedAt : some summary.updatedAt = transfer.updatedAt

namespace TransferProjector

section
variable [JsRuntime] {event : DomainEvent} {summary : TransferSummaryReadModel} {transfer : TransferAggregate}

theorem agrees_first (hterms : event.data.terms ≠ none) :
    (after summary event).Agrees (({} : TransferAggregate).when event) := by
  unfold after TransferAggregate.when
  cases hd : event.data with
  | TransferInitiated => constructor <;> rfl
  | _ =>
    rw [hd] at hterms
    exact absurd rfl hterms

/-- **Step.** Both take an event in alike. -/
theorem agrees_next (hid : event.data.transferId ≠ none) (hterms : event.data.terms = none)
    (h : summary.Agrees transfer) : (after summary event).Agrees (transfer.when event) := by
  unfold after TransferAggregate.when nextSummary
  obtain ⟨hid', hsource, hdestination, hamount, hcurrency, hstatus, hreason, hstage, hdebit, hcredit, hcompensation,
    hdebits, hcredits, hcompensations, hcreated, hupdated⟩ := h
  cases hd : event.data with
  | TransferInitiated => rw [hd] at hterms; cases hterms
  | AccountCreated | MoneyDeposited | MoneyWithdrawn | AccountFrozen =>
    rw [hd] at hid
    exact absurd rfl hid
  | _ => constructor <;> first | rfl | assumption

end

/-! ## In the order of the stream -/

section
variable [JsRuntime]

def accept (current : Option TransferSummaryReadModel) (event : DomainEvent) : Option TransferSummaryReadModel :=
  match advance event current with
  | .error _ => current
  | .ok next => some next

def projection (es : List DomainEvent) : Option TransferSummaryReadModel := es.foldl accept none

theorem projection_snoc (es : List DomainEvent) (event : DomainEvent) :
    projection (es ++ [event]) = accept (projection es) event := List.foldl_concat ..

theorem accept_some (summary : TransferSummaryReadModel) (event : DomainEvent) :
    accept (some summary) event = some (after summary event) := by
  simp only [accept, advance_some]

/-- The read models after one delivery; a rejected one has stored nothing. -/
def deliver (s : ReadSide) (event : DomainEvent) : ReadSide := ((project event).eval ReadSide.perform s).2

def Accepts (s : ReadSide) (event : DomainEvent) : Prop := ((project event).eval ReadSide.perform s).1 = .ok true

variable {transferId : String} {es : List DomainEvent}

theorem deliver_spec {event : DomainEvent} (hid : event.data.transferId = some transferId) {s : ReadSide}
    (hkeyed : s.Keyed) : (deliver s event).Keyed ∧
      (deliver s event).transfers.get (some transferId) = stored (s.transfers.get (some transferId)) event ∧
      (Accepts s event ↔ ∃ next, advance event (s.transfers.get (some transferId)) = .ok next) := by
  have heval := project_eval hid s
  have hkept : (deliver s event).Keyed :=
    Async.eval_preserves (P := ReadSide.Keyed) (fun op _ hs => hs.perform op) (project event) hkeyed
  refine ⟨hkept, ?_⟩
  unfold deliver Accepts
  cases hadvance : advance event (s.transfers.get (some transferId)) with
  | error e =>
    rw [hadvance] at heval
    rw [heval, stored, hadvance]
    simp
  | ok next =>
    rw [hadvance] at heval
    have hstored := (project_stored hid (fun _ => hkeyed.transfer) heval).2.2 (some transferId)
    rw [if_pos rfl] at hstored
    rw [heval]
    exact ⟨hstored, by simp⟩

theorem projection_agrees (hne : transferId ≠ "") (h : TransferStream transferId es) (hes : es ≠ []) :
    ∃ summary, projection es = some summary ∧ summary.Agrees (replay es) := by
  induction es using List.reverseRecOn with
  | nil => exact absurd rfl hes
  | append_singleton es event ih =>
    have hid := (h.stamped hne event (by simp)).2
    obtain ⟨first, rest, hopening, hfirst, hrest⟩ := h.opening hne (by simp)
    rw [projection_snoc, replay_snoc]
    by_cases hnil : es = []
    · subst hnil
      obtain ⟨rfl, rfl⟩ := List.cons_eq_cons.mp hopening
      obtain ⟨summary, -, hadvance⟩ := stored_none hfirst
      exact ⟨after summary event, by simp [projection, accept, hadvance], agrees_first hfirst⟩
    · obtain ⟨summary, hsummary, hagrees⟩ := ih h.snoc_inv.1 hnil
      have hterms : event.data.terms = none := by
        obtain ⟨e, es', rfl⟩ := List.exists_cons_of_ne_nil hnil
        obtain ⟨rfl, rfl⟩ := List.cons_eq_cons.mp hopening
        exact hrest event (by simp)
      refine ⟨after summary event, by rw [hsummary, accept_some], ?_⟩
      exact agrees_next (by simp [hid]) hterms hagrees

omit [JsRuntime] in
theorem updatedAt_snoc {summary : TransferSummaryReadModel} {event : DomainEvent}
    (h : summary.Agrees (replay (es ++ [event]))) : summary.updatedAt = event.occurredAt := by
  have hu := h.updatedAt
  rw [replay_snoc, TransferAggregate.when_updatedAt] at hu
  exact Option.some.inj hu

/-- Where times never decrease, the timestamp lets every event through. -/
theorem foldl_stored_none (hne : transferId ≠ "") (h : TransferStream transferId es)
    (hordered : es.Pairwise fun e e' => e.occurredAt ≤ e'.occurredAt) : es.foldl stored none = projection es := by
  induction es using List.reverseRecOn with
  | nil => rfl
  | append_singleton es event ih =>
    have hid := (h.stamped hne event (by simp)).2
    obtain ⟨hbefore, -, hlast⟩ := List.pairwise_append.mp hordered
    rw [List.foldl_concat, projection_snoc, ih h.snoc_inv.1 hbefore]
    cases es using List.reverseRecOn with
    | nil =>
      obtain ⟨first, rest, hopening, hfirst, hrest⟩ := h.opening hne (by simp)
      obtain ⟨rfl, rfl⟩ := List.cons_eq_cons.mp hopening
      obtain ⟨summary, hstored, hadvance⟩ := stored_none hfirst
      simp only [projection, List.foldl_nil, hstored, accept, hadvance]
    | append_singleton es last =>
      obtain ⟨summary, hsummary, hagrees⟩ := projection_agrees hne h.snoc_inv.1 (by simp)
      rw [hsummary, accept_some, stored_new (by simp [hid])]
      rw [updatedAt_snoc hagrees]
      exact hlast last (by simp) event (by simp)

theorem foldl_deliver (hid : ∀ e ∈ es, e.data.transferId = some transferId) {s : ReadSide} (hkeyed : s.Keyed) :
    (es.foldl deliver s).Keyed ∧
      (es.foldl deliver s).transfers.get (some transferId) = es.foldl stored (s.transfers.get (some transferId)) := by
  induction es generalizing s with
  | nil => exact ⟨hkeyed, rfl⟩
  | cons e es ih =>
    obtain ⟨hkept, hget, -⟩ := deliver_spec (hid e List.mem_cons_self) hkeyed
    rw [List.foldl_cons, List.foldl_cons, ← hget]
    exact ih (fun e he => hid e (List.mem_cons_of_mem _ he)) hkept

theorem summaryAfter (hne : transferId ≠ "") (h : TransferStream transferId es)
    (hordered : es.Pairwise fun e e' => e.occurredAt ≤ e'.occurredAt) (events : EventStore) :
    (es.foldl deliver (.empty events)).Keyed ∧
      (es.foldl deliver (.empty events)).transfers.get (some transferId) = projection es := by
  have hdeliver := foldl_deliver (fun e he => (h.stamped hne e he).2) (.empty events)
  exact ⟨hdeliver.1, hdeliver.2.trans (foldl_stored_none hne h hordered)⟩

theorem advance_projection (hne : transferId ≠ "") {event : DomainEvent}
    (h : TransferStream transferId (es ++ [event])) : ∃ next, advance event (projection es) = .ok next := by
  by_cases hnil : es = []
  · subst hnil
    obtain ⟨first, rest, hopening, hfirst, hrest⟩ := h.opening hne (by simp)
    obtain ⟨rfl, rfl⟩ := List.cons_eq_cons.mp hopening
    obtain ⟨summary, -, hadvance⟩ := stored_none hfirst
    exact ⟨_, hadvance⟩
  · obtain ⟨summary, hsummary, -⟩ := projection_agrees hne h.snoc_inv.1 hnil
    exact ⟨_, hsummary ▸ advance_some event summary⟩

end

end TransferProjector

namespace TransferAggregate

theorem attempt_isPrefix (transfer : TransferAggregate) (c : TransferCall) :
    transfer.uncommittedEvents <+: (transfer.attempt c).uncommittedEvents := by
  rcases attempt_cases transfer c with ⟨-, hsame⟩ | ⟨data, -, hnext⟩
  · exact hsame.symm ▸ List.prefix_refl _
  · rw [hnext]
    exact List.prefix_append ..

theorem afterCalls_isPrefix {p calls : List TransferCall} (hp : p <+: calls) :
    (afterCalls p).uncommittedEvents <+: (afterCalls calls).uncommittedEvents := by
  obtain ⟨r, rfl⟩ := hp
  induction r using List.reverseRecOn with
  | nil => simp
  | append_singleton r c ih =>
    rw [← List.append_assoc, afterCalls_snoc]
    exact ih.trans (attempt_isPrefix _ c)

end TransferAggregate

section
open TransferProjector TransferAggregate

/-- Delivered once and in their order to empty read models, the events of an aggregate
are all taken in, and after each of them the summary shows the aggregate. -/
theorem summary_agrees [JsRuntime] (events : EventStore) (calls : List TransferCall) (hnamed : Named calls)
    (hordered : (afterCalls calls).uncommittedEvents.Pairwise fun e e' => e.occurredAt ≤ e'.occurredAt) :
    (∀ es event, es ++ [event] <+: (afterCalls calls).uncommittedEvents →
      Accepts (es.foldl deliver (.empty events)) event) ∧
    ∀ p, p <+: calls → (afterCalls p).uncommittedEvents ≠ [] →
      ∃ summary, ((afterCalls p).uncommittedEvents.foldl deliver (.empty events)).transfers.get
        (afterCalls p).transferId = some summary ∧ summary.Agrees (afterCalls p) := by
  obtain ⟨transferId, hne, hstream⟩ := afterCalls_stream hnamed
  refine ⟨?_, ?_⟩
  · intro es event hp
    have hev := hstream.anti hp
    obtain ⟨hkeyed, hget⟩ := summaryAfter hne hev.snoc_inv.1
      (hordered.sublist ((List.prefix_append _ _).trans hp).sublist) events
    refine (deliver_spec (hev.stamped hne event (by simp)).2 hkeyed).2.2.mpr ?_
    rw [hget]
    exact advance_projection hne hev
  · intro p hp hes
    have hpre := afterCalls_isPrefix hp
    have hstream := hstream.anti hpre
    obtain ⟨summary, hsummary, hagrees⟩ := projection_agrees hne hstream hes
    obtain ⟨-, hget⟩ := summaryAfter hne hstream (hordered.sublist hpre.sublist) events
    rw [← hget] at hsummary
    have hagrees : summary.Agrees (afterCalls p) := by
      rw [afterCalls_replay p]
      exact { hagrees with }
    refine ⟨summary, ?_, hagrees⟩
    obtain ⟨terms, -, -, -, hhas⟩ := hstream.terms hne hes
    rwa [afterCalls_replay p, hhas.1]

theorem summary_agrees_refunded : ∃ summary : TransferSummaryReadModel, summary.Agrees (afterCalls refundedCalls) ∧
    summary.status = .COMPENSATED ∧ summary.failureStage = some .CREDIT := by
  obtain ⟨-, h⟩ := @summary_agrees decimalRuntime .empty refundedCalls (by unfold Named; decide) (by decide +kernel)
  obtain ⟨summary, -, hagrees⟩ := h refundedCalls (List.prefix_refl _) (by decide +kernel)
  refine ⟨summary, hagrees, ?_, ?_⟩
  · exact Option.some.inj (hagrees.status.trans (by decide +kernel))
  · exact hagrees.failureStage.trans (by decide +kernel)

end

end CoreBanking
