import CoreBanking.Projection

/-!
# Replaying the log

A replay from position 0 finds the read models where an earlier one left them.
The version of an account summary makes old account events pass by. A transfer
summary is guarded by its timestamp alone, so the events of its last millisecond
are applied once more; each field is then written by the same events again.
-/

namespace CoreBanking

open ProjectionRunnerService (projectBoth projectEach replayFrom)

/-! ## Folds that overwrite -/

/-- Each step sets the field `g` to a value of its own, or leaves it. -/
def Overwrites {σ ε φ : Type} (f : σ → ε → σ) (g : σ → φ) : Prop :=
  ∀ e, (∃ c, ∀ s, g (f s e) = c) ∨ ∀ s, g (f s e) = g s

namespace Overwrites

variable {σ ε φ : Type} {f : σ → ε → σ} {g : σ → φ}

theorem foldl (h : Overwrites f g) (l : List ε) :
    (∃ c, ∀ s, g (l.foldl f s) = c) ∨ ∀ s, g (l.foldl f s) = g s := by
  induction l with
  | nil => exact .inr fun _ => rfl
  | cons e l ih =>
    simp only [List.foldl_cons]
    rcases ih with ⟨c, hc⟩ | hkeep
    · exact .inl ⟨c, fun s => hc _⟩
    · rcases h e with ⟨c, hc⟩ | he
      · exact .inl ⟨c, fun s => (hkeep _).trans (hc s)⟩
      · exact .inr fun s => (hkeep _).trans (he s)

/-- Running the same events again writes the same values. -/
theorem foldl_again (h : Overwrites f g) (l : List ε) (s : σ) : g (l.foldl f (l.foldl f s)) = g (l.foldl f s) := by
  rcases h.foldl l with ⟨c, hc⟩ | hkeep
  · rw [hc, hc]
  · rw [hkeep]

end Overwrites

namespace TransferProjector

variable [JsRuntime]

def after (summary : TransferSummaryReadModel) (event : DomainEvent) : TransferSummaryReadModel :=
  match event.data with
  | .TransferInitiated transferId sourceAccountId destinationAccountId amount currency =>
    firstSummary event transferId sourceAccountId destinationAccountId amount currency
  | _ => nextSummary summary event

theorem after_overwrites {φ : Type} {g : TransferSummaryReadModel → φ}
    (h : ∀ event : DomainEvent, event.data.terms = none →
      (∃ c, ∀ summary, g (nextSummary summary event) = c) ∨ ∀ summary, g (nextSummary summary event) = g summary) :
    Overwrites after g := by
  intro event
  unfold after
  split
  · exact .inl ⟨_, fun _ => rfl⟩
  case h_2 hd =>
    refine h event ?_
    cases hdata : event.data with
    | TransferInitiated => exact absurd hdata (hd _ _ _ _ _)
    | _ => rfl

attribute [ext] TransferSummaryReadModel

/-- **Step.** The events of a transfer, applied again to what they have made, make nothing new. -/
theorem after_again (es : List DomainEvent) (summary : TransferSummaryReadModel) :
    es.foldl after (es.foldl after summary) = es.foldl after summary := by
  ext1
  all_goals
    refine Overwrites.foldl_again (after_overwrites fun event _ => ?_) es summary
    unfold nextSummary
    cases event.data with
    | TransferDebitStarted => first | exact .inl ⟨_, fun _ => rfl⟩ | exact .inr fun _ => rfl
    | TransferCreditStarted => first | exact .inl ⟨_, fun _ => rfl⟩ | exact .inr fun _ => rfl
    | TransferCompensationStarted => first | exact .inl ⟨_, fun _ => rfl⟩ | exact .inr fun _ => rfl
    | TransferFailed => first | exact .inl ⟨_, fun _ => rfl⟩ | exact .inr fun _ => rfl
    | TransferDebited | TransferCompleted | TransferCompensated =>
      first | exact .inl ⟨_, fun _ => rfl⟩ | exact .inr fun _ => rfl
    | _ => exact .inr fun _ => rfl

/-! ## What the timestamp lets through -/

theorem after_updatedAt {event : DomainEvent} (hid : event.data.transferId ≠ none)
    (summary : TransferSummaryReadModel) : (after summary event).updatedAt = event.occurredAt := by
  unfold after
  cases hd : event.data with
  | TransferInitiated => rfl
  | AccountCreated | MoneyDeposited | MoneyWithdrawn | AccountFrozen =>
    rw [hd] at hid
    exact absurd rfl hid
  | _ => simp only [nextSummary, hd]

theorem advance_some (event : DomainEvent) (summary : TransferSummaryReadModel) :
    advance event (some summary) = .ok (after summary event) := by
  unfold advance after
  cases event.data <;> rfl

theorem after_transferId {event : DomainEvent} {transferId : String} (hid : event.data.transferId = some transferId)
    {summary : TransferSummaryReadModel} (h : summary.transferId = some transferId) :
    (after summary event).transferId = some transferId := by
  unfold after
  cases hd : event.data with
  | TransferInitiated => exact (by rw [hd] at hid; exact hid)
  | _ => simpa using h

/-- What is stored under the id of a transfer after one of its events. -/
def stored (existing : Option TransferSummaryReadModel) (event : DomainEvent) : Option TransferSummaryReadModel :=
  match advance event existing with
  | .error _ => existing
  | .ok next => if existing.any fun current => decide (next.updatedAt < current.updatedAt) then existing else some next

theorem stored_none {event : DomainEvent} (hterms : event.data.terms ≠ none) :
    ∃ summary, stored none event = some (after summary event) ∧ advance event none = .ok (after summary event) := by
  cases hd : event.data with
  | TransferInitiated transferId sourceAccountId destinationAccountId amount currency =>
    refine ⟨firstSummary event transferId sourceAccountId destinationAccountId amount currency, ?_, ?_⟩
    · simp only [stored, advance, after, hd]
      rfl
    · simp only [advance, after, hd]
  | _ =>
    rw [hd] at hterms
    exact absurd rfl hterms

section
variable {event : DomainEvent} {summary : TransferSummaryReadModel} (hid : event.data.transferId ≠ none)
include hid

theorem stored_new (hle : summary.updatedAt ≤ event.occurredAt) :
    stored (some summary) event = some (after summary event) := by
  simp only [stored, advance_some, after_updatedAt hid, Option.any_some]
  rw [if_neg (by simpa using hle)]

theorem stored_old (hlt : event.occurredAt < summary.updatedAt) : stored (some summary) event = some summary := by
  simp only [stored, advance_some, after_updatedAt hid, Option.any_some]
  rw [if_pos (by simpa using hlt)]

end

/-- Events in the order of their times are all let through. -/
theorem foldl_stored {es : List DomainEvent} (hid : ∀ e ∈ es, e.data.transferId ≠ none)
    (hordered : es.Pairwise fun e e' => e.occurredAt ≤ e'.occurredAt) {summary : TransferSummaryReadModel}
    (hle : ∀ e ∈ es, summary.updatedAt ≤ e.occurredAt) :
    es.foldl stored (some summary) = some (es.foldl after summary) := by
  induction es generalizing summary with
  | nil => rfl
  | cons e es ih =>
    obtain ⟨hhead, htail⟩ := List.pairwise_cons.mp hordered
    have he := hid e List.mem_cons_self
    rw [List.foldl_cons, List.foldl_cons, stored_new he (hle e List.mem_cons_self)]
    refine ih (fun e' he' => hid e' (List.mem_cons_of_mem _ he')) htail fun e' he' => ?_
    rw [after_updatedAt he]
    exact hhead e' he'

theorem foldl_after_updatedAt {es : List DomainEvent} (hid : ∀ e ∈ es, e.data.transferId ≠ none)
    (hordered : es.Pairwise fun e e' => e.occurredAt ≤ e'.occurredAt) (summary : TransferSummaryReadModel) :
    ∀ e ∈ es, e.occurredAt ≤ (es.foldl after summary).updatedAt := by
  induction es using List.reverseRecOn with
  | nil => simp
  | append_singleton es last _ =>
    rw [List.foldl_concat, after_updatedAt (hid last (by simp))]
    intro e he
    rcases List.mem_append.mp he with he | he
    · exact (List.pairwise_append.mp hordered).2.2 e he last (by simp)
    · rw [List.mem_singleton.mp he]

/-- **Run.** The whole of a transfer's events, on the summary that they have made: those
before its time pass by, and the others write what they wrote. -/
theorem foldl_stored_again {es : List DomainEvent} (hid : ∀ e ∈ es, e.data.transferId ≠ none)
    (hordered : es.Pairwise fun e e' => e.occurredAt ≤ e'.occurredAt) (summary : TransferSummaryReadModel) :
    es.foldl stored (some (es.foldl after summary)) = some (es.foldl after summary) := by
  have hlast := foldl_after_updatedAt hid hordered summary
  suffices h : ∀ old new, es = old ++ new →
      new.foldl stored (some (es.foldl after summary)) = some (es.foldl after summary) from h [] es rfl
  intro old new
  induction new generalizing old with
  | nil => intro _; rfl
  | cons e new ih =>
    intro hes
    have he : e ∈ es := by simp [hes]
    by_cases hlt : e.occurredAt < (es.foldl after summary).updatedAt
    · rw [List.foldl_cons, stored_old (hid e he) hlt]
      exact ih (old ++ [e]) (by simp [hes])
    · -- from here on the events have the time of the last
      have hnew : ∀ e' ∈ e :: new, (es.foldl after summary).updatedAt ≤ e'.occurredAt := by
        intro e' he'
        rw [hes] at hordered
        rcases List.mem_cons.mp he' with rfl | he'
        · exact not_lt.mp hlt
        · exact le_trans (not_lt.mp hlt) ((List.pairwise_cons.mp (List.pairwise_append.mp hordered).2.1).1 e' he')
      rw [foldl_stored (fun e' he' => hid e' (hes ▸ List.mem_append_right _ he'))
        (List.pairwise_append.mp (hes ▸ hordered)).2.1 hnew]
      conv_lhs => rw [hes, List.foldl_append, after_again]
      rw [hes, List.foldl_append]

theorem project_stored {event : DomainEvent} {transferId : String} (hid : event.data.transferId = some transferId)
    {s s' : ReadSide} (hkeyed : ∀ summary, s.transfers.get (some transferId) = some summary →
      summary.transferId = some transferId)
    (heval : (project event).eval ReadSide.perform s = (.ok true, s')) :
    s'.summaries = s.summaries ∧ s'.statements = s.statements ∧ ∀ key, s'.transfers.get key =
      if key = some transferId then stored (s.transfers.get key) event else s.transfers.get key := by
  rw [project_eval hid] at heval
  cases hadvance : advance event (s.transfers.get (some transferId)) with
  | error e => rw [hadvance] at heval; cases heval
  | ok next =>
    rw [hadvance] at heval
    obtain rfl : s.upsertTransferSummary next = s' := (Prod.ext_iff.mp heval).2
    have hkey : next.transferId = some transferId := by
      cases hget : s.transfers.get (some transferId) with
      | none =>
        cases hd : event.data with
        | TransferInitiated =>
          rw [hget] at hadvance
          simp only [advance, hd, Except.ok.injEq] at hadvance
          rw [← hadvance, ← hid, hd]
          rfl
        | _ => rw [hget] at hadvance; simp [advance, hd] at hadvance
      | some summary =>
        rw [hget, advance_some, Except.ok.injEq] at hadvance
        rw [← hadvance, after_transferId hid (hkeyed summary hget)]
    refine ⟨by simp, by simp, fun key => ?_⟩
    by_cases hk : key = some transferId
    · subst hk
      rw [if_pos rfl, stored, hadvance]
      unfold ReadSide.upsertTransferSummary
      rw [hkey]
      dsimp only
      split
      · rfl
      · exact OrderedMap.get_set_self _ _ _
    · rw [if_neg hk]
      unfold ReadSide.upsertTransferSummary
      rw [hkey]
      split
      · rfl
      · exact OrderedMap.get_set_of_ne _ _ (Ne.symm hk)

end TransferProjector

/-! ## The read models a second time -/

section
variable [JsRuntime]

theorem AccountProjector.project_old {event : DomainEvent} {accountId : String}
    (hid : event.data.accountId = some accountId) {s : ReadSide} {summary : AccountSummaryReadModel}
    (hget : s.summaries.get (some accountId) = some summary) (hle : event.streamVersion ≤ summary.version) :
    (project event).eval ReadSide.perform s = (.ok true, s) := by
  obtain ⟨details, heval⟩ := project_eval hid s
  rw [heval, hget]
  simp only [advance, if_pos hle]

def transferEvents (key : Option String) (journal : List (String × DomainEvent)) : List DomainEvent :=
  key.elim [] fun transferId => streamIn (transferStream transferId) journal

omit [JsRuntime] in
theorem transferEvents_snoc (key : Option String) (journal : List (String × DomainEvent)) (transferId : String)
    (event : DomainEvent) : transferEvents key (journal ++ [(transferStream transferId, event)]) =
      if key = some transferId then transferEvents key journal ++ [event] else transferEvents key journal := by
  cases key with
  | none => rfl
  | some t =>
    by_cases h : t = transferId
    · subst h
      simp [transferEvents, streamIn]
    · have hne : transferStream transferId ≠ transferStream t := fun heq => h (transferStream_inj.mp heq).symm
      simp [transferEvents, streamIn, h, hne]

omit [JsRuntime] in
theorem transferEvents_snoc_account (key : Option String) (journal : List (String × DomainEvent))
    (accountId : String) (event : DomainEvent) :
    transferEvents key (journal ++ [(accountStream accountId, event)]) = transferEvents key journal := by
  cases key with
  | none => rfl
  | some t => simp [transferEvents, streamIn, accountStream_ne_transferStream]

/-- The transfers are those of `r₀`, with the events of `journal` stored after them. -/
def TransfersFrom (r₀ : ReadSide) (journal : List (String × DomainEvent)) (s : ReadSide) : Prop :=
  ∀ key, s.transfers.get key = (transferEvents key journal).foldl TransferProjector.stored (r₀.transfers.get key)

theorem TransfersFrom.stored {r₀ s s' : ReadSide} {journal : List (String × DomainEvent)}
    (h : TransfersFrom r₀ journal s) {transferId : String} {event : DomainEvent}
    (hstored : ∀ key, s'.transfers.get key =
      if key = some transferId then TransferProjector.stored (s.transfers.get key) event else s.transfers.get key) :
    TransfersFrom r₀ (journal ++ [(transferStream transferId, event)]) s' := by
  intro key
  rw [hstored, transferEvents_snoc, h key]
  split
  · rw [List.foldl_concat]
  · rfl

theorem TransfersFrom.account {r₀ s s' : ReadSide} {journal : List (String × DomainEvent)}
    (h : TransfersFrom r₀ journal s) (accountId : String) (event : DomainEvent) (hs : s'.transfers = s.transfers) :
    TransfersFrom r₀ (journal ++ [(accountStream accountId, event)]) s' := by
  intro key
  rw [transferEvents_snoc_account, hs, h key]

theorem AccountProjector.project_transfers {event : DomainEvent} {accountId : String}
    (hid : event.data.accountId = some accountId) (s : ReadSide) :
    ((project event).eval ReadSide.perform s).2.transfers = s.transfers := by
  obtain ⟨details, heval⟩ := project_eval hid s
  rw [heval]
  split <;> simp

/-- What one event of the log, given to both projectors, does to the transfers. -/
theorem TransfersFrom.next {events : EventStore} (hl : WellFormedLog events) {r₀ s s' : ReadSide}
    {journal : List (String × DomainEvent)} (h : TransfersFrom r₀ journal s) (hkeyed : s.Keyed)
    {streamId : String} {event : DomainEvent} (hmem : event ∈ events.stream streamId)
    (heval : (projectBoth event).eval ReadSide.perform s = (.ok (), s')) :
    TransfersFrom r₀ (journal ++ [(streamId, event)]) s' := by
  rcases hl.named streamId (List.ne_nil_of_mem hmem) with ⟨accountId, rfl⟩ | ⟨transferId, rfl⟩
  · have hid := (hl.account accountId).2.accountId event hmem
    have htransfers := AccountProjector.project_transfers hid s
    rw [ProjectionRunnerService.projectBoth_account hid, Async.eval_bind] at heval
    refine h.account accountId event (htransfers ▸ ?_)
    cases hproject : (AccountProjector.project event).eval ReadSide.perform s with
    | mk outcome s'' =>
      rw [hproject] at heval
      cases outcome with
      | error e => cases heval
      | ok handled => cases heval; rfl
  · obtain ⟨hhistory, hne⟩ := hl.transfer transferId
    have hid := (hhistory.stream.stamped (hne (List.ne_nil_of_mem hmem)) event hmem).2
    rw [ProjectionRunnerService.projectBoth_transfer hid, Async.eval_bind] at heval
    cases hproject : (TransferProjector.project event).eval ReadSide.perform s with
    | mk outcome s'' =>
      rw [hproject] at heval
      cases outcome with
      | error e => cases heval
      | ok handled =>
        cases heval
        obtain rfl : handled = true := by
          rw [TransferProjector.project_eval hid] at hproject
          split at hproject
          · cases hproject
          · exact (Except.ok.inj (Prod.ext_iff.mp hproject).1).symm
        exact h.stored (TransferProjector.project_stored hid (fun _ => hkeyed.transfer) hproject).2.2

/-- What a second replay has made of `r`, the read models after `n` events, by its `k`-th event. -/
structure Again (journal : List (String × DomainEvent)) (r : ReadSide) (k : Nat) (s : ReadSide) : Prop where
  keyed : s.Keyed
  events : s.events = r.events
  summaries : s.summaries = r.summaries
  statements : s.statements = r.statements
  keys : s.transfers.entries.map Prod.fst = r.transfers.entries.map Prod.fst
  transfers : TransfersFrom r (journal.take k) s

section
variable {events : EventStore} (hl : WellFormedLog events) {journal : List (String × DomainEvent)}
  (hlog : journal.map Prod.snd = events.allEvents.map PositionedEvent.event)
  (hj : ∀ streamId, streamIn streamId journal = events.stream streamId)
include hl hlog hj

theorem fed_transfers {n : Nat} (hn : n ≤ events.allEvents.length) {r : ReadSide}
    (hr : Fed events (.empty events) n r) :
    Projected (journal.take n) r ∧ TransfersFrom (.empty events) (journal.take n) r := by
  obtain ⟨r', hr', hP⟩ := fed_of_steps hl.position hlog
    (P := fun k r => Projected (journal.take k) r ∧ TransfersFrom (.empty events) (journal.take k) r) hn
    ⟨.empty events, fun key => by cases key <;> rfl⟩ fun k p r hp _ h => by
      obtain ⟨streamId, event⟩ := p
      obtain ⟨r', heval, hprojected⟩ := h.1.next hl hj hp
      have htake : journal.take (k + 1) = journal.take k ++ [(streamId, event)] := by rw [List.take_add_one, hp]; rfl
      have hmem := List.mem_of_getElem? (stream_getElem? hj hp)
      exact ⟨r', heval, hprojected, htake ▸ h.2.next hl h.1.keyed hmem heval⟩
  obtain rfl : r = r' := (Prod.ext_iff.mp (hr.symm.trans hr')).2
  exact hP

omit hlog in
/-- **Step.** A second replay finds each event of an account old, and stores each of a transfer
where its summary stands. -/
theorem Again.next {n k : Nat} {r s : ReadSide} (hr : Projected (journal.take n) r) (h : Again journal r k s)
    (hk : k < n) {p : String × DomainEvent} (hp : journal[k]? = some p) :
    ∃ s', (projectBoth p.2).eval ReadSide.perform s = (.ok (), s') ∧
      Again journal r (k + 1) s' := by
  obtain ⟨streamId, event⟩ := p
  have htake : journal.take (k + 1) = journal.take k ++ [(streamId, event)] := by rw [List.take_add_one, hp]; rfl
  have hget := stream_getElem? hj hp
  have hmem := List.mem_of_getElem? hget
  have hcount : countIn streamId (journal.take k) + 1 ≤ countIn streamId (journal.take n) := by
    have hsub : (journal.take (k + 1)).Sublist (journal.take n) := List.take_sublist_take_left hk
    have hle := (hsub.filter (fun p => p.1 == streamId)).length_le
    have hsnoc := countIn_snoc streamId (journal.take k) (streamId, event)
    rw [if_pos rfl, ← htake] at hsnoc
    exact hsnoc ▸ hle
  rcases hl.named streamId (List.ne_nil_of_mem hmem) with ⟨accountId, rfl⟩ | ⟨transferId, rfl⟩
  · obtain ⟨hhistory, hshape⟩ := hl.account accountId
    have hid := hshape.accountId event hmem
    obtain ⟨summary, hsummary, hold⟩ : ∃ summary, r.summaries.get (some accountId) = some summary ∧
        event.streamVersion ≤ summary.version := by
      have hat := hr.account accountId
      obtain ⟨j, hj⟩ := Nat.exists_eq_add_of_le' (Nat.lt_of_lt_of_le (Nat.succ_pos _) hcount)
      rw [hj] at hat
      obtain ⟨summary, hsummary, hversion⟩ := hat
      exact ⟨summary, hsummary, by rw [hhistory.stream.streamVersion hget, hversion]; omega⟩
    have heval : (projectBoth event).eval ReadSide.perform s = (.ok (), s) := by
      rw [ProjectionRunnerService.projectBoth_account hid, Async.eval_bind,
        AccountProjector.project_old hid (h.summaries ▸ hsummary) hold]
      rfl
    exact ⟨s, heval, h.keyed, h.events, h.summaries, h.statements, h.keys,
      htake ▸ h.transfers.next hl h.keyed hmem heval⟩
  · obtain ⟨hhistory, hne⟩ := hl.transfer transferId
    have hid := (hhistory.stream.stamped (hne (List.ne_nil_of_mem hmem)) event hmem).2
    have hkey : some transferId ∈ s.transfers.entries.map Prod.fst :=
      h.keys ▸ OrderedMap.mem_keys_iff.mpr (hr.transfer transferId (by omega))
    obtain ⟨summary, hsummary⟩ := OrderedMap.mem_keys_iff.mp hkey
    have hproject := TransferProjector.project_eval hid s
    rw [hsummary, TransferProjector.advance_some] at hproject
    have heval : (projectBoth event).eval ReadSide.perform s =
        (.ok (), s.upsertTransferSummary (TransferProjector.after summary event)) := by
      rw [ProjectionRunnerService.projectBoth_transfer hid, Async.eval_bind, hproject]
      rfl
    obtain ⟨hsummaries, hstatements, -⟩ := TransferProjector.project_stored hid (fun _ => h.keyed.transfer) hproject
    refine ⟨_, heval, h.keyed.perform (.upsertTransferSummary _),
      (s.perform_events (.upsertTransferSummary _)).trans h.events, hsummaries.trans h.summaries,
      hstatements.trans h.statements, ?_, htake ▸ h.transfers.next hl h.keyed hmem heval⟩
    unfold ReadSide.upsertTransferSummary
    rw [TransferProjector.after_transferId hid (h.keyed.transfer hsummary)]
    split
    · exact h.keys
    · exact (OrderedMap.keys_set_of_mem hkey _).trans h.keys

section
variable (hordered : ∀ transferId,
  (events.stream (transferStream transferId)).Pairwise fun e e' => e.occurredAt ≤ e'.occurredAt)
include hordered

omit hlog in
/-- The transfers' events, a second time, leave every summary as it was. -/
theorem transfers_again {n : Nat} {r s : ReadSide} (hr : TransfersFrom (.empty events) (journal.take n) r)
    (hs : TransfersFrom r (journal.take n) s) (key : Option String) :
    s.transfers.get key = r.transfers.get key := by
  rw [hs key, hr key]
  cases key with
  | none => rfl
  | some transferId =>
    let es := streamIn (transferStream transferId) (journal.take n)
    show es.foldl TransferProjector.stored (es.foldl TransferProjector.stored none) =
      es.foldl TransferProjector.stored none
    have hpre : es <+: events.stream (transferStream transferId) := by
      refine ⟨streamIn (transferStream transferId) (journal.drop n), ?_⟩
      rw [← EventStore.streamIn_append, List.take_append_drop, hj]
    by_cases hnil : es = []
    · rw [hnil]
      rfl
    · obtain ⟨hhistory, hne⟩ := hl.transfer transferId
      have hne := hne fun h => hnil (List.prefix_nil.mp (h ▸ hpre))
      have hid : ∀ e ∈ es, e.data.transferId ≠ none := fun e he => by
        rw [(hhistory.stream.stamped hne e (hpre.subset he)).2]
        simp
      have hordered := (hordered transferId).sublist hpre.sublist
      obtain ⟨first, rest, hes, hterms, -⟩ := (hhistory.stream.anti hpre).opening hne hnil
      obtain ⟨summary, hstored, -⟩ := TransferProjector.stored_none hterms
      have hfirst : es.foldl TransferProjector.stored none = some (es.foldl TransferProjector.after summary) := by
        rw [hes] at hid hordered ⊢
        rw [List.foldl_cons, hstored, List.foldl_cons]
        refine TransferProjector.foldl_stored (fun e he => hid e (List.mem_cons_of_mem _ he))
          (List.pairwise_cons.mp hordered).2 fun e he => ?_
        rw [TransferProjector.after_updatedAt (hid first List.mem_cons_self)]
        exact (List.pairwise_cons.mp hordered).1 e he
      rw [hfirst]
      exact TransferProjector.foldl_stored_again hid hordered summary

/-- **Run.** The events behind the read models, given to the projectors again, leave them as they were. -/
theorem fed_again {n : Nat} (hn : n ≤ events.allEvents.length) {r : ReadSide} (hr : Fed events (.empty events) n r) :
    (∀ k ≤ n, ∃ s, Fed events r k s) ∧ Fed events r n r := by
  obtain ⟨hprojected, htransfers⟩ := fed_transfers hl hlog hj hn hr
  have hsteps : ∀ k ≤ n, ∃ s, Fed events r k s ∧ Again journal r k s := fun k hk =>
    fed_of_steps hl.position hlog (Nat.le_trans hk hn)
      ⟨hprojected.keyed, rfl, rfl, rfl, rfl, fun key => by cases key <;> rfl⟩
      fun i p s hp hi h => h.next hl hj hprojected (by omega) hp
  refine ⟨fun k hk => (hsteps k hk).imp fun _ h => h.1, ?_⟩
  obtain ⟨s, hs, hagain⟩ := hsteps n (Nat.le_refl n)
  have hmap := OrderedMap.ext_get hagain.keys (transfers_again hl hj hordered htransfers hagain.transfers)
  obtain rfl : s = r := by
    cases s
    cases r
    obtain ⟨-, rfl, rfl, rfl, -, -⟩ := hagain
    obtain rfl := hmap
    rfl
  exact hs

end

end

/-- **Replaying is idempotent.** From the read models after any part of the log, a replay from
position 0 ends where a replay of the whole log from empty ones does. -/
theorem replay_idempotent {events : EventStore} (hl : WellFormedLog events)
    (hordered : ∀ transferId,
      (events.stream (transferStream transferId)).Pairwise fun e e' => e.occurredAt ≤ e'.occurredAt)
    {n : Nat} (hn : n ≤ events.allEvents.length) {r : ReadSide} (hr : Fed events (.empty events) n r)
    {pages : Nat} (hpages : events.allEvents.length < pages) :
    ∃ r', (replayFrom pages 0).eval ReadSide.perform r = (.ok events.allEvents.length, r') ∧
      (replayFrom pages 0).eval ReadSide.perform (.empty events) = (.ok events.allEvents.length, r') := by
  obtain ⟨journal, hlog, hj⟩ := hl.journal
  obtain ⟨hbefore, hagain⟩ := fed_again hl hlog hj hordered hn hr
  -- the part of the log after `n` is taken in alike
  have hlater : ∀ {k s}, n ≤ k → (Fed events (.empty events) k s ↔ Fed events r k s) := by
    intro k s hk
    unfold Fed at *
    obtain ⟨j, rfl⟩ := Nat.exists_eq_add_of_le hk
    rw [List.take_add, projectEach_append, Async.eval_bind, Async.eval_bind, hr, hagain]
  have hevents : r.events = events := hr.same_events
  have hfed : ∀ k, k ≤ events.allEvents.length → ∃ s, Fed events r k s := by
    intro k hk
    by_cases hkn : k ≤ n
    · exact hbefore k hkn
    · exact (exists_fed hl hk).imp fun _ h => (hlater (by omega)).mp h
  have hstart : Fed events r 0 r := rfl
  obtain ⟨checkpoint, r', heval, hr', henough⟩ :=
    replayFrom_fed hl.position hevents hfed pages hstart (Nat.zero_le _)
  obtain ⟨checkpoint', r'', heval', hr'', henough'⟩ := hl.replay pages
  obtain rfl := henough (by omega)
  obtain rfl := henough' (by omega)
  have hsame := (hlater hn).mp hr''
  obtain rfl : r' = r'' := (Prod.ext_iff.mp (hr'.symm.trans hsame)).2
  exact ⟨r', heval, heval'⟩

end

/-- A log in the order of its times has every stream in that order. -/
theorem WellFormedLog.ordered {events : EventStore} (hl : WellFormedLog events)
    (h : (events.allEvents.map PositionedEvent.event).Pairwise fun e e' => e.occurredAt ≤ e'.occurredAt)
    (streamId : String) : (events.stream streamId).Pairwise fun e e' => e.occurredAt ≤ e'.occurredAt := by
  obtain ⟨journal, hlog, hj⟩ := hl.journal
  rw [← hj, streamIn]
  exact (hlog ▸ h).sublist (List.filter_sublist.map Prod.snd)

/-- After seven of ten events, a replay from the start takes in the other three. -/
theorem replay_idempotent_transfer :
    let events := (plainRun .none (fun _ => True) BankRequest.freezesKnown (fun _ _ => .answer)
      transferRequests).state.store.events
    events.allEvents.length = 10 ∧ ∃ r r', @Fed decimalRuntime events (.empty events) 7 r ∧
      (@replayFrom decimalRuntime 11 0).eval ReadSide.perform r = (.ok 10, r') ∧
      (@replayFrom decimalRuntime 11 0).eval ReadSide.perform (.empty events) = (.ok 10, r') := by
  intro events
  have hlength : events.allEvents.length = 10 := by decide +kernel
  have hl : WellFormedLog events := @reachable_wellFormedLog decimalRuntime plainDigest _ _ _ transferRun_reachable
  have hordered := hl.ordered (by decide +kernel)
  have h7 : 7 ≤ events.allEvents.length := by omega
  obtain ⟨r, hr⟩ := @exists_fed decimalRuntime events hl 7 h7
  obtain ⟨r', h⟩ := @replay_idempotent decimalRuntime events hl (fun _ => hordered _) 7 h7 r hr 11 (by omega)
  rw [hlength] at h
  exact ⟨hlength, r, r', hr, h⟩

end CoreBanking
