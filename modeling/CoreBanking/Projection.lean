import CoreBanking.ProjectorRules
import CoreBanking.CoordinatorRules
import CoreBanking.EventLog

/-!
# Projecting the log

The runner gives every event of the log to both projectors. What the write side
accepts is what the read side demands, except that an account which was never
created can be frozen; where that does not happen, the whole log projects.
-/

namespace CoreBanking

open ProjectionRunnerService (projectBoth projectEach replayFrom)

theorem projectEach_append [JsRuntime] (xs ys : List PositionedEvent) (checkpoint : Nat) :
    projectEach (xs ++ ys) checkpoint = projectEach xs checkpoint >>= projectEach ys := by
  induction xs generalizing checkpoint with
  | nil => rfl
  | cons x xs ih => simp only [List.cons_append, projectEach, ih, Async.bind_assoc]

/-! ## One event after the other -/

/-- The summary of an account after its first `k` events, with `none` before the first. -/
def ReadSide.SummaryAt (s : ReadSide) (accountId : String) : Nat → Prop
  | 0 => s.summaries.get (some accountId) = none
  | k + 1 => ∃ summary, s.summaries.get (some accountId) = some summary ∧ summary.version = k + 1

theorem ReadSide.SummaryAt.congr {s s' : ReadSide} {accountId : String} {k : Nat}
    (hget : s'.summaries.get (some accountId) = s.summaries.get (some accountId)) (h : s.SummaryAt accountId k) :
    s'.SummaryAt accountId k := by
  cases k with
  | zero => exact hget.trans h
  | succ k =>
    obtain ⟨summary, hs, hrest⟩ := h
    exact ⟨summary, hget.trans hs, hrest⟩

def countIn (streamId : String) (journal : List (String × DomainEvent)) : Nat :=
  (journal.filter (fun p => p.1 == streamId)).length

theorem countIn_snoc (streamId : String) (journal : List (String × DomainEvent)) (p : String × DomainEvent) :
    countIn streamId (journal ++ [p]) = countIn streamId journal + if p.1 = streamId then 1 else 0 := by
  unfold countIn
  by_cases h : p.1 = streamId <;> simp [h]

structure Projected (journal : List (String × DomainEvent)) (s : ReadSide) : Prop where
  keyed : s.Keyed
  account : ∀ accountId, s.SummaryAt accountId (countIn (accountStream accountId) journal)
  transfer : ∀ transferId, countIn (transferStream transferId) journal ≠ 0 →
    ∃ summary, s.transfers.get (some transferId) = some summary

theorem Projected.empty (events : EventStore) : Projected [] (.empty events) :=
  ⟨.empty events, fun _ => rfl, fun _ h => absurd rfl h⟩

section
variable [JsRuntime]

theorem Projected.account_event {journal : List (String × DomainEvent)} {s : ReadSide} (h : Projected journal s)
    {accountId : String} {event : DomainEvent} (hid : event.data.accountId = some accountId)
    (hversion : event.streamVersion = countIn (accountStream accountId) journal + 1)
    (hfirst : event.data.isAccountCreated = true ↔ countIn (accountStream accountId) journal = 0) :
    ∃ s', (AccountProjector.project event).eval ReadSide.perform s = (.ok true, s') ∧
      Projected (journal ++ [(accountStream accountId, event)]) s' := by
  obtain ⟨details, heval⟩ := AccountProjector.project_eval hid s
  have hat := h.account accountId
  have hnext : ∃ next, AccountProjector.advance event (s.summaries.get (some accountId)) = .ok (some next) ∧
      next.accountId = some accountId ∧ next.version = event.streamVersion ∧
      ∀ current, s.summaries.get (some accountId) = some current → current.version < event.streamVersion := by
    cases hk : countIn (accountStream accountId) journal with
    | zero =>
      rw [hk] at hat
      have hget : s.summaries.get (some accountId) = none := hat
      cases hd : event.data with
      | AccountCreated accountId' ownerId currency =>
        obtain rfl : accountId' = accountId := by rw [hd] at hid; exact Option.some.inj hid
        refine ⟨AccountProjector.firstSummary event accountId' ownerId currency, ?_, rfl, rfl, by simp [hget]⟩
        simp only [hget, AccountProjector.advance, hd]
        rw [if_neg (by omega)]
      | _ => rw [hd] at hfirst; exact absurd (hfirst.mpr hk) (by simp [EventData.isAccountCreated])
    | succ k =>
      rw [hk] at hat
      obtain ⟨summary, hget, hv⟩ := hat
      have hcreated : event.data.isAccountCreated = false := by
        rw [Bool.eq_false_iff]
        exact fun hc => absurd (hfirst.mp hc) (by omega)
      refine ⟨AccountProjector.nextSummary summary event, ?_, ?_, ?_, ?_⟩
      · simp only [hget, AccountProjector.advance]
        rw [if_neg (by omega), if_neg (by simp [hcreated]; omega)]
      · rw [AccountProjector.nextSummary_accountId, h.keyed.account hget]
      · rw [AccountProjector.nextSummary_version]
      · intro current hcurrent
        rw [hget] at hcurrent
        obtain rfl := Option.some.inj hcurrent
        omega
  obtain ⟨next, hadvance, hkey, hnextv, hnewer⟩ := hnext
  rw [hadvance] at heval
  have hkeyed := Async.eval_preserves (P := ReadSide.Keyed) (fun op _ hs => hs.perform op)
    (AccountProjector.project event) h.keyed
  rw [heval] at hkeyed
  refine ⟨_, heval, hkeyed, fun accountId' => ?_, fun transferId ht => ?_⟩
  · have hset := @ReadSide.upsertAccountSummary_newer s next
      (by rw [hkey, hnextv]; exact hnewer)
    rw [countIn_snoc]
    by_cases ha : accountId = accountId'
    · subst ha
      rw [if_pos rfl]
      exact ⟨next, by rw [ReadSide.appendAccountStatement_summaries, hset, hkey, OrderedMap.get_set_self],
        hnextv.trans hversion⟩
    · rw [if_neg (fun heq => ha (accountStream_inj.mp heq)), Nat.add_zero]
      have hsame : ((s.upsertAccountSummary next).appendAccountStatement
          (AccountProjector.statementEntry event details)).summaries.get (some accountId') =
          s.summaries.get (some accountId') := by
        rw [ReadSide.appendAccountStatement_summaries, hset, hkey,
          OrderedMap.get_set_of_ne _ _ (fun heq => ha (Option.some.inj heq))]
      exact ReadSide.SummaryAt.congr hsame (h.account accountId')
  · rw [countIn_snoc, if_neg (accountStream_ne_transferStream _ _), Nat.add_zero] at ht
    obtain ⟨summary, hget⟩ := h.transfer transferId ht
    exact ⟨summary, by simpa using hget⟩

theorem Projected.transfer_event {journal : List (String × DomainEvent)} {s : ReadSide} (h : Projected journal s)
    {transferId : String} {event : DomainEvent} (hid : event.data.transferId = some transferId)
    (hfirst : countIn (transferStream transferId) journal = 0 → event.data.terms ≠ none) :
    ∃ s', (TransferProjector.project event).eval ReadSide.perform s = (.ok true, s') ∧
      Projected (journal ++ [(transferStream transferId, event)]) s' := by
  have hnext : ∃ next, TransferProjector.advance event (s.transfers.get (some transferId)) = .ok next ∧
      next.transferId = some transferId := by
    by_cases hterms : event.data.terms = none
    · obtain ⟨summary, hget⟩ := h.transfer transferId fun hk => hfirst hk hterms
      refine ⟨TransferProjector.nextSummary summary event, ?_, ?_⟩
      · rw [hget]
        cases hd : event.data with
        | TransferInitiated => rw [hd] at hterms; cases hterms
        | _ => simp only [TransferProjector.advance, hd]
      · rw [TransferProjector.nextSummary_transferId, h.keyed.transfer hget]
    · cases hd : event.data with
      | TransferInitiated t src dst amount currency =>
        obtain rfl : t = transferId := by rw [hd] at hid; exact Option.some.inj hid
        exact ⟨TransferProjector.firstSummary event t src dst amount currency,
          by simp only [TransferProjector.advance, hd], rfl⟩
      | _ => rw [hd] at hterms; exact absurd rfl hterms
  obtain ⟨next, hadvance, hkey⟩ := hnext
  have heval := TransferProjector.project_eval hid s
  rw [hadvance] at heval
  have hkeyed := Async.eval_preserves (P := ReadSide.Keyed) (fun op _ hs => hs.perform op)
    (TransferProjector.project event) h.keyed
  rw [heval] at hkeyed
  refine ⟨_, heval, hkeyed, fun accountId => ?_, fun transferId' ht => ?_⟩
  · rw [countIn_snoc, if_neg (fun heq => accountStream_ne_transferStream _ _ heq.symm), Nat.add_zero]
    exact ReadSide.SummaryAt.congr (by rw [ReadSide.upsertTransferSummary_summaries]) (h.account accountId)
  · rw [ReadSide.upsertTransferSummary_get, hkey]
    by_cases heq : transferId = transferId'
    · exact .inl (heq ▸ rfl)
    · rw [countIn_snoc, if_neg (fun hs => heq (transferStream_inj.mp hs)), Nat.add_zero] at ht
      exact .inr (h.transfer transferId' ht)

/-! ## The whole log -/

/-- A log of account streams that start with a creation, and of transfer streams. -/
structure WellFormedLog (events : EventStore) : Prop where
  position : Numbered PositionedEvent.position events.allEvents
  journal : ∃ journal : List (String × DomainEvent),
    journal.map Prod.snd = events.allEvents.map PositionedEvent.event ∧
    ∀ streamId, streamIn streamId journal = events.stream streamId
  named : ∀ streamId, events.stream streamId ≠ [] →
    (∃ accountId, streamId = accountStream accountId) ∨ ∃ transferId, streamId = transferStream transferId
  account : ∀ accountId, AccountHistory accountId (events.stream (accountStream accountId)) ∧
    AccountShape accountId (events.stream (accountStream accountId))
  transfer : ∀ transferId, TransferHistory transferId (events.stream (transferStream transferId)) ∧
    (events.stream (transferStream transferId) ≠ [] → transferId ≠ "")

/-- `r` is what the projectors make of `r₀` with the first `n` events. -/
def Fed (events : EventStore) (r₀ : ReadSide) (n : Nat) (r : ReadSide) : Prop :=
  (projectEach (events.allEvents.take n) 0).eval ReadSide.perform r₀ = (.ok n, r)

section
variable {events : EventStore}

theorem Fed.same_events {r₀ r : ReadSide} {n : Nat} (h : Fed events r₀ n r) : r.events = r₀.events := by
  have hevents := Async.eval_preserves (P := fun r : ReadSide => r.events = r₀.events)
    (fun op r hr => (r.perform_events op).trans hr) (projectEach (events.allEvents.take n) 0) (s := r₀) rfl
  rwa [h] at hevents

theorem Fed.next (hposition : Numbered PositionedEvent.position events.allEvents) {r₀ r r' : ReadSide} {n : Nat}
    (h : Fed events r₀ n r) {x : PositionedEvent} (hx : events.allEvents[n]? = some x)
    (heval : (projectBoth x.event).eval ReadSide.perform r = (.ok (), r')) :
    Fed events r₀ (n + 1) r' := by
  have hone : projectEach [x] n = projectBoth x.event >>= fun _ => pure (n + 1) := by
    simp only [projectEach, hposition n _ hx]
  unfold Fed at *
  rw [List.take_add_one, hx, Option.toList_some, projectEach_append, Async.eval_bind, h]
  dsimp only
  rw [hone, Async.eval_bind, heval]
  rfl

/-- What holds at the start and is kept by each of the first `n` events holds after them. -/
theorem fed_of_steps (hposition : Numbered PositionedEvent.position events.allEvents)
    {journal : List (String × DomainEvent)} (hlog : journal.map Prod.snd = events.allEvents.map PositionedEvent.event)
    {P : Nat → ReadSide → Prop} {r₀ : ReadSide} {n : Nat} (hn : n ≤ events.allEvents.length) (hstart : P 0 r₀)
    (hstep : ∀ k p r, journal[k]? = some p → k < n → P k r →
      ∃ r', (projectBoth p.2).eval ReadSide.perform r = (.ok (), r') ∧ P (k + 1) r') :
    ∃ r, Fed events r₀ n r ∧ P n r := by
  induction n with
  | zero => exact ⟨r₀, rfl, hstart⟩
  | succ n ih =>
    obtain ⟨r, hr, hP⟩ := ih (by omega) fun k p r hp hk => hstep k p r hp (by omega)
    have hx : events.allEvents[n]? = some events.allEvents[n] := List.getElem?_eq_getElem (by omega)
    have hlog := congrArg (fun l => l[n]?) hlog
    simp only [List.getElem?_map, hx, Option.map_some] at hlog
    obtain ⟨p, hp, hpe⟩ := Option.map_eq_some_iff.mp hlog
    obtain ⟨r', heval, hP'⟩ := hstep n p r hp (by omega) hP
    rw [hpe] at heval
    exact ⟨r', hr.next hposition hx heval, hP'⟩

section
variable (hposition : Numbered PositionedEvent.position events.allEvents) {r₀ : ReadSide}
  (hevents : r₀.events = events) (hfed : ∀ n, n ≤ events.allEvents.length → ∃ r, Fed events r₀ n r)
include hposition hevents hfed

/-- The pages of a replay add up to the log. -/
theorem replayFrom_fed (pages : Nat) {n : Nat} {r : ReadSide} (hr : Fed events r₀ n r)
    (hn : n ≤ events.allEvents.length) :
    ∃ checkpoint r', (replayFrom pages n).eval ReadSide.perform r = (.ok checkpoint, r') ∧
      Fed events r₀ checkpoint r' ∧
      (events.allEvents.length - n < pages → checkpoint = events.allEvents.length) := by
  induction pages generalizing n r with
  | zero => exact ⟨n, r, rfl, hr, by simp⟩
  | succ pages ih =>
    have hread : r.events.readAll n 1000 = (events.allEvents.drop n).take 1000 := by
      rw [hr.same_events, hevents, EventStore.readAll_eq hposition]
    rw [replayFrom, Async.eval_bind]
    show ∃ checkpoint r', (if (r.events.readAll n 1000).length = 0 then pure n else
      projectEach (r.events.readAll n 1000) n >>= replayFrom pages : Projection Nat).eval
      ReadSide.perform r = (.ok checkpoint, r') ∧ _
    rw [hread]
    -- the page ends with the log or holds a thousand events
    obtain ⟨m, hm, hlen, hzero⟩ : ∃ m, (events.allEvents.drop n).take 1000 = (events.allEvents.drop n).take m ∧
        n + m ≤ events.allEvents.length ∧ (m = 0 → n = events.allEvents.length) := by
      refine ⟨min 1000 (events.allEvents.length - n), ?_, by omega, by omega⟩
      rw [List.take_eq_take_iff, List.length_drop]
      omega
    rw [hm, List.length_take, List.length_drop]
    by_cases h0 : m = 0
    · subst h0
      exact ⟨n, r, by simp; rfl, hr, fun _ => hzero rfl⟩
    · obtain ⟨r', hr'⟩ := hfed (n + m) hlen
      have hpage : (projectEach ((events.allEvents.drop n).take m) n).eval ReadSide.perform r = (.ok (n + m), r') := by
        have h := hr'
        unfold Fed at h hr
        rwa [List.take_add, projectEach_append, Async.eval_bind, hr] at h
      rw [if_neg (by omega), Async.eval_bind, hpage]
      obtain ⟨checkpoint, r'', heval, hr'', henough⟩ := ih hr' hlen
      exact ⟨checkpoint, r'', heval, hr'', fun h => henough (by omega)⟩

end

omit [JsRuntime] in
theorem stream_getElem? {journal : List (String × DomainEvent)}
    (hj : ∀ streamId, streamIn streamId journal = events.stream streamId) {n : Nat} {streamId : String}
    {event : DomainEvent} (hp : journal[n]? = some (streamId, event)) :
    (events.stream streamId)[countIn streamId (journal.take n)]? = some event := by
  rw [← hj, streamIn, List.getElem?_map, countIn, getElem?_filter_take hp (by simp)]
  rfl

section
variable (hl : WellFormedLog events)
include hl

/-- **Step.** The read side that has taken in `n` events of the log takes in the next. -/
theorem Projected.next {journal : List (String × DomainEvent)}
    (hj : ∀ streamId, streamIn streamId journal = events.stream streamId) {n : Nat}
    {p : String × DomainEvent} (hp : journal[n]? = some p) {r : ReadSide} (h : Projected (journal.take n) r) :
    ∃ r', (projectBoth p.2).eval ReadSide.perform r = (.ok (), r') ∧
      Projected (journal.take (n + 1)) r' := by
  obtain ⟨streamId, event⟩ := p
  have htake : journal.take (n + 1) = journal.take n ++ [(streamId, event)] := by
    rw [List.take_add_one, hp]; rfl
  have hget := stream_getElem? hj hp
  have hmem : event ∈ events.stream streamId := List.mem_of_getElem? hget
  rcases hl.named streamId (List.ne_nil_of_mem hmem) with ⟨accountId, rfl⟩ | ⟨transferId, rfl⟩
  · obtain ⟨hhistory, hshape⟩ := hl.account accountId
    have hid := hshape.accountId event hmem
    obtain ⟨r', heval, hr'⟩ := h.account_event hid (hhistory.stream.streamVersion hget)
      ⟨fun hc => hshape.once _ _ hget hc, fun hk => hshape.first event (by
        rw [hk] at hget
        rw [List.head?_eq_getElem?, hget]
        rfl)⟩
    refine ⟨r', ?_, htake ▸ hr'⟩
    rw [ProjectionRunnerService.projectBoth_account hid, Async.eval_bind, heval]
    rfl
  · obtain ⟨hhistory, hne⟩ := hl.transfer transferId
    have hne := hne (List.ne_nil_of_mem hmem)
    have hid := (hhistory.stream.stamped hne event hmem).2
    obtain ⟨r', heval, hr'⟩ := h.transfer_event hid fun hk hterms => by
      obtain ⟨terms, ht, _⟩ := hhistory.stream.terms hne (List.ne_nil_of_mem hmem)
      rw [hk] at hget
      rw [termsOf, List.head?_eq_getElem?, hget] at ht
      rw [Option.bind_some, hterms] at ht
      cases ht
    refine ⟨r', ?_, htake ▸ hr'⟩
    rw [ProjectionRunnerService.projectBoth_transfer hid, Async.eval_bind, heval]
    rfl

/-- **Run.** The log up to any position projects without an error. -/
theorem exists_fed {n : Nat} (hn : n ≤ events.allEvents.length) : ∃ r, Fed events (.empty events) n r := by
  obtain ⟨journal, hlog, hj⟩ := hl.journal
  obtain ⟨r, hr, -⟩ := fed_of_steps hl.position hlog (P := fun k => Projected (journal.take k)) hn (.empty events)
    fun k p r hp _ h => h.next hl hj hp
  exact ⟨r, hr⟩

theorem WellFormedLog.replay (pages : Nat) :
    ∃ checkpoint r, (replayFrom pages 0).eval ReadSide.perform (.empty events) = (.ok checkpoint, r) ∧
      Fed events (.empty events) checkpoint r ∧
      (events.allEvents.length < pages → checkpoint = events.allEvents.length) :=
  have hstart : Fed events (.empty events) 0 (.empty events) := rfl
  replayFrom_fed hl.position (show (ReadSide.empty events).events = events from rfl)
    (fun _ => exists_fed hl) pages hstart (Nat.zero_le _)

end

end

end

/-! ## What the write side accepts -/

theorem Ledger.wellFormedLog {s : Store} (h : Ledger s) (hopened : s.Opened)
    (hnamed : ∀ transferId, s.stream (transferStream transferId) ≠ [] → transferId ≠ "") :
    WellFormedLog s.events where
  position := h.position
  journal := h.journal.imp fun _ hj => ⟨hj.log, hj.streams⟩
  named := h.named
  account accountId := ⟨h.account accountId, hopened.shape h accountId⟩
  transfer transferId := ⟨h.transfer transferId, hnamed transferId⟩

/-- A freeze is committed on an account with a history only. -/
def BankRequest.freezesKnown : BankRequest → StoreOp → Store → Prop
  | .freeze _ accountId _, op, s => FreezesKnown accountId op s
  | _, _, _ => True

theorem reachable_wellFormedLog [JsRuntime] [RequestDigest] {F : FaultModel} {admits : BankRequest → Prop}
    {c : BankConfig} (hc : (bank F admits BankRequest.freezesKnown).system.Reachable c) :
    WellFormedLog c.state.store.events := by
  have hp : Promises ⟨False, False, False, True⟩ F admits BankRequest.freezesKnown :=
    ⟨False.elim, False.elim, False.elim, False.elim, False.elim, False.elim, fun _ => id⟩
  obtain ⟨gs, hinv⟩ := bank_invariant hp hc
  exact hinv.books.ledger.wellFormedLog (hinv.books.opened trivial) fun t h => (hinv.books.named h).1

/-- Two transfers, as `transferRequests` asks for them, one call after the other. -/
theorem transferRun_reachable : (plainBank .none (fun _ => True) BankRequest.freezesKnown).system.Reachable
    (plainRun .none (fun _ => True) BankRequest.freezesKnown (fun _ _ => .answer) transferRequests) := by
  refine plainRun_reachable transferRequests_wellFormed (fun _ _ => trivial) fun q hq =>
    Service.permits_answer fun op s => ?_
  simp only [transferRequests, openings, List.cons_append, List.nil_append, List.mem_cons, List.not_mem_nil,
    or_false] at hq
  rcases hq with rfl | rfl | rfl | rfl | rfl | rfl <;> trivial

end CoreBanking
