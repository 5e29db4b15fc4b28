import CoreBanking.Repair

/-!
# Projections that are interrupted

Any call of a read model may be rejected, before it has taken effect or after;
the event is then delivered once more, until it succeeds. The summary and the
entry are two calls, and a redelivery looks at the version of the summary alone:
what is left out between the two is never made up for.
-/

namespace CoreBanking

/-! ## Attempts -/

/-- What has become of a call: it was answered, or rejected before or after it took effect. -/
inductive Fate where
  | performed
  | before
  | after
  deriving DecidableEq, Repr

structure FaultyState where
  side : ReadSide
  calls : List (ReadOp × Fate)

/-- A call of a read model. Transfers are projected at the same time, so they may answer anything. -/
inductive FaultyStep : (op : ReadOp) → FaultyState → Except Failure op.Result → FaultyState → Prop
  | performed {op s} : FaultyStep op s (ReadSide.perform op s.side).1
      ⟨(ReadSide.perform op s.side).2, s.calls ++ [(op, .performed)]⟩
  | before {op s} (message : String) : FaultyStep op s (.error (.store message)) ⟨s.side, s.calls ++ [(op, .before)]⟩
  | after {op s} (message : String) : FaultyStep op s (.error (.store message))
      ⟨(ReadSide.perform op s.side).2, s.calls ++ [(op, .after)]⟩
  | transfer {transferId s} (summary : Option TransferSummaryReadModel) :
      FaultyStep (.getTransferSummary transferId) s (.ok summary)
        ⟨s.side, s.calls ++ [(.getTransferSummary transferId, .performed)]⟩

/-- Deliveries of one event, until one succeeds. -/
inductive Attempts [JsRuntime] (event : DomainEvent) : FaultyState → FaultyState → Prop
  | succeeded {s s' handled} : (AccountProjector.project event).Runs FaultyStep s (.ok handled) s' →
      Attempts event s s'
  | rejected {s s₁ s' e} : (AccountProjector.project event).Runs FaultyStep s (.error e) s₁ →
      Attempts event s₁ s' → Attempts event s s'

inductive DeliveredInOrder [JsRuntime] (es : List DomainEvent) : Nat → FaultyState → Prop
  | start : DeliveredInOrder es 0 ⟨.empty .empty, []⟩
  | next {k s event s'} : DeliveredInOrder es k s → es[k]? = some event → Attempts event s s' →
      DeliveredInOrder es (k + 1) s'

/-- The summary has version `k`, and each version up to it has one entry. -/
structure Completed (accountId : String) (k : Nat) (s : ReadSide) : Prop where
  summary : s.version accountId = k
  statement : (s.statement (some accountId)).map (·.streamVersion) = List.range' 1 k

/-- The summary was stored and the call rejected, or the entry was not appended. -/
def Harmful : ReadOp × Fate → Prop
  | (.upsertAccountSummary _, .after) => True
  | (.appendAccountStatement _, .before) => True
  | _ => False

def FaultyState.Spared (s : FaultyState) : Prop := ∀ call ∈ s.calls, ¬ Harmful call

theorem FaultyState.spared_snoc (s : FaultyState) {side : ReadSide} {call : ReadOp × Fate} :
    (⟨side, s.calls ++ [call]⟩ : FaultyState).Spared ↔ s.Spared ∧ ¬ Harmful call := by
  simp [FaultyState.Spared, or_imp, forall_and]

theorem FaultyState.spared_harmless (s : FaultyState) {side : ReadSide} {call : ReadOp × Fate} (h : ¬ Harmful call) :
    (⟨side, s.calls ++ [call]⟩ : FaultyState).Spared ↔ s.Spared :=
  s.spared_snoc.trans (and_iff_left h)

theorem FaultyState.not_spared (s : FaultyState) {side : ReadSide} {call : ReadOp × Fate} (h : Harmful call) :
    ¬ (⟨side, s.calls ++ [call]⟩ : FaultyState).Spared := fun hall =>
  (s.spared_snoc.mp hall).2 h

/-! ## What one attempt leaves -/

section
variable [JsRuntime] {accountId : String} {es : List DomainEvent} {k : Nat} {event : DomainEvent} {s s' : FaultyState}

/-- The first `k` events have been taken in; entries are there for those of `kept`. -/
structure Interrupted (accountId : String) (es : List DomainEvent) (k : Nat) (s : FaultyState) : Prop where
  summary : s.side.summaries.get (some accountId) = AccountProjector.projection (es.take k)
  entries : ∃ kept : List DomainEvent, kept.Sublist (es.take k) ∧
    (s.side.statement (some accountId)).map (·.eventId) = kept.map (·.eventId) ∧
    (s.side.statement (some accountId)).map (·.streamVersion) = kept.map (·.streamVersion) ∧
    (kept = es.take k ↔ s.Spared)

theorem Interrupted.start : Interrupted accountId es 0 ⟨.empty .empty, []⟩ :=
  ⟨rfl, [], List.nil_sublist _, rfl, rfl, by simp [FaultyState.Spared]⟩

theorem Interrupted.congr (h : Interrupted accountId es k s) (hside : s'.side = s.side)
    (hspared : s'.Spared ↔ s.Spared) :
    Interrupted accountId es k s' := by
  obtain ⟨hsummary, hentries⟩ := h
  rw [← hside] at hsummary hentries
  rw [← hspared] at hentries
  exact ⟨hsummary, hentries⟩

omit [JsRuntime] in
theorem post_read {op : ReadOp} (hop : ∀ side, (ReadSide.perform op side).2 = side)
    (hharmless : ∀ fate, ¬ Harmful (op, fate)) : (ReadOp.call op).Post FaultyStep s fun r s' =>
      s'.side = s.side ∧ (s'.Spared ↔ s.Spared) ∧
      (r = (ReadSide.perform op s.side).1 ∨ (∃ e, r = .error e) ∨
        ∃ transferId, op = .getTransferSummary transferId) := by
  refine Async.post_call fun r s' hstep => ?_
  have hspared : ∀ side fate, (⟨side, s.calls ++ [(op, fate)]⟩ : FaultyState).Spared ↔ s.Spared := fun side fate =>
    s.spared_harmless (hharmless fate)
  cases hstep with
  | performed => exact ⟨hop _, hspared _ _, .inl rfl⟩
  | before message => exact ⟨rfl, hspared _ _, .inr (.inl ⟨_, rfl⟩)⟩
  | after message => exact ⟨hop _, hspared _ _, .inr (.inl ⟨_, rfl⟩)⟩
  | transfer summary => exact ⟨rfl, hspared _ _, .inr (.inr ⟨_, rfl⟩)⟩

omit [JsRuntime] in
theorem post_statementDetails (event : DomainEvent) (s : FaultyState) :
    (AccountProjector.statementDetails event).Post FaultyStep s
      fun _ s' => s'.side = s.side ∧ (s'.Spared ↔ s.Spared) := by
  have hget : ∀ accountId, (AccountProjector.getTransferStatementDetails event accountId).Post FaultyStep s fun _ s' =>
      s'.side = s.side ∧ (s'.Spared ↔ s.Spared) := by
    intro accountId
    unfold AccountProjector.getTransferStatementDetails
    dsimp only
    split
    · exact Async.post_pure ⟨rfl, Iff.rfl⟩
    · refine Async.post_bind (Async.post_mono (fun r s' h => ?_) (post_read (fun _ => rfl) fun _ => id))
      cases r with
      | error e => exact ⟨h.1, h.2.1⟩
      | ok transfer => cases transfer <;> exact Async.post_pure ⟨h.1, h.2.1⟩
  unfold AccountProjector.statementDetails
  split
  · exact hget _
  · exact hget _
  · exact Async.post_pure ⟨rfl, Iff.rfl⟩

section
variable (hopened : AccountOpened accountId es) (hids : (es.map DomainEvent.eventId).Nodup)
  (hk : es[k]? = some event)
include hopened hk

omit [JsRuntime] hopened in
theorem take_succ : es.take (k + 1) = es.take k ++ [event] := by
  rw [List.take_add_one, hk]
  rfl

theorem Interrupted.skipped (h : Interrupted accountId es k s) {next : AccountSummaryReadModel}
    (hnext : AccountProjector.advance event (AccountProjector.projection (es.take k)) = .ok (some next))
    (hside : s'.side = s.side.upsertAccountSummary next) (hharmed : ¬ s'.Spared) :
    Interrupted accountId es (k + 1) s' := by
  have htake := take_succ hk
  obtain ⟨hset, hlast⟩ := AccountProjector.upsert_next (htake ▸ hopened.anti (List.take_prefix ..)) h.summary hnext
  obtain ⟨kept, hsub, hentryIds, hversions, -⟩ := h.entries
  have hstatement : s'.side.statement (some accountId) = s.side.statement (some accountId) := by
    rw [hside, ReadSide.statement, ReadSide.upsertAccountSummary_statements]
    rfl
  refine ⟨?_, kept, ?_, hstatement ▸ hentryIds, hstatement ▸ hversions, iff_of_false (fun hall => ?_) hharmed⟩
  · rw [hside, hset, OrderedMap.get_set_self, htake, hlast]
  · rw [htake]
    exact hsub.trans (List.sublist_append_left _ _)
  · have hlength := hsub.length_le
    rw [hall, htake, List.length_append, List.length_singleton] at hlength
    exact Nat.not_succ_le_self _ hlength

include hids in
theorem Interrupted.appended (h : Interrupted accountId es k s) {next : AccountSummaryReadModel}
    (hnext : AccountProjector.advance event (AccountProjector.projection (es.take k)) = .ok (some next))
    (details : Option AccountProjector.TransferStatementDetails)
    (hside : s'.side = (s.side.upsertAccountSummary next).appendAccountStatement
      (AccountProjector.statementEntry event details)) (hspared : s'.Spared ↔ s.Spared) :
    Interrupted accountId es (k + 1) s' := by
  have htake := take_succ hk
  have hpre := htake ▸ hopened.anti (List.take_prefix (k + 1) es)
  have hid := hpre.shape.accountId event (by simp)
  obtain ⟨hset, hlast⟩ := AccountProjector.upsert_next hpre h.summary hnext
  obtain ⟨kept, hsub, hentryIds, hversions, hkept⟩ := h.entries
  have hstatement : (s.side.upsertAccountSummary next).statement (some accountId) =
      s.side.statement (some accountId) := by
    rw [ReadSide.statement, ReadSide.upsertAccountSummary_statements]
    rfl
  have hsub' : (kept ++ [event]).Sublist (es.take k ++ [event]) := hsub.append (List.Sublist.refl _)
  have hfresh : ∀ item ∈ s.side.statement (some accountId), item.eventId ≠ event.eventId := by
    intro item hitem heq
    have hmem : item.eventId ∈ kept.map DomainEvent.eventId := hentryIds ▸ List.mem_map_of_mem hitem
    have hnodup := hids.sublist (((htake ▸ hsub').trans (List.take_sublist _ _)).map DomainEvent.eventId)
    rw [List.map_append, List.nodup_append] at hnodup
    exact hnodup.2.2 _ hmem event.eventId (by simp) heq
  have hsorted : ((s.side.statement (some accountId)).map (·.streamVersion) ++ [event.streamVersion]).Pairwise
      (· ≤ ·) := by
    have hall : ((es.take k ++ [event]).map DomainEvent.streamVersion).Pairwise (· ≤ ·) := by
      rw [Numbered.iff_map_eq.mp hpre.stream.numbered]
      exact List.pairwise_le_range'
    have hle := hall.sublist (hsub'.map DomainEvent.streamVersion)
    rwa [List.map_append, ← hversions] at hle
  have happended := ReadSide.statement_append_last hid details (hstatement ▸ hfresh) (hstatement ▸ hsorted)
  rw [hstatement, ← hside] at happended
  refine ⟨?_, kept ++ [event], htake ▸ hsub', ?_, ?_, ?_⟩
  · rw [hside, ReadSide.appendAccountStatement_summaries, hset, OrderedMap.get_set_self, htake, hlast]
  · rw [happended, List.map_append, List.map_append, hentryIds]
    simp
  · rw [happended, List.map_append, List.map_append, hversions]
    simp
  · rw [htake, List.append_left_inj, hkept, hspared]

include hids in
/-- **Step.** One delivery of the next event. -/
theorem attempt_next (h : Interrupted accountId es k s) :
    (AccountProjector.project event).Post FaultyStep s fun r s' =>
      Interrupted accountId es (k + 1) s' ∨ (Interrupted accountId es k s' ∧ ∃ e, r = .error e) := by
  have hpre := take_succ hk ▸ hopened.anti (List.take_prefix (k + 1) es)
  have hid := hpre.shape.accountId event (by simp)
  obtain ⟨next, hnext, -⟩ := AccountProjector.advance_next hpre
    (AccountProjector.projection_shows (hpre.anti (List.prefix_append _ _)))
  rw [AccountProjector.project_eq hid, AccountProjector.shape]
  refine Async.post_bind (Async.post_mono (fun r s₁ hread => ?_) (post_read (fun _ => rfl) fun _ => id))
  obtain ⟨hside₁, hspared₁, hr⟩ := hread
  have h₁ := h.congr hside₁ hspared₁
  cases r with
  | error e => exact .inr ⟨h₁, e, rfl⟩
  | ok existing =>
    have hexisting : existing = AccountProjector.projection (es.take k) := by
      rcases hr with hr | ⟨_, hr⟩ | ⟨_, hr⟩
      · exact (Except.ok.inj hr).trans h.summary
      · cases hr
      · cases hr
    subst hexisting
    dsimp only
    rw [hnext]
    dsimp only
    refine Async.post_bind (Async.post_mono (fun r s₂ hdetails => ?_) (post_statementDetails event s₁))
    have h₂ := h₁.congr hdetails.1 hdetails.2
    cases r with
    | error e => exact .inr ⟨h₂, e, rfl⟩
    | ok details =>
      refine Async.post_bind (Async.post_call fun r s₃ hstep => ?_)
      cases hstep with
      | before message => exact .inr ⟨h₂.congr rfl (s₂.spared_harmless (by simp [Harmful])), _, rfl⟩
      | after message => exact .inl (h₂.skipped hopened hk hnext rfl (s₂.not_spared trivial))
      | performed =>
        let s₃ : FaultyState := ⟨s₂.side.upsertAccountSummary next,
          s₂.calls ++ [(.upsertAccountSummary next, .performed)]⟩
        have hspared₃ : s₃.Spared ↔ s₂.Spared := s₂.spared_harmless (by simp [Harmful])
        refine Async.post_bind (Async.post_call fun r s₄ hstep => ?_)
        cases hstep with
        | before message => exact .inl (h₂.skipped hopened hk hnext rfl (s₃.not_spared trivial))
        | after message =>
          exact .inl (h₂.appended hopened hids hk hnext details rfl
            ((s₃.spared_harmless (by simp [Harmful])).trans hspared₃))
        | performed =>
          exact Async.post_pure (.inl (h₂.appended hopened hids hk hnext details rfl
            ((s₃.spared_harmless (by simp [Harmful])).trans hspared₃)))

/-- A delivery of an event that the summary has taken in changes nothing. -/
theorem attempt_again (h : Interrupted accountId es (k + 1) s) :
    (AccountProjector.project event).Post FaultyStep s fun _ s' => Interrupted accountId es (k + 1) s' := by
  have hpre := take_succ hk ▸ hopened.anti (List.take_prefix (k + 1) es)
  have hid := hpre.shape.accountId event (by simp)
  obtain ⟨summary, hsummary, -, hversion, -⟩ := AccountProjector.projection_shows hpre (by simp)
  have hold : event.streamVersion ≤ summary.version := by
    rw [hversion, hopened.stream.streamVersion hk, List.length_append, List.length_take, List.length_singleton]
    have hlt := (List.getElem?_eq_some_iff.mp hk).1
    omega
  rw [AccountProjector.project_eq hid, AccountProjector.shape]
  refine Async.post_bind (Async.post_mono (fun r s₁ hread => ?_) (post_read (fun _ => rfl) fun _ => id))
  obtain ⟨hside₁, hspared₁, hr⟩ := hread
  have h₁ := h.congr hside₁ hspared₁
  cases r with
  | error e => exact h₁
  | ok existing =>
    have hexisting : existing = some summary := by
      rcases hr with hr | ⟨_, hr⟩ | ⟨_, hr⟩
      · exact (Except.ok.inj hr).trans (h.summary.trans (take_succ hk ▸ hsummary))
      · cases hr
      · cases hr
    subst hexisting
    dsimp only
    rw [AccountProjector.advance, if_pos hold]
    exact Async.post_pure h₁

include hids in
theorem Attempts.interrupted (h : Attempts event s s')
    (hs : Interrupted accountId es k s ∨ Interrupted accountId es (k + 1) s) : Interrupted accountId es (k + 1) s' := by
  induction h with
  | succeeded hrun =>
    rcases hs with hs | hs
    · rcases attempt_next hopened hids hk hs _ _ hrun with h | ⟨-, e, he⟩
      · exact h
      · cases he
    · exact attempt_again hopened hk hs _ _ hrun
  | rejected hrun _ ih =>
    rcases hs with hs | hs
    · rcases attempt_next hopened hids hk hs _ _ hrun with h | ⟨h, -⟩
      · exact ih (.inr h)
      · exact ih (.inl h)
    · exact ih (.inr (attempt_again hopened hk hs _ _ hrun))

end

/-- **Run.** -/
theorem DeliveredInOrder.interrupted (hopened : AccountOpened accountId es) (hids : (es.map DomainEvent.eventId).Nodup)
    (h : DeliveredInOrder es k s) : k ≤ es.length ∧ Interrupted accountId es k s := by
  induction h with
  | start => exact ⟨Nat.zero_le _, .start⟩
  | next _ hk hattempts ih =>
    exact ⟨(List.getElem?_eq_some_iff.mp hk).1, hattempts.interrupted hopened hids hk (.inl ih.2)⟩

/-- **Redelivery.** What a projection that was interrupted leaves behind is complete exactly
where no call has stored a summary, or left out an entry, and was rejected. -/
theorem completed_iff (hopened : AccountOpened accountId es) (hids : (es.map DomainEvent.eventId).Nodup)
    (h : DeliveredInOrder es k s) : Completed accountId k s.side ↔ s.Spared := by
  obtain ⟨hle, hsummary, kept, hsub, -, hversions, hkept⟩ := h.interrupted hopened hids
  have hnumbered := Numbered.iff_map_eq.mp (hopened.stream.numbered.of_isPrefix (List.take_prefix k es))
  rw [List.length_take, Nat.min_eq_left hle] at hnumbered
  rw [← hkept]
  constructor
  · intro hcompleted
    refine hsub.eq_of_length ?_
    have hlength := congrArg List.length (hversions.symm.trans hcompleted.statement)
    rw [List.length_map, List.length_range'] at hlength
    rw [hlength, List.length_take, Nat.min_eq_left hle]
  · rintro rfl
    refine ⟨?_, hversions.trans hnumbered⟩
    rw [ReadSide.version, hsummary]
    cases k with
    | zero => rfl
    | succ k =>
      have hne : es.take (k + 1) ≠ [] := by
        intro hnil
        have hlength := congrArg List.length hnil
        rw [List.length_take, Nat.min_eq_left hle] at hlength
        cases hlength
      obtain ⟨summary, hsummary', -, hversion, -⟩ :=
        AccountProjector.projection_shows (hopened.anti (List.take_prefix _ _)) hne
      rw [hsummary', Option.elim_some, hversion, List.length_take, Nat.min_eq_left hle]

end

/-! ## Deliveries with given faults -/

def FaultyState.respond (fates : List Fate) (op : ReadOp) (s : FaultyState) : Except Failure op.Result × FaultyState :=
  let (answer, side) := ReadSide.perform op s.side
  match fates[s.calls.length]?.getD .performed with
  | .performed => (answer, ⟨side, s.calls ++ [(op, .performed)]⟩)
  | .before => (.error (.store "connection lost"), ⟨s.side, s.calls ++ [(op, .before)]⟩)
  | .after => (.error (.store "connection lost"), ⟨side, s.calls ++ [(op, .after)]⟩)

theorem FaultyState.respond_step (fates : List Fate) (op : ReadOp) (s : FaultyState) :
    FaultyStep op s (s.respond fates op).1 (s.respond fates op).2 := by
  unfold FaultyState.respond
  dsimp only
  split
  · exact .performed
  · exact .before _
  · exact .after _

section
variable [JsRuntime] {es : List DomainEvent} {fates : List Fate} {event : DomainEvent} {s s' : FaultyState}

def attempt (fates : List Fate) (event : DomainEvent) : Nat → FaultyState → Option FaultyState
  | 0, _ => none
  | n + 1, s =>
    match (AccountProjector.project event).eval (fun op s => s.respond fates op) s with
    | (.ok _, s') => some s'
    | (.error _, s') => attempt fates event n s'

theorem attempt_attempts {n : Nat} (h : attempt fates event n s = some s') : Attempts event s s' := by
  induction n generalizing s with
  | zero => cases h
  | succ n ih =>
    have hrun := Async.runs_eval (FaultyState.respond_step fates) (AccountProjector.project event) s
    unfold attempt at h
    split at h
    · next heq =>
      rw [heq] at hrun
      exact Option.some.inj h ▸ .succeeded hrun
    · next heq =>
      rw [heq] at hrun
      exact .rejected hrun (ih h)

def deliverInOrder (fates : List Fate) (es : List DomainEvent) : Nat → Option FaultyState
  | 0 => some ⟨.empty .empty, []⟩
  | k + 1 => do
    let s ← deliverInOrder fates es k
    let event ← es[k]?
    attempt fates event 5 s

theorem deliverInOrder_delivered {k : Nat} (h : deliverInOrder fates es k = some s) : DeliveredInOrder es k s := by
  induction k generalizing s with
  | zero => exact Option.some.inj h ▸ .start
  | succ k ih =>
    obtain ⟨s₁, hs₁, event, hevent, hattempt⟩ : ∃ s₁, deliverInOrder fates es k = some s₁ ∧
        ∃ event, es[k]? = some event ∧ attempt fates event 5 s₁ = some s := by
      simpa [deliverInOrder, Option.bind_eq_some_iff] using h
    exact .next (ih hs₁) hevent (attempt_attempts hattempt)

end

theorem frozenStream_opened : AccountOpened "acc-1" frozenStream :=
  ⟨frozenStream_history.stream, by decide, by decide⟩

theorem completed_iff_rejected :
    ∃ s, @deliverInOrder decimalRuntime [.performed, .before, .before] frozenStream 3 = some s ∧
      s.calls.length = 13 ∧ (Completed "acc-1" 3 s.side ↔ s.Spared) := by
  have hsome : ((@deliverInOrder decimalRuntime [.performed, .before, .before] frozenStream 3).map
      (·.calls.length)) = some 13 := by decide +kernel
  obtain ⟨s, hs, hcalls⟩ := Option.map_eq_some_iff.mp hsome
  exact ⟨s, hs, hcalls, @completed_iff decimalRuntime _ _ _ _ frozenStream_opened (by decide)
    (@deliverInOrder_delivered decimalRuntime _ _ _ _ hs)⟩

/-- The entry of the creation is rejected once, and passed over when the event comes again. -/
theorem not_completed :
    ¬ ∀ accountId es k s, AccountOpened accountId es → (es.map DomainEvent.eventId).Nodup →
      @DeliveredInOrder decimalRuntime es k s → Completed accountId k s.side := by
  intro h
  have hsome : ((@deliverInOrder decimalRuntime [.performed, .performed, .before] frozenStream 1).map
      fun s => ((s.side.statement (some "acc-1")).map (·.streamVersion))) = some [] := by decide +kernel
  obtain ⟨s, hs, hempty⟩ := Option.map_eq_some_iff.mp hsome
  have hcompleted := h "acc-1" frozenStream 1 s frozenStream_opened (by decide)
    (@deliverInOrder_delivered decimalRuntime _ _ _ _ hs)
  rw [hcompleted.statement] at hempty
  cases hempty

end CoreBanking
