import CoreBanking.StoreRules

/-!
# The repositories, proved once

Loading an aggregate gives the replay of a prefix of its stream, and a call of
`executeWithRetry` is one commit on the stream as it stands, whatever the other
programs do in between: it resolves after that commit, and a rejection leaves
either nothing behind or, through a fault that hit after the append, the commit.
-/

namespace CoreBanking

section
variable {Req Out G : Type}

/-- An invariant under which the repositories can work. -/
structure Hosts (V : Service Req Out) (inv : World Req → (Nat → G) → Prop) : Prop where
  ledger : ∀ {w gs}, inv w gs → Ledger w.store
  quiet : ∀ {i q op w r w' gs}, inv w gs → V.CallStep i q op w r w' → Quiet op r →
    w.store.SameBooks w'.store → Ledger w'.store → inv w' gs

/-- The append of a commit, which may be reported as failed all the same. -/
structure CommitStep (V : Service Req Out) (i : Nat) (q : Req) (streamId : String) (event : DomainEvent)
    (w : World Req) (r : Except Failure Unit) (w' : World Req) : Prop where
  call : V.CallStep i q (.append streamId [event] (w.store.stream streamId).length) w r w'
  store : w'.store = w.store.write streamId [event]
  extension : Extends streamId (w.store.stream streamId) event
  answer : r = .ok () ∨ ∃ message, r = .error (.store message) ∧
    V.faults.ambiguous (.append streamId [event] (w.store.stream streamId).length) message

def Settled (F : FaultModel) (g : G) (Done : World Req → G → Prop) (Rejects : Failure → Prop) (w : World Req)
    (g' : G) : Except Failure Unit → Prop
  | .ok _ => Done w g'
  | .error e => (g' = g ∧ Rejects e) ∨
      ∃ message, e = .store message ∧ ((g' = g ∧ F.Reports message) ∨ (Done w g' ∧ F.Late message))

variable {V : Service Req Out} {idle : G} {inv : World Req → (Nat → G) → Prop} (H : Hosts V inv)
variable {q : Req} {w : World Req} {g : G}
include H

theorem Hosts.loads : Loads V inv fun g => g where
  loadable hinv := (H.ledger hinv).loadable
  quiet hinv hstep hq _ hsame hl := H.quiet hinv hstep hq hsame ((H.ledger hinv).of_loadable hsame.events hl)
  failed hinv hstep hf hsame hl := by
    rw [Function.update_eq_self]
    exact H.quiet hinv hstep hf.quiet hsame ((H.ledger hinv).of_loadable hsame.events hl)

theorem Hosts.wp_transfer_getById (transferId : String) {Q : World Req → G → Except Failure TransferAggregate → Prop}
    (hok : ∀ w', w.Le w' → (∃ gs, inv w' gs) →
      Q w' g (.ok (TransferAggregate.replay (w'.store.stream (transferStream transferId)))))
    (herr : ∀ w' message, w.Le w' → V.faults.Reports message → Q w' g (.error (.store message))) :
    (V.outline idle inv).wp q (TransferRepository.getById transferId) w g Q := by
  refine Outline.wp_bind (H.loads.wp_read (.readStream _ _) nofun (fun h => by cases h <;> rfl)
    fun w₁ r hle ⟨_, hinv₁⟩ hexec => ?_)
  have hl := H.ledger hinv₁
  cases hexec with
  | rejected message hf => exact herr w₁ message hle ⟨_, .inl hf⟩
  | ambiguous message hf => exact herr w₁ message hle ⟨_, .inr hf⟩
  | performed =>
    refine Outline.wp_pure ?_
    simp only [hl.load_transfer transferId]
    exact hok w₁ hle ⟨_, hinv₁⟩

section
variable {Done : World Req → G → Prop} {streamId : String} {es : List DomainEvent} {event : DomainEvent}
  (hes : es <+: w.store.stream streamId) (hext : Extends streamId es event)
  (hcommit : ∀ {i w₁ gs r w₂}, w.Le w₁ → inv w₁ gs → gs i = g → w₁.store.stream streamId = es →
    CommitStep V i q streamId event w₁ r w₂ → ∃ g', inv w₂ (Function.update gs i g') ∧ Done w₂ g')
include hes hext hcommit

theorem Hosts.wp_append {Q : World Req → G → Except Failure Unit → Prop}
    (hok : ∀ w' g', Done w' g' → es ++ [event] <+: w'.store.stream streamId → Q w' g' (.ok ()))
    (hlate : ∀ w' g' message, Done w' g' → V.faults.Late message → Q w' g' (.error (.store message)))
    (hstale : ∀ w' v, Q w' g (.error (.wrongExpectedVersion streamId es.length v)))
    (herr : ∀ w' message, V.faults.Reports message → Q w' g (.error (.store message))) :
    (V.outline idle inv).wp q (appendToStream streamId [event] es.length) w g Q := by
  let Done' : World Req → G → Prop := fun w' g' => Done w' g' ∧ es ++ [event] <+: w'.store.stream streamId
  refine @Loads.wp_append _ _ _ _ _ _ _ H.loads _ _ _ Done' _ _ _ hes
    (fun {i w₁ gs r w₂} hle hinv hg hs hstep hw ha => ?_)
    _ (fun w' g' hd => hok w' g' hd.1 hd.2) (fun w' g' message hd hm => hlate w' g' message hd.1 (.append _ _ _ hm))
    hstale herr
  subst hs
  obtain ⟨g', hinv', hdone⟩ := hcommit hle hinv hg rfl ⟨hstep, hw, hext, ha⟩
  have hstream : w₂.store.stream streamId = w₁.store.stream streamId ++ [event] := by
    rw [hw, (H.ledger hinv).stream_write hext, if_pos rfl]
  exact ⟨g', hinv', hdone, hstream ▸ List.prefix_rfl⟩

end

section
variable {Done : World Req → G → Prop} {Rejects : Failure → Prop}

omit H in
theorem attempted_stale {w' : World Req} {streamId : String} {expected actual : Nat} :
    Attempted g (Settled V.faults g Done Rejects) w' g (.error (.wrongExpectedVersion streamId expected actual)) :=
  .inl ⟨_, _, _, rfl, rfl⟩

omit H in
theorem attempted_report {w' : World Req} {message : String} (h : V.faults.Reports message) :
    Attempted g (Settled V.faults g Done Rejects) w' g (.error (.store message)) :=
  .inr ⟨fun _ _ _ h => (by cases h), .inr ⟨message, rfl, .inl ⟨rfl, h⟩⟩⟩

omit H in
theorem attempted_late {w' : World Req} {g' : G} {message : String} (hd : Done w' g') (h : V.faults.Late message) :
    Attempted g (Settled V.faults g Done Rejects) w' g' (.error (.store message)) :=
  .inr ⟨fun _ _ _ h => (by cases h), .inr ⟨message, rfl, .inr ⟨hd, h⟩⟩⟩

omit H in
theorem attempted_ok {w' : World Req} {g' : G} (hd : Done w' g') :
    Attempted g (Settled V.faults g Done Rejects) w' g' (.ok ()) :=
  .inr ⟨fun _ _ _ h => (by cases h), hd⟩

omit H in
theorem attempted_guard {w' : World Req} {e : Failure} (h : Rejects e) (he : e.Domain) :
    Attempted g (Settled V.faults g Done Rejects) w' g (.error e) :=
  .inr ⟨fun _ _ _ h => (by cases he <;> cases h), .inl ⟨rfl, h⟩⟩

end

/-- The command was accepted on the replay of `es` and left `event`. -/
def AccountCommand.Accepts (cmd : AccountCommand) (es : List DomainEvent) (event : DomainEvent) : Prop :=
  cmd.Commits (AccountAggregate.replay es) event ∧ ∃ stamp account',
    cmd.operation stamp (AccountAggregate.replay es) = .ok account' ∧ account'.uncommittedEvents = [event]

/-- Errors with which a call is refused: by a guard of the operation, or after
the last lost race. -/
inductive AccountCommand.Rejects (cmd : AccountCommand) : Failure → Prop
  | guard (stamp es e) : cmd.operation stamp (AccountAggregate.replay es) = .error e → cmd.Rejects e
  | conflict : cmd.Rejects (AccountRepository.writeConflict cmd.accountId)

section
variable {cmd : AccountCommand} {Done : World Req → G → Prop}
  (hmono : ∀ {w w' g'}, w.Le w' → Done w g' → Done w' g')
  (hcommit : ∀ {i w₁ gs event r w₂}, w.Le w₁ → inv w₁ gs → gs i = g →
    cmd.Accepts (w₁.store.stream (accountStream cmd.accountId)) event →
    CommitStep V i q (accountStream cmd.accountId) event w₁ r w₂ →
    ∃ g', inv w₂ (Function.update gs i g') ∧ Done w₂ g')
include hmono hcommit

theorem Hosts.wp_account_save {es : List DomainEvent} {event : DomainEvent} (hhist : AccountHistory cmd.accountId es)
    (hes : es <+: w.store.stream (accountStream cmd.accountId)) (haccepts : cmd.Accepts es event) :
    (V.outline idle inv).wp q
      (AccountRepository.save cmd.accountId
        { AccountAggregate.replay (es ++ [event]) with uncommittedEvents := [event] })
      w g (Attempted g (Settled V.faults g Done cmd.Rejects)) := by
  have hc := haccepts.1
  have hversion : (AccountAggregate.replay (es ++ [event])).version = es.length + 1 := by
    rw [AccountAggregate.replay_snoc, AccountAggregate.when_version, hc.streamVersion, hhist.stream.version]
  simp only [AccountRepository.save, AccountAggregate.pullUncommittedEvents, List.length_singleton, hversion,
    Nat.add_sub_cancel, Nat.one_ne_zero, if_false]
  refine Outline.wp_bind (H.wp_append hes (.account cmd rfl hc)
    (fun hle hinv hg hs hstep => hcommit hle hinv hg (hs ▸ haccepts) hstep)
    (fun w₁ g' hd hp => ?_) (fun _ _ _ hd hm => attempted_late hd hm) (fun _ _ => attempted_stale)
    fun _ _ hm => attempted_report hm)
  dsimp only
  split
  · refine H.loads.wp_snapshot_save (.of_isPrefix hp ?_ rfl) (fun w₂ hle => attempted_ok (hmono hle hd))
      fun w₂ message hle hm => attempted_late (hmono hle hd) hm
    rw [List.length_append, List.length_singleton]
  · exact Outline.wp_pure (attempted_ok hd)

/-- **Logical atomicity** of a write to an account. -/
theorem Hosts.wp_account_execute :
    (V.outline idle inv).wp q cmd.execute w g (Settled V.faults g Done cmd.Rejects) := by
  refine wp_retryLoop (fun w₀ hle₀ => ?_) (fun w' => .inl ⟨rfl, .conflict⟩) 2
  refine Outline.wp_bind (H.loads.wp_account_getById cmd.accountId (fun w₁ hle₁ ⟨_, hinv₁⟩ => ?_)
    fun w₁ message _ hm => attempted_report hm)
  have hhist := (H.ledger hinv₁).account cmd.accountId
  refine Outline.wp_bind (Outline.wp_bind (H.loads.wp_takeStamp (fun w₂ stamp hle₂ => ?_)
    fun w₂ message _ hm => attempted_report hm))
  refine Outline.wp_ofExcept ?_
  have hes := hle₂.store.stream (accountStream cmd.accountId)
  generalize w₁.store.stream (accountStream cmd.accountId) = es at hhist hes ⊢
  cases hop : cmd.operation stamp (AccountAggregate.replay es) with
  | error e =>
    exact attempted_guard (AccountCommand.Rejects.guard stamp es e hop) (AccountCommand.operation_error hop)
  | ok account =>
    obtain ⟨event, hc, rfl⟩ := AccountCommand.operation_replay hop
    have hle : w.Le w₂ := (V.outline idle inv).le_trans hle₀ ((V.outline idle inv).le_trans hle₁ hle₂)
    exact H.wp_account_save (@hmono)
      (fun hle' hinv hg ha hstep => hcommit ((V.outline idle inv).le_trans hle hle') hinv hg ha hstep) hhist
      hes ⟨hc, stamp, _, hop, rfl⟩

end

inductive TransferCommand.Rejects (cmd : TransferCommand) : Failure → Prop
  | guard (stamp es e) : cmd.operation stamp (TransferAggregate.replay es) = .error e → cmd.Rejects e
  | conflict : cmd.Rejects (TransferRepository.writeConflict cmd.transferId)

/-- **Logical atomicity** of a write to a transfer. -/
theorem Hosts.wp_transfer_execute {cmd : TransferCommand} {Done : World Req → G → Prop}
    (hcommit : ∀ {i w₁ gs event r w₂}, w.Le w₁ → inv w₁ gs → gs i = g →
      cmd.Commits (TransferAggregate.replay (w₁.store.stream (transferStream cmd.transferId))) event →
      CommitStep V i q (transferStream cmd.transferId) event w₁ r w₂ →
      ∃ g', inv w₂ (Function.update gs i g') ∧ Done w₂ g') :
    (V.outline idle inv).wp q cmd.execute w g (Settled V.faults g Done cmd.Rejects) := by
  refine wp_retryLoop (fun w₀ hle₀ => ?_) (fun w' => .inl ⟨rfl, .conflict⟩) 2
  refine Outline.wp_bind (H.wp_transfer_getById cmd.transferId (fun w₁ hle₁ ⟨_, hinv₁⟩ => ?_)
    fun w₁ message _ hm => attempted_report hm)
  have hhist := (H.ledger hinv₁).transfer cmd.transferId
  refine Outline.wp_bind (Outline.wp_bind (H.loads.wp_takeStamp (fun w₂ stamp hle₂ => ?_)
    fun w₂ message _ hm => attempted_report hm))
  refine Outline.wp_ofExcept ?_
  have hes := hle₂.store.stream (transferStream cmd.transferId)
  generalize w₁.store.stream (transferStream cmd.transferId) = es at hhist hes ⊢
  cases hop : cmd.operation stamp (TransferAggregate.replay es) with
  | error e =>
    exact attempted_guard (TransferCommand.Rejects.guard stamp es e hop) (TransferCommand.operation_error hop)
  | ok transfer =>
    obtain ⟨event, hc, rfl⟩ := TransferCommand.operation_replay hop
    have hle : w.Le w₂ := (V.outline idle inv).le_trans hle₀ ((V.outline idle inv).le_trans hle₁ hle₂)
    have hversion : (TransferAggregate.replay (es ++ [event])).version = es.length + 1 := by
      rw [TransferAggregate.replay_snoc, TransferAggregate.when_version, hc.streamVersion, hhist.stream.version]
    simp only [TransferRepository.save, TransferAggregate.pullUncommittedEvents, List.length_singleton, hversion,
      Nat.add_sub_cancel, Nat.one_ne_zero, if_false]
    exact H.wp_append hes (.transfer cmd rfl hc)
      (fun hle' hinv hg hs hstep => hcommit ((V.outline idle inv).le_trans hle hle') hinv hg (hs ▸ hc) hstep)
      (fun _ _ hd _ => attempted_ok hd) (fun _ _ _ hd hm => attempted_late hd hm) (fun _ _ => attempted_stale)
      fun _ _ hm => attempted_report hm

end

end CoreBanking
