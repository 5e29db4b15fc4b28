import CoreBanking.RepositoryRules

/-!
# Programs that run alone

A program with no other call in flight and no faults: every call is performed,
an aggregate is loaded as its stream stands, and a command is refused by its
guard or commits its event at the first attempt.
-/

namespace CoreBanking

theorem exec_none {op : StoreOp} {s s' : Store} {r : Except Failure op.Result} (h : Exec .none op s r s')
    (hop : op ≠ .randomUUID ∧ op ≠ .now) : r = (perform op s).1 ∧ s' = (perform op s).2 := by
  cases h with
  | randomUUID => exact absurd rfl hop.1
  | now => exact absurd rfl hop.2
  | performed => exact ⟨rfl, rfl⟩
  | lost hm => exact hm.elim
  | rejected message hm => exact hm.elim
  | ambiguous message hm => exact hm.elim

theorem exists_exec (op : StoreOp) (s : Store) : ∃ r s', Exec .none op s r s' := by
  by_cases hop : op ≠ .randomUUID ∧ op ≠ .now
  · exact ⟨_, _, .performed hop⟩
  · cases op with
    | randomUUID => exact ⟨_, _, .randomUUID ""⟩
    | now => exact ⟨_, _, .now 0⟩
    | _ => exact absurd ⟨by simp, by simp⟩ hop

section
variable {s : Store}

theorem alone_call {op : StoreOp} {Q : Except Failure op.Result → Store → Prop}
    (hop : op ≠ .randomUUID ∧ op ≠ .now) (h : Q (perform op s).1 (perform op s).2) :
    (Async.call op : Task op.Result).Post (Exec .none) s Q :=
  Async.post_call fun _ _ hexec => by
    obtain ⟨rfl, rfl⟩ := exec_none hexec hop
    exact h

theorem alone_randomUUID {α : Type} {body : String → Task α} {Q : Except Failure α → Store → Prop}
    (h : ∀ uuid, (body uuid).Post (Exec .none) s Q) :
    (do
      let uuid : String ← StoreOp.call .randomUUID
      body uuid : Task α).Post (Exec .none) s Q := by
  refine Async.post_bind (Async.post_call fun r s' hexec => ?_)
  cases hexec with
  | randomUUID uuid => exact h uuid
  | performed hop => exact absurd rfl hop.1
  | rejected message hm => exact hm.elim
  | ambiguous message hm => exact hm.elim

theorem alone_takeStamp {Q : Except Failure Stamp → Store → Prop} (h : ∀ stamp, Q (.ok stamp) s) :
    takeStamp.Post (Exec .none) s Q := by
  refine alone_randomUUID fun uuid => Async.post_bind (Async.post_call fun r s' hexec => ?_)
  cases hexec with
  | now time => exact Async.post_pure (h ⟨uuid, time⟩)
  | performed hop => exact absurd rfl hop.2
  | rejected message hm => exact hm.elim
  | ambiguous message hm => exact hm.elim

/-- The first attempt settles it. -/
theorem alone_retryLoop {attempt : Task Unit} {lost : Failure} {n : Nat} {Q : Except Failure Unit → Store → Prop}
    (h : attempt.Post (Exec .none) s fun r s' =>
      (∀ streamId v v', r ≠ .error (.wrongExpectedVersion streamId v v')) ∧ Q r s') :
    (retryLoop attempt lost (n + 1)).Post (Exec .none) s Q := by
  refine Async.post_tryCatch (Async.post_mono (fun r s' hr => ?_) h)
  cases r with
  | ok u => exact hr.2
  | error e =>
    cases e with
    | wrongExpectedVersion a b c => exact absurd rfl (hr.1 a b c)
    | _ => exact Async.post_throw hr.2

variable (hl : Ledger s)
include hl

theorem alone_transfer_getById {t : String} {Q : Except Failure TransferAggregate → Store → Prop}
    (h : Q (.ok (TransferAggregate.replay (s.stream (transferStream t)))) s) :
    (TransferRepository.getById t).Post (Exec .none) s Q := by
  refine Async.post_bind (alone_call (by simp) (Async.post_pure ?_))
  rw [hl.load_transfer t]
  exact h

theorem alone_account_getById {accountId : String} {Q : Except Failure AccountAggregate → Store → Prop}
    (h : Q (.ok (AccountAggregate.replay (s.stream (accountStream accountId)))) s) :
    (AccountRepository.getById accountId).Post (Exec .none) s Q := by
  refine Async.post_bind (alone_call (by simp) (Async.post_bind (alone_call (by simp) ?_)))
  cases hs : s.snapshots.get (accountStream accountId) with
  | none =>
    refine Async.post_pure ?_
    simp only [perform, Option.map_none, Option.getD_none, hl.loadable.load_stream]
    exact h
  | some snapshot =>
    refine Async.post_pure ?_
    simp only [perform, Option.map_some, Option.getD_some,
      hl.loadable.load_snapshot (hl.snapshot _ _ hs) List.prefix_rfl]
    exact h

omit hl in
theorem alone_append {streamId : String} {event : DomainEvent} {v : Nat} {Q : Except Failure Unit → Store → Prop}
    (hv : v = (s.stream streamId).length) (h : Q (.ok ()) (s.write streamId [event])) :
    (appendToStream streamId [event] v).Post (Exec .none) s Q := by
  subst hv
  refine alone_call (by simp) ?_
  have hwrite : perform (.append streamId [event] (s.stream streamId).length) s =
      (.ok (), s.write streamId [event]) := by
    simp [perform, EventStore.append, Store.write, Store.stream]
  rw [hwrite]
  exact h

theorem alone_snapshot_save {snapshot : Snapshot} (hf : snapshot.Faithful (s.stream snapshot.streamId))
    {Q : Except Failure Unit → Store → Prop}
    (h : ∀ snapshots, Ledger { s with snapshots := snapshots } → Q (.ok ()) { s with snapshots := snapshots }) :
    (SnapshotStore.save snapshot).Post (Exec .none) s Q := by
  have hput : (StoreOp.putSnapshot snapshot).call.Post (Exec .none) s Q :=
    alone_call (by simp) (h _ (hl.of_loadable rfl (hl.loadable.putSnapshot hf)))
  refine Async.post_bind (alone_call (by simp) ?_)
  dsimp only [perform]
  cases s.snapshots.get snapshot.streamId with
  | none => exact hput
  | some current =>
    by_cases hv : snapshot.version ≤ current.version
    · simp only [if_pos hv]
      exact Async.post_pure (h s.snapshots hl)
    · simp only [if_neg hv]
      exact hput

theorem alone_transfer_execute {cmd : TransferCommand} {Q : Except Failure Unit → Store → Prop}
    (hok : ∀ event, cmd.Commits (TransferAggregate.replay (s.stream (transferStream cmd.transferId))) event →
      Extends (transferStream cmd.transferId) (s.stream (transferStream cmd.transferId)) event →
      Q (.ok ()) (s.write (transferStream cmd.transferId) [event]))
    (herr : ∀ stamp e, cmd.operation stamp
      (TransferAggregate.replay (s.stream (transferStream cmd.transferId))) = .error e → Q (.error e) s) :
    cmd.execute.Post (Exec .none) s Q := by
  refine alone_retryLoop (Async.post_bind (alone_transfer_getById hl (Async.post_bind
    (Async.post_bind (alone_takeStamp fun stamp => Async.post_ofExcept ?_)))))
  cases hop : cmd.operation stamp (TransferAggregate.replay (s.stream (transferStream cmd.transferId))) with
  | error e =>
    refine ⟨?_, herr stamp e hop⟩
    rintro _ _ _ ⟨⟩
    cases TransferCommand.operation_error hop
  | ok transfer =>
    obtain ⟨event, hc, rfl⟩ := TransferCommand.operation_replay hop
    have hversion : (TransferAggregate.replay (s.stream (transferStream cmd.transferId) ++ [event])).version =
        (s.stream (transferStream cmd.transferId)).length + 1 := by
      rw [TransferAggregate.replay_snoc, TransferAggregate.when_version, hc.streamVersion,
        (hl.transfer cmd.transferId).stream.version]
    simp only [TransferRepository.save, TransferAggregate.pullUncommittedEvents, List.length_singleton, hversion,
      Nat.add_sub_cancel, Nat.one_ne_zero, if_false]
    exact alone_append rfl ⟨fun _ _ _ h => (by cases h), hok event hc (.transfer cmd rfl hc)⟩

theorem alone_account_execute {cmd : AccountCommand} {Q : Except Failure Unit → Store → Prop}
    (hok : ∀ event snapshots, cmd.Commits (AccountAggregate.replay (s.stream (accountStream cmd.accountId))) event →
      Extends (accountStream cmd.accountId) (s.stream (accountStream cmd.accountId)) event →
      Ledger { s.write (accountStream cmd.accountId) [event] with snapshots := snapshots } →
      Q (.ok ()) { s.write (accountStream cmd.accountId) [event] with snapshots := snapshots })
    (herr : ∀ stamp e, cmd.operation stamp
      (AccountAggregate.replay (s.stream (accountStream cmd.accountId))) = .error e → Q (.error e) s) :
    cmd.execute.Post (Exec .none) s Q := by
  refine alone_retryLoop (Async.post_bind (alone_account_getById hl (Async.post_bind
    (Async.post_bind (alone_takeStamp fun stamp => Async.post_ofExcept ?_)))))
  cases hop : cmd.operation stamp (AccountAggregate.replay (s.stream (accountStream cmd.accountId))) with
  | error e =>
    refine ⟨?_, herr stamp e hop⟩
    rintro _ _ _ ⟨⟩
    cases AccountCommand.operation_error hop
  | ok account =>
    obtain ⟨event, hc, rfl⟩ := AccountCommand.operation_replay hop
    have hext : Extends (accountStream cmd.accountId) (s.stream (accountStream cmd.accountId)) event :=
      .account cmd rfl hc
    have hversion : (AccountAggregate.replay (s.stream (accountStream cmd.accountId) ++ [event])).version =
        (s.stream (accountStream cmd.accountId)).length + 1 := by
      rw [AccountAggregate.replay_snoc, AccountAggregate.when_version, hc.streamVersion,
        (hl.account cmd.accountId).stream.version]
    have hl' := hl.write hext
    have hdone := fun snapshots hl => And.intro (nofun : ∀ streamId v v',
      (Except.ok () : Except Failure Unit) ≠ .error (.wrongExpectedVersion streamId v v'))
      (hok event snapshots hc hext hl)
    simp only [AccountRepository.save, AccountAggregate.pullUncommittedEvents, List.length_singleton, hversion,
      Nat.add_sub_cancel, Nat.one_ne_zero, if_false]
    refine Async.post_bind (alone_append rfl ?_)
    dsimp only
    split
    · refine alone_snapshot_save hl' ?_ hdone
      have hstream : (s.write (accountStream cmd.accountId) [event]).stream (accountStream cmd.accountId) =
          s.stream (accountStream cmd.accountId) ++ [event] := by
        rw [hl.stream_write hext, if_pos rfl]
      exact .of_isPrefix (hstream ▸ List.prefix_rfl) (by rw [List.length_append, List.length_singleton]) rfl
    · exact Async.post_pure (hdone _ hl')

end

end CoreBanking
