import CoreBanking.PipelineRuns
import CoreBanking.PostgresBank

/-!
# What clients are shown

The bank on Postgres commits events, its outbox is published, and consumers
project what is published. When they have caught up, the balances that clients
are shown are those of the committed events, and add up to what was paid in.
-/

namespace CoreBanking

/-- What an account is shown to hold in a currency. -/
def ReadSide.shown (s : ReadSide) (currency accountId : String) : Int :=
  (s.summaries.get (some accountId)).elim 0 fun summary =>
    if summary.currency = currency then summary.balanceMinorUnits else 0

theorem Pipeline.UpToDate.shown {s : Pipeline} {accountId : String} (h : s.UpToDate accountId) (currency : String) :
    s.readSide.shown currency accountId = heldBy currency (s.outbox.events (accountStream accountId)) := by
  unfold ReadSide.shown heldBy
  by_cases hnone : s.outbox.events (accountStream accountId) = []
  · rw [h.absent hnone, hnone]
    rfl
  · obtain ⟨summary, hget, hshows⟩ := h.summary hnone
    rw [hget, Option.elim_some, hshows.currency, hshows.balanceMinorUnits]
    by_cases hcurrency : summary.currency = currency
    · rw [if_pos hcurrency, if_pos (congrArg some hcurrency)]
    · rw [if_neg hcurrency, if_neg fun heq => hcurrency (Option.some.inj heq)]

section
variable [JsRuntime] {partitionOf : String → Nat} {reports : String → Prop} {hashtext : String → Int}

/-- What is staged for an account is what is committed to its stream. -/
theorem Refines.events_eq {db : Database} {s : Store} {gs : Nat → PgGhost} (h : Refines hashtext db s gs)
    {p : Pipeline} {gs' : Nat → Option (String × Nat)} (hinv : PipelineInv partitionOf p gs')
    (hstaged : p.outbox.outbox.staged.Perm db.sent) (accountId : String) :
    p.outbox.events (accountStream accountId) = db.committed (accountStream accountId) := by
  have hrows : ((db.rows.map EventRow.message).filter fun message =>
      message.messageKey = accountStream accountId).map OutboxMessage.payload =
      db.committed (accountStream accountId) := by
    rw [Database.committed, Database.committedRows, Database.rows, List.filter_map, List.map_map, List.filter_filter]
    rfl
  have hperm : (p.outbox.events (accountStream accountId)).Perm (db.committed (accountStream accountId)) := by
    rw [← hrows]
    exact ((hstaged.trans h.outbox.staged).filter _).map _
  refine (hinv.shape accountId).1.numbered.eq_of_perm ?_ hperm
  rw [h.streams, Numbered.iff_map_eq, List.map_map, List.length_map]
  exact Numbered.iff_map_eq.mp (h.numbered _)

/-- **What clients are shown adds up.** When the consumers have caught up with
what the bank on Postgres has committed, every account is shown with what it
holds, and all together with no more than was paid in, and with all of it once
no transfer is under way. -/
theorem postgres_read_model_conserved [RequestDigest] {reports' : String → Prop}
    (hreports : ∀ message, reports message →
      TransferCoordinatorService.isTerminalDomainError (.store message) = false)
    {c : PgConfig} (hc : (postgresBank hashtext reports BankRequest.LeavesLegs).Reachable c)
    {p : PipelineConfig} (hp : (pipeline partitionOf reports').Reachable p) (hquiet : System.Quiescent p)
    (hcaught : p.state.CaughtUp partitionOf) (hstaged : p.state.outbox.outbox.staged.Perm c.state.sent)
    (currency : String) :
    (∀ accountId, p.state.readSide.shown currency accountId =
      heldBy currency (c.state.committed (accountStream accountId))) ∧
    0 ≤ ∑ accountId ∈ createdAccounts c.state.log, p.state.readSide.shown currency accountId ∧
    ∑ accountId ∈ createdAccounts c.state.log, p.state.readSide.shown currency accountId ≤
      paidInto currency c.state.log ∧
    ((∀ t ∈ initiatedTransfers c.state.log,
        (TransferAggregate.replay (c.state.committed (transferStream t))).Settled) →
      ∑ accountId ∈ createdAccounts c.state.log, p.state.readSide.shown currency accountId =
        paidInto currency c.state.log) := by
  obtain ⟨c', gs, hreach, hrefines, -⟩ := reachable_refines hc
  obtain ⟨gs', hbooks⟩ := quiet_books (fun _ => reported_not_terminal hreports) hreach
  have hconserved : c.state.Conserves currency :=
    hrefines.shows.conserves (hbooks.books.conserved (creations_named hreach) trivial trivial currency)
  have hinv := PipelineInv.of_quiescent hp hquiet
  have hshown : ∀ accountId, p.state.readSide.shown currency accountId =
      heldBy currency (c.state.committed (accountStream accountId)) := by
    intro accountId
    rw [(hinv.upToDate hcaught accountId).shown, hrefines.events_eq hinv hstaged]
  have htotal : ∑ accountId ∈ createdAccounts c.state.log, p.state.readSide.shown currency accountId =
      c.state.held currency := Finset.sum_congr rfl fun accountId _ => hshown accountId
  rw [htotal]
  exact ⟨hshown, hconserved.held, hconserved.paidIn, hconserved.settled⟩

end

theorem postgres_read_model_conserved_recovered :
    recoveredRun.state.readSide.shown "EUR" "acc-1" = 1300 ∧
      ∑ accountId ∈ createdAccounts contendedRun.state.log, recoveredRun.state.readSide.shown "EUR" accountId ≤
        paidInto "EUR" contendedRun.state.log := by
  have hstaged : recoveredRun.state.outbox.outbox.staged = contendedRun.state.sent := by decide +kernel
  obtain ⟨-, -, hle, -⟩ := @postgres_read_model_conserved decimalRuntime _ _ _ plainDigest _
    (fun _ h => False.elim h) _ contendedRun_reachable _ recoveredRun_reachable recoveredRun_quiescent
    recoveredRun_caughtUp (.of_eq hstaged) "EUR"
  exact ⟨by decide +kernel, hle⟩

end CoreBanking
