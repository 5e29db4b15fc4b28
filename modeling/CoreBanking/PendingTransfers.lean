import CoreBanking.Lib.StableSort
import CoreBanking.ReadModels
import CoreBanking.Services

/-!
# The pending transfers

A pass of the coordinator takes the oldest pending transfers of the read model.
What counts as pending is written down three times: in the coordinator, in the
filter of the in-memory repository, and in the query of the other one.
-/

namespace CoreBanking

/-- The coordinator acts on a transfer of this status and stage. -/
def TransferSummaryReadModel.hasWork (summary : TransferSummaryReadModel) : Bool :=
  (TransferCoordinatorService.dueLeg
    { status := some summary.status, failureStage := summary.failureStage }).isSome

structure StoredTransfers where
  summaries : OrderedMap (Option String) TransferSummaryReadModel
  keyed : ∀ {transferId summary}, summaries.get transferId = some summary → summary.transferId = transferId

def StoredTransfers.work (t : StoredTransfers) : List TransferSummaryReadModel :=
  t.summaries.values.filter (·.hasWork)

namespace InMemoryTransferReadModelRepository

def isPending (summary : TransferSummaryReadModel) : Bool :=
  !([.COMPLETED, .COMPENSATED, .FAILED].contains summary.status) || summary.failureStage == some .CREDIT

def listPendingTransfers (t : StoredTransfers) (limit : Nat) : List TransferSummaryReadModel :=
  (StableSort.sort (·.updatedAt) (t.summaries.values.filter isPending)).take limit

end InMemoryTransferReadModelRepository

namespace PostgresTransferReadModelRepository

def isPending (summary : TransferSummaryReadModel) : Bool :=
  !([.COMPLETED, .COMPENSATED].contains summary.status)

/-- What the query may return: rows with equal times come in any order. -/
def ListsPendingTransfers (t : StoredTransfers) (limit : Nat) (result : List TransferSummaryReadModel) : Prop :=
  ∃ rows : List TransferSummaryReadModel, rows.Perm (t.summaries.values.filter isPending) ∧
    rows.Pairwise (fun left right => left.updatedAt ≤ right.updatedAt) ∧
    result = (rows.take limit).filterMap fun row => t.summaries.get row.transferId

end PostgresTransferReadModelRepository

open StableSort (First sort)

/-- Both repositories list the oldest transfers that have work, and nothing else. -/
structure PendingExact (t : StoredTransfers) (limit : Nat) : Prop where
  inMemory : First (·.updatedAt) t.work limit (InMemoryTransferReadModelRepository.listPendingTransfers t limit)
  postgres : ∀ result, PostgresTransferReadModelRepository.ListsPendingTransfers t limit result →
    First (·.updatedAt) t.work limit result
  agree : ∀ result, PostgresTransferReadModelRepository.ListsPendingTransfers t limit result →
    result.map (·.updatedAt) =
      (InMemoryTransferReadModelRepository.listPendingTransfers t limit).map (·.updatedAt)

/-- How much work a stable sort puts before `summary`, which stands between `before` and `after`. -/
def workBefore (before : List TransferSummaryReadModel) (summary : TransferSummaryReadModel)
    (after : List TransferSummaryReadModel) : Nat :=
  (before.filter fun other => other.hasWork && decide (other.updatedAt ≤ summary.updatedAt)).length +
    (after.filter fun other => other.hasWork && decide (other.updatedAt < summary.updatedAt)).length

/-- The older work fills the list before a finished transfer gets its turn: one that keeps the stage
of a failed credit, in memory, and one that failed at another stage, in the other repository. -/
structure WorkComesFirst (t : StoredTransfers) (limit : Nat) : Prop where
  inMemory : ∀ before summary after, t.summaries.values = before ++ summary :: after →
    summary.status ∈ [.COMPLETED, .COMPENSATED] → summary.failureStage = some .CREDIT →
      limit ≤ workBefore before summary after
  postgres : ∀ summary ∈ t.summaries.values, summary.status = .FAILED → summary.failureStage ≠ some .CREDIT →
    limit ≤ (t.work.filter fun other => decide (other.updatedAt < summary.updatedAt)).length

/-! ## Which finished transfers are listed -/

theorem isPending_of_hasWork {summary : TransferSummaryReadModel} (h : summary.hasWork = true) :
    InMemoryTransferReadModelRepository.isPending summary = true ∧
      PostgresTransferReadModelRepository.isPending summary = true := by
  unfold TransferSummaryReadModel.hasWork TransferCoordinatorService.dueLeg at h
  unfold InMemoryTransferReadModelRepository.isPending PostgresTransferReadModelRepository.isPending
  cases hs : summary.status <;> simp_all

theorem inMemory_finished_iff (summary : TransferSummaryReadModel) :
    InMemoryTransferReadModelRepository.isPending summary = true ∧ summary.hasWork = false ↔
      summary.status ∈ [.COMPLETED, .COMPENSATED] ∧ summary.failureStage = some .CREDIT := by
  unfold InMemoryTransferReadModelRepository.isPending TransferSummaryReadModel.hasWork
    TransferCoordinatorService.dueLeg
  cases hs : summary.status <;> simp

theorem postgres_finished_iff (summary : TransferSummaryReadModel) :
    PostgresTransferReadModelRepository.isPending summary = true ∧ summary.hasWork = false ↔
      summary.status = .FAILED ∧ summary.failureStage ≠ some .CREDIT := by
  unfold PostgresTransferReadModelRepository.isPending TransferSummaryReadModel.hasWork
    TransferCoordinatorService.dueLeg
  cases hs : summary.status <;> simp

section
variable {pending : TransferSummaryReadModel → Bool}
  (hpending : ∀ summary, summary.hasWork = true → pending summary = true)
include hpending

theorem filter_pending (l : List TransferSummaryReadModel) :
    (l.filter pending).filter (·.hasWork) = l.filter (·.hasWork) := by
  rw [List.filter_filter]
  refine List.filter_congr fun summary _ => ?_
  cases h : summary.hasWork with
  | false => rfl
  | true => simp [hpending summary h]

theorem filter_pending_filter (l : List TransferSummaryReadModel) (q : TransferSummaryReadModel → Bool) :
    ((l.filter pending).filter q).filter (·.hasWork) = l.filter fun summary => summary.hasWork && q summary := by
  rw [List.filter_comm, filter_pending hpending, List.filter_filter]
  exact List.filter_congr fun summary _ => Bool.and_comm _ _

theorem sort_pending {before after : List TransferSummaryReadModel} {summary : TransferSummaryReadModel}
    (hp : pending summary = true) : ∃ older newer : List TransferSummaryReadModel,
      sort (·.updatedAt) ((before ++ summary :: after).filter pending) = older ++ summary :: newer ∧
        (older.filter (·.hasWork)).length = workBefore before summary after ∧
        ∀ other ∈ older, other ∈ before ∨ other.updatedAt < summary.updatedAt := by
  rw [List.filter_append, List.filter_cons_of_pos hp, StableSort.sort_split]
  refine ⟨_, _, rfl, ?_, ?_⟩
  · rw [((StableSort.perm _).filter _).length_eq, List.filter_append, List.length_append,
      filter_pending_filter hpending, filter_pending_filter hpending]
    rfl
  · intro other hmem
    rcases List.mem_append.mp (StableSort.mem_sort.mp hmem) with hmem | hmem
    · exact .inl (List.mem_of_mem_filter (List.mem_of_mem_filter hmem))
    · exact .inr (of_decide_eq_true (List.mem_filter.mp hmem).2)

end

theorem inMemory_first_iff (t : StoredTransfers) (limit : Nat) :
    First (·.updatedAt) t.work limit (InMemoryTransferReadModelRepository.listPendingTransfers t limit) ↔
      ∀ before summary after, t.summaries.values = before ++ summary :: after →
        summary.status ∈ [.COMPLETED, .COMPENSATED] → summary.failureStage = some .CREDIT →
          limit ≤ workBefore before summary after := by
  have hpending := fun summary (h : TransferSummaryReadModel.hasWork summary = true) => (isPending_of_hasWork h).1
  rw [StoredTransfers.work, ← filter_pending hpending]
  refine (StableSort.first_filter_iff (StableSort.perm _) (StableSort.pairwise _)).trans ⟨?_, ?_⟩
  · intro h before summary after hvalues hstatus hstage
    obtain ⟨hp, hfinished⟩ := (inMemory_finished_iff summary).mpr ⟨hstatus, hstage⟩
    obtain ⟨older, newer, hsort, hwork, -⟩ := @sort_pending _ hpending before after _ hp
    rw [hvalues, hsort] at h
    rw [← hwork]
    exact StableSort.le_length_filter hfinished h
  · intro h summary hmem
    by_contra hwork
    obtain ⟨hstored, hp⟩ := List.mem_filter.mp (StableSort.mem_sort.mp (List.mem_of_mem_take hmem))
    obtain ⟨hstatus, hstage⟩ := (inMemory_finished_iff summary).mp ⟨hp, by simpa using hwork⟩
    obtain ⟨before, after, hvalues, hfresh⟩ := List.eq_append_cons_of_mem hstored
    obtain ⟨older, newer, hsort, hcount, holder⟩ := @sort_pending _ hpending before after _ hp
    -- the first `limit` are all older
    have hroom : limit ≤ older.length :=
      Nat.le_trans (hcount ▸ h before summary after hvalues hstatus hstage) (List.length_filter_le _ _)
    rw [hvalues, hsort, List.take_append_of_le_length hroom] at hmem
    rcases holder summary (List.mem_of_mem_take hmem) with hmem | hlt
    · exact hfresh hmem
    · exact Nat.lt_irrefl _ hlt

theorem postgres_lists_iff (t : StoredTransfers) (limit : Nat) (result : List TransferSummaryReadModel) :
    PostgresTransferReadModelRepository.ListsPendingTransfers t limit result ↔
      First (·.updatedAt) (t.summaries.values.filter PostgresTransferReadModelRepository.isPending) limit result := by
  have hget : ∀ rows : List TransferSummaryReadModel, (∀ row ∈ rows, row ∈ t.summaries.values) →
      (rows.filterMap fun row => t.summaries.get row.transferId) = rows := by
    intro rows hrows
    induction rows with
    | nil => rfl
    | cons row rows ih =>
      obtain ⟨transferId, hrow⟩ := OrderedMap.mem_values_iff.mp (hrows row List.mem_cons_self)
      have hkey : t.summaries.get row.transferId = some row := t.keyed hrow ▸ hrow
      simp only [List.filterMap_cons, hkey, ih fun row' h => hrows row' (List.mem_cons_of_mem _ h)]
  refine exists_congr fun rows => and_congr_right fun hperm => and_congr_right fun _ => ?_
  rw [hget]
  exact fun row hrow => List.mem_of_mem_filter (hperm.subset (List.mem_of_mem_take hrow))

theorem postgres_first_iff (t : StoredTransfers) (limit : Nat) :
    (∀ result, PostgresTransferReadModelRepository.ListsPendingTransfers t limit result →
      First (·.updatedAt) t.work limit result) ↔
      ∀ summary ∈ t.summaries.values, summary.status = .FAILED → summary.failureStage ≠ some .CREDIT →
        limit ≤ (t.work.filter fun other => decide (other.updatedAt < summary.updatedAt)).length := by
  let isPending := PostgresTransferReadModelRepository.isPending
  have hpending := fun summary (h : TransferSummaryReadModel.hasWork summary = true) => (isPending_of_hasWork h).2
  have hwork : t.work = (t.summaries.values.filter isPending).filter (·.hasWork) := (filter_pending hpending _).symm
  simp only [postgres_lists_iff]
  constructor
  · intro h summary hstored hstatus hstage
    obtain ⟨hp, hfinished⟩ := (postgres_finished_iff summary).mpr ⟨hstatus, hstage⟩
    -- the order that puts the finished transfer before all others of its time
    obtain ⟨before, after, hlisted⟩ := List.append_of_mem (List.mem_filter.mpr ⟨hstored, hp⟩)
    have hperm : (sort (·.updatedAt) (summary :: (before ++ after))).Perm (t.summaries.values.filter isPending) :=
      (StableSort.perm _).trans (hlisted ▸ List.perm_middle.symm)
    have hall := (StableSort.first_filter_iff hperm (StableSort.pairwise _)).mp
      (hwork ▸ h _ ⟨_, hperm, StableSort.pairwise _, rfl⟩)
    rw [← List.nil_append (summary :: (before ++ after)), StableSort.sort_split] at hall
    refine Nat.le_trans (StableSort.le_length_filter hfinished hall) (Nat.le_of_eq ?_)
    rw [((StableSort.perm _).filter _).length_eq, hwork, hlisted, @List.filter_append _ _ before (summary :: after)]
    rw [List.filter_cons_of_neg (by simpa using hfinished), ← List.filter_append, List.filter_comm]
    rfl
  · rintro h _ ⟨rows, hperm, hsorted, rfl⟩
    rw [hwork]
    refine (StableSort.first_filter_iff hperm hsorted).mpr fun summary hmem => ?_
    by_contra hnone
    obtain ⟨hstored, hp⟩ := List.mem_filter.mp (hperm.subset (List.mem_of_mem_take hmem))
    obtain ⟨hstatus, hstage⟩ := (postgres_finished_iff summary).mp ⟨hp, by simpa using hnone⟩
    have hroom := h summary hstored hstatus hstage
    have hlt := StableSort.length_filter_lt hsorted hmem
    rw [(hperm.filter _).length_eq] at hlt
    have hle := List.length_filter_le (fun other => TransferSummaryReadModel.hasWork other)
      ((t.summaries.values.filter isPending).filter fun other => decide (other.updatedAt < summary.updatedAt))
    rw [hwork, List.filter_comm] at hroom
    exact Nat.lt_irrefl _ (Nat.lt_of_lt_of_le hlt (Nat.le_trans hroom hle))

theorem pending_exact_iff (t : StoredTransfers) (limit : Nat) : PendingExact t limit ↔ WorkComesFirst t limit := by
  constructor
  · exact fun h => ⟨(inMemory_first_iff t limit).mp h.inMemory, (postgres_first_iff t limit).mp h.postgres⟩
  · intro h
    have hmemory := (inMemory_first_iff t limit).mpr h.inMemory
    have hpostgres := (postgres_first_iff t limit).mpr h.postgres
    exact ⟨hmemory, hpostgres, fun result hresult => (hpostgres result hresult).map_key hmemory⟩

/-! ## Finished transfers that fill the list -/

def storeTransfers (summaries : List TransferSummaryReadModel) : ReadSide :=
  summaries.foldl ReadSide.upsertTransferSummary (.empty .empty)

theorem storeTransfers_keyed (summaries : List TransferSummaryReadModel) : (storeTransfers summaries).Keyed := by
  suffices h : ∀ s : ReadSide, s.Keyed → (summaries.foldl ReadSide.upsertTransferSummary s).Keyed from
    h _ (ReadSide.Keyed.empty _)
  induction summaries with
  | nil => exact fun s hs => hs
  | cons summary summaries ih => exact fun s hs => ih _ (hs.perform (.upsertTransferSummary summary))

def StoredTransfers.ofList (summaries : List TransferSummaryReadModel) : StoredTransfers :=
  ⟨(storeTransfers summaries).transfers, (storeTransfers_keyed summaries).transfer⟩

def transferSummary (transferId : String) (status : TransferStatus) (failureStage : Option FailureStage)
    (updatedAt : Time) : TransferSummaryReadModel where
  transferId := some transferId
  sourceAccountId := "acc-1"
  destinationAccountId := "acc-2"
  amountMinorUnits := 1000
  amount := ⟨"10"⟩
  currency := "EUR"
  status := status
  failureStage := failureStage
  debitAttempts := 1
  creditAttempts := 1
  compensationAttempts := 1
  createdAt := 0
  updatedAt := updatedAt

/-- One transfer was compensated, another failed at the debit, and a third has come since. -/
def finishedFirst : StoredTransfers := .ofList
  [transferSummary "t-1" .COMPENSATED (some .CREDIT) 0, transferSummary "t-2" .FAILED (some .DEBIT) 0,
    transferSummary "t-3" .INITIATED none 1]

theorem pending_not_exact : (¬ ∀ t limit, PendingExact t limit) ∧
    ¬ ∀ t limit result, PostgresTransferReadModelRepository.ListsPendingTransfers t limit result →
      First (·.updatedAt) t.work limit result := by
  constructor
  · intro h
    have hfinished : ((InMemoryTransferReadModelRepository.listPendingTransfers finishedFirst 1).any
        fun summary => !summary.hasWork) = true := by decide +kernel
    obtain ⟨summary, hmem, hwork⟩ := List.any_eq_true.mp hfinished
    have hlisted := (List.mem_filter.mp ((h finishedFirst 1).inMemory.subset summary hmem)).2
    simp [hlisted] at hwork
  · intro h
    let rows := sort (·.updatedAt) (finishedFirst.summaries.values.filter PostgresTransferReadModelRepository.isPending)
    have hfirst := h finishedFirst 1 _ ⟨rows, StableSort.perm _, StableSort.pairwise _, rfl⟩
    have hfinished : (((rows.take 1).filterMap fun row => finishedFirst.summaries.get row.transferId).any
        fun summary => !summary.hasWork) = true := by decide +kernel
    obtain ⟨summary, hmem, hwork⟩ := List.any_eq_true.mp hfinished
    have hlisted := (List.mem_filter.mp (hfirst.subset summary hmem)).2
    simp [hlisted] at hwork

end CoreBanking
