import CoreBanking.Lib.Outline
import CoreBanking.ProjectorRules

/-!
# Deliveries

Projection passes deliver the events of one account stream in any order and any
number of times, and the calls they make interleave freely. A delivery computes
from a summary that may be stale by the time it is stored; the guard of the
upsert and the order of the two writes keep the read model right all the same.
-/

namespace CoreBanking

/-! ## Summaries and entries of a stream -/

structure AccountSummaryReadModel.Shows (summary : AccountSummaryReadModel) (account : AccountAggregate) : Prop where
  ownerId : account.ownerId = some summary.ownerId
  currency : account.currency = some summary.currency
  status : account.status = summary.status
  balanceMinorUnits : account.balanceMinorUnits = summary.balanceMinorUnits

def AccountStatementEntryReadModel.signedAmount (entry : AccountStatementEntryReadModel) : Int :=
  if entry.eventType = "MoneyWithdrawn" then -entry.amountMinorUnits.getD 0 else entry.amountMinorUnits.getD 0

theorem pairwise_insertionSort_concat {entries : List AccountStatementEntryReadModel}
    (h : entries.Pairwise fun left right => left.streamVersion < right.streamVersion)
    {entry : AccountStatementEntryReadModel} (hfresh : ∀ item ∈ entries, item.streamVersion ≠ entry.streamVersion) :
    ((entries ++ [entry]).insertionSort fun left right => left.streamVersion ≤ right.streamVersion).Pairwise
      fun left right => left.streamVersion < right.streamVersion := by
  have hne : (entries ++ [entry]).Pairwise fun left right => left.streamVersion ≠ right.streamVersion :=
    List.pairwise_append.mpr ⟨h.imp Nat.ne_of_lt, List.pairwise_singleton _ _, fun item hitem x hx =>
      List.mem_singleton.mp hx ▸ hfresh item hitem⟩
  have htotal : Std.Total fun left right : AccountStatementEntryReadModel => left.streamVersion ≤ right.streamVersion :=
    ⟨fun _ _ => Nat.le_total _ _⟩
  have htrans : IsTrans _ fun left right : AccountStatementEntryReadModel => left.streamVersion ≤ right.streamVersion :=
    ⟨fun _ _ _ => Nat.le_trans⟩
  have hsorted := List.pairwise_insertionSort
    (fun left right : AccountStatementEntryReadModel => left.streamVersion ≤ right.streamVersion) (entries ++ [entry])
  have hne' := ((List.perm_insertionSort (fun left right : AccountStatementEntryReadModel =>
    left.streamVersion ≤ right.streamVersion) (entries ++ [entry])).pairwise_iff fun hlr => hlr.symm).mpr hne
  exact hsorted.imp₂ (fun _ _ hle hneq => Nat.lt_of_le_of_ne hle hneq) hne'

def ReadSide.version (s : ReadSide) (accountId : String) : Nat :=
  (s.summaries.get (some accountId)).elim 0 (·.version)

namespace AccountProjector

section
variable [JsRuntime] {event : DomainEvent} {details : Option TransferStatementDetails}

@[simp] theorem statementEntry_eventId : (statementEntry event details).eventId = event.eventId := by
  unfold statementEntry
  split <;> rfl

@[simp] theorem statementEntry_streamVersion :
    (statementEntry event details).streamVersion = event.streamVersion := by
  unfold statementEntry
  split <;> rfl

@[simp] theorem statementEntry_accountId : (statementEntry event details).accountId = event.data.accountId := by
  unfold statementEntry
  split <;> rename_i hd <;> first | rfl | (rw [hd]; rfl)

@[simp] theorem statementEntry_signedAmount :
    (statementEntry event details).signedAmount = event.data.signedAmount := by
  unfold statementEntry AccountStatementEntryReadModel.signedAmount EventData.signedAmount
  cases hd : event.data <;> simp [movementEntry, hd, EventData.eventType]

theorem advance_shows {es : List DomainEvent} {k : Nat} (hk : es[k]? = some event)
    (hversion : event.streamVersion = k + 1) {accountId : String} (hid : event.data.accountId = some accountId)
    {existing : Option AccountSummaryReadModel}
    (hexisting : ∀ summary, existing = some summary →
      summary.accountId = some accountId ∧ summary.Shows (AccountAggregate.replay (es.take summary.version)))
    {next : AccountSummaryReadModel} (h : advance event existing = .ok (some next)) :
    next.accountId = some accountId ∧ next.version = k + 1 ∧ existing.elim 0 (·.version) = k ∧
      next.Shows (AccountAggregate.replay (es.take (k + 1))) := by
  have hreplay : AccountAggregate.replay (es.take (k + 1)) = (AccountAggregate.replay (es.take k)).when event := by
    rw [List.take_add_one, hk]
    exact AccountAggregate.replay_snoc _ _
  rw [hreplay]
  unfold advance at h
  split at h
  · split at h
    case h_1 hd =>
      split at h
      · cases h
      · cases h
        rw [hd] at hid
        obtain rfl : k = 0 := by omega
        refine ⟨hid, hversion, rfl, ?_⟩
        rw [AccountAggregate.when, hd]
        exact ⟨rfl, rfl, rfl, rfl⟩
    · cases h
  case h_2 summary =>
    obtain ⟨hkey, hshows⟩ := hexisting summary rfl
    split at h
    · cases h
    · split at h
      · cases h
      case isFalse hnew hnext =>
        cases h
        have hs : event.streamVersion = summary.version + 1 := Classical.not_not.mp fun hne => hnext (.inr hne)
        obtain rfl : summary.version = k := by omega
        refine ⟨by rw [nextSummary_accountId, hkey], by rw [nextSummary_version, hversion], rfl, ?_⟩
        obtain ⟨howner, hcurrency, hstatus, hbalance⟩ := hshows
        unfold AccountAggregate.when nextSummary
        cases hd : event.data with
        | AccountCreated => rw [hd] at hnext; exact absurd (.inl rfl) hnext
        | MoneyDeposited | MoneyWithdrawn => exact ⟨howner, hcurrency, hstatus, by simp [hbalance]⟩
        | AccountFrozen => exact ⟨howner, hcurrency, rfl, hbalance⟩
        | _ => rw [hd] at hid; cases hid

theorem advance_ahead {existing : Option AccountSummaryReadModel}
    (h : existing.elim 0 (·.version) + 1 < event.streamVersion) : ∃ e, advance event existing = .error e := by
  unfold advance
  split
  · simp only [Option.elim_none] at h
    split
    · exact ⟨_, if_pos (by omega)⟩
    · exact ⟨_, rfl⟩
  · simp only [Option.elim_some] at h
    rw [if_neg (by omega), if_pos (.inr (by omega))]
    exact ⟨_, rfl⟩

end

end AccountProjector

/-! ## The read side under deliveries -/

/-- A call as it should go. The transfers are projected at the same time, so
they may answer anything. -/
inductive DeliveryStep : (op : ReadOp) → ReadSide → Except Failure op.Result → ReadSide → Prop
  | performed {op s} : DeliveryStep op s (ReadSide.perform op s).1 (ReadSide.perform op s).2
  | transfer {transferId s} (summary : Option TransferSummaryReadModel) :
      DeliveryStep (.getTransferSummary transferId) s (.ok summary) s

/-- Deliveries of the events of `es`. A pass makes one after the other; here
any may start at any time. -/
def deliveries [JsRuntime] (es : List DomainEvent) : System ReadOp ReadOp.Result Failure ReadSide DomainEvent Bool where
  init := .empty .empty
  admits event := event ∈ es
  body := AccountProjector.project
  step _ _ := DeliveryStep
  crashes := False

abbrev DeliveryConfig := Config ReadOp ReadOp.Result Failure ReadSide DomainEvent Bool

namespace ReadSide

variable {s : ReadSide} {accountId : String}

theorem version_of_get {summary : AccountSummaryReadModel} (h : s.summaries.get (some accountId) = some summary) :
    s.version accountId = summary.version := by
  simp [version, h]

theorem version_perform (op : ReadOp) (s : ReadSide) : s.version accountId ≤ (perform op s).2.version accountId := by
  cases op with
  | upsertAccountSummary summary =>
    simp only [perform, upsertAccountSummary]
    split
    · exact Nat.le_refl _
    case isFalse hnewer =>
      simp only [version, OrderedMap.get_set]
      split
      case isTrue heq =>
        cases hget : s.summaries.get (some accountId) with
        | none => simp
        | some current =>
          rw [heq, hget] at hnewer
          simp at hnewer ⊢
          omega
      · exact Nat.le_refl _
  | appendAccountStatement entry => simp [perform, version]
  | upsertTransferSummary summary => simp [perform, version]
  | _ => exact Nat.le_refl _

theorem statement_append (entry : AccountStatementEntryReadModel) (accountId : Option String) :
    (s.appendAccountStatement entry).statement accountId =
      if entry.accountId = accountId ∧ ∀ item ∈ s.statement accountId, item.eventId ≠ entry.eventId then
        (s.statement accountId ++ [entry]).insertionSort fun left right => left.streamVersion ≤ right.streamVersion
      else s.statement accountId := by
  unfold appendAccountStatement
  dsimp only
  by_cases hid : entry.accountId = accountId
  · subst hid
    by_cases hseen : (s.statement entry.accountId).any (fun item => item.eventId == entry.eventId) = true
    · rw [if_pos hseen, if_neg]
      rintro ⟨-, hfresh⟩
      obtain ⟨item, hitem, heq⟩ := List.any_eq_true.mp hseen
      exact hfresh item hitem (by simpa using heq)
    · rw [if_neg hseen, if_pos]
      · simp [statement]
      · refine ⟨rfl, fun item hitem heq => hseen (List.any_eq_true.mpr ⟨item, hitem, by simpa using heq⟩)⟩
  · rw [if_neg (show ¬(entry.accountId = accountId ∧ _) from fun h => hid h.1)]
    split
    · rfl
    · simp [statement, OrderedMap.get_set_of_ne _ _ hid]

end ReadSide

/-- The read model of an account as a view of its stream: the summary is that of
the first events, and each of them has its entry, unless it is owed one. -/
structure AccountView [JsRuntime] (accountId : String) (es : List DomainEvent) (s : ReadSide) (owed : Nat → Prop) :
    Prop where
  keyed : s.Keyed
  summary : ∀ {summary}, s.summaries.get (some accountId) = some summary →
    0 < summary.version ∧ summary.version ≤ es.length ∧
      summary.Shows (AccountAggregate.replay (es.take summary.version))
  sorted : (s.statement (some accountId)).Pairwise fun left right => left.streamVersion < right.streamVersion
  entries : ∀ entry ∈ s.statement (some accountId), ∃ (k : Nat) (event : DomainEvent)
    (details : Option AccountProjector.TransferStatementDetails), es[k]? = some event ∧
    entry = AccountProjector.statementEntry event details
  covered : ∀ {k : Nat} {event : DomainEvent}, es[k]? = some event → k < s.version accountId →
    (∃ entry ∈ s.statement (some accountId), entry.eventId = event.eventId) ∨ owed k

namespace AccountView

variable [JsRuntime] {accountId : String} {es : List DomainEvent} {s : ReadSide} {owed owed' : Nat → Prop} {k : Nat}
  {event : DomainEvent}

theorem mono (h : AccountView accountId es s owed) (howed : ∀ k, owed k → owed' k) :
    AccountView accountId es s owed' where
  keyed := h.keyed
  summary := h.summary
  sorted := h.sorted
  entries := h.entries
  covered he hlt := (h.covered he hlt).imp_right (howed _)

theorem version_le (h : AccountView accountId es s owed) : s.version accountId ≤ es.length := by
  cases hget : s.summaries.get (some accountId) with
  | none => simp [ReadSide.version, hget]
  | some summary =>
    rw [ReadSide.version_of_get hget]
    exact (h.summary hget).2.1

theorem upsert (h : AccountView accountId es s owed) (hk : es[k]? = some event) {next : AccountSummaryReadModel}
    (hkey : next.accountId = some accountId) (hversion : next.version = k + 1)
    (hshows : next.Shows (AccountAggregate.replay (es.take (k + 1))))
    (hread : k ≤ s.version accountId) (howed : owed k) :
    AccountView accountId es (s.upsertAccountSummary next) owed ∧
      k < (s.upsertAccountSummary next).version accountId := by
  by_cases hold : k < s.version accountId
  · obtain ⟨current, hget⟩ : ∃ current, s.summaries.get (some accountId) = some current := by
      cases hget : s.summaries.get (some accountId) with
      | none => simp [ReadSide.version, hget] at hold
      | some current => exact ⟨current, rfl⟩
    have hcurrent := ReadSide.version_of_get hget
    rw [ReadSide.upsertAccountSummary_older (hkey ▸ hget) (by omega)]
    exact ⟨h, hold⟩
  · have hnewer : ∀ current, s.summaries.get next.accountId = some current → current.version < next.version := by
      intro current hget
      rw [hkey] at hget
      rw [← ReadSide.version_of_get hget]
      omega
    have hset := ReadSide.upsertAccountSummary_newer hnewer
    have hget : (s.upsertAccountSummary next).summaries.get (some accountId) = some next := by
      rw [hset, hkey, OrderedMap.get_set_self]
    have hstatement : (s.upsertAccountSummary next).statement (some accountId) = s.statement (some accountId) := by
      rw [ReadSide.statement, ReadSide.upsertAccountSummary_statements]
      rfl
    have hv := ReadSide.version_of_get hget
    have hlen : k < es.length := (List.getElem?_eq_some_iff.mp hk).1
    refine ⟨⟨h.keyed.perform (.upsertAccountSummary next), fun {summary} hsummary => ?_, ?_, ?_,
      fun {k' event'} he hlt => ?_⟩, by omega⟩
    · rw [hget] at hsummary
      obtain rfl := Option.some.inj hsummary
      rw [hversion]
      exact ⟨by omega, by omega, hshows⟩
    · rw [hstatement]
      exact h.sorted
    · rw [hstatement]
      exact h.entries
    · rw [hstatement]
      by_cases hlast : k' = k
      · exact .inr (hlast ▸ howed)
      · exact h.covered he (by omega)

theorem append (h : AccountView accountId es s owed) (hes : AccountStream accountId es)
    (hid : event.data.accountId = some accountId) (hk : es[k]? = some event)
    (details : Option AccountProjector.TransferStatementDetails) :
    AccountView accountId es (s.appendAccountStatement (AccountProjector.statementEntry event details))
      fun k' => owed k' ∧ k' ≠ k := by
  have hversion : (s.appendAccountStatement (AccountProjector.statementEntry event details)).version accountId =
      s.version accountId := by
    rw [ReadSide.version, ReadSide.appendAccountStatement_summaries]
    rfl
  have hstatement := s.statement_append (AccountProjector.statementEntry event details) (some accountId)
  simp only [AccountProjector.statementEntry_accountId, hid, true_and, AccountProjector.statementEntry_eventId]
    at hstatement
  have hkeyed := h.keyed.perform (.appendAccountStatement (AccountProjector.statementEntry event details))
  have hsummary : ∀ {summary}, (s.appendAccountStatement (AccountProjector.statementEntry event details)).summaries.get
      (some accountId) = some summary → 0 < summary.version ∧ summary.version ≤ es.length ∧
        summary.Shows (AccountAggregate.replay (es.take summary.version)) := by
    intro summary hget
    rw [ReadSide.appendAccountStatement_summaries] at hget
    exact h.summary hget
  by_cases hfresh : ∀ item ∈ s.statement (some accountId), item.eventId ≠ event.eventId
  · rw [if_pos hfresh] at hstatement
    have hmem : ∀ {entry}, entry ∈ (s.appendAccountStatement (AccountProjector.statementEntry event details)).statement
        (some accountId) ↔ entry ∈ s.statement (some accountId) ∨
          entry = AccountProjector.statementEntry event details := by
      intro entry
      rw [hstatement, List.mem_insertionSort]
      simp
    refine ⟨hkeyed, hsummary, ?_, fun entry hentry => ?_, fun {k' event'} he hlt => ?_⟩
    · rw [hstatement]
      refine pairwise_insertionSort_concat h.sorted fun item hitem heq => ?_
      obtain ⟨k', event', details', he, rfl⟩ := h.entries item hitem
      rw [AccountProjector.statementEntry_streamVersion, AccountProjector.statementEntry_streamVersion,
        hes.streamVersion he, hes.streamVersion hk] at heq
      obtain rfl : k' = k := by omega
      obtain rfl : event' = event := Option.some.inj (he.symm.trans hk)
      exact hfresh _ hitem AccountProjector.statementEntry_eventId
    · rcases hmem.mp hentry with hentry | rfl
      · exact h.entries entry hentry
      · exact ⟨k, event, details, hk, rfl⟩
    · rw [hversion] at hlt
      by_cases hlast : k' = k
      · subst hlast
        obtain rfl : event' = event := Option.some.inj (he.symm.trans hk)
        exact .inl ⟨_, hmem.mpr (.inr rfl), AccountProjector.statementEntry_eventId⟩
      · rcases h.covered he hlt with ⟨entry, hentry, heq⟩ | hpending
        · exact .inl ⟨entry, hmem.mpr (.inl hentry), heq⟩
        · exact .inr ⟨hpending, hlast⟩
  · rw [if_neg hfresh] at hstatement
    obtain ⟨item, hitem, heq⟩ : ∃ item ∈ s.statement (some accountId), item.eventId = event.eventId := by
      by_contra hnone
      exact hfresh fun item hitem heq => hnone ⟨item, hitem, heq⟩
    refine ⟨hkeyed, hsummary, ?_, ?_, fun {k' event'} he hlt => ?_⟩
    · rw [hstatement]
      exact h.sorted
    · rw [hstatement]
      exact h.entries
    · rw [hversion] at hlt
      rw [hstatement]
      by_cases hlast : k' = k
      · subst hlast
        obtain rfl : event' = event := Option.some.inj (he.symm.trans hk)
        exact .inl ⟨item, hitem, heq⟩
      · exact (h.covered he hlt).imp_right fun hpending => ⟨hpending, hlast⟩

/-- With no entry owed, the statement is complete. -/
theorem versions (h : AccountView accountId es s owed) (hes : AccountStream accountId es)
    (hids : (es.map DomainEvent.eventId).Nodup) (howed : ∀ k, ¬ owed k)
    (hpast : ∀ entry ∈ s.statement (some accountId), entry.streamVersion ≤ s.version accountId) :
    (s.statement (some accountId)).map (·.streamVersion) = List.range' 1 (s.version accountId) := by
  have hsorted : ((s.statement (some accountId)).map (·.streamVersion)).Pairwise (· < ·) :=
    List.pairwise_map.mpr h.sorted
  refine hsorted.eq_of_mem_iff List.pairwise_lt_range' fun v => ?_
  rw [List.mem_range'_1, List.mem_map]
  constructor
  · rintro ⟨entry, hentry, rfl⟩
    have hle := hpast entry hentry
    obtain ⟨k, event, details, hk, rfl⟩ := h.entries entry hentry
    rw [AccountProjector.statementEntry_streamVersion, hes.streamVersion hk] at hle ⊢
    omega
  · rintro ⟨hpos, hle⟩
    have hlen := h.version_le
    have hk : es[v - 1]? = some es[v - 1] := List.getElem?_eq_getElem (by omega)
    obtain ⟨entry, hentry, heq⟩ := (h.covered hk (by omega)).resolve_right (howed _)
    obtain ⟨k, event, details, hk', rfl⟩ := h.entries entry hentry
    rw [AccountProjector.statementEntry_eventId] at heq
    have hsame : (es.map DomainEvent.eventId)[k]? = (es.map DomainEvent.eventId)[v - 1]? := by
      rw [List.getElem?_map, List.getElem?_map, hk', hk, Option.map_some, Option.map_some, heq]
    have hlt : k < es.length := (List.getElem?_eq_some_iff.mp hk').1
    have hkv := (List.getElem?_inj (by rwa [List.length_map]) hids).mp hsame
    refine ⟨_, hentry, ?_⟩
    rw [AccountProjector.statementEntry_streamVersion, hes.streamVersion hk']
    omega

end AccountView

/-- What every delivery keeps, when the `i`-th has stored the summary with the
event at position `gs i` and not yet its entry. -/
structure DeliveryInv [JsRuntime] (accountId : String) (es : List DomainEvent) (s : ReadSide)
    (gs : Nat → Option Nat) : Prop where
  keyed : s.Keyed
  summary : ∀ {summary}, s.summaries.get (some accountId) = some summary →
    0 < summary.version ∧ summary.version ≤ es.length ∧
      summary.Shows (AccountAggregate.replay (es.take summary.version))
  sorted : (s.statement (some accountId)).Pairwise fun left right => left.streamVersion < right.streamVersion
  entries : ∀ entry ∈ s.statement (some accountId), ∃ k event details, es[k]? = some event ∧
    k < s.version accountId ∧ entry = AccountProjector.statementEntry event details
  covered : ∀ {k event}, es[k]? = some event → k < s.version accountId →
    (∃ entry ∈ s.statement (some accountId), entry.eventId = event.eventId) ∨ ∃ i, gs i = some k

section
variable [JsRuntime] {accountId : String} {es : List DomainEvent} (hes : AccountStream accountId es)
  (hids : (es.map DomainEvent.eventId).Nodup) (hshape : AccountShape accountId es)

def deliveryOutline (accountId : String) (es : List DomainEvent) : Outline (deliveries es) (Option Nat) where
  idle := none
  le s s' := s.version accountId ≤ s'.version accountId
  inv := DeliveryInv accountId es
  le_refl _ := Nat.le_refl _
  le_trans := Nat.le_trans
  le_step h := by
    cases h with
    | performed => exact ReadSide.version_perform _ _
    | transfer => exact Nat.le_refl _

section
variable {s : ReadSide} {gs : Nat → Option Nat} {i k : Nat} {event : DomainEvent}

theorem DeliveryInv.empty : DeliveryInv accountId es (.empty .empty) fun _ => none where
  keyed := .empty _
  summary h := by cases h
  sorted := .nil
  entries _ h := by cases h
  covered _ h := absurd h (Nat.not_lt_zero _)

theorem DeliveryInv.view (h : DeliveryInv accountId es s gs) :
    AccountView accountId es s fun k => ∃ i, gs i = some k where
  keyed := h.keyed
  summary := h.summary
  sorted := h.sorted
  entries entry hentry := by
    obtain ⟨k, event, details, hk, -, rfl⟩ := h.entries entry hentry
    exact ⟨k, event, details, hk, rfl⟩
  covered := h.covered

include hes in
theorem DeliveryInv.past (h : DeliveryInv accountId es s gs) :
    ∀ entry ∈ s.statement (some accountId), entry.streamVersion ≤ s.version accountId := by
  intro entry hentry
  obtain ⟨k, event, details, hk, hlt, rfl⟩ := h.entries entry hentry
  rw [AccountProjector.statementEntry_streamVersion, hes.streamVersion hk]
  exact hlt

include hes in
theorem DeliveryInv.of_view (h : AccountView accountId es s fun k => ∃ i, gs i = some k)
    (hpast : ∀ entry ∈ s.statement (some accountId), entry.streamVersion ≤ s.version accountId) :
    DeliveryInv accountId es s gs where
  keyed := h.keyed
  summary := h.summary
  sorted := h.sorted
  entries entry hentry := by
    have hle := hpast entry hentry
    obtain ⟨k, event, details, hk, rfl⟩ := h.entries entry hentry
    rw [AccountProjector.statementEntry_streamVersion, hes.streamVersion hk] at hle
    exact ⟨k, event, details, hk, hle, rfl⟩
  covered := h.covered

include hes in
theorem DeliveryInv.upsert (h : DeliveryInv accountId es s gs) (hk : es[k]? = some event) (hg : gs i = none)
    {next : AccountSummaryReadModel} (hkey : next.accountId = some accountId) (hversion : next.version = k + 1)
    (hshows : next.Shows (AccountAggregate.replay (es.take (k + 1)))) (hread : k ≤ s.version accountId) :
    DeliveryInv accountId es (s.upsertAccountSummary next) (Function.update gs i (some k)) ∧
      k < (s.upsertAccountSummary next).version accountId := by
  have howed : ∀ k', (∃ j, gs j = some k') → ∃ j, Function.update gs i (some k) j = some k' := by
    rintro k' ⟨j, hj⟩
    refine ⟨j, ?_⟩
    rw [Function.update_of_ne, hj]
    rintro rfl
    rw [hg] at hj
    cases hj
  obtain ⟨hview, hstored⟩ := (h.view.mono howed).upsert hk hkey hversion hshows hread ⟨i, Function.update_self ..⟩
  refine ⟨.of_view hes hview fun entry hentry => ?_, hstored⟩
  have hstatement : (s.upsertAccountSummary next).statement (some accountId) = s.statement (some accountId) := by
    rw [ReadSide.statement, ReadSide.upsertAccountSummary_statements]
    rfl
  rw [hstatement] at hentry
  exact Nat.le_trans (h.past hes entry hentry) (ReadSide.version_perform (.upsertAccountSummary next) s)

include hes hshape

theorem DeliveryInv.append (h : DeliveryInv accountId es s gs) (hk : es[k]? = some event) (hg : gs i = some k)
    (hstored : k < s.version accountId) (details : Option AccountProjector.TransferStatementDetails) :
    DeliveryInv accountId es (s.appendAccountStatement (AccountProjector.statementEntry event details))
      (Function.update gs i none) := by
  have hid := hshape.accountId event (List.mem_of_getElem? hk)
  have howed : ∀ k', (∃ j, gs j = some k') ∧ k' ≠ k → ∃ j, Function.update gs i none j = some k' := by
    rintro k' ⟨⟨j, hj⟩, hne⟩
    refine ⟨j, ?_⟩
    rw [Function.update_of_ne, hj]
    rintro rfl
    rw [hg] at hj
    exact hne (Option.some.inj hj).symm
  refine .of_view hes ((h.view.append hes hid hk details).mono howed) fun entry hentry => ?_
  have hversion : s.version accountId ≤
      (s.appendAccountStatement (AccountProjector.statementEntry event details)).version accountId :=
    ReadSide.version_perform (.appendAccountStatement (AccountProjector.statementEntry event details)) s
  refine Nat.le_trans ?_ hversion
  rw [s.statement_append] at hentry
  split at hentry
  · rw [List.mem_insertionSort, List.mem_append, List.mem_singleton] at hentry
    rcases hentry with hentry | rfl
    · exact h.past hes entry hentry
    · rw [AccountProjector.statementEntry_streamVersion, hes.streamVersion hk]
      exact hstored
  · exact h.past hes entry hentry

end

/-! ## One delivery -/

theorem wp_statementDetails {q event : DomainEvent} {s : ReadSide} :
    (deliveryOutline accountId es).wp q (AccountProjector.statementDetails event) s none
      fun _ g r => g = none ∧ ∃ details, r = .ok details := by
  have hget : ∀ accountId', (deliveryOutline accountId es).wp q
      (AccountProjector.getTransferStatementDetails event accountId') s none
      fun _ g r => g = none ∧ ∃ details, r = .ok details := by
    intro accountId'
    unfold AccountProjector.getTransferStatementDetails
    dsimp only
    split
    · exact Outline.wp_pure ⟨rfl, _, rfl⟩
    · refine Outline.wp_bind (Outline.wp_call fun i s₁ gs _ hinv hg r s₂ hstep => ⟨none, ?_⟩)
      rw [Outline.update_ghost hg]
      cases hstep with
      | performed | transfer =>
        refine ⟨hinv, ?_⟩
        dsimp only [ReadSide.perform]
        split <;> exact Outline.wp_pure ⟨rfl, _, rfl⟩
  unfold AccountProjector.statementDetails
  split
  · exact hget _
  · exact hget _
  · exact Outline.wp_pure ⟨rfl, _, rfl⟩

include hes hshape

/-- Every delivery keeps the invariant, and leaves no entry to be written. -/
theorem wp_project {event : DomainEvent} (hevent : event ∈ es) (s : ReadSide) :
    (deliveryOutline accountId es).wp event (AccountProjector.project event) s none fun _ g _ => g = none := by
  obtain ⟨k, hk⟩ := List.mem_iff_getElem?.mp hevent
  have hid := hshape.accountId event hevent
  rw [AccountProjector.project_eq hid, AccountProjector.shape]
  refine Outline.wp_bind (Outline.wp_call fun i s₁ gs _ hinv hg r s₂ hstep => ⟨none, ?_⟩)
  rw [Outline.update_ghost hg]
  cases hstep
  refine ⟨hinv, ?_⟩
  dsimp only [ReadSide.perform]
  have hinv : DeliveryInv accountId es s₁ gs := hinv
  split
  · exact Outline.wp_throw rfl
  · exact Outline.wp_pure rfl
  case h_3 next hadvance =>
    obtain ⟨hkey, hnext, hread, hshows⟩ := AccountProjector.advance_shows hk (hes.streamVersion hk) hid
      (fun summary hget => ⟨hinv.keyed.account hget, (hinv.summary hget).2.2⟩) hadvance
    have hread : s₁.version accountId = k := hread
    refine Outline.wp_bind (Outline.wp_mono (fun s₂ g r hle hr => ?_) wp_statementDetails)
    obtain ⟨rfl, details, rfl⟩ := hr
    have hle : s₁.version accountId ≤ s₂.version accountId := hle
    refine Outline.wp_bind (Outline.wp_call fun i s₃ gs' hle' hinv' hg' r s₄ hstep => ⟨some k, ?_⟩)
    have hle' : s₂.version accountId ≤ s₃.version accountId := hle'
    cases hstep
    obtain ⟨hinv₄, hstored⟩ := DeliveryInv.upsert hes hinv' hk hg' hkey hnext hshows (by omega)
    refine ⟨hinv₄, ?_⟩
    refine Outline.wp_bind (Outline.wp_call fun i s₅ gs'' hle'' hinv'' hg'' r s₆ hstep => ⟨none, ?_⟩)
    have hle'' : (s₃.upsertAccountSummary next).version accountId ≤ s₅.version accountId := hle''
    cases hstep
    exact ⟨DeliveryInv.append hes hshape hinv'' hk hg'' (by omega) details, Outline.wp_pure rfl⟩

end

/-! ## Every run of deliveries -/

structure DeliveredWell [JsRuntime] (accountId : String) (es : List DomainEvent) (c : DeliveryConfig) : Prop where
  summary : ∀ {summary}, c.state.summaries.get (some accountId) = some summary →
    summary.version ≤ es.length ∧ summary.Shows (AccountAggregate.replay (es.take summary.version))
  sorted : (c.state.statement (some accountId)).Pairwise fun left right => left.streamVersion < right.streamVersion
  entries : ∀ entry ∈ c.state.statement (some accountId), ∃ k event details, es[k]? = some event ∧
    entry.streamVersion = k + 1 ∧ entry = AccountProjector.statementEntry event details ∧
    entry.signedAmount = event.data.signedAmount
  ahead : ∀ {i : Nat} {event op} {k : Except Failure (ReadOp.Result op) → Projection Bool} {r s'},
    c.threads[i]? = some ⟨event, some (.await op k)⟩ → .await op k = AccountProjector.project event →
    DeliveryStep op c.state r s' →
    c.state.version accountId + 1 < event.streamVersion → s' = c.state ∧ ∃ e, k r = .done (.error e)
  settled : System.Quiescent c →
    (c.state.statement (some accountId)).map (·.streamVersion) = List.range' 1 (c.state.version accountId) ∧
    ∀ {summary}, c.state.summaries.get (some accountId) = some summary →
      ((c.state.statement (some accountId)).map (·.signedAmount)).sum = summary.balanceMinorUnits

section
variable [JsRuntime] {accountId : String} {es : List DomainEvent} {s : ReadSide} {gs : Nat → Option Nat}

theorem DeliveryInv.versions (h : DeliveryInv accountId es s gs) (hes : AccountStream accountId es)
    (hids : (es.map DomainEvent.eventId).Nodup) (hidle : ∀ i, gs i = none) :
    (s.statement (some accountId)).map (·.streamVersion) = List.range' 1 (s.version accountId) := by
  refine h.view.versions hes hids ?_ (h.past hes)
  rintro k ⟨i, hi⟩
  rw [hidle i] at hi
  cases hi

omit [JsRuntime] in
theorem replay_signedAmount (es : List DomainEvent) :
    (AccountAggregate.replay es).balanceMinorUnits = (es.map fun event => event.data.signedAmount).sum := by
  induction es using List.reverseRecOn with
  | nil => rfl
  | append_singleton es e ih =>
    rw [AccountAggregate.replay_snoc, AccountAggregate.when_balance, ih]
    simp

theorem DeliveryInv.signedSum (h : DeliveryInv accountId es s gs) (hes : AccountStream accountId es)
    (hversions : (s.statement (some accountId)).map (·.streamVersion) = List.range' 1 (s.version accountId)) :
    ((s.statement (some accountId)).map (·.signedAmount)).sum =
      (AccountAggregate.replay (es.take (s.version accountId))).balanceMinorUnits := by
  have hlen := h.view.version_le
  have hamounts : (s.statement (some accountId)).map (·.signedAmount) =
      ((s.statement (some accountId)).map (·.streamVersion)).map
        fun v => (es[v - 1]?).elim 0 fun event => event.data.signedAmount := by
    rw [List.map_map]
    refine List.map_congr_left fun entry hentry => ?_
    obtain ⟨k, event, details, hk, -, rfl⟩ := h.entries entry hentry
    simp [hes.streamVersion hk, hk]
  rw [replay_signedAmount, hamounts, hversions]
  congr 1
  refine List.ext_getElem? fun j => ?_
  by_cases hj : j < s.version accountId
  · have hget : es[j]? = some es[j] := List.getElem?_eq_getElem (by omega)
    simp [hj, hget]
  · rw [List.getElem?_eq_none (by simp; omega), List.getElem?_eq_none (by simp; omega)]

/-- **Account projection is correct under any delivery.** -/
theorem deliveries_correct (hne : accountId ≠ "") (hes : AccountHistory accountId es)
    (hhead : ∀ event ∈ es.head?, event.data.isAccountCreated = true)
    (hids : (es.map DomainEvent.eventId).Nodup) {c : DeliveryConfig} (hc : (deliveries es).Reachable c) :
    DeliveredWell accountId es c := by
  have hes := hes.stream
  have hshape := (hes.shape hne hhead).1
  let post : DomainEvent → ReadSide → Option Nat → Except Failure Bool → Prop := fun _ _ g _ => g = none
  obtain ⟨gs, ht⟩ := @Outline.sound _ _ _ _ _ _ _ _ (deliveryOutline accountId es) post
    DeliveryInv.empty (fun event s hevent => wp_project hes hshape hevent s) c hc
  have hinv : DeliveryInv accountId es c.state gs := ht.inv
  refine ⟨fun hget => (hinv.summary hget).2, hinv.sorted, fun entry hentry => ?_, ?_, fun hquiet => ?_⟩
  · obtain ⟨k, event, details, hk, -, rfl⟩ := hinv.entries entry hentry
    exact ⟨k, event, details, hk, by rw [AccountProjector.statementEntry_streamVersion, hes.streamVersion hk], rfl,
      AccountProjector.statementEntry_signedAmount⟩
  · intro i event op k r s' hi hproject hstep hahead
    have hevent : event ∈ es := hc.admitted _ (List.mem_of_getElem? hi)
    have hid := hshape.accountId event hevent
    rw [AccountProjector.project_eq hid] at hproject
    obtain ⟨rfl, hk⟩ := Async.await.inj hproject
    obtain rfl := eq_of_heq hk
    cases hstep
    obtain ⟨e, he⟩ := AccountProjector.advance_ahead hahead
    refine ⟨rfl, e, ?_⟩
    simp only [ReadSide.perform, Async.bind, he]
    rfl
  · have hidle : ∀ i, gs i = none := by
      intro i
      by_cases hi : i < c.threads.length
      · obtain ⟨_, _, _, _, hidle⟩ := ht.quiescent hc id hquiet (List.getElem?_eq_getElem hi)
        exact hidle
      · exact ht.fresh i (by omega)
    have hversions := hinv.versions hes hids hidle
    refine ⟨hversions, fun {summary} hget => ?_⟩
    rw [hinv.signedSum hes hversions, ReadSide.version_of_get hget]
    exact (hinv.summary hget).2.2.balanceMinorUnits

end

def frozenStream : List DomainEvent :=
  let context : CommandContext := { commandId := "key-1", correlationId := "corr-1" }
  [⟨"event-1", "account-acc-1", 1, 0, .AccountCreated "acc-1" "owner-1" "EUR", context⟩,
    ⟨"event-2", "account-acc-1", 2, 1, .MoneyDeposited (some "acc-1") (.format 1025) "EUR" "tx-1", context⟩,
    ⟨"event-3", "account-acc-1", 3, 2, .AccountFrozen (some "acc-1") "fraud", context⟩]

theorem frozenStream_history : AccountHistory "acc-1" frozenStream := by
  let context : CommandContext := { commandId := "key-1", correlationId := "corr-1" }
  let create : AccountCommand := .CreateAccount "acc-1" "owner-1" "EUR" context
  let deposit : AccountCommand := .DepositMoney "acc-1" ⟨"10.25"⟩ "EUR" context "tx-1"
  let freeze : AccountCommand := .FreezeAccount "acc-1" "fraud" context
  have created : AccountHistory "acc-1" (frozenStream.take 1) :=
    @AccountHistory.commit _ _ create _ .nil rfl (.mk ⟨"event-1", 0⟩ (.create rfl))
  have deposited : AccountHistory "acc-1" (frozenStream.take 2) :=
    @AccountHistory.commit _ _ deposit _ created rfl (.mk ⟨"event-2", 1⟩ (.deposit rfl rfl (by decide) (by decide)))
  exact @AccountHistory.commit _ _ freeze _ deposited rfl (.mk ⟨"event-3", 2⟩ (.freeze (by decide) rfl))

def deliverAll (es : List DomainEvent) (events : List DomainEvent) : DeliveryConfig :=
  (@deliveries decimalRuntime es).schedule (fun _ _ op s => some (ReadSide.perform op s)) (events.map (.serve · 10))

theorem deliverAll_reachable {es events : List DomainEvent} (h : ∀ event ∈ events, event ∈ es) :
    (@deliveries decimalRuntime es).Reachable (deliverAll es events) := by
  refine System.reachable_schedule _ (fun event n hevent => ?_) fun hr => ?_
  · obtain ⟨event', hmem, heq⟩ := List.mem_map.mp hevent
    obtain ⟨rfl, -⟩ := System.Move.serve.inj heq
    exact h event' hmem
  · obtain ⟨rfl, rfl⟩ := Prod.mk.inj (Option.some.inj hr)
    exact .performed

/-- The freeze comes too early at first, and the deposit twice. -/
theorem deliveries_correct_frozen :
    let c := deliverAll frozenStream (frozenStream.drop 2 ++ frozenStream.take 2 ++ frozenStream.drop 1)
    c.state.version "acc-1" = 3 ∧ @DeliveredWell decimalRuntime "acc-1" frozenStream c := by
  refine ⟨by decide +kernel, @deliveries_correct decimalRuntime _ _ (by decide) frozenStream_history ?_ (by decide) _
    (deliverAll_reachable ?_)⟩
  · intro event he
    obtain rfl := Option.some.inj he
    rfl
  · decide

end CoreBanking
