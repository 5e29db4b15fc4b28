import CoreBanking.Lib.Paging
import CoreBanking.Stores
import Mathlib.Data.List.MinMax
import Mathlib.Order.Nat

/-!
# The Postgres event store

`append` as the statements of its transaction, any number of them at once. A row
takes its position when it is inserted and is seen once its transaction has
committed. Within a stream the lock makes positions follow versions; between
streams nothing does.
-/

namespace CoreBanking

/-- Where a transaction stands: behind `BEGIN`; with the lock of its stream;
with the version checked and so many events inserted; behind an error, with the
lock; or at its end. -/
inductive TransactionStage
  | began
  | locked
  | inserting (currentVersion inserted : Nat)
  | failed
  | committed
  | rolledBack
deriving DecidableEq

namespace TransactionStage

def holdsLock : TransactionStage → Bool
  | .locked | .inserting _ _ | .failed => true
  | _ => false

def isInserting : TransactionStage → Bool
  | .inserting _ _ => true
  | _ => false

end TransactionStage

structure AppendTransaction where
  streamId : String
  events : List DomainEvent
  expectedVersion : Nat
  stage : TransactionStage
deriving DecidableEq

structure EventRow extends PositionedEvent where
  transaction : Nat

/-- The table `events` with all rows inserted, the sequence behind `id`, and the
transactions in the order in which they have begun. -/
structure EventsTable where
  rows : List EventRow
  nextId : Nat
  transactions : List AppendTransaction

namespace EventsTable

def empty : EventsTable := ⟨[], 1, []⟩

def stageOf (T : EventsTable) (i : Nat) : Option TransactionStage := T.transactions[i]?.map AppendTransaction.stage

/-- What a statement of another transaction sees. -/
def visible (T : EventsTable) : List PositionedEvent :=
  (T.rows.filter fun row => T.stageOf row.transaction = some .committed).map EventRow.toPositionedEvent

def inFlight (T : EventsTable) : List PositionedEvent :=
  (T.rows.filter fun row => (T.stageOf row.transaction).any TransactionStage.isInserting).map
    EventRow.toPositionedEvent

/-- `COALESCE(MAX(stream_version), 0)`. -/
def currentVersion (T : EventsTable) (streamId : String) : Nat :=
  ((T.visible.filter fun row => row.event.streamId = streamId).map fun row => row.event.streamVersion).foldr max 0

def setStage (T : EventsTable) (i : Nat) (stage : TransactionStage) : EventsTable :=
  { T with transactions := T.transactions.modify i fun t => { t with stage := stage } }

end EventsTable

/-- The statements of `append`, each of which may be rejected. -/
inductive AppendStep
  | begin (streamId : String) (events : List DomainEvent) (expectedVersion : Nat)
  | lock (i : Nat)
  | check (i : Nat)
  | insert (i : Nat)
  | insertRejected (i : Nat)
  | commit (i : Nat)
  | rejected (i : Nat)
  | rollback (i : Nat)

namespace PostgresEventStore

/-- The locks are taken on hashes of the streams' ids, and kept to the end of the
transaction. An id that is taken is not given back. -/
def step (hashtext : String → Int) (T : EventsTable) : AppendStep → Option EventsTable
  | .begin streamId events expectedVersion =>
    some { T with transactions := T.transactions ++ [⟨streamId, events, expectedVersion, .began⟩] }
  | .lock i =>
    match T.transactions[i]? with
    | some ⟨streamId, _, _, .began⟩ =>
      if T.transactions.all fun t => !t.stage.holdsLock || hashtext t.streamId != hashtext streamId then
        some (T.setStage i .locked)
      else none
    | _ => none
  | .check i =>
    match T.transactions[i]? with
    | some ⟨streamId, _, expectedVersion, .locked⟩ =>
      let currentVersion := T.currentVersion streamId
      some (T.setStage i (if currentVersion ≠ expectedVersion then .failed else .inserting currentVersion 0))
    | _ => none
  | .insert i =>
    match T.transactions[i]? with
    | some ⟨streamId, events, _, .inserting currentVersion inserted⟩ =>
      events[inserted]?.map fun event =>
        let persistedEvent := { event with streamId := streamId, streamVersion := currentVersion + inserted + 1 }
        { T.setStage i (.inserting currentVersion (inserted + 1)) with
          rows := T.rows ++ [⟨⟨persistedEvent, T.nextId⟩, i⟩]
          nextId := T.nextId + 1 }
    | _ => none
  | .insertRejected i =>
    match T.stageOf i with
    | some (.inserting _ _) => some { T.setStage i .failed with nextId := T.nextId + 1 }
    | _ => none
  | .commit i =>
    match T.transactions[i]? with
    | some ⟨_, events, _, .inserting _ inserted⟩ =>
      if inserted = events.length then some (T.setStage i .committed) else none
    | _ => none
  | .rejected i =>
    match T.stageOf i with
    | some .began => some (T.setStage i .rolledBack)
    | some .locked | some (.inserting _ _) => some (T.setStage i .failed)
    | _ => none
  | .rollback i =>
    match T.stageOf i with
    | some .failed => some (T.setStage i .rolledBack)
    | _ => none

/-- `WHERE id > fromPosition ORDER BY id ASC LIMIT maxCount`. -/
def readAll (T : EventsTable) (fromPosition maxCount : Nat) : List PositionedEvent :=
  (StableSort.sort PositionedEvent.position
    (T.visible.filter fun row => fromPosition < row.position)).take maxCount

end PostgresEventStore

/-! ## What a statement does -/

namespace EventsTable

def toRows (T : EventsTable) : Paging.Rows PositionedEvent := ⟨T.visible, T.inFlight, T.nextId⟩

/-- How a transaction that inserts nothing goes on. -/
inductive Moves (hashtext : String → Int) (T : EventsTable) (t : AppendTransaction) : TransactionStage → Prop
  | locked : t.stage = .began →
      (∀ u ∈ T.transactions, u.stage.holdsLock = true → hashtext u.streamId ≠ hashtext t.streamId) →
      Moves hashtext T t .locked
  | checked : t.stage = .locked → Moves hashtext T t (.inserting (T.currentVersion t.streamId) 0)
  | committed {currentVersion inserted : Nat} : t.stage = .inserting currentVersion inserted →
      Moves hashtext T t .committed
  | failed : t.stage.holdsLock = true → Moves hashtext T t .failed
  | rolledBack : t.stage ≠ .committed → Moves hashtext T t .rolledBack

/-- How the table goes on with a statement of the transaction `i`, which is `t'` then. -/
inductive Turn (hashtext : String → Int) (T T' : EventsTable) (i : Nat) (t' : AppendTransaction) : Prop
  | begun : T.transactions[i]? = none → t'.stage = .began → T'.rows = T.rows → T'.nextId = T.nextId →
      Turn hashtext T T' i t'
  | moved {t : AppendTransaction} : T.transactions[i]? = some t → t'.streamId = t.streamId →
      Moves hashtext T t t'.stage → T'.rows = T.rows → T.nextId ≤ T'.nextId → Turn hashtext T T' i t'
  | inserted {t : AppendTransaction} {currentVersion inserted : Nat} {event : DomainEvent} :
      T.transactions[i]? = some t → t'.streamId = t.streamId → t.stage = .inserting currentVersion inserted →
      t'.stage = .inserting currentVersion (inserted + 1) → event.streamId = t.streamId →
      event.streamVersion = currentVersion + inserted + 1 → T'.rows = T.rows ++ [⟨⟨event, T.nextId⟩, i⟩] →
      T'.nextId = T.nextId + 1 → Turn hashtext T T' i t'

/-- One statement: a turn of one transaction, the others as they were. -/
structure Changes (hashtext : String → Int) (T T' : EventsTable) (i : Nat) (t' : AppendTransaction) : Prop where
  others : ∀ j, j ≠ i → T'.transactions[j]? = T.transactions[j]?
  self : T'.transactions[i]? = some t'
  turn : Turn hashtext T T' i t'

variable {hashtext : String → Int} {T T' : EventsTable} {i : Nat} {t t' : AppendTransaction} {stage : TransactionStage}

theorem setStage_other (T : EventsTable) (stage : TransactionStage) {i j : Nat} (hj : j ≠ i) :
    (T.setStage i stage).transactions[j]? = T.transactions[j]? := by
  rw [setStage, List.getElem?_modify]
  cases T.transactions[j]? with
  | none => rfl
  | some u => simp [hj.symm]

theorem setStage_self (ht : T.transactions[i]? = some t) (stage : TransactionStage) :
    (T.setStage i stage).transactions[i]? = some { t with stage := stage } := by
  rw [setStage, List.getElem?_modify, ht]
  simp

theorem Changes.setStage (ht : T.transactions[i]? = some t) (hmoves : Moves hashtext T t stage) (taken : Nat) :
    Changes hashtext T { T.setStage i stage with nextId := T.nextId + taken } i { t with stage := stage } where
  others _ hj := T.setStage_other stage hj
  self := setStage_self ht stage
  turn := .moved ht rfl hmoves rfl (Nat.le_add_right _ _)

end EventsTable

namespace PostgresEventStore

open EventsTable

variable {hashtext : String → Int} {T T' : EventsTable}

theorem getElem?_of_stageOf {i : Nat} {stage : TransactionStage} (h : T.stageOf i = some stage) :
    ∃ t, T.transactions[i]? = some t ∧ t.stage = stage := by
  rwa [stageOf, Option.map_eq_some_iff] at h

theorem step_changes {e : AppendStep} (h : step hashtext T e = some T') : ∃ i t', Changes hashtext T T' i t' := by
  cases e with
  | begin streamId events expectedVersion =>
    obtain rfl := Option.some.inj h
    refine ⟨T.transactions.length, ⟨streamId, events, expectedVersion, .began⟩, ?_, ?_, ?_⟩
    · intro j hj
      rcases Nat.lt_or_gt_of_ne hj with hlt | hgt
      · exact List.getElem?_append_left hlt
      · rw [List.getElem?_eq_none (Nat.le_of_lt hgt), List.getElem?_eq_none]
        simp only [List.length_append, List.length_singleton]
        omega
    · exact List.getElem?_concat_length
    · exact .begun (List.getElem?_eq_none (Nat.le_refl _)) rfl rfl rfl
  | lock i =>
    simp only [step] at h
    split at h
    · next streamId events expectedVersion ht =>
      split at h
      · next hfree =>
        obtain rfl := Option.some.inj h
        refine ⟨i, _, Changes.setStage ht (.locked rfl fun u hu hlock heq => ?_) 0⟩
        have := List.all_eq_true.mp hfree u hu
        simp [hlock, heq] at this
      · cases h
    · cases h
  | check i =>
    simp only [step] at h
    split at h
    · next streamId events expectedVersion ht =>
      obtain rfl := Option.some.inj h
      refine ⟨i, _, Changes.setStage ht ?_ 0⟩
      split
      · exact .failed rfl
      · exact .checked rfl
    · cases h
  | insert i =>
    simp only [step] at h
    split at h
    · next streamId events expectedVersion currentVersion inserted ht =>
      obtain ⟨event, -, rfl⟩ := Option.map_eq_some_iff.mp h
      refine ⟨i, _, ?_, setStage_self ht _, .inserted ht rfl rfl rfl rfl rfl rfl rfl⟩
      exact fun j hj => setStage_other T _ hj
    · cases h
  | insertRejected i =>
    simp only [step] at h
    split at h
    · next currentVersion inserted hstage =>
      obtain ⟨t, ht, hstage⟩ := getElem?_of_stageOf hstage
      obtain rfl := Option.some.inj h
      exact ⟨i, _, Changes.setStage ht (.failed (by rw [hstage]; rfl)) 1⟩
    · cases h
  | commit i =>
    simp only [step] at h
    split at h
    · next streamId events expectedVersion currentVersion inserted ht =>
      split at h
      · obtain rfl := Option.some.inj h
        exact ⟨i, _, Changes.setStage ht (.committed rfl) 0⟩
      · cases h
    · cases h
  | rejected i =>
    simp only [step] at h
    split at h
    · next hstage =>
      obtain ⟨t, ht, hstage⟩ := getElem?_of_stageOf hstage
      obtain rfl := Option.some.inj h
      exact ⟨i, _, Changes.setStage ht (.rolledBack (by simp [hstage])) 0⟩
    · next hstage =>
      obtain ⟨t, ht, hstage⟩ := getElem?_of_stageOf hstage
      obtain rfl := Option.some.inj h
      exact ⟨i, _, Changes.setStage ht (.failed (by rw [hstage]; rfl)) 0⟩
    · next hstage =>
      obtain ⟨t, ht, hstage⟩ := getElem?_of_stageOf hstage
      obtain rfl := Option.some.inj h
      exact ⟨i, _, Changes.setStage ht (.failed (by rw [hstage]; rfl)) 0⟩
    · cases h
  | rollback i =>
    simp only [step] at h
    split at h
    · next hstage =>
      obtain ⟨t, ht, hstage⟩ := getElem?_of_stageOf hstage
      obtain rfl := Option.some.inj h
      exact ⟨i, _, Changes.setStage ht (.rolledBack (by simp [hstage])) 0⟩
    · cases h

end PostgresEventStore

/-! ## Versions and positions -/

namespace EventsTable

variable {hashtext : String → Int} {T T' : EventsTable} {i j : Nat} {t t' u : AppendTransaction} {row : EventRow}
  {p : PositionedEvent} {currentVersion inserted : Nat}

theorem stageOf_of (ht : T.transactions[i]? = some t) : T.stageOf i = some t.stage := by
  rw [stageOf, ht]
  rfl

theorem mem_visible :
    p ∈ T.visible ↔ ∃ row ∈ T.rows, T.stageOf row.transaction = some .committed ∧ row.toPositionedEvent = p := by
  simp only [visible, List.mem_map, List.mem_filter, decide_eq_true_eq, and_assoc]

theorem mem_inFlight :
    p ∈ T.inFlight ↔ ∃ row ∈ T.rows, (∃ currentVersion inserted,
      T.stageOf row.transaction = some (.inserting currentVersion inserted)) ∧ row.toPositionedEvent = p := by
  have hstage : ∀ stage : Option TransactionStage, stage.any TransactionStage.isInserting = true ↔
      ∃ currentVersion inserted, stage = some (.inserting currentVersion inserted) := by
    rintro (_ | stage)
    · simp
    · cases stage <;> simp [TransactionStage.isInserting]
  simp only [inFlight, List.mem_map, List.mem_filter, hstage, and_assoc]

theorem le_currentVersion {streamId : String} (hp : p ∈ T.visible) (hstream : p.event.streamId = streamId) :
    p.event.streamVersion ≤ T.currentVersion streamId := by
  refine List.le_max_of_le (List.mem_map_of_mem (List.mem_filter.mpr ⟨hp, ?_⟩)) (Nat.le_refl _)
  exact decide_eq_true hstream

/-- What holds between statements. The lock keeps an insertion from being
overtaken by a commit to its stream, so versions and positions agree there. -/
structure Ordered (hashtext : String → Int) (T : EventsTable) : Prop where
  sorted : T.rows.Pairwise fun a b => a.position < b.position
  counted : 0 < T.nextId
  fresh : ∀ row ∈ T.rows, 0 < row.position ∧ row.position < T.nextId
  owned : ∀ row ∈ T.rows, ∃ t, T.transactions[row.transaction]? = some t ∧ row.event.streamId = t.streamId ∧
    t.stage ≠ .began ∧ t.stage ≠ .locked
  locks : ∀ (i j : Nat) (t u : AppendTransaction), T.transactions[i]? = some t → T.transactions[j]? = some u →
    t.stage.holdsLock = true →
    u.stage.holdsLock = true → hashtext t.streamId = hashtext u.streamId → i = j
  own : ∀ i t currentVersion inserted, T.transactions[i]? = some t → t.stage = .inserting currentVersion inserted →
    ∀ row ∈ T.rows, row.transaction = i →
      currentVersion < row.event.streamVersion ∧ row.event.streamVersion ≤ currentVersion + inserted
  checked : ∀ i t currentVersion inserted, T.transactions[i]? = some t →
    t.stage = .inserting currentVersion inserted → ∀ p ∈ T.visible, p.event.streamId = t.streamId →
      p.event.streamVersion ≤ currentVersion ∧ ∀ row ∈ T.rows, row.transaction = i → p.position < row.position
  ownOrder : ∀ a ∈ T.rows, ∀ b ∈ T.rows, a.transaction = b.transaction →
    a.event.streamVersion < b.event.streamVersion → a.position < b.position
  order : ∀ p ∈ T.visible, ∀ q ∈ T.visible, p.event.streamId = q.event.streamId →
    p.event.streamVersion < q.event.streamVersion → p.position < q.position

theorem Ordered.empty (hashtext : String → Int) : empty.Ordered hashtext where
  sorted := List.Pairwise.nil
  counted := Nat.one_pos
  fresh _ h := absurd h List.not_mem_nil
  owned _ h := absurd h List.not_mem_nil
  locks i _ _ _ h := by cases h
  own i _ _ _ h := by cases h
  checked i _ _ _ h := by cases h
  ownOrder _ h := absurd h List.not_mem_nil
  order _ h := absurd h List.not_mem_nil

/-! ### What changes with a turn -/

namespace Changes

theorem mem_rows (h : Changes hashtext T T' i t') (hrow : row ∈ T.rows) : row ∈ T'.rows := by
  cases h.turn with
  | begun _ _ hrows => rwa [hrows]
  | moved _ _ _ hrows => rwa [hrows]
  | inserted _ _ _ _ _ _ hrows =>
    rw [hrows]
    exact List.mem_append_left _ hrow

theorem nextId_mono (h : Changes hashtext T T' i t') : T.nextId ≤ T'.nextId := by
  cases h.turn with
  | begun _ _ _ hnext => exact Nat.le_of_eq hnext.symm
  | moved _ _ _ _ hnext => exact hnext
  | inserted _ _ _ _ _ _ _ hnext => omega

/-- A new row belongs to the transaction whose turn it is. -/
theorem mem_rows_of_ne (h : Changes hashtext T T' i t') (hrow : row ∈ T'.rows) (hne : row.transaction ≠ i) :
    row ∈ T.rows := by
  cases h.turn with
  | begun _ _ hrows => rwa [hrows] at hrow
  | moved _ _ _ hrows => rwa [hrows] at hrow
  | inserted _ _ _ _ _ _ hrows =>
    rw [hrows] at hrow
    rcases List.mem_append.mp hrow with hrow | hrow
    · exact hrow
    · rw [List.mem_singleton.mp hrow] at hne
      exact absurd rfl hne

theorem stageOf_other (h : Changes hashtext T T' i t') (hj : j ≠ i) : T'.stageOf j = T.stageOf j := by
  rw [stageOf, stageOf, h.others j hj]

theorem stageOf_self (h : Changes hashtext T T' i t') : T'.stageOf i = some t'.stage := stageOf_of h.self

/-- No turn is left to a transaction that has committed. -/
theorem not_committed (h : Changes hashtext T T' i t') : T.stageOf i ≠ some .committed := by
  cases h.turn with
  | begun ht => simp [stageOf, ht]
  | moved ht _ hmoves =>
    rw [stageOf_of ht]
    generalize t'.stage = stage at hmoves
    cases hmoves with
    | locked hstage => simp [hstage]
    | checked hstage => simp [hstage]
    | committed hstage => simp [hstage]
    | failed hlock =>
      intro heq
      rw [Option.some.inj heq] at hlock
      cases hlock
    | rolledBack hstage => simpa using hstage
  | inserted ht _ hstage => simp [stageOf_of ht, hstage]

theorem visible_mono (h : Changes hashtext T T' i t') (hp : p ∈ T.visible) : p ∈ T'.visible := by
  obtain ⟨row, hrow, hstage, rfl⟩ := mem_visible.mp hp
  have hne : row.transaction ≠ i := by
    rintro rfl
    exact h.not_committed hstage
  exact mem_visible.mpr ⟨row, h.mem_rows hrow, (h.stageOf_other hne).trans hstage, rfl⟩

/-- What comes to be seen are the rows of the transaction that commits. -/
theorem visible_new (h : Changes hashtext T T' i t') (hp : p ∈ T'.visible) :
    p ∈ T.visible ∨ t'.stage = .committed ∧ ∃ row ∈ T'.rows, row.transaction = i ∧ row.toPositionedEvent = p := by
  obtain ⟨row, hrow, hstage, rfl⟩ := mem_visible.mp hp
  by_cases hi : row.transaction = i
  · rw [hi, h.stageOf_self] at hstage
    exact .inr ⟨Option.some.inj hstage, row, hrow, hi, rfl⟩
  · rw [h.stageOf_other hi] at hstage
    exact .inl (mem_visible.mpr ⟨row, h.mem_rows_of_ne hrow hi, hstage, rfl⟩)

/-- Only a transaction that inserts commits, and the commit inserts nothing. -/
theorem committed (h : Changes hashtext T T' i t') (hstage : t'.stage = .committed) :
    T'.rows = T.rows ∧ ∃ t currentVersion inserted, T.transactions[i]? = some t ∧ t'.streamId = t.streamId ∧
      t.stage = .inserting currentVersion inserted := by
  cases h.turn with
  | begun _ hbegan => simp [hstage] at hbegan
  | @moved t ht hstream hmoves hrows =>
    rw [hstage] at hmoves
    cases hmoves with
    | committed hinserting => exact ⟨hrows, t, _, _, ht, hstream, hinserting⟩
  | inserted _ _ _ hinserting => simp [hstage] at hinserting

/-- Whoever holds a lock has held it, or no other transaction holds it. -/
theorem locks_self (h : Changes hashtext T T' i t') (hlock : t'.stage.holdsLock = true) :
    ∃ t, T.transactions[i]? = some t ∧ t'.streamId = t.streamId ∧ (t.stage.holdsLock = true ∨
      ∀ u ∈ T.transactions, u.stage.holdsLock = true → hashtext u.streamId ≠ hashtext t.streamId) := by
  cases h.turn with
  | begun _ hbegan =>
    rw [hbegan] at hlock
    cases hlock
  | @moved t ht hstream hmoves =>
    refine ⟨t, ht, hstream, ?_⟩
    generalize t'.stage = stage at hmoves hlock
    cases hmoves with
    | locked _ hfree => exact .inr hfree
    | checked hstage => exact .inl (by rw [hstage]; rfl)
    | committed _ => cases hlock
    | failed hheld => exact .inl hheld
    | rolledBack _ => cases hlock
  | @inserted t _ _ _ ht hstream hstage =>
    exact ⟨t, ht, hstream, .inl (by rw [hstage]; rfl)⟩

end Changes

namespace Ordered

variable (h : T.Ordered hashtext) (hchanges : Changes hashtext T T' i t')
include h

/-- A transaction that has no rows yet. -/
theorem not_owned (ht : T.transactions[i]? = some t) (hstage : t.stage = .began ∨ t.stage = .locked)
    (hrow : row ∈ T.rows) : row.transaction ≠ i := by
  rintro rfl
  obtain ⟨u, hu, -, hbegan, hlocked⟩ := h.owned row hrow
  obtain rfl : t = u := Option.some.inj (ht.symm.trans hu)
  rcases hstage with hstage | hstage
  · exact hbegan hstage
  · exact hlocked hstage

include hchanges

theorem sorted_turn : T'.rows.Pairwise fun a b => a.position < b.position := by
  cases hchanges.turn with
  | begun _ _ hrows => rw [hrows]; exact h.sorted
  | moved _ _ _ hrows => rw [hrows]; exact h.sorted
  | inserted _ _ _ _ _ _ hrows =>
    rw [hrows]
    refine List.pairwise_append.mpr ⟨h.sorted, List.pairwise_singleton _ _, fun a ha b hb => ?_⟩
    rw [List.mem_singleton.mp hb]
    exact (h.fresh a ha).2

theorem fresh_turn : ∀ row ∈ T'.rows, 0 < row.position ∧ row.position < T'.nextId := by
  have hmono := hchanges.nextId_mono
  intro row hrow
  have hold : row ∈ T.rows → 0 < row.position ∧ row.position < T'.nextId := fun hrow =>
    ⟨(h.fresh row hrow).1, Nat.lt_of_lt_of_le (h.fresh row hrow).2 hmono⟩
  cases hchanges.turn with
  | begun _ _ hrows => exact hold (hrows ▸ hrow)
  | moved _ _ _ hrows => exact hold (hrows ▸ hrow)
  | inserted _ _ _ _ _ _ hrows hnext =>
    rw [hrows] at hrow
    rcases List.mem_append.mp hrow with hrow | hrow
    · exact hold hrow
    · obtain rfl := List.mem_singleton.mp hrow
      have := h.counted
      exact ⟨h.counted, by simp only [hnext]; omega⟩

theorem owned_turn : ∀ row ∈ T'.rows, ∃ t, T'.transactions[row.transaction]? = some t ∧
    row.event.streamId = t.streamId ∧ t.stage ≠ .began ∧ t.stage ≠ .locked := by
  intro row hrow
  by_cases hi : row.transaction = i
  · rw [hi]
    refine ⟨t', hchanges.self, ?_⟩
    cases hchanges.turn with
    | begun ht _ hrows =>
      obtain ⟨u, hu, -⟩ := h.owned row (hrows ▸ hrow)
      rw [hi, ht] at hu
      cases hu
    | @moved t ht hstream hmoves hrows =>
      rw [hrows] at hrow
      obtain ⟨u, hu, hrowStream, hbegan, hlocked⟩ := h.owned row hrow
      rw [hi, ht] at hu
      obtain rfl := Option.some.inj hu
      rw [hstream]
      generalize t'.stage = stage at hmoves
      cases hmoves with
      | locked hstage => exact absurd hstage hbegan
      | checked hstage => exact absurd hstage hlocked
      | committed _ => simp [hrowStream]
      | failed _ => simp [hrowStream]
      | rolledBack _ => simp [hrowStream]
    | @inserted t currentVersion inserted event ht hstream hstage hstage' heventStream _ hrows =>
      rw [hstage', hstream]
      refine ⟨?_, by simp, by simp⟩
      rw [hrows] at hrow
      rcases List.mem_append.mp hrow with hrow | hrow
      · obtain ⟨u, hu, hrowStream, -⟩ := h.owned row hrow
        rw [hi, ht] at hu
        rwa [← Option.some.inj hu] at hrowStream
      · rwa [List.mem_singleton.mp hrow]
  · obtain ⟨t, ht, hrest⟩ := h.owned row (hchanges.mem_rows_of_ne hrow hi)
    exact ⟨t, (hchanges.others _ hi).trans ht, hrest⟩

theorem locks_other (hlock : t'.stage.holdsLock = true) (hj : j ≠ i) (hu : T'.transactions[j]? = some u)
    (hulock : u.stage.holdsLock = true) : hashtext t'.streamId ≠ hashtext u.streamId := by
  obtain ⟨t, ht, hstream, hheld | hfree⟩ := hchanges.locks_self hlock
  · rw [hchanges.others j hj] at hu
    intro heq
    exact hj (h.locks i j t u ht hu hheld hulock (hstream ▸ heq)).symm
  · rw [hchanges.others j hj] at hu
    rw [hstream]
    exact (hfree u (List.mem_of_getElem? hu) hulock).symm

theorem locks_turn : ∀ (j k : Nat) (u v : AppendTransaction), T'.transactions[j]? = some u →
    T'.transactions[k]? = some v → u.stage.holdsLock = true → v.stage.holdsLock = true →
      hashtext u.streamId = hashtext v.streamId → j = k := by
  intro j k u v hu hv hulock hvlock heq
  by_cases hj : j = i
  · by_cases hk : k = i
    · rw [hj, hk]
    · rw [hj] at hu
      obtain rfl := Option.some.inj (hchanges.self.symm.trans hu)
      exact absurd heq (h.locks_other hchanges hulock hk hv hvlock)
  · by_cases hk : k = i
    · rw [hk] at hv
      obtain rfl := Option.some.inj (hchanges.self.symm.trans hv)
      exact absurd heq.symm (h.locks_other hchanges hvlock hj hu hulock)
    · rw [hchanges.others j hj] at hu
      rw [hchanges.others k hk] at hv
      exact h.locks j k u v hu hv hulock hvlock heq

/-- What inserts has just checked the version, or has inserted before. -/
theorem inserting_self (hstage : t'.stage = .inserting currentVersion inserted) :
    (T'.rows = T.rows ∧ (∀ row ∈ T.rows, row.transaction ≠ i) ∧ currentVersion = T.currentVersion t'.streamId) ∨
    ∃ t before event, T.transactions[i]? = some t ∧ t'.streamId = t.streamId ∧
      t.stage = .inserting currentVersion before ∧ inserted = before + 1 ∧
      T'.rows = T.rows ++ [⟨⟨event, T.nextId⟩, i⟩] ∧ event.streamVersion = currentVersion + before + 1 := by
  cases hchanges.turn with
  | begun _ hbegan => simp [hstage] at hbegan
  | @moved t ht hstream hmoves hrows =>
    left
    rw [hstage] at hmoves
    cases hmoves with
    | checked hlocked =>
      rw [hstream]
      exact ⟨hrows, fun row hrow => h.not_owned ht (.inr hlocked) hrow, rfl⟩
  | @inserted t currentVersion' before event ht hstream hbefore hstage' _ hversion hrows =>
    right
    rw [hstage] at hstage'
    cases hstage'
    exact ⟨t, before, event, ht, hstream, hbefore, rfl, hrows, hversion⟩

theorem own_turn : ∀ j u currentVersion inserted, T'.transactions[j]? = some u →
    u.stage = .inserting currentVersion inserted → ∀ row ∈ T'.rows, row.transaction = j →
      currentVersion < row.event.streamVersion ∧ row.event.streamVersion ≤ currentVersion + inserted := by
  intro j u currentVersion inserted hu hstage row hrow hj
  by_cases hi : j = i
  · subst hi
    obtain rfl := Option.some.inj (hchanges.self.symm.trans hu)
    rcases h.inserting_self hchanges hstage with ⟨hrows, hnone, -⟩ |
      ⟨t, before, event, ht, -, hbefore, rfl, hrows, hversion⟩
    · exact absurd hj (hnone row (hrows ▸ hrow))
    · rw [hrows] at hrow
      rcases List.mem_append.mp hrow with hrow | hrow
      · have := h.own j t currentVersion before ht hbefore row hrow hj
        omega
      · obtain rfl := List.mem_singleton.mp hrow
        simp only [hversion]
        omega
  · rw [hchanges.others j hi] at hu
    exact h.own j u currentVersion inserted hu hstage row (hchanges.mem_rows_of_ne hrow (hj ▸ hi)) hj

/-- What a commit shows is in the stream of its transaction. -/
theorem committed_stream (hrow : row ∈ T'.rows) (hi : row.transaction = i) : row.event.streamId = t'.streamId := by
  obtain ⟨u, hu, hstream, -⟩ := h.owned_turn hchanges row hrow
  rw [hi] at hu
  rwa [← Option.some.inj (hchanges.self.symm.trans hu)] at hstream

theorem checked_turn : ∀ j u currentVersion inserted, T'.transactions[j]? = some u →
    u.stage = .inserting currentVersion inserted → ∀ p ∈ T'.visible, p.event.streamId = u.streamId →
      p.event.streamVersion ≤ currentVersion ∧ ∀ row ∈ T'.rows, row.transaction = j → p.position < row.position := by
  intro j u currentVersion inserted hu hstage p hp hstream
  by_cases hi : j = i
  · subst hi
    obtain rfl := Option.some.inj (hchanges.self.symm.trans hu)
    have hvisible : p ∈ T.visible := by
      rcases hchanges.visible_new hp with hp | ⟨hcommitted, -⟩
      · exact hp
      · simp [hstage] at hcommitted
    rcases h.inserting_self hchanges hstage with ⟨hrows, hnone, rfl⟩ |
      ⟨t, before, event, ht, hsame, hbefore, -, hrows, -⟩
    · refine ⟨le_currentVersion hvisible hstream, fun row hrow hj => ?_⟩
      exact absurd hj (hnone row (hrows ▸ hrow))
    · obtain ⟨hle, hlt⟩ := h.checked j t currentVersion before ht hbefore p hvisible (hstream.trans hsame)
      refine ⟨hle, fun row hrow hj => ?_⟩
      rw [hrows] at hrow
      rcases List.mem_append.mp hrow with hrow | hrow
      · exact hlt row hrow hj
      · obtain ⟨row', hrow', -, rfl⟩ := mem_visible.mp hvisible
        rw [List.mem_singleton.mp hrow]
        exact (h.fresh row' hrow').2
  · rw [hchanges.others j hi] at hu
    rcases hchanges.visible_new hp with hp | ⟨hcommitted, row, hrow, hrowi, rfl⟩
    · obtain ⟨hle, hlt⟩ := h.checked j u currentVersion inserted hu hstage p hp hstream
      exact ⟨hle, fun row hrow hj => hlt row (hchanges.mem_rows_of_ne hrow (hj ▸ hi)) hj⟩
    · -- Both transactions would hold the lock of the stream.
      obtain ⟨-, t, _, _, ht, hsame, hinserting⟩ := hchanges.committed hcommitted
      have hown := h.committed_stream hchanges hrow hrowi
      have heq : hashtext t.streamId = hashtext u.streamId := by rw [← hsame, ← hown, hstream]
      exact absurd (h.locks i j t u ht hu (by rw [hinserting]; rfl) (by rw [hstage]; rfl) heq).symm hi

theorem ownOrder_turn : ∀ a ∈ T'.rows, ∀ b ∈ T'.rows, a.transaction = b.transaction →
    a.event.streamVersion < b.event.streamVersion → a.position < b.position := by
  intro a ha b hb hab hlt
  cases hchanges.turn with
  | begun _ _ hrows => exact h.ownOrder a (hrows ▸ ha) b (hrows ▸ hb) hab hlt
  | moved _ _ _ hrows => exact h.ownOrder a (hrows ▸ ha) b (hrows ▸ hb) hab hlt
  | @inserted t currentVersion before event ht _ hbefore _ _ hversion hrows =>
    rw [hrows] at ha hb
    rcases List.mem_append.mp hb with hb | hb
    · rcases List.mem_append.mp ha with ha | ha
      · exact h.ownOrder a ha b hb hab hlt
      · obtain rfl := List.mem_singleton.mp ha
        have := h.own i t currentVersion before ht hbefore b hb hab.symm
        simp only [hversion] at hlt
        omega
    · rcases List.mem_append.mp ha with ha | ha
      · rw [List.mem_singleton.mp hb]
        exact (h.fresh a ha).2
      · rw [List.mem_singleton.mp ha, List.mem_singleton.mp hb] at hlt
        exact absurd hlt (Nat.lt_irrefl _)

theorem order_turn : ∀ p ∈ T'.visible, ∀ q ∈ T'.visible, p.event.streamId = q.event.streamId →
    p.event.streamVersion < q.event.streamVersion → p.position < q.position := by
  intro p hp q hq hpq hlt
  rcases hchanges.visible_new hq with hq | ⟨hcommitted, b, hb, hbi, rfl⟩
  · rcases hchanges.visible_new hp with hp | ⟨hcommitted, a, ha, hai, rfl⟩
    · exact h.order p hp q hq hpq hlt
    · obtain ⟨hrows, t, currentVersion, inserted, ht, hsame, hinserting⟩ := hchanges.committed hcommitted
      have hstream := hpq.symm.trans ((h.committed_stream hchanges ha hai).trans hsame)
      have hbelow := (h.checked i t currentVersion inserted ht hinserting q hq hstream).1
      have hown := (h.own i t currentVersion inserted ht hinserting a (hrows ▸ ha) hai).1
      omega
  · obtain ⟨hrows, t, currentVersion, inserted, ht, hsame, hinserting⟩ := hchanges.committed hcommitted
    rcases hchanges.visible_new hp with hp | ⟨_, a, ha, hai, rfl⟩
    · have hstream := hpq.trans ((h.committed_stream hchanges hb hbi).trans hsame)
      exact (h.checked i t currentVersion inserted ht hinserting p hp hstream).2 b (hrows ▸ hb) hbi
    · exact h.ownOrder a (hrows ▸ ha) b (hrows ▸ hb) (hai.trans hbi.symm) hlt

theorem turn : T'.Ordered hashtext where
  sorted := h.sorted_turn hchanges
  counted := Nat.lt_of_lt_of_le h.counted hchanges.nextId_mono
  fresh := h.fresh_turn hchanges
  owned := h.owned_turn hchanges
  locks := h.locks_turn hchanges
  own := h.own_turn hchanges
  checked := h.checked_turn hchanges
  ownOrder := h.ownOrder_turn hchanges
  order := h.order_turn hchanges

/-- Rows under way come to be seen, and new ones take later positions. -/
theorem advances : T.toRows.Advances PositionedEvent.position T'.toRows where
  keeps _ hp := hchanges.visible_mono hp
  appears p hp := by
    rcases hchanges.visible_new hp with hp | ⟨hcommitted, row, hrow, hi, rfl⟩
    · exact .inl hp
    · obtain ⟨hrows, t, currentVersion, inserted, ht, -, hinserting⟩ := hchanges.committed hcommitted
      refine .inr (mem_inFlight.mpr ⟨row, hrows ▸ hrow, ⟨currentVersion, inserted, ?_⟩, rfl⟩)
      rw [hi, stageOf_of ht, hinserting]
  takes p hp := by
    obtain ⟨row, hrow, ⟨currentVersion, inserted, hstage⟩, rfl⟩ := mem_inFlight.mp hp
    by_cases hi : row.transaction = i
    · rw [hi, hchanges.stageOf_self] at hstage
      rcases h.inserting_self hchanges (Option.some.inj hstage) with ⟨hrows, hnone, -⟩ |
        ⟨t, before, event, ht, -, hbefore, -, hrows, -⟩
      · exact absurd hi (hnone row (hrows ▸ hrow))
      · rw [hrows] at hrow
        rcases List.mem_append.mp hrow with hrow | hrow
        · refine .inl (mem_inFlight.mpr ⟨row, hrow, ⟨currentVersion, before, ?_⟩, rfl⟩)
          rw [hi, stageOf_of ht, hbefore]
        · rw [List.mem_singleton.mp hrow]
          exact .inr (Nat.le_refl _)
    · rw [hchanges.stageOf_other hi] at hstage
      have hinserting : ∃ currentVersion inserted,
          T.stageOf row.transaction = some (.inserting currentVersion inserted) := ⟨currentVersion, inserted, hstage⟩
      exact .inl (mem_inFlight.mpr ⟨row, hchanges.mem_rows_of_ne hrow hi, hinserting, rfl⟩)

omit hchanges

theorem row_unique {a b : EventRow} (ha : a ∈ T.rows) (hb : b ∈ T.rows) (heq : a.position = b.position) : a = b := by
  have hinj := List.inj_on_of_nodup_map (List.pairwise_map.mpr (h.sorted.imp Nat.ne_of_lt))
  exact hinj ha hb heq

theorem keyed : T.toRows.Keyed PositionedEvent.position where
  positive p hp := by
    obtain ⟨row, hrow, -, rfl⟩ := mem_visible.mp hp
    exact (h.fresh row hrow).1
  fresh p hp := by
    obtain ⟨row, hrow, -, rfl⟩ := mem_visible.mp hp
    exact (h.fresh row hrow).2
  nodup := by
    refine List.pairwise_map.mpr (List.pairwise_map.mpr ?_)
    exact (h.sorted.imp Nat.ne_of_lt).sublist List.filter_sublist
  apart p hp q hq heq := by
    obtain ⟨a, ha, hcommitted, rfl⟩ := mem_visible.mp hp
    obtain ⟨b, hb, ⟨_, _, hinserting⟩, rfl⟩ := mem_inFlight.mp hq
    rw [h.row_unique ha hb heq, hinserting] at hcommitted
    cases hcommitted

end Ordered

end EventsTable

end CoreBanking
