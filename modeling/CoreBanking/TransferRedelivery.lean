import CoreBanking.TransferSummaries

/-!
# Transfer events out of order

Deliveries of the events of one transfer in any order and number. An account
event that is old or too new is told by its version; here the time of the stored
summary is all there is to compare with.
-/

namespace CoreBanking

open TransferAggregate (replay replay_snoc)

/-! ## Where an event stands in the life of its transfer -/

/-- A transfer goes through these in order: by the first number from one status to
another, by the second from one attempt to the next. -/
def EventData.phase : EventData → Nat ×ₗ Nat
  | .TransferDebitStarted _ _ debitAttempts => toLex (1, debitAttempts)
  | .TransferDebited .. => toLex (2, 0)
  | .TransferCreditStarted _ _ creditAttempts => toLex (3, creditAttempts)
  | .TransferCompleted _ | .TransferFailed .. => toLex (4, 0)
  | .TransferCompensationStarted _ _ compensationAttempts => toLex (5, compensationAttempts)
  | .TransferCompensated .. => toLex (6, 0)
  | _ => toLex (0, 0)

def TransferStatus.phase (debitAttempts creditAttempts compensationAttempts : Nat) : TransferStatus → Nat ×ₗ Nat
  | .INITIATED => toLex (0, 0)
  | .DEBIT_IN_PROGRESS => toLex (1, debitAttempts)
  | .DEBITED => toLex (2, 0)
  | .CREDIT_IN_PROGRESS => toLex (3, creditAttempts)
  | .COMPLETED | .FAILED => toLex (4, 0)
  | .COMPENSATION_IN_PROGRESS => toLex (5, compensationAttempts)
  | .COMPENSATED => toLex (6, 0)

def TransferSummaryReadModel.phase (summary : TransferSummaryReadModel) : Nat ×ₗ Nat :=
  summary.status.phase summary.debitAttempts summary.creditAttempts summary.compensationAttempts

theorem TransferMethod.Emits.phase_lt {transfer : TransferAggregate} {method : TransferMethod} {data : EventData}
    (h : method.Emits transfer data) (hid : truthy transfer.transferId = true) {summary : TransferSummaryReadModel}
    (hagrees : summary.Agrees transfer) : summary.phase < data.phase := by
  have hstatus := hagrees.status
  unfold TransferSummaryReadModel.phase
  rw [hagrees.debitAttempts, hagrees.creditAttempts, hagrees.compensationAttempts]
  cases h with
  | initiate hid' => rw [hid] at hid'; cases hid'
  | markDebited hs | complete hs | markCompensated hs =>
    rw [hs] at hstatus
    rw [Option.some.inj hstatus]
    simp [TransferStatus.phase, EventData.phase, Prod.Lex.lt_iff]
  | startDebit hs | startCredit hs | fail hs | startCompensation hs =>
    rcases hs with hs | hs <;> rw [hs] at hstatus <;> rw [Option.some.inj hstatus] <;>
      simp [TransferStatus.phase, EventData.phase, Prod.Lex.lt_iff]

namespace TransferProjector

variable [JsRuntime] {transferId : String} {es : List DomainEvent} {event : DomainEvent}

theorem after_phase (hid : event.data.transferId ≠ none) (summary : TransferSummaryReadModel) :
    (after summary event).phase = event.data.phase := by
  unfold after nextSummary
  cases hd : event.data with
  | AccountCreated | MoneyDeposited | MoneyWithdrawn | AccountFrozen =>
    rw [hd] at hid
    exact absurd rfl hid
  | _ => rfl

theorem projection_last (hne : transferId ≠ "") (h : TransferStream transferId (es ++ [event])) :
    ∃ before, projection (es ++ [event]) = some (after before event) := by
  rw [projection_snoc]
  by_cases hnil : es = []
  · subst hnil
    obtain ⟨first, rest, hopening, hfirst, hrest⟩ := h.opening hne (by simp)
    obtain ⟨rfl, rfl⟩ := List.cons_eq_cons.mp hopening
    obtain ⟨summary, -, hadvance⟩ := stored_none hfirst
    exact ⟨summary, by simp [projection, accept, hadvance]⟩
  · obtain ⟨summary, hsummary, -⟩ := projection_agrees hne h.snoc_inv.1 hnil
    exact ⟨summary, by rw [hsummary, accept_some]⟩

omit [JsRuntime] in
theorem truthy_of_snoc (hne : transferId ≠ "") (h : TransferStream transferId (es ++ [event])) (hnil : es ≠ []) :
    truthy (replay es).transferId = true := by
  obtain ⟨terms, -, -, -, hhas⟩ := h.snoc_inv.1.terms hne hnil
  simp [hhas.1, truthy, hne]

theorem phases (hne : transferId ≠ "") (h : TransferStream transferId es) :
    es.Pairwise fun e e' => e.data.phase < e'.data.phase := by
  induction es using List.reverseRecOn with
  | nil => exact .nil
  | append_singleton es event ih =>
    have hbefore := ih h.snoc_inv.1
    refine List.pairwise_append.mpr ⟨hbefore, List.pairwise_singleton _ _, ?_⟩
    intro e he e' he'
    rw [List.mem_singleton.mp he']
    cases es using List.reverseRecOn with
    | nil => cases he
    | append_singleton es last =>
      have hlast : last.data.phase < event.data.phase := by
        obtain ⟨-, method, context, -, stamp, hemits⟩ := h.snoc_inv
        obtain ⟨summary, hsummary, hagrees⟩ := projection_agrees hne h.snoc_inv.1 (by simp)
        obtain ⟨before, hafter⟩ := projection_last hne h.snoc_inv.1
        have hid := (h.stamped hne last (by simp)).2
        rw [← after_phase (by simp [hid]) before, ← Option.some.inj (hsummary.symm.trans hafter)]
        exact hemits.phase_lt (truthy_of_snoc hne h (by simp)) hagrees
      rcases List.mem_append.mp he with he | he
      · exact lt_trans ((List.pairwise_append.mp hbefore).2.2 e he last (by simp)) hlast
      · rwa [List.mem_singleton.mp he]

/-! ## One delivery -/

section
variable (hne : transferId ≠ "") (h : TransferStream transferId es)
include hne h

/-- What the projection of a prefix shows, with the event that made it. -/
theorem projection_take {k : Nat} {last : DomainEvent} (hlast : es[k]? = some last) :
    ∃ before, projection (es.take (k + 1)) = some (after before last) ∧
      (after before last).updatedAt = last.occurredAt ∧ (after before last).phase = last.data.phase := by
  have htake : es.take (k + 1) = es.take k ++ [last] := by rw [List.take_add_one, hlast]; rfl
  have hid := (h.stamped hne last (List.mem_of_getElem? hlast)).2
  obtain ⟨before, hbefore⟩ := projection_last hne (htake ▸ h.anti (List.take_prefix (k + 1) es))
  exact ⟨before, htake ▸ hbefore, after_updatedAt (by simp [hid]) before, after_phase (by simp [hid]) before⟩

theorem phase_inj {i j : Nat} {e e' : DomainEvent} (hi : es[i]? = some e) (hj : es[j]? = some e')
    (hphase : e.data.phase = e'.data.phase) : i = j := by
  obtain ⟨hilen, rfl⟩ := List.getElem?_eq_some_iff.mp hi
  obtain ⟨hjlen, rfl⟩ := List.getElem?_eq_some_iff.mp hj
  have hpairs := List.pairwise_iff_getElem.mp (phases hne h)
  rcases Nat.lt_trichotomy i j with hlt | heq | hgt
  · exact absurd hphase (hpairs i j hilen hjlen hlt).ne
  · exact heq
  · exact absurd hphase.symm (hpairs j i hjlen hilen hgt).ne

/-- A summary tells of which prefix it is the projection. -/
theorem projection_position {k i : Nat} (hk : k ≤ es.length) {summary : TransferSummaryReadModel}
    (hproj : projection (es.take k) = some summary) {e : DomainEvent} (hi : es[i]? = some e)
    (hphase : summary.phase = e.data.phase) : k = i + 1 := by
  cases k with
  | zero => cases hproj
  | succ k =>
    have hlast : es[k]? = some es[k] := List.getElem?_eq_getElem hk
    obtain ⟨before, hbefore, -, hbphase⟩ := projection_take hne h hlast
    rw [hbefore] at hproj
    rw [← Option.some.inj hproj, hbphase] at hphase
    rw [phase_inj hne h hlast hi hphase]

theorem projection_inj {k k' : Nat} (hk : k ≤ es.length) (hk' : k' ≤ es.length)
    (hproj : projection (es.take k) = projection (es.take k')) : k = k' := by
  cases k with
  | zero =>
    cases k' with
    | zero => rfl
    | succ k' =>
      obtain ⟨before, hbefore, -⟩ := projection_take hne h (List.getElem?_eq_getElem hk')
      rw [hbefore] at hproj
      cases hproj
  | succ k =>
    have hlast : es[k]? = some es[k] := List.getElem?_eq_getElem hk
    obtain ⟨before, hbefore, -, hphase⟩ := projection_take hne h hlast
    exact (projection_position hne h hk' (hproj.symm.trans hbefore) hlast hphase).symm

end

/-- The last event in order after this one, where `k` were in order before. -/
def reach (k : Nat) (event : DomainEvent) : Nat := if event.streamVersion = k + 1 then k + 1 else k

/-- How many events a sequence of deliveries brings in order. -/
def reached (deliveries : List DomainEvent) : Nat := deliveries.foldl reach 0

/-- Nothing has been brought in order yet; or the event is the last one again, or an
earlier one of an earlier time, or the next one and not of an earlier time. -/
def Fits (es : List DomainEvent) (k : Nat) (event : DomainEvent) : Prop :=
  k = 0 ∨ event.streamVersion = k ∨ ∃ last ∈ es, last.streamVersion = k ∧
    (event.streamVersion < k ∧ event.occurredAt < last.occurredAt ∨
      event.streamVersion = k + 1 ∧ last.occurredAt ≤ event.occurredAt)

section
variable (hne : transferId ≠ "") (h : TransferStream transferId es)
include hne h

omit [JsRuntime] in
theorem opening_get {i : Nat} {e : DomainEvent} (hi : es[i]? = some e) : e.data.terms ≠ none ↔ i = 0 := by
  obtain ⟨first, rest, rfl, hfirst, hrest⟩ := h.opening hne (List.ne_nil_of_mem (List.mem_of_getElem? hi))
  cases i with
  | zero =>
    obtain rfl := Option.some.inj hi
    simp [hfirst]
  | succ i => simp [hrest e (List.mem_of_getElem? hi)]

omit hne h in
theorem advance_none {e : DomainEvent} (hterms : e.data.terms = none) : ∃ failure, advance e none = .error failure := by
  cases hd : e.data with
  | TransferInitiated => rw [hd] at hterms; cases hterms
  | _ => simp [advance, hd]

/-- **Step.** A delivery that fits keeps the summary the projection of a prefix. -/
theorem stored_of_fits {k i : Nat} {e : DomainEvent} (hk : k ≤ es.length) (hi : es[i]? = some e)
    (hfits : Fits es k e) :
    stored (projection (es.take k)) e = projection (es.take (reach k e)) ∧ reach k e ≤ es.length ∧
      ((∃ next, advance e (projection (es.take k)) = .ok next) → e.streamVersion ≤ reach k e) := by
  have hversion : e.streamVersion = i + 1 := h.numbered i e hi
  have hid := (h.stamped hne e (List.mem_of_getElem? hi)).2
  have hlen : i < es.length := (List.getElem?_eq_some_iff.mp hi).1
  have htake : es.take (i + 1) = es.take i ++ [e] := by rw [List.take_add_one, hi]; rfl
  unfold reach
  rw [hversion]
  cases k with
  | zero =>
    by_cases h0 : i = 0
    · subst h0
      obtain ⟨summary, hstored, hadvance⟩ := stored_none ((opening_get hne h hi).mpr rfl)
      refine ⟨?_, by rw [if_pos rfl]; exact hlen, fun _ => by simp⟩
      rw [if_pos rfl, htake, List.take_zero, List.nil_append]
      simp [projection, accept, hstored, hadvance]
    · have hterms : e.data.terms = none := by
        by_contra hterms
        exact h0 ((opening_get hne h hi).mp hterms)
      obtain ⟨failure, hadvance⟩ := advance_none hterms
      rw [if_neg (by omega)]
      refine ⟨?_, hk, ?_⟩
      · simp [projection, stored, hadvance]
      · rintro ⟨next, hnext⟩
        simp [projection, hadvance] at hnext
  | succ k =>
    have hlast : es[k]? = some es[k] := List.getElem?_eq_getElem hk
    obtain ⟨before, hbefore, hupdated, -⟩ := projection_take hne h hlast
    rw [hbefore]
    rcases hfits with h0 | hsame | ⟨last, hmem, hlv, hold | hnext⟩
    · cases h0
    · -- the last event once more
      obtain rfl : i = k := by omega
      have heq : es[i] = e := Option.some.inj (hlast.symm.trans hi)
      rw [heq] at hbefore hupdated ⊢
      rw [if_neg (by omega), hbefore, stored_new (by simp [hid]) (by rw [hupdated])]
      have hagain := after_again [e] before
      simp only [List.foldl_cons, List.foldl_nil] at hagain
      exact ⟨by rw [hagain], hk, fun _ => le_refl _⟩
    · -- an old event of an older time
      obtain rfl : last = es[k] := Option.some.inj ((h.numbered.getElem?_of_mem hmem hlv).symm.trans hlast)
      rw [if_neg (by omega), hbefore, stored_old (by simp [hid]) (by rw [hupdated]; exact hold.2)]
      exact ⟨rfl, hk, fun _ => by omega⟩
    · -- the next event
      obtain rfl : last = es[k] := Option.some.inj ((h.numbered.getElem?_of_mem hmem hlv).symm.trans hlast)
      obtain rfl : i = k + 1 := by omega
      rw [if_pos rfl, htake, projection_snoc, hbefore, accept_some,
        stored_new (by simp [hid]) (by rw [hupdated]; exact hnext.2)]
      exact ⟨rfl, hlen, fun _ => le_refl _⟩

/-- **Step, conversely.** A delivery that does not fit leaves no prefix to be the projection of. -/
theorem fits_of_stored {k i k' : Nat} {e : DomainEvent} (hk : k ≤ es.length) (hk' : k' ≤ es.length)
    (hi : es[i]? = some e) (hstored : stored (projection (es.take k)) e = projection (es.take k'))
    (haccepted : (∃ next, advance e (projection (es.take k)) = .ok next) → e.streamVersion ≤ k')
    (hnext : stored (projection (es.take k)) e = projection (es.take k) ∨ k' = k + 1 ∧ e.streamVersion = k + 1 ∨
      ¬ ∃ next, advance e (projection (es.take k)) = .ok next) :
    Fits es k e ∧ k' = reach k e := by
  have hversion : e.streamVersion = i + 1 := h.numbered i e hi
  have hid := (h.stamped hne e (List.mem_of_getElem? hi)).2
  unfold reach
  rw [hversion] at haccepted hnext ⊢
  cases k with
  | zero =>
    refine ⟨.inl rfl, ?_⟩
    have hnow := stored_of_fits hne h hk hi (.inl rfl)
    have heq := projection_inj hne h hk' hnow.2.1 (hstored.symm.trans hnow.1)
    rw [heq, reach, hversion]
  | succ k =>
    have hlast : es[k]? = some es[k] := List.getElem?_eq_getElem hk
    obtain ⟨before, hbefore, hupdated, -⟩ := projection_take hne h hlast
    rw [hbefore] at hstored haccepted hnext
    have haccepted := haccepted ⟨_, advance_some e _⟩
    have hnext := hnext.imp_right fun hnext => hnext.resolve_right (not_not.mpr ⟨_, advance_some e _⟩)
    by_cases htime : e.occurredAt < es[k].occurredAt
    · rw [stored_old (by simp [hid]) (by rwa [hupdated])] at hstored
      obtain rfl := projection_inj hne h hk hk' (hbefore.trans hstored)
      have hik : i ≠ k := by
        intro hik
        subst hik
        rw [Option.some.inj (hlast.symm.trans hi)] at htime
        exact lt_irrefl _ htime
      rw [if_neg (by omega)]
      exact ⟨.inr (.inr ⟨es[k], List.getElem_mem hk, h.numbered k _ hlast, .inl ⟨by omega, htime⟩⟩), rfl⟩
    · rw [stored_new (by simp [hid]) (by rw [hupdated]; exact not_lt.mp htime)] at hstored hnext
      have hposition := projection_position hne h hk' hstored.symm hi (after_phase (by simp [hid]) _)
      rcases hnext with hsame | ⟨hk1, hv1⟩
      · have heq := projection_inj hne h hk' hk (hstored.symm.trans (hsame.trans hbefore.symm))
        rw [if_neg (by omega)]
        exact ⟨.inr (.inl (by omega)), heq⟩
      · rw [if_pos hv1]
        exact ⟨.inr (.inr ⟨es[k], List.getElem_mem hk, h.numbered k _ hlast, .inr ⟨by omega, not_lt.mp htime⟩⟩), hk1⟩

end

/-! ## A sequence of deliveries -/

omit [JsRuntime] in
theorem le_reach (k : Nat) (event : DomainEvent) : k ≤ reach k event := by
  unfold reach
  split <;> omega

omit [JsRuntime] in
theorem reached_succ {deliveries : List DomainEvent} {n : Nat} {e : DomainEvent} (he : deliveries[n]? = some e) :
    reached (deliveries.take (n + 1)) = reach (reached (deliveries.take n)) e := by
  rw [reached, List.take_add_one, he, Option.toList_some, List.foldl_concat]
  rfl

omit [JsRuntime] in
theorem reached_mono {deliveries : List DomainEvent} {m n : Nat} (hmn : m ≤ n) (hn : n ≤ deliveries.length) :
    reached (deliveries.take m) ≤ reached (deliveries.take n) := by
  induction n with
  | zero => simp [Nat.le_zero.mp hmn]
  | succ n ih =>
    rcases Nat.lt_or_ge m (n + 1) with hlt | hge
    · rw [reached_succ (List.getElem?_eq_getElem hn)]
      exact (ih (by omega) (by omega)).trans (le_reach _ _)
    · rw [Nat.le_antisymm hmn hge]

def afterDeliveries (events : EventStore) (deliveries : List DomainEvent) (n : Nat) : ReadSide :=
  (deliveries.take n).foldl deliver (.empty events)

/-- After each delivery the summary is the projection of as many events as `position` says,
all that were accepted among them; and the delivery has left the summary alone, or has
brought the next event, or was rejected as a gap. -/
structure KeepsPrefix (events : EventStore) (transferId : String) (es deliveries : List DomainEvent)
    (position : Nat → Nat) : Prop where
  summary : ∀ n ≤ deliveries.length, position n ≤ es.length ∧
    (afterDeliveries events deliveries n).transfers.get (some transferId) = projection (es.take (position n))
  accepted : ∀ m n e, m < n → n ≤ deliveries.length → deliveries[m]? = some e →
    Accepts (afterDeliveries events deliveries m) e → e.streamVersion ≤ position n
  next : ∀ n e, deliveries[n]? = some e →
    (afterDeliveries events deliveries (n + 1)).transfers.get (some transferId) =
      (afterDeliveries events deliveries n).transfers.get (some transferId) ∨
    position (n + 1) = position n + 1 ∧ e.streamVersion = position n + 1 ∨
    ¬ Accepts (afterDeliveries events deliveries n) e ∧ position n + 1 < e.streamVersion

section
variable (hne : transferId ≠ "") (h : TransferStream transferId es) (events : EventStore)
  {deliveries : List DomainEvent} (hds : ∀ d ∈ deliveries, d ∈ es)
include hne h hds

theorem afterDeliveries_succ {n : Nat} {e : DomainEvent} (he : deliveries[n]? = some e) :
    (afterDeliveries events deliveries (n + 1)).transfers.get (some transferId) =
      stored ((afterDeliveries events deliveries n).transfers.get (some transferId)) e ∧
    (Accepts (afterDeliveries events deliveries n) e ↔
      ∃ next, advance e ((afterDeliveries events deliveries n).transfers.get (some transferId)) = .ok next) := by
  have hid : ∀ d ∈ deliveries, d.data.transferId = some transferId := fun d hd => (h.stamped hne d (hds d hd)).2
  have htaken : ∀ d ∈ deliveries.take n, d.data.transferId = some transferId := fun d hd =>
    hid d (List.mem_of_mem_take hd)
  have hkeyed := (foldl_deliver htaken (.empty events)).1
  have hspec := (deliver_spec (hid e (List.mem_of_getElem? he)) hkeyed).2
  unfold afterDeliveries
  rw [List.take_add_one, he, Option.toList_some, List.foldl_concat]
  exact hspec

theorem fits_of_keepsPrefix {position : Nat → Nat} (hkeeps : KeepsPrefix events transferId es deliveries position)
    {n : Nat} (hn : n ≤ deliveries.length) :
    position n = reached (deliveries.take n) ∧
      ∀ m e, m < n → deliveries[m]? = some e → Fits es (reached (deliveries.take m)) e := by
  induction n with
  | zero =>
    obtain ⟨hlen, hget⟩ := hkeeps.summary 0 (Nat.zero_le _)
    refine ⟨?_, by simp⟩
    have hnone : projection (es.take 0) = projection (es.take (position 0)) := hget
    exact (projection_inj hne h (Nat.zero_le _) hlen hnone).symm
  | succ n ih =>
    obtain ⟨hposition, hfits⟩ := ih (by omega)
    have he : deliveries[n]? = some deliveries[n] := List.getElem?_eq_getElem hn
    obtain ⟨hlen, hget⟩ := hkeeps.summary n (by omega)
    obtain ⟨hlen', hget'⟩ := hkeeps.summary (n + 1) hn
    obtain ⟨hnow, haccepts⟩ := afterDeliveries_succ hne h events hds he
    obtain ⟨i, hi⟩ := List.mem_iff_getElem?.mp (hds _ (List.getElem_mem hn))
    rw [hget] at hnow haccepts
    have hstep := fits_of_stored hne h hlen hlen' hi (hnow.symm.trans hget')
      (fun hadvance => hkeeps.accepted n (n + 1) _ (by omega) hn he (haccepts.mpr hadvance)) (by
        rcases hkeeps.next n _ he with hsame | hnext | ⟨hrejected, -⟩
        · exact .inl (by rw [← hnow, hsame, hget])
        · exact .inr (.inl hnext)
        · exact .inr (.inr fun hadvance => hrejected (haccepts.mpr hadvance)))
    rw [hposition] at hstep
    refine ⟨by rw [hstep.2, reached_succ he], ?_⟩
    intro m e hm hme
    rcases Nat.lt_succ_iff_lt_or_eq.mp hm with hlt | rfl
    · exact hfits m e hlt hme
    · obtain rfl := Option.some.inj (he.symm.trans hme)
      exact hstep.1

theorem summary_of_fits (hfits : ∀ n e, deliveries[n]? = some e → Fits es (reached (deliveries.take n)) e)
    {n : Nat} (hn : n ≤ deliveries.length) : reached (deliveries.take n) ≤ es.length ∧
      (afterDeliveries events deliveries n).transfers.get (some transferId) =
        projection (es.take (reached (deliveries.take n))) := by
  induction n with
  | zero => exact ⟨Nat.zero_le _, rfl⟩
  | succ n ih =>
    have he : deliveries[n]? = some deliveries[n] := List.getElem?_eq_getElem hn
    obtain ⟨hlen, hget⟩ := ih (by omega)
    obtain ⟨i, hi⟩ := List.mem_iff_getElem?.mp (hds _ (List.getElem_mem hn))
    obtain ⟨hstored, hlen', -⟩ := stored_of_fits hne h hlen hi (hfits n _ he)
    rw [reached_succ he, (afterDeliveries_succ hne h events hds he).1, hget]
    exact ⟨hlen', hstored⟩

/-- Deliveries keep the summary the projection of a prefix if and only if each of them fits
where it comes. -/
theorem keepsPrefix_iff :
    (∃ position, KeepsPrefix events transferId es deliveries position) ↔
      ∀ n e, deliveries[n]? = some e → Fits es (reached (deliveries.take n)) e := by
  constructor
  · rintro ⟨position, hkeeps⟩ n e he
    have hn := (List.getElem?_eq_some_iff.mp he).1
    exact (fits_of_keepsPrefix hne h events hds hkeeps (n := n + 1) hn).2 n e (Nat.lt_succ_self n) he
  · intro hfits
    refine ⟨fun n => reached (deliveries.take n), fun n hn => summary_of_fits hne h events hds hfits hn, ?_, ?_⟩
    · intro m n e hm hn he haccepts
      obtain ⟨hlen, hget⟩ := summary_of_fits hne h events hds hfits (n := m) (by omega)
      obtain ⟨i, hi⟩ := List.mem_iff_getElem?.mp (hds _ (List.mem_of_getElem? he))
      have hadvance := (afterDeliveries_succ hne h events hds he).2.mp haccepts
      rw [hget] at hadvance
      have hle := (stored_of_fits hne h hlen hi (hfits m e he)).2.2 hadvance
      rw [← reached_succ he] at hle
      exact hle.trans (reached_mono (by omega) hn)
    · intro n e he
      have hn := (List.getElem?_eq_some_iff.mp he).1
      have hsucc := reached_succ he
      unfold reach at hsucc
      split at hsucc
      case isTrue hv => exact .inr (.inl ⟨hsucc, hv⟩)
      case isFalse =>
        refine .inl ?_
        rw [(summary_of_fits hne h events hds hfits (n := n + 1) hn).2,
          (summary_of_fits hne h events hds hfits (n := n) (by omega)).2, hsucc]

end

open TransferAggregate in
omit [JsRuntime] in
theorem refunded_stream : TransferStream "trf-1" (afterCalls refundedCalls).uncommittedEvents := by
  have hnamed : Named refundedCalls := by
    unfold Named
    decide +kernel
  obtain ⟨transferId, hne, hstream⟩ := afterCalls_stream hnamed
  have hfirst : ∃ e ∈ (afterCalls refundedCalls).uncommittedEvents, e.data.transferId = some "trf-1" :=
    by decide +kernel
  obtain ⟨e, he, hid⟩ := hfirst
  obtain rfl : transferId = "trf-1" := Option.some.inj ((hstream.stamped hne e he).2.symm.trans hid)
  exact hstream

omit [JsRuntime] in
/-- In order, with the last event twice and two old ones at the end. -/
theorem keepsPrefix_iff_redelivered :
    let es := (TransferAggregate.afterCalls TransferAggregate.refundedCalls).uncommittedEvents
    ∃ position, @KeepsPrefix decimalRuntime .empty "trf-1" es (es ++ es.drop 6 ++ es.take 2) position := by
  have hfits : ∀ n < 10, let es := (TransferAggregate.afterCalls TransferAggregate.refundedCalls).uncommittedEvents
      ∀ e ∈ (es ++ es.drop 6 ++ es.take 2)[n]?, Fits es (reached ((es ++ es.drop 6 ++ es.take 2).take n)) e := by
    unfold Fits
    decide +kernel
  refine (@keepsPrefix_iff decimalRuntime "trf-1" _ (by decide) refunded_stream .empty _ ?_).mpr ?_
  · simp only [List.mem_append]
    rintro d ((hd | hd) | hd)
    · exact hd
    · exact List.mem_of_mem_drop hd
    · exact List.mem_of_mem_take hd
  · intro n e he
    exact hfits n (by have := (List.getElem?_eq_some_iff.mp he).1; exact this) e he

omit [JsRuntime] in
/-- The first event and then the third: the second is skipped. -/
theorem not_keepsPrefix : ¬ ∀ (events : EventStore) (transferId : String) (es deliveries : List DomainEvent),
    transferId ≠ "" → TransferStream transferId es → (∀ d ∈ deliveries, d ∈ es) →
    ∃ position, @KeepsPrefix decimalRuntime events transferId es deliveries position := by
  intro h
  let es := (TransferAggregate.afterCalls TransferAggregate.refundedCalls).uncommittedEvents
  have hds : ∀ d ∈ [es[0], es[2]], d ∈ es := by decide +kernel
  obtain ⟨position, hkeeps⟩ := h .empty "trf-1" es [es[0], es[2]] (by decide) refunded_stream hds
  have hfits := (@fits_of_keepsPrefix decimalRuntime "trf-1" es (by decide) refunded_stream .empty _ hds position hkeeps
    2 (le_refl _)).2 1 es[2] (by decide) rfl
  exact absurd hfits (by unfold Fits; decide +kernel)

end TransferProjector

end CoreBanking
