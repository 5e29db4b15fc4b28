import CoreBanking.Bank

/-!
# The invariant of the bank

One part for what holds in every run, and one for each restriction a run may
keep: that legs are left to the coordinator, that only guards of an account
read as terminal, that no fault follows a commit, that no unknown account is
frozen. Every change the programs make to the stores has its lemma here.
-/

namespace CoreBanking

structure Flags where
  legs : Prop
  quiet : Prop
  calm : Prop
  opened : Prop

/-- What a program holds: the transaction id and the key whose handlers it runs
and has committed nothing for, and the id of a handler of its own that failed. -/
structure Hold where
  running : Option String := none
  failed : Option String := none
  key : Option String := none

def Hold.commit (h : Hold) (e : DomainEvent) : Hold :=
  { h with running := if e.data.movement = none then h.running else none, key := none }

def Hold.done (h : Hold) : Hold := { h with running := none, key := none }

def FailureStage.leg : FailureStage → Leg
  | .DEBIT => .debit
  | .CREDIT => .credit

/-- The registry's refusals of a leg, and a lost race on the transfer, do not
read as terminal. -/
structure QuietTexts (t : String) : Prop where
  inProgress : ∀ leg, TransferCoordinatorService.isTerminalDomainError
    (TransactionRegistryService.alreadyInProgress (legId t leg)) = false
  failed : ∀ leg, TransferCoordinatorService.isTerminalDomainError
    (TransactionRegistryService.previouslyFailed (legId t leg)) = false
  different : ∀ leg, TransferCoordinatorService.isTerminalDomainError
    (TransactionRegistryService.differentMovement (legId t leg)) = false
  conflict : TransferCoordinatorService.isTerminalDomainError (TransferRepository.writeConflict t) = false

/-- Recorded, and never to be moved: nobody runs its handler. -/
structure Dead (s : Store) (gs : Nat → Hold) (x : String) : Prop where
  recorded : s.Recorded x
  unmoved : ¬ s.Moved x
  idle : ∀ j, (gs j).running ≠ some x

structure Books [JsRuntime] (P : Flags) (s : Store) (gs : Nat → Hold) : Prop where
  ledger : Ledger s
  recorded : ∀ {x}, s.Moved x → s.Recorded x
  once : ∀ {x streamId streamId'} {k k' : Nat} {e e' : DomainEvent},
    (s.stream streamId)[k]? = some e → (s.stream streamId')[k']? = some e' →
    e.data.movement = some x → e'.data.movement = some x → streamId = streamId' ∧ k = k'
  owned : ∀ {i x}, (gs i).running = some x → s.Recorded x ∧ ¬ s.Moved x
  owner : ∀ {i j x}, (gs i).running = some x → (gs j).running = some x → i = j
  notReopened : ∀ {x record}, s.transactions.get x = some record → record.status ≠ .FAILED_RETRYABLE
  named : ∀ {t}, s.stream (transferStream t) ≠ [] → t ≠ "" ∧ (P.quiet → QuietTexts t)
  amount : ∀ {t terms}, termsOf (s.stream (transferStream t)) = some terms →
    parseMoneyToMinorUnits (.number (minorUnitsToNumber terms.amountMinorUnits)) = .ok terms.amountMinorUnits
  started : ∀ {t e leg x}, e ∈ s.stream (transferStream t) → e.data.started = some (leg, x) → x = legId t leg

/-- A leg is moved under its own id, whether a pass has recorded it or not. -/
theorem Books.recordedId [JsRuntime] {P : Flags} {s : Store} {gs : Nat → Hold} (h : Books P s gs) (t : String)
    (leg : Leg) : (leg.recordedId (TransferAggregate.replay (s.stream (transferStream t)))).getD (legId t leg) =
      legId t leg := by
  cases hr : leg.recordedId (TransferAggregate.replay (s.stream (transferStream t))) with
  | none => rfl
  | some x =>
    obtain ⟨e, he, hs⟩ := (h.ledger.transfer t).stream.recordedId hr
    exact h.started he hs

structure LegBooks (s : Store) : Prop where
  earned : ∀ {t leg}, s.Recorded (legId t leg) → leg.Earned (s.stream (transferStream t))
  completed : ∀ {t leg record}, s.transactions.get (legId t leg) = some record → record.status = .COMPLETED →
    s.Moved (legId t leg)
  movement : ∀ {t leg streamId e}, e ∈ s.stream streamId → e.data.movement = some (legId t leg) →
    ∃ terms, termsOf (s.stream (transferStream t)) = some terms ∧ LegMovement t leg terms streamId e
  finished : ∀ {t leg e}, e ∈ s.stream (transferStream t) → e.data.finished = some leg → s.Moved (legId t leg)

structure QuietBooks (s : Store) (gs : Nat → Hold) : Prop where
  held : ∀ {i x}, (gs i).failed = some x → Dead s gs x
  failed : ∀ {t stage e}, e ∈ s.stream (transferStream t) → e.data.failed = some stage →
    Dead s gs (legId t stage.leg) ∧ (stage = .CREDIT → Leg.credit.Earned (s.stream (transferStream t)))

structure CalmBooks (s : Store) (gs : Nat → Hold) : Prop where
  failed : ∀ {x record}, s.transactions.get x = some record → record.status = .FAILED_TERMINAL → Dead s gs x
  requested : ∀ {k}, s.Produced k → ∃ record, s.idempotency.get k = some record
  keyed : ∀ {i k}, (gs i).key = some k → (∃ record, s.idempotency.get k = some record) ∧ ¬ s.Produced k
  keyOwner : ∀ {i j k}, (gs i).key = some k → (gs j).key = some k → i = j
  keyFailed : ∀ {k record}, s.idempotency.get k = some record → record.status = .FAILED →
    ¬ s.Produced k ∧ ∀ j, (gs j).key ≠ some k

structure BankInv [JsRuntime] (P : Flags) (s : Store) (gs : Nat → Hold) : Prop extends Books P s gs where
  legs : P.legs → LegBooks s
  quiet : P.quiet → QuietBooks s gs
  calm : P.calm → CalmBooks s gs
  opened : P.opened → s.Opened

theorem not_moved_empty (x : String) : ¬ Store.empty.Moved x := by
  rintro ⟨_, _, he, _⟩
  cases he

theorem not_produced_empty (k : String) : ¬ Store.empty.Produced k := by
  rintro ⟨_, _, he, _⟩
  cases he

theorem BankInv.empty [JsRuntime] (P : Flags) : BankInv P .empty fun _ => {} where
  ledger := .empty
  recorded h := absurd h (not_moved_empty _)
  once h := by cases h
  owned h := by cases h
  owner h := by cases h
  notReopened h := by cases h
  named h := absurd rfl h
  amount h := by cases h
  started h := by cases h
  legs _ :=
    { earned := fun ⟨_, h⟩ => by cases h
      completed := fun h => by cases h
      movement := fun h => by cases h
      finished := fun h => by cases h }
  quiet _ := { held := fun h => (by cases h), failed := fun h => (by cases h) }
  calm _ :=
    { failed := fun h => by cases h
      requested := fun h => absurd h (not_produced_empty _)
      keyed := fun h => by cases h
      keyOwner := fun h => by cases h
      keyFailed := fun h => by cases h }
  opened _ := fun _ h => absurd rfl h

/-! ## Commits -/

namespace Store

variable {s : Store} {streamId : String} {e : DomainEvent}

section
variable (hl : Ledger s) (he : Extends streamId (s.stream streamId) e)
include hl he

theorem mem_write {e' : DomainEvent} {streamId' : String} :
    e' ∈ (s.write streamId [e]).stream streamId' ↔ e' ∈ s.stream streamId' ∨ (streamId = streamId' ∧ e' = e) := by
  rw [hl.stream_write he]
  split
  case isTrue h => subst h; simp
  case isFalse h => simp [h]

theorem getElem?_write {e' : DomainEvent} {streamId' : String} {k : Nat}
    (hk : ((s.write streamId [e]).stream streamId')[k]? = some e') :
    (s.stream streamId')[k]? = some e' ∨ (streamId = streamId' ∧ k = (s.stream streamId).length ∧ e' = e) := by
  rw [hl.stream_write he] at hk
  split at hk
  case isTrue h =>
    subst h
    rcases Nat.lt_trichotomy k (s.stream streamId).length with hlt | rfl | hgt
    · exact .inl (by rwa [List.getElem?_append_left hlt] at hk)
    · simp only [List.getElem?_concat_length, Option.some.injEq] at hk
      exact .inr ⟨rfl, rfl, hk.symm⟩
    · rw [List.getElem?_eq_none (by simp; omega)] at hk
      cases hk
  · exact .inl hk

theorem exists_write {P : DomainEvent → Prop} :
    (∃ streamId', ∃ e' ∈ (s.write streamId [e]).stream streamId', P e') ↔
      (∃ streamId', ∃ e' ∈ s.stream streamId', P e') ∨ P e := by
  simp only [mem_write hl he]
  constructor
  · rintro ⟨streamId', e', h | ⟨rfl, rfl⟩, hP⟩
    · exact .inl ⟨streamId', e', h, hP⟩
    · exact .inr hP
  · rintro (⟨streamId', e', h, hP⟩ | hP)
    · exact ⟨streamId', e', .inl h, hP⟩
    · exact ⟨streamId, e, .inr ⟨rfl, rfl⟩, hP⟩

theorem moved_write {x : String} : (s.write streamId [e]).Moved x ↔ s.Moved x ∨ e.data.movement = some x :=
  exists_write hl he

theorem produced_write {k : String} :
    (s.write streamId [e]).Produced k ↔ s.Produced k ∨ e.metadata.commandId = k :=
  exists_write hl he

theorem prefix_write (streamId' : String) : s.stream streamId' <+: (s.write streamId [e]).stream streamId' := by
  rw [hl.stream_write he]
  split
  case isTrue h => rw [h]; exact List.prefix_append _ _
  · exact List.prefix_rfl

theorem termsOf_write {t : String} {terms : TransferTerms}
    (h : termsOf ((s.write streamId [e]).stream (transferStream t)) = some terms) :
    termsOf (s.stream (transferStream t)) = some terms ∨ (streamId = transferStream t ∧ e.data.terms = some terms) := by
  rw [hl.stream_write he] at h
  split at h
  case isTrue hs =>
    by_cases hnil : s.stream streamId = []
    · rw [hnil] at h; exact .inr ⟨hs, h⟩
    · rw [termsOf_snoc hnil, hs] at h; exact .inl h
  · exact .inl h

end

end Store

/-- What a program has to bring to a commit of `e`. -/
structure Warrant [JsRuntime] (P : Flags) (s : Store) (gs : Nat → Hold) (i : Nat) (streamId : String)
    (e : DomainEvent) : Prop where
  extension : Extends streamId (s.stream streamId) e
  money : ∀ {x}, e.data.movement = some x → (gs i).running = some x
  key : P.calm → (gs i).key = some e.metadata.commandId
  named : ∀ {t}, streamId = transferStream t → t ≠ "" ∧ (P.quiet → QuietTexts t)
  amount : ∀ {terms}, e.data.terms = some terms →
    parseMoneyToMinorUnits (.number (minorUnitsToNumber terms.amountMinorUnits)) = .ok terms.amountMinorUnits
  started : ∀ {t leg x}, streamId = transferStream t → e.data.started = some (leg, x) → x = legId t leg
  movement : P.legs → ∀ {t leg}, e.data.movement = some (legId t leg) →
    ∃ terms, termsOf (s.stream (transferStream t)) = some terms ∧ LegMovement t leg terms streamId e
  finished : P.legs → ∀ {t leg}, streamId = transferStream t → e.data.finished = some leg → s.Moved (legId t leg)
  failed : P.quiet → ∀ {t stage}, streamId = transferStream t → e.data.failed = some stage →
    Dead s gs (legId t stage.leg) ∧ (stage = .CREDIT → Leg.credit.Earned (s.stream (transferStream t)))
  opened : P.opened → s.stream streamId = [] →
    (∀ a, streamId = accountStream a → a ≠ "") ∧ e.data.isAccountFrozen = false

section
variable [JsRuntime] {P : Flags} {s : Store} {gs : Nat → Hold} {i : Nat} {streamId : String} {e : DomainEvent}

theorem running_commit (h : Books P s gs) (hw : Warrant P s gs i streamId e) {j : Nat} {x : String}
    (hj : (Function.update gs i ((gs i).commit e) j).running = some x) :
    (gs j).running = some x ∧ e.data.movement ≠ some x := by
  by_cases hij : j = i
  · subst hij
    rw [Function.update_self, Hold.commit] at hj
    dsimp only at hj
    split at hj
    case isTrue hnone => exact ⟨hj, by rw [hnone]; exact nofun⟩
    · cases hj
  · rw [Function.update_of_ne hij] at hj
    exact ⟨hj, fun hm => hij (h.owner hj (hw.money hm))⟩

omit [JsRuntime] in
theorem failed_commit {j : Nat} :
    (Function.update gs i ((gs i).commit e) j).failed = (gs j).failed :=
  Outline.ghost_kept Hold.failed (by rfl) j

omit [JsRuntime] in
theorem key_commit {j : Nat} {k : String} (hj : (Function.update gs i ((gs i).commit e) j).key = some k) :
    (gs j).key = some k ∧ j ≠ i := by
  by_cases hij : j = i
  · subst hij; rw [Function.update_self] at hj; cases hj
  · rw [Function.update_of_ne hij] at hj; exact ⟨hj, hij⟩

theorem Dead.commit (h : Books P s gs) (hw : Warrant P s gs i streamId e) {x : String} (hd : Dead s gs x) :
    Dead (s.write streamId [e]) (Function.update gs i ((gs i).commit e)) x where
  recorded := hd.recorded
  unmoved hm := by
    rcases (Store.moved_write h.ledger hw.extension).mp hm with hm | hm
    · exact hd.unmoved hm
    · exact hd.idle i (hw.money hm)
  idle j hj := hd.idle j (running_commit h hw hj).1

theorem Books.commit (h : Books P s gs) (hw : Warrant P s gs i streamId e) :
    Books P (s.write streamId [e]) (Function.update gs i ((gs i).commit e)) where
  ledger := h.ledger.write hw.extension
  recorded hm := by
    rcases (Store.moved_write h.ledger hw.extension).mp hm with hm | hm
    · exact h.recorded hm
    · exact (h.owned (hw.money hm)).1
  once {x sid sid' k k' e₁ e₂} h₁ h₂ hx hx' := by
    have hold : ∀ {sid} {k : Nat} {e' : DomainEvent}, (s.stream sid)[k]? = some e' →
      e'.data.movement = some x → s.Moved x :=
      fun hk hx => ⟨_, _, List.mem_of_getElem? hk, hx⟩
    have hnew : e.data.movement = some x → ¬ s.Moved x := fun hx => (h.owned (hw.money hx)).2
    rcases Store.getElem?_write h.ledger hw.extension h₁ with old₁ | ⟨rfl, rfl, he₁⟩
    · rcases Store.getElem?_write h.ledger hw.extension h₂ with old₂ | ⟨_, _, he₂⟩
      · exact h.once old₁ old₂ hx hx'
      · exact absurd (hold old₁ hx) (hnew (he₂ ▸ hx'))
    · rcases Store.getElem?_write h.ledger hw.extension h₂ with old₂ | ⟨rfl, rfl, _⟩
      · exact absurd (hold old₂ hx') (hnew (he₁ ▸ hx))
      · exact ⟨rfl, rfl⟩
  owned {j x} hj := by
    obtain ⟨hj, hne⟩ := running_commit h hw hj
    refine ⟨(h.owned hj).1, fun hm => ?_⟩
    rcases (Store.moved_write h.ledger hw.extension).mp hm with hm | hm
    · exact (h.owned hj).2 hm
    · exact hne hm
  owner hj hj' := h.owner (running_commit h hw hj).1 (running_commit h hw hj').1
  notReopened := h.notReopened
  named {t} hne := by
    by_cases hs : streamId = transferStream t
    · exact hw.named hs
    · rw [h.ledger.stream_write hw.extension, if_neg hs] at hne
      exact h.named hne
  amount {t terms} ht := by
    rcases Store.termsOf_write h.ledger hw.extension ht with ht | ⟨_, ht⟩
    · exact h.amount ht
    · exact hw.amount ht
  started he hst := by
    rcases (Store.mem_write h.ledger hw.extension).mp he with he | ⟨hs, rfl⟩
    · exact h.started he hst
    · exact hw.started hs hst

theorem BankInv.commit (h : BankInv P s gs) (hw : Warrant P s gs i streamId e) :
    BankInv P (s.write streamId [e]) (Function.update gs i ((gs i).commit e)) where
  toBooks := h.toBooks.commit hw
  legs hP := by
    have hB := h.legs hP
    have hmoved : ∀ {x}, s.Moved x → (s.write streamId [e]).Moved x :=
      fun hm => (Store.moved_write h.ledger hw.extension).mpr (.inl hm)
    refine ⟨fun hr => (hB.earned hr).mono (Store.prefix_write h.ledger hw.extension _),
      fun hr hc => hmoved (hB.completed hr hc), fun {t leg sid e'} he hm => ?_, fun {t leg e'} he hf => ?_⟩
    · have key : ∃ terms, termsOf (s.stream (transferStream t)) = some terms ∧ LegMovement t leg terms sid e' := by
        rcases (Store.mem_write h.ledger hw.extension).mp he with he | ⟨rfl, rfl⟩
        · exact hB.movement he hm
        · exact hw.movement hP hm
      obtain ⟨terms, ht, hmove⟩ := key
      exact ⟨terms, termsOf_mono (Store.prefix_write h.ledger hw.extension _) ht, hmove⟩
    · rcases (Store.mem_write h.ledger hw.extension).mp he with he | ⟨hs, rfl⟩
      · exact hmoved (hB.finished he hf)
      · exact hmoved (hw.finished hP hs hf)
  quiet hP := by
    have hB := h.quiet hP
    refine ⟨fun hx => (hB.held (failed_commit ▸ hx)).commit h.toBooks hw, fun {t stage e'} he hf => ?_⟩
    have key : Dead s gs (legId t stage.leg) ∧ (stage = .CREDIT → Leg.credit.Earned (s.stream (transferStream t))) := by
      rcases (Store.mem_write h.ledger hw.extension).mp he with he | ⟨hs, rfl⟩
      · exact hB.failed he hf
      · exact hw.failed hP hs hf
    exact ⟨key.1.commit h.toBooks hw, fun hst => (key.2 hst).mono (Store.prefix_write h.ledger hw.extension _)⟩
  calm hP := by
    have hB := h.calm hP
    have hk := hw.key hP
    have hproduced := fun {k} => Store.produced_write (k := k) h.ledger hw.extension
    refine ⟨fun hr hst => (hB.failed hr hst).commit h.toBooks hw, fun hp => ?_, fun hj => ?_, fun hj hj' => ?_,
      fun {k record} hr hst => ⟨fun hp => ?_, fun j hj => ?_⟩⟩
    · rcases hproduced.mp hp with hp | rfl
      · exact hB.requested hp
      · exact (hB.keyed hk).1
    · obtain ⟨hj, hne⟩ := key_commit hj
      refine ⟨(hB.keyed hj).1, fun hp => ?_⟩
      rcases hproduced.mp hp with hp | rfl
      · exact (hB.keyed hj).2 hp
      · exact hne (hB.keyOwner hj hk)
    · exact hB.keyOwner (key_commit hj).1 (key_commit hj').1
    · rcases hproduced.mp hp with hp | rfl
      · exact (hB.keyFailed hr hst).1 hp
      · exact (hB.keyFailed hr hst).2 i hk
    · exact (hB.keyFailed hr hst).2 j (key_commit hj).1
  opened hP := (h.opened hP).write h.ledger hw.extension (hw.opened hP)

/-! ## Records and holdings -/

theorem BankInv.congr (h : BankInv P s gs) {s' : Store} (hs : s.SameBooks s') (hl : Ledger s') : BankInv P s' gs := by
  obtain ⟨events, snapshots, transactions, idempotency⟩ := s
  obtain ⟨events', snapshots', transactions', idempotency'⟩ := s'
  obtain ⟨rfl, rfl, rfl⟩ := hs
  exact
    { ledger := hl, recorded := h.recorded, once := h.once, owned := h.owned, owner := h.owner
      notReopened := h.notReopened, named := h.named, amount := h.amount, started := h.started
      legs := fun hP => { h.legs hP with }
      quiet := fun hP => ⟨fun hx => { (h.quiet hP).held hx with }, fun he hf =>
        ⟨{ ((h.quiet hP).failed he hf).1 with }, ((h.quiet hP).failed he hf).2⟩⟩
      calm := fun hP => { h.calm hP with failed := fun hr hst => { (h.calm hP).failed hr hst with } }
      opened := h.opened }

omit [JsRuntime] in
theorem recorded_set {x : String} {record : TransactionRecord} {y : String} :
    Store.Recorded { s with transactions := s.transactions.set x record } y ↔ x = y ∨ s.Recorded y := by
  simp only [Store.Recorded, OrderedMap.get_set]
  by_cases hxy : x = y <;> simp [hxy]

theorem BankInv.reserve (h : BankInv P s gs) {x : String} {record : TransactionRecord}
    (hfresh : s.transactions.get x = none) (hst : record.status = .PENDING)
    (hearned : P.legs → ∀ {t leg}, x = legId t leg → leg.Earned (s.stream (transferStream t))) :
    BankInv P { s with transactions := s.transactions.set x record }
      (Function.update gs i { gs i with running := some x }) := by
  have hnew : ¬ s.Recorded x := by
    rintro ⟨record, hr⟩
    rw [hfresh] at hr
    cases hr
  have hget : ∀ {y r}, (s.transactions.set x record).get y = some r → s.transactions.get y = some r ∨
      (x = y ∧ r.status = .PENDING) := by
    intro y r hr
    rw [OrderedMap.get_set] at hr
    split at hr
    case isTrue hxy => exact .inr ⟨hxy, Option.some.inj hr ▸ hst⟩
    · exact .inl hr
  have hrunning : ∀ {j y}, (Function.update gs i { gs i with running := some x } j).running = some y →
      (j = i ∧ y = x) ∨ (j ≠ i ∧ (gs j).running = some y) := by
    intro j y hj
    by_cases hij : j = i
    · subst hij; rw [Function.update_self] at hj; exact .inl ⟨rfl, (Option.some.inj hj).symm⟩
    · rw [Function.update_of_ne hij] at hj; exact .inr ⟨hij, hj⟩
  have hkey : ∀ {j}, (Function.update gs i { gs i with running := some x } j).key = (gs j).key :=
    Outline.ghost_kept Hold.key (by rfl) _
  have hheld : ∀ {j}, (Function.update gs i { gs i with running := some x } j).failed = (gs j).failed :=
    Outline.ghost_kept Hold.failed (by rfl) _
  have hdead : ∀ {y}, Dead s gs y → Dead { s with transactions := s.transactions.set x record }
      (Function.update gs i { gs i with running := some x }) y := by
    intro y hd
    refine ⟨recorded_set.mpr (.inr hd.recorded), hd.unmoved, fun j hj => ?_⟩
    rcases hrunning hj with ⟨_, rfl⟩ | ⟨_, hj⟩
    · exact hnew hd.recorded
    · exact hd.idle j hj
  exact
    { ledger := h.ledger.congr rfl rfl
      recorded := fun hm => recorded_set.mpr (.inr (h.recorded hm))
      once := h.once
      owned := fun hj => by
        rcases hrunning hj with ⟨_, rfl⟩ | ⟨_, hj⟩
        · exact ⟨recorded_set.mpr (.inl rfl), fun hm => hnew (h.recorded hm)⟩
        · exact ⟨recorded_set.mpr (.inr (h.owned hj).1), (h.owned hj).2⟩
      owner := fun hj hj' => by
        rcases hrunning hj with ⟨hji, hy⟩ | ⟨_, old⟩ <;> rcases hrunning hj' with ⟨hji', hy'⟩ | ⟨_, old'⟩
        · exact hji.trans hji'.symm
        · exact absurd (h.owned old').1 (hy ▸ hnew)
        · exact absurd (h.owned old).1 (hy' ▸ hnew)
        · exact h.owner old old'
      notReopened := fun hr => by
        rcases hget hr with hr | ⟨_, hr⟩
        · exact h.notReopened hr
        · rw [hr]
          simp
      named := h.named
      amount := h.amount
      started := h.started
      legs := fun hP =>
        { earned := fun hr => by
            rcases recorded_set.mp hr with hx | hr
            · exact hearned hP hx
            · exact (h.legs hP).earned hr
          completed := fun hr hc => by
            rcases hget hr with hr | ⟨_, hr⟩
            · exact (h.legs hP).completed hr hc
            · rw [hr] at hc; cases hc
          movement := (h.legs hP).movement
          finished := (h.legs hP).finished }
      quiet := fun hP =>
        { held := fun hj => hdead ((h.quiet hP).held (hheld ▸ hj))
          failed := fun he hf => ⟨hdead ((h.quiet hP).failed he hf).1, ((h.quiet hP).failed he hf).2⟩ }
      calm := fun hP =>
        { failed := fun hr hf => by
            rcases hget hr with hr | ⟨_, hr⟩
            · exact hdead ((h.calm hP).failed hr hf)
            · rw [hr] at hf; cases hf
          requested := (h.calm hP).requested
          keyed := fun hj => (h.calm hP).keyed (hkey ▸ hj)
          keyOwner := fun hj hj' => (h.calm hP).keyOwner (hkey ▸ hj) (hkey ▸ hj')
          keyFailed := fun hr hf =>
            ⟨((h.calm hP).keyFailed hr hf).1, fun j hj => ((h.calm hP).keyFailed hr hf).2 j (hkey ▸ hj)⟩ }
      opened := h.opened }

omit [JsRuntime] in
theorem recorded_modify {x y : String} {f : TransactionRecord → TransactionRecord} :
    Store.Recorded { s with transactions := OrderedMap.modify s.transactions x f } y ↔ s.Recorded y := by
  simp only [Store.Recorded, OrderedMap.get_modify]
  by_cases hxy : x = y
  · subst hxy
    cases s.transactions.get x <;> simp
  · simp [hxy]

theorem BankInv.mark (h : BankInv P s gs) {x : String} {f : TransactionRecord → TransactionRecord}
    {status : TransactionRecordStatus} (hf : ∀ record, (f record).status = status)
    (hne : status ≠ .FAILED_RETRYABLE)
    (hcompleted : P.legs → status = .COMPLETED → ∀ {t leg}, x = legId t leg → s.Moved x)
    (hfailed : P.calm → status = .FAILED_TERMINAL → Dead s gs x) :
    BankInv P { s with transactions := OrderedMap.modify s.transactions x f } gs := by
  have hget : ∀ {y r}, (OrderedMap.modify s.transactions x f).get y = some r →
      s.transactions.get y = some r ∨ (x = y ∧ r.status = status) := by
    intro y r hr
    rw [OrderedMap.get_modify] at hr
    split at hr
    case isTrue hxy =>
      cases hx : s.transactions.get x with
      | none => rw [hx] at hr; cases hr
      | some record => rw [hx] at hr; exact .inr ⟨hxy, Option.some.inj hr ▸ hf record⟩
    · exact .inl hr
  have hdead : ∀ {y}, Dead s gs y →
      Dead { s with transactions := OrderedMap.modify s.transactions x f } gs y :=
    fun hd => ⟨recorded_modify.mpr hd.recorded, hd.unmoved, hd.idle⟩
  exact
    { ledger := h.ledger.congr rfl rfl
      recorded := fun hm => recorded_modify.mpr (h.recorded hm)
      once := h.once
      owned := fun hj => ⟨recorded_modify.mpr (h.owned hj).1, (h.owned hj).2⟩
      owner := h.owner
      notReopened := fun hr => by
        rcases hget hr with hr | ⟨_, hr⟩
        · exact h.notReopened hr
        · rw [hr]; exact hne
      named := h.named
      amount := h.amount
      started := h.started
      legs := fun hP =>
        { earned := fun hr => (h.legs hP).earned (recorded_modify.mp hr)
          completed := fun hr hc => by
            rcases hget hr with hr | ⟨hx, hr⟩
            · exact (h.legs hP).completed hr hc
            · exact hx ▸ hcompleted hP (hr.symm.trans hc) hx
          movement := (h.legs hP).movement
          finished := (h.legs hP).finished }
      quiet := fun hP =>
        { held := fun hj => hdead ((h.quiet hP).held hj)
          failed := fun he hf => ⟨hdead ((h.quiet hP).failed he hf).1, ((h.quiet hP).failed he hf).2⟩ }
      calm := fun hP =>
        { h.calm hP with
          failed := fun hr hf => by
            rcases hget hr with hr | ⟨hx, hr⟩
            · exact hdead ((h.calm hP).failed hr hf)
            · exact hdead (hx ▸ hfailed hP (hr.symm.trans hf)) }
      opened := h.opened }

theorem BankInv.release (h : BankInv P s gs) {x : String} (hx : (gs i).running = some x) :
    BankInv P s (Function.update gs i { gs i with running := none, failed := some x }) ∧
      Dead s (Function.update gs i { gs i with running := none, failed := some x }) x := by
  have hrunning : ∀ {j y}, (Function.update gs i { gs i with running := none, failed := some x } j).running = some y →
      j ≠ i ∧ (gs j).running = some y := by
    intro j y hj
    by_cases hij : j = i
    · subst hij; rw [Function.update_self] at hj; cases hj
    · rw [Function.update_of_ne hij] at hj; exact ⟨hij, hj⟩
  have hkey : ∀ {j}, (Function.update gs i { gs i with running := none, failed := some x } j).key = (gs j).key :=
    Outline.ghost_kept Hold.key (by rfl) _
  have hdead : ∀ {y}, Dead s gs y → Dead s (Function.update gs i { gs i with running := none, failed := some x }) y :=
    fun hd => ⟨hd.recorded, hd.unmoved, fun j hj => hd.idle j (hrunning hj).2⟩
  have hgone : Dead s (Function.update gs i { gs i with running := none, failed := some x }) x :=
    ⟨(h.owned hx).1, (h.owned hx).2, fun j hj => (hrunning hj).1 (h.owner (hrunning hj).2 hx)⟩
  refine ⟨?_, hgone⟩
  exact
    { h with
      owned := fun hj => h.owned (hrunning hj).2
      owner := fun hj hj' => h.owner (hrunning hj).2 (hrunning hj').2
      quiet := fun hP =>
        { held := fun {j y} hj => by
            by_cases hij : j = i
            · subst hij
              rw [Function.update_self] at hj
              exact Option.some.inj hj ▸ hgone
            · rw [Function.update_of_ne hij] at hj
              exact hdead ((h.quiet hP).held hj)
          failed := fun he hf => ⟨hdead ((h.quiet hP).failed he hf).1, ((h.quiet hP).failed he hf).2⟩ }
      calm := fun hP =>
        { h.calm hP with
          failed := fun hr hf => hdead ((h.calm hP).failed hr hf)
          keyed := fun hj => (h.calm hP).keyed (hkey ▸ hj)
          keyOwner := fun hj hj' => (h.calm hP).keyOwner (hkey ▸ hj) (hkey ▸ hj')
          keyFailed := fun hr hf =>
            ⟨((h.calm hP).keyFailed hr hf).1, fun j hj => ((h.calm hP).keyFailed hr hf).2 j (hkey ▸ hj)⟩ } }

/-! ## Idempotency keys -/

omit [JsRuntime] in
theorem Dead.rekey {idempotency : IdempotencyRecords} {key : Option String} {x : String}
    (hd : Dead s gs x) :
    Dead { s with idempotency := idempotency } (Function.update gs i { gs i with key := key }) x := by
  have hrunning : ∀ j, (Function.update gs i { gs i with key := key } j).running = (gs j).running :=
    Outline.ghost_kept Hold.running (by rfl)
  exact ⟨hd.recorded, hd.unmoved, fun j hj => hd.idle j ((hrunning j).symm.trans hj)⟩

theorem BankInv.rekey (h : BankInv P s gs) {idempotency : IdempotencyRecords} {key : Option String}
    (hcalm : P.calm → CalmBooks { s with idempotency := idempotency }
      (Function.update gs i { gs i with key := key })) :
    BankInv P { s with idempotency := idempotency } (Function.update gs i { gs i with key := key }) := by
  have hrunning : ∀ {j}, (Function.update gs i { gs i with key := key } j).running = (gs j).running :=
    Outline.ghost_kept Hold.running (by rfl) _
  have hheld : ∀ {j}, (Function.update gs i { gs i with key := key } j).failed = (gs j).failed :=
    Outline.ghost_kept Hold.failed (by rfl) _
  exact
    { ledger := h.ledger.congr rfl rfl
      recorded := h.recorded
      once := h.once
      owned := fun hj => h.owned (hrunning ▸ hj)
      owner := fun hj hj' => h.owner (hrunning ▸ hj) (hrunning ▸ hj')
      notReopened := h.notReopened
      named := h.named
      amount := h.amount
      started := h.started
      legs := fun hP => { h.legs hP with }
      quiet := fun hP =>
        { held := fun hj => ((h.quiet hP).held (hheld ▸ hj)).rekey
          failed := fun he hf => ⟨((h.quiet hP).failed he hf).1.rekey, ((h.quiet hP).failed he hf).2⟩ }
      calm := hcalm
      opened := h.opened }

omit [JsRuntime] in
theorem key_update {key : Option String} {j : Nat} {k : String}
    (hj : (Function.update gs i { gs i with key := key } j).key = some k) :
    (j = i ∧ key = some k) ∨ (j ≠ i ∧ (gs j).key = some k) := by
  by_cases hij : j = i
  · subst hij; rw [Function.update_self] at hj; exact .inl ⟨rfl, hj⟩
  · rw [Function.update_of_ne hij] at hj; exact .inr ⟨hij, hj⟩

theorem BankInv.reserveKey (h : BankInv P s gs) {k : String} {record : IdempotencyRecord}
    (hfresh : s.idempotency.get k = none) (hst : record.status = .IN_PROGRESS) :
    BankInv P { s with idempotency := s.idempotency.set k record }
      (Function.update gs i { gs i with key := some k }) := by
  refine h.rekey fun hP => ?_
  have hB := h.calm hP
  have hget : ∀ {k' r}, (s.idempotency.set k record).get k' = some r → s.idempotency.get k' = some r ∨
      (k = k' ∧ r.status = .IN_PROGRESS) := by
    intro k' r hr
    rw [OrderedMap.get_set] at hr
    split at hr
    case isTrue hk => exact .inr ⟨hk, Option.some.inj hr ▸ hst⟩
    · exact .inl hr
  have hkeep : ∀ {k'}, (∃ r, s.idempotency.get k' = some r) → ∃ r, (s.idempotency.set k record).get k' = some r := by
    rintro k' ⟨r, hr⟩
    rw [OrderedMap.get_set]
    split
    · exact ⟨_, rfl⟩
    · exact ⟨r, hr⟩
  have hnew : ∀ {r}, s.idempotency.get k ≠ some r := fun hr => by rw [hfresh] at hr; cases hr
  have hunproduced : ¬ s.Produced k := fun hp => by
    obtain ⟨r, hr⟩ := hB.requested hp
    exact hnew hr
  refine ⟨fun hr hf => (hB.failed hr hf).rekey, fun hp => hkeep (hB.requested hp), fun hj => ?_, fun hj hj' => ?_,
    fun hr hf => ?_⟩
  · rcases key_update hj with ⟨_, hk⟩ | ⟨_, hj⟩
    · obtain rfl := Option.some.inj hk
      exact ⟨⟨record, OrderedMap.get_set_self ..⟩, hunproduced⟩
    · exact ⟨hkeep (hB.keyed hj).1, (hB.keyed hj).2⟩
  · have hclash : ∀ {j k'}, some k = some k' → (gs j).key ≠ some k' := by
      rintro j k' hk old
      obtain ⟨r, hr⟩ := (hB.keyed old).1
      exact hnew (Option.some.inj hk ▸ hr)
    rcases key_update hj with ⟨hji, hk⟩ | ⟨_, old⟩ <;> rcases key_update hj' with ⟨hji', hk'⟩ | ⟨_, old'⟩
    · exact hji.trans hji'.symm
    · exact absurd old' (hclash hk)
    · exact absurd old (hclash hk')
    · exact hB.keyOwner old old'
  · rcases hget hr with hr | ⟨_, hr⟩
    · refine ⟨(hB.keyFailed hr hf).1, fun j hj => ?_⟩
      rcases key_update hj with ⟨_, hk⟩ | ⟨_, hj⟩
      · exact hnew (Option.some.inj hk ▸ hr)
      · exact (hB.keyFailed hr hf).2 j hj
    · rw [hr] at hf; cases hf

theorem BankInv.dropKey (h : BankInv P s gs) : BankInv P s (Function.update gs i { gs i with key := none }) := by
  refine h.rekey fun hP => ?_
  have hB := h.calm hP
  have hold : ∀ {j k}, (Function.update gs i { gs i with key := none } j).key = some k → (gs j).key = some k := by
    intro j k hj
    rcases key_update hj with ⟨_, hk⟩ | ⟨_, hj⟩
    · cases hk
    · exact hj
  exact
    { failed := fun hr hst => (hB.failed hr hst).rekey
      requested := hB.requested
      keyed := fun hj => hB.keyed (hold hj)
      keyOwner := fun hj hj' => hB.keyOwner (hold hj) (hold hj')
      keyFailed := fun hr hst => ⟨(hB.keyFailed hr hst).1, fun j hj => (hB.keyFailed hr hst).2 j (hold hj)⟩ }

theorem BankInv.markKey (h : BankInv P s gs) {k : String} {f : IdempotencyRecord → IdempotencyRecord}
    {status : IdempotencyStatus} (hf : ∀ record, (f record).status = status)
    (hfailed : P.calm → status = .FAILED → (gs i).key = some k) :
    BankInv P { s with idempotency := OrderedMap.modify s.idempotency k f }
      (Function.update gs i { gs i with key := none }) := by
  refine h.rekey fun hP => ?_
  have hB := h.calm hP
  have hkeep : ∀ {k'}, (∃ r, s.idempotency.get k' = some r) →
      ∃ r, (OrderedMap.modify s.idempotency k f).get k' = some r := by
    rintro k' ⟨r, hr⟩
    rw [OrderedMap.get_modify]
    split
    case isTrue hk => rw [hk, hr]; exact ⟨_, rfl⟩
    · exact ⟨r, hr⟩
  have hold : ∀ {j k'}, (Function.update gs i { gs i with key := none } j).key = some k' →
      j ≠ i ∧ (gs j).key = some k' := by
    intro j k' hj
    rcases key_update hj with ⟨_, hk⟩ | hj
    · cases hk
    · exact hj
  refine ⟨fun hr hst => (hB.failed hr hst).rekey, fun hp => hkeep (hB.requested hp), fun hj => ?_,
    fun hj hj' => hB.keyOwner (hold hj).2 (hold hj').2, fun {k' r} hr hst => ?_⟩
  · exact ⟨hkeep (hB.keyed (hold hj).2).1, (hB.keyed (hold hj).2).2⟩
  · dsimp only at hr
    rw [OrderedMap.get_modify] at hr
    split at hr
    case isTrue hk =>
      subst hk
      obtain ⟨r', _, rfl⟩ := Option.map_eq_some_iff.mp hr
      have hmine := hfailed hP ((hf r').symm.trans hst)
      exact ⟨(hB.keyed hmine).2, fun j hj => (hold hj).1 (hB.keyOwner (hold hj).2 hmine)⟩
    · exact ⟨(hB.keyFailed hr hst).1, fun j hj => (hB.keyFailed hr hst).2 j (hold hj).2⟩

end

end CoreBanking
