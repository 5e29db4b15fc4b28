import CoreBanking.Lib.Machine

/-!
# ProjectionCoordinationService

Calls of `runShared` and `runExclusive` on one service. JavaScript runs one
piece of code at a time: the continuations of awaits are microtasks, taken in
the order in which they were queued, and a work is started in the continuation
of its call. What a work does is left open: its synchronous part may make
further calls of the service or throw, and its promise may settle at any time.
-/

namespace CoreBanking

/-- Where a call stands: awaiting `previousExclusive`; in the loop of
`waitUntil`; past its check; with its work under way; with its work settled and
the `finally` block queued; over. -/
inductive Stage
  | queued
  | waiting
  | entering
  | working
  | leaving
  | done
deriving DecidableEq

/-- Calls of each kind are numbered as they arrive. -/
inductive Caller
  | shared (i : Nat)
  | exclusive (i : Nat)
deriving DecidableEq

def Caller.isExclusive : Caller → Bool
  | .shared _ => false
  | .exclusive _ => true

/-- The fields of the service, the calls, the queued continuations, and the
work whose synchronous part is running. The promise an exclusive call awaits
first is the one that the exclusive call before it resolves when it ends. -/
structure ProjectionCoordinationService where
  activeSharedOperations : Nat
  exclusiveOperationInProgress : Bool
  exclusiveOperationRequested : Bool
  waitingResolvers : List Caller
  shared : List Stage
  exclusive : List Stage
  microtasks : List Caller
  current : Option Caller
deriving DecidableEq

namespace ProjectionCoordinationService

def init : ProjectionCoordinationService := ⟨0, false, false, [], [], [], [], none⟩

def stage (s : ProjectionCoordinationService) : Caller → Option Stage
  | .shared i => s.shared[i]?
  | .exclusive j => s.exclusive[j]?

def put (s : ProjectionCoordinationService) (b : Stage) : Caller → ProjectionCoordinationService
  | .shared i => { s with shared := s.shared.set i b }
  | .exclusive j => { s with exclusive := s.exclusive.set j b }

def enqueue (s : ProjectionCoordinationService) (c : Caller) : ProjectionCoordinationService :=
  { s with microtasks := s.microtasks ++ [c] }

def notifyWaiters (s : ProjectionCoordinationService) : ProjectionCoordinationService :=
  { s with waitingResolvers := [], microtasks := s.microtasks ++ s.waitingResolvers }

def predicate (s : ProjectionCoordinationService) : Caller → Bool
  | .shared _ => !s.exclusiveOperationRequested && !s.exclusiveOperationInProgress
  | .exclusive _ => s.activeSharedOperations == 0 && !s.exclusiveOperationInProgress

def waitUntil (s : ProjectionCoordinationService) (c : Caller) : ProjectionCoordinationService :=
  if s.predicate c then
    (s.put .entering c).enqueue c
  else
    { s.put .waiting c with waitingResolvers := s.waitingResolvers ++ [c] }

def runShared (s : ProjectionCoordinationService) : ProjectionCoordinationService :=
  { s with shared := s.shared ++ [Stage.waiting] }.waitUntil (.shared s.shared.length)

def runExclusive (s : ProjectionCoordinationService) : ProjectionCoordinationService :=
  let joined := { s with exclusive := s.exclusive ++ [.queued] }
  if s.exclusive.getLast?.all (· = .done) then
    joined.enqueue (.exclusive s.exclusive.length)
  else
    joined

def enter (s : ProjectionCoordinationService) (c : Caller) : ProjectionCoordinationService :=
  match c with
  | .shared i =>
    { s.put .working (.shared i) with activeSharedOperations := s.activeSharedOperations + 1, current := some c }
  | .exclusive j => { s.put .working (.exclusive j) with exclusiveOperationInProgress := true, current := some c }

def release (s : ProjectionCoordinationService) (j : Nat) : ProjectionCoordinationService :=
  if s.exclusive[j + 1]? = some .queued then s.enqueue (.exclusive (j + 1)) else s

def leave (s : ProjectionCoordinationService) : Caller → ProjectionCoordinationService
  | .shared i =>
    { s.put .done (.shared i) with activeSharedOperations := s.activeSharedOperations - 1 }.notifyWaiters
  | .exclusive j =>
    ({ s.put .done (.exclusive j) with
        exclusiveOperationInProgress := false, exclusiveOperationRequested := false }.notifyWaiters).release j

def resume (s : ProjectionCoordinationService) (c : Caller) : Option ProjectionCoordinationService :=
  match c, s.stage c with
  | .exclusive _, some .queued => some ({ s with exclusiveOperationRequested := true }.notifyWaiters.waitUntil c)
  | _, some .waiting => some (s.waitUntil c)
  | _, some .entering => some (s.enter c)
  | _, some .leaving => some (s.leave c)
  | _, _ => none

/-- A call arrives; the next microtask runs; the work under way returns its
promise or throws; the promise of a work settles. -/
inductive Event
  | runShared
  | runExclusive
  | microtask
  | returns
  | throws
  | settles (c : Caller)
deriving DecidableEq

def step (s : ProjectionCoordinationService) : Event → Option ProjectionCoordinationService
  | .runShared => some s.runShared
  | .runExclusive => some s.runExclusive
  | .microtask =>
    match s.current, s.microtasks with
    | none, c :: rest => { s with microtasks := rest }.resume c
    | _, _ => none
  | .returns => s.current.map fun _ => { s with current := none }
  | .throws => s.current.map fun c => { s with current := none }.leave c
  | .settles c =>
    if s.stage c = some .working ∧ s.current ≠ some c then some ((s.put .leaving c).enqueue c) else none

def machine (allows : ProjectionCoordinationService → Event → Prop) : Machine ProjectionCoordinationService Event where
  starts := (· = init)
  allows := allows
  step := step

abbrev Reached (allows : ProjectionCoordinationService → Event → Prop) : ProjectionCoordinationService → Prop :=
  (machine allows).Reached

/-- No exclusive work runs beside another work. -/
def MutualExclusion (s : ProjectionCoordinationService) : Prop :=
  (∀ i j : Nat, s.exclusive[i]? = some .working → s.exclusive[j]? = some .working → i = j) ∧
    ∀ i j : Nat, s.exclusive[j]? = some .working → s.shared[i]? ≠ some .working

/-- No `runExclusive` finds its check true while a `runShared` that has passed
its own check has yet to count itself. -/
def ChecksAlone (s : ProjectionCoordinationService) : Event → Prop
  | .microtask => ∀ c ∈ s.microtasks.head?, c.isExclusive = true →
      s.stage c = some .queued ∨ s.stage c = some .waiting → s.predicate c = true → .entering ∉ s.shared
  | _ => True

instance (s : ProjectionCoordinationService) (e : Event) : Decidable (s.ChecksAlone e) :=
  match e with
  | .microtask => inferInstanceAs (Decidable (∀ c ∈ s.microtasks.head?, c.isExclusive = true →
      s.stage c = some .queued ∨ s.stage c = some .waiting → s.predicate c = true → .entering ∉ s.shared))
  | .runShared | .runExclusive | .returns | .throws | .settles _ => .isTrue trivial

/-! ## What a step keeps -/

end ProjectionCoordinationService

namespace Stage

def counted : Stage → Bool
  | .working | .leaving => true
  | _ => false

def entered : Stage → Bool
  | .entering | .working | .leaving => true
  | _ => false

def busy : Stage → Bool
  | .queued | .done => false
  | _ => true

end Stage

namespace ProjectionCoordinationService

variable {s s' : ProjectionCoordinationService} {c : Caller} {e : Event} {i j : Nat} {a b : Stage}

def Turn (s : ProjectionCoordinationService) (j : Nat) : Prop := ∀ i < j, s.exclusive[i]? = some .done

/-- The counter counts the shared works; the flags tell of the one exclusive
call whose turn it is; only calls whose turn has come are ever continued. -/
structure Inv (s : ProjectionCoordinationService) : Prop where
  active : s.activeSharedOperations = s.shared.countP Stage.counted
  turn : ∀ (j : Nat) b, s.exclusive[j]? = some b → b ≠ .queued → s.Turn j
  requested : s.exclusiveOperationRequested = s.exclusive.any Stage.busy
  inProgress : s.exclusiveOperationInProgress = s.exclusive.any Stage.counted
  continued : ∀ j, .exclusive j ∈ s.microtasks ++ s.waitingResolvers → s.Turn j
  started : ∀ c, s.current = some c → s.stage c = some .working

def Apart (s : ProjectionCoordinationService) : Prop :=
  ∀ a ∈ s.shared, ∀ b ∈ s.exclusive, a.entered = true → b.entered = false

theorem inv_init : init.Inv where
  active := rfl
  turn := by simp [init]
  requested := rfl
  inProgress := rfl
  continued := by simp [init]
  started := by simp [init]

theorem Turn.put (h : s.Turn j) (ha : s.stage c = some a) (hne : a ≠ .done) : (s.put b c).Turn j := by
  intro i hi
  cases c with
  | shared k => exact h i hi
  | exclusive k =>
    have hk : k ≠ i := by
      intro hk
      subst hk
      exact hne (Option.some.inj (ha.symm.trans (h k hi)))
    exact (List.getElem?_set_ne hk).trans (h i hi)

/-- Before the call whose turn it is all are over, and behind it all are queued. -/
theorem Inv.any_put (hI : s.Inv) {p : Stage → Bool} (hq : p .queued = false) (hd : p .done = false)
    (hj : s.exclusive[j]? = some a) (ha : a ≠ .done) (hturn : s.Turn j) : (s.exclusive.set j b).any p = p b := by
  have hlen : j < s.exclusive.length := (List.getElem?_eq_some_iff.mp hj).1
  rw [Bool.eq_iff_iff, List.any_eq_true]
  constructor
  · rintro ⟨x, hx, hp⟩
    obtain ⟨k, hk⟩ := List.mem_iff_getElem?.mp hx
    by_cases hkj : j = k
    · subst hkj
      rw [List.getElem?_set_self hlen] at hk
      exact Option.some.inj hk ▸ hp
    · rw [List.getElem?_set_ne hkj] at hk
      rcases Nat.lt_or_gt_of_ne hkj with hlt | hgt
      · by_cases hxq : x = .queued
        · simp [hxq, hq] at hp
        · exact absurd (Option.some.inj (hj.symm.trans (hI.turn k x hk hxq j hlt))) ha
      · have hx : x = .done := Option.some.inj (hk.symm.trans (hturn k hgt))
        simp [hx, hd] at hp
  · intro hp
    exact ⟨b, List.mem_iff_getElem?.mpr ⟨j, List.getElem?_set_self hlen⟩, hp⟩

theorem Inv.any_of_turn (hI : s.Inv) {p : Stage → Bool} (hq : p .queued = false) (hd : p .done = false)
    (hj : s.exclusive[j]? = some a) (ha : a ≠ .done) (hturn : s.Turn j) : s.exclusive.any p = p a := by
  have h := hI.any_put hq hd hj ha hturn (b := a)
  obtain ⟨hlen, hget⟩ := List.getElem?_eq_some_iff.mp hj
  rwa [← hget, List.set_getElem_self hlen, hget] at h

theorem Inv.put_shared (hI : s.Inv) (hcur : s.current ≠ some (.shared i)) :
    { s.put b (.shared i) with activeSharedOperations := (s.shared.set i b).countP Stage.counted }.Inv where
  active := rfl
  turn := hI.turn
  requested := hI.requested
  inProgress := hI.inProgress
  continued := hI.continued
  started := by
    intro c hc
    cases c with
    | shared k =>
      have hk : i ≠ k := fun hk => hcur (hk ▸ hc)
      exact (List.getElem?_set_ne hk).trans (hI.started _ hc)
    | exclusive k => exact hI.started _ hc

theorem Inv.put_exclusive (hI : s.Inv) (hj : s.exclusive[j]? = some a) (ha : a ≠ .done) (hturn : s.Turn j)
    (hcur : s.current ≠ some (.exclusive j)) :
    { s.put b (.exclusive j) with
        exclusiveOperationInProgress := b.counted, exclusiveOperationRequested := b.busy }.Inv where
  active := hI.active
  turn := by
    intro k x hk hx
    refine Turn.put (c := .exclusive j) ?_ hj ha
    by_cases hkj : j = k
    · exact hkj ▸ hturn
    · exact hI.turn k x ((List.getElem?_set_ne hkj).symm.trans hk) hx
  requested := (hI.any_put (p := Stage.busy) rfl rfl hj ha hturn).symm
  inProgress := (hI.any_put (p := Stage.counted) rfl rfl hj ha hturn).symm
  continued := fun k hk => Turn.put (c := .exclusive j) (hI.continued k hk) hj ha
  started := by
    intro c hc
    cases c with
    | shared k => exact hI.started _ hc
    | exclusive k =>
      have hk : j ≠ k := fun hk => hcur (hk ▸ hc)
      exact (List.getElem?_set_ne hk).trans (hI.started _ hc)

theorem Inv.enqueue (hI : s.Inv) (hc : ∀ j, c = .exclusive j → s.Turn j) : (s.enqueue c).Inv := by
  refine { hI with continued := ?_ }
  intro j hj
  simp only [ProjectionCoordinationService.enqueue, List.append_assoc, List.mem_append, List.mem_singleton] at hj
  rcases hj with hj | hj | hj
  · exact hI.continued j (List.mem_append_left _ hj)
  · exact hc j hj.symm
  · exact hI.continued j (List.mem_append_right _ hj)

theorem Inv.await (hI : s.Inv) (hc : ∀ j, c = .exclusive j → s.Turn j) :
    { s with waitingResolvers := s.waitingResolvers ++ [c] }.Inv := by
  refine { hI with continued := ?_ }
  intro j hj
  simp only [List.mem_append, List.mem_singleton] at hj
  rcases hj with hj | hj | hj
  · exact hI.continued j (List.mem_append_left _ hj)
  · exact hI.continued j (List.mem_append_right _ hj)
  · exact hc j hj.symm

theorem Inv.notifyWaiters (hI : s.Inv) : s.notifyWaiters.Inv := by
  refine { hI with continued := ?_ }
  intro j hj
  simp only [ProjectionCoordinationService.notifyWaiters, List.append_nil] at hj
  exact hI.continued j hj

theorem Inv.idle (hI : s.Inv) : { s with current := none }.Inv :=
  { hI with started := by simp }

theorem Inv.countP_put (hI : s.Inv) (hi : s.shared[i]? = some a) :
    (s.shared.set i b).countP Stage.counted =
      s.activeSharedOperations - (if a.counted then 1 else 0) + if b.counted then 1 else 0 := by
  obtain ⟨hlen, hget⟩ := List.getElem?_eq_some_iff.mp hi
  rw [List.countP_set hlen, hI.active, hget]

theorem Inv.waitUntil_shared (hI : s.Inv) (hi : s.shared[i]? = some .waiting) (hcur : s.current ≠ some (.shared i)) :
    (s.waitUntil (.shared i)).Inv := by
  have hput : ∀ b : Stage, b.counted = false → (s.put b (.shared i)).Inv := by
    intro b hb
    have h := hI.put_shared hcur (b := b)
    rw [hI.countP_put hi, hb] at h
    exact h
  unfold waitUntil
  split
  · exact (hput .entering rfl).enqueue (by simp)
  · exact (hput .waiting rfl).await (by simp)

theorem Inv.join_shared (hI : s.Inv) : { s with shared := s.shared ++ [Stage.waiting] }.Inv := {
  hI with
  active := by simp [hI.active, Stage.counted]
  started := by
    intro c hc
    cases c with
    | shared k =>
      have hk := hI.started _ hc
      simp only [stage] at hk ⊢
      rw [List.getElem?_append_left (List.getElem?_eq_some_iff.mp hk).1, hk]
    | exclusive k => exact hI.started _ hc }

theorem Inv.runShared (hI : s.Inv) : s.runShared.Inv := by
  refine hI.join_shared.waitUntil_shared (by simp) ?_
  intro hcur
  have hlen := (List.getElem?_eq_some_iff.mp (hI.started _ hcur)).1
  exact absurd hlen (Nat.lt_irrefl _)

/-- Also in the turn of a queued call, which raises the flag first. -/
theorem Inv.waitUntil_exclusive (hI : s.Inv) (hj : s.exclusive[j]? = some a) (ha : a = .queued ∨ a = .waiting)
    (hturn : s.Turn j) (hcur : s.current ≠ some (.exclusive j)) :
    ({ s with exclusiveOperationRequested := true }.waitUntil (.exclusive j)).Inv := by
  have hne : a ≠ .done := by
    rintro rfl
    simp at ha
  have hfalse : s.exclusiveOperationInProgress = false := by
    rw [hI.inProgress, hI.any_of_turn rfl rfl hj hne hturn]
    rcases ha with rfl | rfl <;> rfl
  have hput : ∀ b : Stage, b.counted = false → b.busy = true →
      ({ s with exclusiveOperationRequested := true }.put b (.exclusive j)).Inv := by
    intro b hb hbusy
    have h := hI.put_exclusive hj hne hturn hcur (b := b)
    rw [hb, hbusy, ← hfalse] at h
    exact h
  have hkept : ∀ (b : Stage) k, Caller.exclusive j = .exclusive k → (s.put b (.exclusive j)).Turn k := by
    intro b k hk
    cases hk
    exact hturn.put hj hne
  unfold waitUntil
  split
  · exact (hput .entering rfl rfl).enqueue (hkept .entering)
  · exact (hput .waiting rfl rfl).await (hkept .waiting)

theorem Inv.runExclusive (hI : s.Inv) : s.runExclusive.Inv := by
  have hold : ∀ {k : Nat} {x : Stage}, s.exclusive[k]? = some x → (s.exclusive ++ [Stage.queued])[k]? = some x := by
    intro k x hk
    rw [List.getElem?_append_left (List.getElem?_eq_some_iff.mp hk).1, hk]
  have hjoined : { s with exclusive := s.exclusive ++ [Stage.queued] }.Inv := {
    hI with
    turn := by
      intro k x hk hx i hi
      rcases Nat.lt_or_ge k s.exclusive.length with hlen | hlen
      · rw [List.getElem?_append_left hlen] at hk
        exact hold (hI.turn k x hk hx i hi)
      · rw [List.getElem?_append_right hlen, List.getElem?_singleton] at hk
        split at hk
        · exact absurd (Option.some.inj hk).symm hx
        · cases hk
    requested := by simp [hI.requested, Stage.busy]
    inProgress := by simp [hI.inProgress, Stage.counted]
    continued := fun k hk i hi => hold (hI.continued k hk i hi)
    started := by
      intro c hc
      cases c with
      | shared k => exact hI.started _ hc
      | exclusive k => exact hold (hI.started _ hc) }
  unfold ProjectionCoordinationService.runExclusive
  dsimp only
  split
  case isFalse => exact hjoined
  case isTrue hlast =>
    refine hjoined.enqueue ?_
    intro k hk i hi
    cases hk
    refine hold ?_
    rw [List.getLast?_eq_getElem?] at hlast
    have hall : s.exclusive[s.exclusive.length - 1]? = some .done := by
      rw [List.getElem?_eq_getElem (by omega)] at hlast ⊢
      simpa using hlast
    by_cases hil : i = s.exclusive.length - 1
    · rw [hil, hall]
    · exact hI.turn _ .done hall (by simp) i (by omega)

theorem Inv.enter (hI : s.Inv) (hc : s.stage c = some .entering) (hcur : s.current = none) : (s.enter c).Inv := by
  cases c with
  | shared i =>
    have h := hI.put_shared (b := .working) (i := i) (by simp [hcur])
    rw [hI.countP_put hc] at h
    refine { h with started := ?_ }
    intro c hcc
    cases hcc
    exact List.getElem?_set_self (List.getElem?_eq_some_iff.mp hc).1
  | exclusive j =>
    have hturn := hI.turn j _ hc (by simp)
    have h := hI.put_exclusive hc (by simp) hturn (b := .working) (by simp [hcur])
    rw [show Stage.working.busy = s.exclusiveOperationRequested by
      rw [hI.requested, hI.any_of_turn rfl rfl hc (by simp) hturn]; rfl] at h
    refine { h with started := ?_ }
    intro c hcc
    cases hcc
    exact List.getElem?_set_self (List.getElem?_eq_some_iff.mp hc).1

theorem Inv.release (hI : s.Inv) (hj : s.exclusive[j]? = some .done) : (s.release j).Inv := by
  unfold ProjectionCoordinationService.release
  split
  · refine hI.enqueue ?_
    intro k hk i hi
    cases hk
    by_cases hij : i = j
    · exact hij ▸ hj
    · exact hI.turn j _ hj (by simp) i (by omega)
  · exact hI

theorem Inv.leave (hI : s.Inv) (hc : s.stage c = some a) (ha : a.counted = true) (hcur : s.current = none) :
    (s.leave c).Inv := by
  have hne : a ≠ .queued ∧ a ≠ .done := by cases a <;> simp_all [Stage.counted]
  cases c with
  | shared i =>
    have h := hI.put_shared (b := .done) (i := i) (by simp [hcur])
    rw [hI.countP_put hc, ha] at h
    exact h.notifyWaiters
  | exclusive j =>
    have h := hI.put_exclusive hc hne.2 (hI.turn j _ hc hne.1) (b := .done) (by simp [hcur])
    exact h.notifyWaiters.release (List.getElem?_set_self (List.getElem?_eq_some_iff.mp hc).1)

theorem Inv.settles (hI : s.Inv) (hc : s.stage c = some .working) (hcur : s.current ≠ some c) :
    ((s.put .leaving c).enqueue c).Inv := by
  cases c with
  | shared i =>
    have h := hI.put_shared (b := .leaving) hcur
    rw [hI.countP_put hc] at h
    have hlen : s.activeSharedOperations ≠ 0 := by
      rw [hI.active]
      exact Nat.ne_of_gt (List.countP_pos_iff.mpr ⟨.working, List.mem_of_getElem? hc, by rfl⟩)
    rw [show s.activeSharedOperations - (if Stage.working.counted then 1 else 0) +
        (if Stage.leaving.counted then 1 else 0) = s.activeSharedOperations by
      simp only [Stage.counted, if_true]; omega] at h
    exact h.enqueue (by simp)
  | exclusive j =>
    have hturn := hI.turn j _ hc (by simp)
    have h := hI.put_exclusive hc (by simp) hturn (b := .leaving) hcur
    rw [show Stage.leaving.busy = s.exclusiveOperationRequested by
        rw [hI.requested, hI.any_of_turn rfl rfl hc (by simp) hturn]; rfl,
      show Stage.leaving.counted = s.exclusiveOperationInProgress by
        rw [hI.inProgress, hI.any_of_turn rfl rfl hc (by simp) hturn]; rfl] at h
    refine h.enqueue ?_
    intro k hk
    cases hk
    exact Turn.put (c := .exclusive j) hturn hc (by simp)

theorem resume_cases (h : s.resume c = some s') :
    (∃ j, c = .exclusive j ∧ s.stage c = some .queued ∧
      s' = { s with exclusiveOperationRequested := true }.notifyWaiters.waitUntil c) ∨
    (s.stage c = some .waiting ∧ s' = s.waitUntil c) ∨
    (s.stage c = some .entering ∧ s' = s.enter c) ∨ (s.stage c = some .leaving ∧ s' = s.leave c) := by
  unfold resume at h
  split at h
  case h_1 j hc => exact .inl ⟨j, rfl, hc, (Option.some.inj h).symm⟩
  case h_2 c hc => exact .inr (.inl ⟨hc, (Option.some.inj h).symm⟩)
  case h_3 c hc => exact .inr (.inr (.inl ⟨hc, (Option.some.inj h).symm⟩))
  case h_4 c hc => exact .inr (.inr (.inr ⟨hc, (Option.some.inj h).symm⟩))
  case h_5 => cases h

theorem Inv.take {rest : List Caller} (hI : s.Inv) (hhead : s.microtasks = c :: rest) :
    { s with microtasks := rest }.Inv := {
  hI with
  continued := by
    intro j hj
    refine hI.continued j ?_
    rw [hhead]
    exact List.mem_cons_of_mem _ hj }

theorem Inv.turn_head {rest : List Caller} (hI : s.Inv) (hhead : s.microtasks = .exclusive j :: rest) : s.Turn j :=
  hI.continued j (by simp [hhead])

/-- While an exclusive call waits, the flag is up. -/
theorem Inv.raised (hI : s.Inv) (hj : s.exclusive[j]? = some .waiting) : s.exclusiveOperationRequested = true := by
  rw [hI.requested, hI.any_of_turn rfl rfl hj (by simp) (hI.turn j _ hj (by simp))]
  rfl

theorem Inv.microtask {rest : List Caller} (hI : s.Inv) (hcur : s.current = none) (hhead : s.microtasks = c :: rest)
    (h : { s with microtasks := rest }.resume c = some s') : s'.Inv := by
  have hI' := hI.take hhead
  have hne : ∀ c, s.current ≠ some c := by simp [hcur]
  rcases resume_cases h with ⟨j, rfl, hc, rfl⟩ | ⟨hc, rfl⟩ | ⟨hc, rfl⟩ | ⟨hc, rfl⟩
  · exact hI'.notifyWaiters.waitUntil_exclusive hc (.inl rfl) (hI.turn_head hhead) (hne _)
  · cases c with
    | shared i => exact hI'.waitUntil_shared hc (hne _)
    | exclusive j =>
      have h := hI'.waitUntil_exclusive hc (.inr rfl) (hI.turn_head hhead) (hne _)
      rwa [← hI.raised hc] at h
  · exact hI'.enter hc hcur
  · exact hI'.leave hc rfl hcur

theorem Inv.step (hI : s.Inv) (h : s.step e = some s') : s'.Inv := by
  cases e with
  | runShared =>
    cases h
    exact hI.runShared
  | runExclusive =>
    cases h
    exact hI.runExclusive
  | microtask =>
    simp only [ProjectionCoordinationService.step] at h
    split at h
    case h_1 hcur hhead => exact hI.microtask hcur hhead h
    case h_2 => cases h
  | returns =>
    obtain ⟨_, _, rfl⟩ := Option.map_eq_some_iff.mp h
    exact hI.idle
  | throws =>
    obtain ⟨c, hc, rfl⟩ := Option.map_eq_some_iff.mp h
    exact hI.idle.leave (hI.started c hc) rfl rfl
  | settles c =>
    simp only [ProjectionCoordinationService.step] at h
    split at h
    case isTrue hc =>
      cases h
      exact hI.settles hc.1 hc.2
    case isFalse => cases h

theorem Reached.inv {allows : ProjectionCoordinationService → Event → Prop} (h : Reached allows s) : s.Inv := by
  refine Machine.Reached.invariant h ?_ fun _ _ hs ih => ih.step hs
  rintro _ rfl
  exact inv_init

/-! ## Where the two kinds of works are kept apart -/

theorem Apart.put (h : s.Apart) (hc : s.stage c = some a) (hab : b.entered = true → a.entered = true) :
    (s.put b c).Apart := by
  intro x hx y hy hxe
  cases c with
  | shared i =>
    rcases List.mem_or_eq_of_mem_set hx with hx | rfl
    · exact h x hx y hy hxe
    · exact h a (List.mem_of_getElem? hc) y hy (hab hxe)
  | exclusive j =>
    rcases List.mem_or_eq_of_mem_set hy with hy | rfl
    · exact h x hx y hy hxe
    · have ha := h x hx a (List.mem_of_getElem? hc) hxe
      by_contra hb
      rw [hab (by simpa using hb)] at ha
      cases ha

theorem Apart.waitUntil_shared (h : s.Apart) (hI : s.Inv) (hi : s.shared[i]? = some .waiting) :
    (s.waitUntil (.shared i)).Apart := by
  unfold waitUntil
  split
  case isFalse => exact h.put (c := .shared i) (b := .waiting) hi (by simp [Stage.entered])
  case isTrue hpred =>
    intro x hx y hy hxe
    have hidle : s.exclusive.any Stage.busy = false := by
      rw [← hI.requested]
      simp [predicate] at hpred
      exact hpred.1
    have hy := List.any_eq_false.mp hidle y hy
    cases y <;> simp_all [Stage.busy, Stage.entered]

/-- This is the step in which a shared call may be overlooked. -/
theorem Apart.waitUntil_exclusive (h : s.Apart) (hactive : s.activeSharedOperations = s.shared.countP Stage.counted)
    (hj : s.exclusive[j]? = some a)
    (halone : s.predicate (.exclusive j) = true → .entering ∉ s.shared) :
    (s.waitUntil (.exclusive j)).Apart := by
  unfold waitUntil
  split
  case isFalse => exact h.put (c := .exclusive j) (b := .waiting) hj (by simp [Stage.entered])
  case isTrue hpred =>
    intro x hx y hy hxe
    have hzero : s.shared.countP Stage.counted = 0 := by
      rw [← hactive]
      simp [predicate] at hpred
      exact hpred.1
    have hx' := List.countP_eq_zero.mp hzero x hx
    have hne : x ≠ .entering := fun hx'' => halone hpred (hx'' ▸ hx)
    cases x <;> simp_all [Stage.counted, Stage.entered]

theorem Apart.runShared (h : s.Apart) (hI : s.Inv) : s.runShared.Apart := by
  refine Apart.waitUntil_shared ?_ hI.join_shared (by simp)
  intro x hx y hy hxe
  rcases List.mem_append.mp hx with hx | hx
  · exact h x hx y hy hxe
  · simp [List.mem_singleton.mp hx, Stage.entered] at hxe

theorem Apart.runExclusive (h : s.Apart) : s.runExclusive.Apart := by
  have hjoined : ∀ x ∈ s.shared, ∀ y ∈ s.exclusive ++ [Stage.queued], x.entered = true → y.entered = false := by
    intro x hx y hy hxe
    rcases List.mem_append.mp hy with hy | hy
    · exact h x hx y hy hxe
    · rw [List.mem_singleton.mp hy]
      rfl
  unfold ProjectionCoordinationService.runExclusive
  dsimp only
  split
  · exact hjoined
  · exact hjoined

theorem Apart.leave (h : s.Apart) (hc : s.stage c = some a) : (s.leave c).Apart := by
  have hput := h.put hc (b := .done) (by simp [Stage.entered])
  cases c with
  | shared i => exact hput
  | exclusive j =>
    unfold ProjectionCoordinationService.leave ProjectionCoordinationService.release
    dsimp only
    split
    · exact hput
    · exact hput

theorem Apart.microtask {rest : List Caller} (h : s.Apart) (hI : s.Inv) (hhead : s.microtasks = c :: rest)
    (halone : ChecksAlone s .microtask) (hs : { s with microtasks := rest }.resume c = some s') : s'.Apart := by
  have halone := halone c (by simp [hhead])
  rcases resume_cases hs with ⟨j, rfl, hc, rfl⟩ | ⟨hc, rfl⟩ | ⟨hc, rfl⟩ | ⟨hc, rfl⟩
  · exact Apart.waitUntil_exclusive
      (s := { s with microtasks := rest, exclusiveOperationRequested := true }.notifyWaiters)
      h hI.active hc (halone rfl (.inl hc))
  · cases c with
    | shared i => exact Apart.waitUntil_shared h (hI.take hhead) hc
    | exclusive j => exact Apart.waitUntil_exclusive h hI.active hc (halone rfl (.inr hc))
  · have hput := h.put hc (b := .working) (by simp [Stage.entered])
    cases c with
    | shared i => exact hput
    | exclusive j => exact hput
  · exact Apart.leave (s := { s with microtasks := rest }) h hc

theorem Apart.step (h : s.Apart) (hI : s.Inv) (halone : ChecksAlone s e) (hs : s.step e = some s') : s'.Apart := by
  cases e with
  | runShared =>
    cases hs
    exact h.runShared hI
  | runExclusive =>
    cases hs
    exact h.runExclusive
  | microtask =>
    simp only [ProjectionCoordinationService.step] at hs
    split at hs
    case h_1 hcur hhead => exact h.microtask hI hhead halone hs
    case h_2 => cases hs
  | returns =>
    obtain ⟨_, _, rfl⟩ := Option.map_eq_some_iff.mp hs
    exact h
  | throws =>
    obtain ⟨c, hc, rfl⟩ := Option.map_eq_some_iff.mp hs
    exact Apart.leave (s := { s with current := none }) h (hI.started c hc)
  | settles c =>
    simp only [ProjectionCoordinationService.step] at hs
    split at hs
    case isTrue hc =>
      cases hs
      exact h.put hc.1 (by simp [Stage.entered])
    case isFalse => cases hs

theorem Reached.apart (h : Reached ChecksAlone s) : s.Apart := by
  refine Machine.Reached.invariant h ?_ fun hr hall hs ih => ih.step (Reached.inv hr) hall hs
  rintro _ rfl
  simp [Apart, ProjectionCoordinationService.init]

theorem Reached.one_exclusive {allows : ProjectionCoordinationService → Event → Prop} (h : Reached allows s)
    (hi : s.exclusive[i]? = some .working) (hj : s.exclusive[j]? = some .working) : i = j := by
  rcases Nat.lt_trichotomy i j with hlt | heq | hgt
  · have hdone := h.inv.turn j _ hj (by simp) i hlt
    simp [hi] at hdone
  · exact heq
  · have hdone := h.inv.turn i _ hi (by simp) j hgt
    simp [hj] at hdone

/-- In the runs in which every exclusive call finds its check true while no
shared call is between its own check and its work. -/
theorem works_excluded (h : Reached ChecksAlone s) : s.MutualExclusion := by
  refine ⟨fun i j hi hj => h.one_exclusive hi hj, ?_⟩
  intro i j hj hi
  have := h.apart _ (List.mem_of_getElem? hi) _ (List.mem_of_getElem? hj) rfl
  simp [Stage.entered] at this

/-! ## Two runs -/

/-- An exclusive call arrives while a shared work runs; it waits, and so does a
second shared call; when the work has settled the exclusive work runs. -/
def handover : List Event :=
  [.runShared, .microtask, .returns, .runExclusive, .microtask, .runShared, .settles (.shared 0), .microtask,
    .microtask, .microtask, .microtask]

def handedOver : ProjectionCoordinationService :=
  ⟨0, true, true, [.shared 1], [.done, .waiting], [.working], [], some (.exclusive 0)⟩

theorem works_excluded_handover : handedOver.MutualExclusion ∧ handedOver.exclusive[0]? = some .working := by
  have hplay : (machine ChecksAlone).play (fun s e => decide (s.ChecksAlone e)) init handover = some handedOver := by
    decide +kernel
  have hcheck : ∀ s e, decide (ChecksAlone s e) = true → ChecksAlone s e := fun _ _ => of_decide_eq_true
  have hstart : Reached ChecksAlone init := .start rfl
  exact ⟨works_excluded (hstart.play hcheck hplay), rfl⟩

/-- An exclusive and a shared call in one tick: the shared call reads the flag
before the continuation of the exclusive one raises it, and the exclusive call
reads the counter before the continuation of the shared one has increased it. -/
theorem works_not_excluded : ¬ ∀ s, Reached (fun _ _ => True) s → s.MutualExclusion := by
  intro h
  have hplay : (machine fun _ _ => True).play (fun _ _ => true) init
      [.runExclusive, .runShared, .microtask, .microtask, .returns, .microtask] =
      some ⟨1, true, true, [], [.working], [.working], [], some (.exclusive 0)⟩ := by decide +kernel
  have hstart : Reached (fun _ _ => True) init := .start rfl
  exact (h _ (hstart.play (fun _ _ _ => trivial) hplay)).2 0 0 rfl rfl

end ProjectionCoordinationService

end CoreBanking
