import CoreBanking.Coordination

/-!
# No wake-up is lost

A call that waits is told of by its check being false, or its continuation is
queued. Every step that may turn a check true empties the list of waiters, so
when nothing runs and nothing is queued, no call is left waiting.
-/

namespace CoreBanking

namespace ProjectionCoordinationService

variable {s s' : ProjectionCoordinationService} {c c' : Caller} {e : Event} {i j : Nat} {a b : Stage}

structure AtRest (s : ProjectionCoordinationService) : Prop where
  microtasks : s.microtasks = []
  works : ∀ c, s.stage c ≠ some .working

/-- Every call is over, and a call that arrives now finds the service as new. -/
structure Released (s : ProjectionCoordinationService) : Prop where
  ended : ∀ c a, s.stage c = some a → a = .done
  waitingResolvers : s.waitingResolvers = []
  activeSharedOperations : s.activeSharedOperations = 0
  exclusiveOperationInProgress : s.exclusiveOperationInProgress = false
  exclusiveOperationRequested : s.exclusiveOperationRequested = false
  exclusiveQueue : s.exclusive.getLast?.all (· = .done) = true

/-- What will continue a call that stands at `a`. A work that runs will settle. -/
def Attended (s : ProjectionCoordinationService) (c : Caller) : Stage → Prop
  | .queued => ∃ j, c = .exclusive j ∧ (s.Turn j → c ∈ s.microtasks)
  | .waiting => c ∈ s.microtasks ++ s.waitingResolvers
  | .entering | .leaving => c ∈ s.microtasks
  | .working | .done => True

/-- All calls are attended, but for one whose continuation is running. -/
structure AwakeBut (s : ProjectionCoordinationService) (running : Option Caller) : Prop where
  blocked : ∀ c ∈ s.waitingResolvers, s.predicate c = false
  attended : ∀ c a, some c ≠ running → s.stage c = some a → s.Attended c a

abbrev Awake (s : ProjectionCoordinationService) : Prop := s.AwakeBut none

theorem stage_put (s : ProjectionCoordinationService) (b : Stage) (c c' : Caller) :
    (s.put b c).stage c' = if c = c' then (s.stage c).map fun _ => b else s.stage c' := by
  cases c with
  | shared i =>
    cases c' with
    | shared k =>
      simp only [put, stage, List.getElem?_set', Caller.shared.injEq]
      split
      case isTrue heq =>
        subst heq
        rfl
      case isFalse => rfl
    | exclusive k => rfl
  | exclusive i =>
    cases c' with
    | shared k => rfl
    | exclusive k =>
      simp only [put, stage, List.getElem?_set', Caller.exclusive.injEq]
      split
      case isTrue heq =>
        subst heq
        rfl
      case isFalse => rfl

@[simp] theorem put_microtasks : (s.put b c).microtasks = s.microtasks := by
  cases c <;> rfl

@[simp] theorem put_waitingResolvers : (s.put b c).waitingResolvers = s.waitingResolvers := by
  cases c <;> rfl

@[simp] theorem predicate_put : (s.put b c).predicate c' = s.predicate c' := by
  cases c <;> cases c' <;> rfl

/-! ## What a step keeps -/

/-- What was queued still is, and a turn that has come was queued. -/
structure Continues (s s' : ProjectionCoordinationService) (running : Option Caller) : Prop where
  queued : ∀ c ∈ s.microtasks, some c ≠ running → c ∈ s'.microtasks
  waiting : ∀ c ∈ s.waitingResolvers, c ∈ s'.microtasks ++ s'.waitingResolvers
  turn : ∀ j, s'.exclusive[j]? = some .queued → s'.Turn j → s.Turn j ∨ .exclusive j ∈ s'.microtasks

theorem Attended.mono {running : Option Caller} (h : s.Attended c a) (hkept : Continues s s' running)
    (hc : some c ≠ running) (hstage : s'.stage c = some a) : s'.Attended c a := by
  cases a with
  | queued =>
    obtain ⟨j, rfl, hqueued⟩ := h
    refine ⟨j, rfl, fun hturn => ?_⟩
    rcases hkept.turn j hstage hturn with hold | hnew
    · exact hkept.queued _ (hqueued hold) hc
    · exact hnew
  | waiting =>
    rcases List.mem_append.mp h with h | h
    · exact List.mem_append_left _ (hkept.queued c h hc)
    · exact hkept.waiting c h
  | entering => exact hkept.queued c h hc
  | leaving => exact hkept.queued c h hc
  | working => trivial
  | done => trivial

theorem AwakeBut.put {running : Option Caller} (h : s.AwakeBut running) (hkept : Continues s s' running)
    (hrunning : ∀ c', running = some c' → c' = c)
    (hstage : ∀ c', s'.stage c' = (s.put b c).stage c') (hb : s'.Attended c b)
    (hblocked : ∀ c ∈ s'.waitingResolvers, s'.predicate c = false) : s'.Awake := by
  refine ⟨hblocked, fun c' a' _ ha' => ?_⟩
  have hput := ha'
  rw [hstage, stage_put] at hput
  split at hput
  case isTrue heq =>
    subst heq
    obtain ⟨_, _, rfl⟩ := Option.map_eq_some_iff.mp hput
    exact hb
  case isFalse hne =>
    have hother : some c' ≠ running := fun hc' => hne (hrunning c' hc'.symm).symm
    exact (h.attended c' a' hother hput).mono hkept hother ha'

theorem Turn.of_put (h : (s.put b c).Turn j) (hb : b ≠ .done) : s.Turn j := by
  intro i hi
  have hdone := h i hi
  have hstage := stage_put s b c (.exclusive i)
  rw [show (s.put b c).stage (.exclusive i) = some .done from hdone] at hstage
  split at hstage
  case isTrue =>
    obtain ⟨_, _, heq⟩ := Option.map_eq_some_iff.mp hstage.symm
    exact absurd heq hb
  case isFalse => exact hstage.symm

theorem AwakeBut.of_awake (h : s.Awake) (running : Option Caller) : s.AwakeBut running :=
  ⟨h.blocked, fun c a _ ha => h.attended c a (by simp) ha⟩

theorem AwakeBut.schedule {running : Option Caller} (h : s.AwakeBut running)
    (hrunning : ∀ c', running = some c' → c' = c) (hb : b = .entering ∨ b = .leaving) :
    ((s.put b c).enqueue c).Awake := by
  have hne : b ≠ .done := by
    rintro rfl
    simp at hb
  have hkept : Continues s ((s.put b c).enqueue c) running := by
    refine ⟨fun c' hc' _ => ?_, fun c' hc' => ?_, fun j _ hj => .inl ?_⟩
    · simp [enqueue, hc']
    · simp [enqueue, hc']
    · exact Turn.of_put (b := b) hj hne
  have hqueued : c ∈ ((s.put b c).enqueue c).microtasks := by simp [enqueue]
  refine h.put (b := b) hkept hrunning (fun _ => rfl) ?_ fun c' hc' => ?_
  · rcases hb with rfl | rfl
    · exact hqueued
    · exact hqueued
  · have hblocked := h.blocked c' (by simpa [enqueue] using hc')
    rwa [← predicate_put (b := b) (c := c)] at hblocked

/-- The only step after which a call is blocked that was not before. -/
theorem AwakeBut.waitUntil (h : s.AwakeBut (some c)) : (s.waitUntil c).Awake := by
  have hrunning : ∀ c', some c = some c' → c' = c := fun _ hc' => (Option.some.inj hc').symm
  unfold ProjectionCoordinationService.waitUntil
  split
  case isTrue => exact h.schedule hrunning (.inl rfl)
  case isFalse hpred =>
    have hkept : Continues s { s.put .waiting c with waitingResolvers := s.waitingResolvers ++ [c] } (some c) := by
      refine ⟨fun c' hc' _ => ?_, fun c' hc' => ?_, fun j _ hj => .inl ?_⟩
      · simpa using hc'
      · simp [hc']
      · exact Turn.of_put (b := .waiting) hj (by simp)
    refine h.put hkept hrunning (fun _ => rfl) ?_ fun c' hc' => ?_
    · simp [Attended]
    · have hblocked : s.predicate c' = false := by
        rcases List.mem_append.mp hc' with hc' | hc'
        · exact h.blocked c' hc'
        · rw [List.mem_singleton.mp hc']
          simpa using hpred
      rwa [← predicate_put (b := .waiting) (c := c)] at hblocked

theorem AwakeBut.enter (h : s.AwakeBut (some c)) : (s.enter c).Awake := by
  have hkept : Continues s (s.enter c) (some c) := by
    refine ⟨fun c' hc' _ => ?_, fun c' hc' => ?_, fun j _ hj => .inl ?_⟩
    · cases c <;> exact hc'
    · cases c <;> exact List.mem_append_right _ hc'
    · cases c <;> exact Turn.of_put (b := .working) hj (by simp)
  refine h.put (b := .working) hkept (fun _ hc' => (Option.some.inj hc').symm) (fun c' => ?_) trivial fun c' hc' => ?_
  · cases c <;> cases c' <;> rfl
  · cases c with
    | shared i =>
      have hblocked := h.blocked c' hc'
      cases c' with
      | shared k => exact hblocked
      | exclusive k => simp [predicate, ProjectionCoordinationService.enter]
    | exclusive j => cases c' <;> simp [predicate, ProjectionCoordinationService.enter]

@[simp] theorem release_waitingResolvers : (s.release j).waitingResolvers = s.waitingResolvers := by
  unfold release
  split <;> rfl

@[simp] theorem release_stage : (s.release j).stage c = s.stage c := by
  unfold release
  split <;> cases c <;> rfl

theorem mem_release (h : c ∈ s.microtasks) : c ∈ (s.release j).microtasks := by
  unfold release
  split
  case isTrue => exact List.mem_append_left _ h
  case isFalse => exact h

theorem release_next (h : s.exclusive[j + 1]? = some .queued) : .exclusive (j + 1) ∈ (s.release j).microtasks := by
  unfold release
  rw [if_pos h]
  simp [enqueue]

theorem mem_leave_microtasks (h : c ∈ s.microtasks ++ s.waitingResolvers) : c ∈ (s.leave c').microtasks := by
  cases c' with
  | shared i => exact h
  | exclusive j => exact mem_release h

theorem leave_next (h : s.exclusive[j + 1]? = some .queued) :
    .exclusive (j + 1) ∈ (s.leave (.exclusive j)).microtasks := by
  refine release_next ?_
  exact (List.getElem?_set_ne (by omega)).trans h

theorem leave_waitingResolvers : (s.leave c).waitingResolvers = [] := by
  cases c with
  | shared i => rfl
  | exclusive j => exact release_waitingResolvers

theorem leave_stage : (s.leave c).stage c' = (s.put .done c).stage c' := by
  cases c with
  | shared i => cases c' <;> rfl
  | exclusive j =>
    refine release_stage.trans ?_
    cases c' <;> rfl

theorem leave_turn (h : (s.leave c).Turn j) : (s.put .done c).Turn j := by
  intro i hi
  have hstage : (s.leave c).stage (.exclusive i) = (s.put .done c).stage (.exclusive i) := leave_stage
  exact hstage.symm.trans (h i hi)

/-- The one turn that comes when an exclusive call ends is the next call's. -/
theorem Inv.turn_leave (hI : s.Inv) (hc : s.stage c = some a) (ha : a ≠ .done)
    (hj : (s.leave c).exclusive[j]? = some .queued) (hturn : (s.leave c).Turn j) :
    s.Turn j ∨ .exclusive j ∈ (s.leave c).microtasks := by
  have hput := leave_turn hturn
  have hqueued : (s.put .done c).stage (.exclusive j) = some .queued := leave_stage.symm.trans hj
  cases c with
  | shared i => exact .inl hput
  | exclusive i =>
    have hother : ∀ {k : Nat}, i ≠ k → (s.exclusive.set i .done)[k]? = s.exclusive[k]? :=
      fun hne => List.getElem?_set_ne hne
    rcases Nat.lt_trichotomy j (i + 1) with hlt | rfl | hgt
    · refine .inl fun k hk => ?_
      exact (hother (by omega)).symm.trans (hput k hk)
    · exact .inr (leave_next ((hother (by omega)).symm.trans hqueued))
    · -- The call behind `i` cannot be over before `i` is.
      have hover : s.exclusive[i + 1]? = some .done := (hother (by omega)).symm.trans (hput (i + 1) hgt)
      have hdone := hI.turn (i + 1) .done hover (by simp) i (by omega)
      exact absurd (Option.some.inj (hc.symm.trans hdone)) ha

theorem AwakeBut.leave (h : s.AwakeBut (some c)) (hI : s.Inv) (hc : s.stage c = some a) (ha : a.counted = true) :
    (s.leave c).Awake := by
  have hne : a ≠ .done := by
    rintro rfl
    cases ha
  have hkept : Continues s (s.leave c) (some c) := by
    refine ⟨fun c' hc' _ => ?_, fun c' hc' => ?_, fun j hj hturn => hI.turn_leave hc hne hj hturn⟩
    · exact mem_leave_microtasks (List.mem_append_left _ hc')
    · exact List.mem_append_left _ (mem_leave_microtasks (List.mem_append_right _ hc'))
  have hrunning : ∀ c', some c = some c' → c' = c := fun _ hc' => (Option.some.inj hc').symm
  refine h.put (b := .done) hkept hrunning (fun _ => leave_stage) trivial fun c' hc' => ?_
  rw [leave_waitingResolvers] at hc'
  cases hc'

/-! ## Every step keeps every call attended -/

theorem Awake.runShared (h : s.Awake) : s.runShared.Awake := by
  refine AwakeBut.waitUntil ⟨h.blocked, fun c a hc ha => ?_⟩
  have hstage : s.stage c = some a := by
    cases c with
    | shared i =>
      have hi : i ≠ s.shared.length := fun hi => hc (by rw [hi])
      have hlen := (List.getElem?_eq_some_iff.mp ha).1
      rw [List.length_append, List.length_singleton] at hlen
      exact (List.getElem?_append_left (by omega)).symm.trans ha
    | exclusive j => exact ha
  have hkept : Continues s { s with shared := s.shared ++ [Stage.waiting] } none := ⟨fun _ hc' _ => hc',
    fun _ hc' => List.mem_append_right _ hc', fun _ _ hj => .inl hj⟩
  exact (h.attended c a (by simp) hstage).mono hkept (by simp) ha

/-- A call keeps its turn, and the one that has joined is queued if its turn has come. -/
theorem Awake.join (h : s.Awake) (hexclusive : s'.exclusive = s.exclusive ++ [Stage.queued])
    (hshared : s'.shared = s.shared) (hpredicate : ∀ c, s'.predicate c = s.predicate c)
    (hwaiting : s'.waitingResolvers = s.waitingResolvers) (hmicrotasks : ∀ c ∈ s.microtasks, c ∈ s'.microtasks)
    (hnew : s'.Turn s.exclusive.length → .exclusive s.exclusive.length ∈ s'.microtasks) : s'.Awake := by
  have hold : ∀ {j : Nat} {a : Stage}, s'.exclusive[j]? = some a → j ≠ s.exclusive.length →
      j < s.exclusive.length ∧ s.exclusive[j]? = some a := by
    intro j a hj hne
    have hlen := (List.getElem?_eq_some_iff.mp hj).1
    rw [hexclusive, List.length_append, List.length_singleton] at hlen
    have hlt : j < s.exclusive.length := by omega
    rw [hexclusive, List.getElem?_append_left hlt] at hj
    exact ⟨hlt, hj⟩
  have hkept : Continues s s' none := by
    refine ⟨fun c hc _ => hmicrotasks c hc, fun c hc => ?_, fun j hj hturn => ?_⟩
    · exact List.mem_append_right _ (hwaiting ▸ hc)
    by_cases hne : j = s.exclusive.length
    · exact .inr (hne ▸ hnew (hne ▸ hturn))
    · refine .inl fun i hi => ?_
      have hlt := (hold hj hne).1
      exact (hold (hturn i hi) (by omega)).2
  refine ⟨fun c hc => ?_, fun c a _ ha => ?_⟩
  · rw [hpredicate]
    exact h.blocked c (hwaiting ▸ hc)
  · cases c with
    | shared i =>
      have hi : s.shared[i]? = some a := by
        rw [← hshared]
        exact ha
      exact (h.attended (.shared i) a (by simp) hi).mono hkept (by simp) ha
    | exclusive j =>
      by_cases hne : j = s.exclusive.length
      · subst hne
        have hqueued : a = .queued := by
          simp only [stage, hexclusive, List.getElem?_concat_length, Option.some.injEq] at ha
          exact ha.symm
        exact hqueued ▸ ⟨_, rfl, hnew⟩
      · exact (h.attended (.exclusive j) a (by simp) (hold ha hne).2).mono hkept (by simp) ha

theorem Awake.runExclusive (h : s.Awake) : s.runExclusive.Awake := by
  unfold ProjectionCoordinationService.runExclusive
  dsimp only
  split
  case isTrue =>
    refine h.join rfl rfl (fun c => by cases c <;> rfl) rfl (fun c hc => List.mem_append_left _ hc) fun _ => ?_
    exact List.mem_append_right _ (List.mem_singleton_self _)
  case isFalse hlast =>
    refine h.join rfl rfl (fun c => by cases c <;> rfl) rfl (fun c hc => hc) fun hturn => absurd ?_ hlast
    rw [List.getLast?_eq_getElem?]
    rcases Nat.eq_zero_or_pos s.exclusive.length with hzero | hpos
    · simp [List.eq_nil_of_length_eq_zero hzero]
    · have hlt : s.exclusive.length - 1 < s.exclusive.length := by omega
      have hdone := hturn _ hlt
      rw [List.getElem?_append_left hlt] at hdone
      simp [hdone]

theorem Awake.take {rest : List Caller} (h : s.Awake) (hhead : s.microtasks = c :: rest) :
    { s with microtasks := rest }.AwakeBut (some c) := by
  refine ⟨h.blocked, fun c' a' hc' ha' => ?_⟩
  have hkept : Continues s { s with microtasks := rest } (some c) := by
    refine ⟨fun c'' hc'' hne => ?_, fun c'' hc'' => ?_, fun j _ hj => .inl hj⟩
    · rw [hhead] at hc''
      exact (List.mem_cons.mp hc'').resolve_left fun heq => hne (by rw [heq])
    · exact List.mem_append_right _ hc''
  exact (h.attended c' a' (by simp) ha').mono hkept hc' ha'

theorem AwakeBut.notifyWaiters (h : s.AwakeBut (some c)) :
    { s with exclusiveOperationRequested := true }.notifyWaiters.AwakeBut (some c) := by
  refine ⟨fun c' hc' => ?_, fun c' a' hc' ha' => ?_⟩
  · cases hc'
  · have hkept : Continues s { s with exclusiveOperationRequested := true }.notifyWaiters (some c) := by
      refine ⟨fun c'' hc'' _ => ?_, fun c'' hc'' => ?_, fun j _ hj => .inl hj⟩
      · exact List.mem_append_left _ hc''
      · exact List.mem_append_left _ (List.mem_append_right _ hc'')
    exact (h.attended c' a' hc' ha').mono hkept hc' ha'

theorem Awake.microtask {rest : List Caller} (h : s.Awake) (hI : s.Inv) (hhead : s.microtasks = c :: rest)
    (hs : { s with microtasks := rest }.resume c = some s') : s'.Awake := by
  have htaken := h.take hhead
  rcases resume_cases hs with ⟨j, rfl, hc, rfl⟩ | ⟨hc, rfl⟩ | ⟨hc, rfl⟩ | ⟨hc, rfl⟩
  · exact htaken.notifyWaiters.waitUntil
  · exact htaken.waitUntil
  · exact htaken.enter
  · exact htaken.leave (hI.take hhead) hc rfl

theorem Awake.step (h : s.Awake) (hI : s.Inv) (hs : s.step e = some s') : s'.Awake := by
  cases e with
  | runShared =>
    cases hs
    exact h.runShared
  | runExclusive =>
    cases hs
    exact h.runExclusive
  | microtask =>
    simp only [ProjectionCoordinationService.step] at hs
    split at hs
    case h_1 hcur hhead => exact h.microtask hI hhead hs
    case h_2 => cases hs
  | returns =>
    obtain ⟨_, _, rfl⟩ := Option.map_eq_some_iff.mp hs
    exact ⟨h.blocked, h.attended⟩
  | throws =>
    obtain ⟨c, hc, rfl⟩ := Option.map_eq_some_iff.mp hs
    have hidle : { s with current := none }.Awake := ⟨h.blocked, h.attended⟩
    exact (AwakeBut.of_awake hidle _).leave hI.idle (hI.started c hc) rfl
  | settles c =>
    simp only [ProjectionCoordinationService.step] at hs
    split at hs
    case isTrue =>
      cases hs
      exact h.schedule (by simp) (.inr rfl)
    case isFalse => cases hs

theorem Reached.awake {allows : ProjectionCoordinationService → Event → Prop} (h : Reached allows s) : s.Awake := by
  refine Machine.Reached.invariant h ?_ fun hr _ hs ih => ih.step (Reached.inv hr) hs
  rintro _ rfl
  refine ⟨by simp [ProjectionCoordinationService.init], fun c a _ ha => ?_⟩
  cases c <;> simp [stage, ProjectionCoordinationService.init] at ha

/-! ## At rest -/

/-- Nothing is queued, so a call that is not over waits or has yet to get its turn. -/
theorem Awake.stage_atRest (h : s.Awake) (hrest : s.AtRest) (hc : s.stage c = some a) :
    a = .queued ∨ a = .waiting ∨ a = .done := by
  have hattended := h.attended c a (by simp) hc
  cases a with
  | queued => exact .inl rfl
  | waiting => exact .inr (.inl rfl)
  | done => exact .inr (.inr rfl)
  | working => exact absurd hc (hrest.works c)
  | entering | leaving => simp [Attended, hrest.microtasks] at hattended

theorem Awake.not_counted (h : s.Awake) (hrest : s.AtRest) (hc : s.stage c = some a) : a.counted = false := by
  rcases h.stage_atRest hrest hc with rfl | rfl | rfl <;> rfl

theorem Awake.activeSharedOperations_eq (h : s.Awake) (hI : s.Inv) (hrest : s.AtRest) :
    s.activeSharedOperations = 0 := by
  rw [hI.active, List.countP_eq_zero]
  intro a ha
  obtain ⟨i, hi⟩ := List.mem_iff_getElem?.mp ha
  simp [h.not_counted hrest (c := .shared i) hi]

theorem Awake.exclusiveOperationInProgress_eq (h : s.Awake) (hI : s.Inv) (hrest : s.AtRest) :
    s.exclusiveOperationInProgress = false := by
  rw [hI.inProgress, List.any_eq_false]
  intro a ha
  obtain ⟨j, hj⟩ := List.mem_iff_getElem?.mp ha
  simp [h.not_counted hrest (c := .exclusive j) hj]

/-- It would find its check true. -/
theorem Awake.exclusive_not_waiting (h : s.Awake) (hI : s.Inv) (hrest : s.AtRest) :
    s.exclusive[j]? ≠ some .waiting := by
  intro hj
  have hattended := h.attended (.exclusive j) _ (by simp) hj
  have hwaiting : .exclusive j ∈ s.waitingResolvers := by simpa [Attended, hrest.microtasks] using hattended
  have hblocked := h.blocked _ hwaiting
  simp [predicate, h.activeSharedOperations_eq hI hrest, h.exclusiveOperationInProgress_eq hI hrest] at hblocked

theorem Awake.exclusiveOperationRequested_eq (h : s.Awake) (hI : s.Inv) (hrest : s.AtRest) :
    s.exclusiveOperationRequested = false := by
  rw [hI.requested, List.any_eq_false]
  intro a ha
  obtain ⟨j, hj⟩ := List.mem_iff_getElem?.mp ha
  rcases h.stage_atRest hrest (c := .exclusive j) hj with rfl | rfl | rfl
  · simp [Stage.busy]
  · exact absurd hj (h.exclusive_not_waiting hI hrest)
  · simp [Stage.busy]

theorem Awake.waitingResolvers_eq (h : s.Awake) (hI : s.Inv) (hrest : s.AtRest) : s.waitingResolvers = [] := by
  rw [List.eq_nil_iff_forall_not_mem]
  intro c hc
  have hblocked := h.blocked c hc
  cases c <;> simp [predicate, h.activeSharedOperations_eq hI hrest, h.exclusiveOperationInProgress_eq hI hrest,
    h.exclusiveOperationRequested_eq hI hrest] at hblocked

/-- The turn of a queued call has come when all before it are over. -/
theorem Awake.exclusive_done (h : s.Awake) (hI : s.Inv) (hrest : s.AtRest) :
    ∀ (j : Nat) a, s.exclusive[j]? = some a → a = .done := by
  intro j
  induction j using Nat.strongRecOn with
  | ind j ih =>
    intro a hj
    rcases h.stage_atRest hrest (c := .exclusive j) hj with rfl | rfl | rfl
    · have hturn : s.Turn j := by
        intro i hi
        have hlen := (List.getElem?_eq_some_iff.mp hj).1
        have hi' : s.exclusive[i]? = some s.exclusive[i] := List.getElem?_eq_getElem (by omega)
        rw [hi', ih i hi _ hi']
      obtain ⟨k, hk, hqueued⟩ := h.attended (.exclusive j) _ (by simp) hj
      cases hk
      have := hqueued hturn
      simp [hrest.microtasks] at this
    · exact absurd hj (h.exclusive_not_waiting hI hrest)
    · rfl

theorem Awake.over (h : s.Awake) (hI : s.Inv) (hrest : s.AtRest) (hc : s.stage c = some a) : a = .done := by
  cases c with
  | exclusive j => exact h.exclusive_done hI hrest j a hc
  | shared i =>
    have hattended := h.attended _ _ (by simp) hc
    rcases h.stage_atRest hrest hc with rfl | rfl | rfl
    · obtain ⟨j, hj, _⟩ := hattended
      cases hj
    · simp [Attended, hrest.microtasks, h.waitingResolvers_eq hI hrest] at hattended
    · rfl

/-- Whatever the calls, the order of their steps, and the works that throw. -/
theorem no_lost_wakeup {allows : ProjectionCoordinationService → Event → Prop} (h : Reached allows s)
    (hrest : s.AtRest) : s.Released := by
  refine ⟨fun c a hc => h.awake.over h.inv hrest hc, h.awake.waitingResolvers_eq h.inv hrest,
    h.awake.activeSharedOperations_eq h.inv hrest, h.awake.exclusiveOperationInProgress_eq h.inv hrest,
    h.awake.exclusiveOperationRequested_eq h.inv hrest, ?_⟩
  rw [Option.all_eq_true]
  intro a ha
  rw [List.getLast?_eq_getElem?] at ha
  simpa using h.awake.exclusive_done h.inv hrest _ a ha

/-- The calls of `handover`; the exclusive work throws. -/
theorem no_lost_wakeup_handover :
    ∃ s, (machine fun _ _ => True).play (fun _ _ => true) init
        (handover ++ [.throws, .microtask, .microtask, .throws]) = some s ∧
      s.shared.length = 2 ∧ s.exclusive.length = 1 ∧ s.Released := by
  have hplay : (machine fun _ _ => True).play (fun _ _ => true) init
      (handover ++ [.throws, .microtask, .microtask, .throws]) =
      some ⟨0, false, false, [], [.done, .done], [.done], [], none⟩ := by decide +kernel
  have hstart : Reached (fun _ _ => True) init := .start rfl
  refine ⟨_, hplay, rfl, rfl, no_lost_wakeup (hstart.play (fun _ _ _ => trivial) hplay) ⟨rfl, fun c => ?_⟩⟩
  cases c with
  | shared i =>
    rcases i with _ | _ | i <;> simp [stage]
  | exclusive j =>
    rcases j with _ | j <;> simp [stage]

end ProjectionCoordinationService

end CoreBanking
