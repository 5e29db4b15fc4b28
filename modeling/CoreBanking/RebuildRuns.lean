import CoreBanking.RebuildRules

/-!
# Runs of rebuilds

Each program is verified on its own: a handler leaves its event reached, the
loop all up to its checkpoint, and a rebuild goes over everything that it has
reset. At the end nothing is due, and what was delivered is in the read model.
-/

namespace CoreBanking

open ProjectionRunnerService (projectBoth projectEach replayFrom projectStream runLoop)

section
variable [JsRuntime] {accountId : String} {allows : ReadSide → RebuildOp → Prop}

theorem wp_event {q : RebuildRequest} {s : RebuildState} {g : RebuildGhost} {event : DomainEvent} {k : Nat}
    (hallows : ∀ side op, allows side op → KeepsUp accountId side op)
    (hplace : event.data.accountId = some accountId → (s.stream accountId)[k]? = some event) (hg : g.entry = none) :
    (rebuildOutline accountId allows).wp q (Projecting (AccountProjector.project event)) s g fun s' g' r =>
      g'.entry = none ∧ g'.due = g.due ∧ ∀ b, r = .ok b →
        if event.data.accountId = some accountId then g' = g.past k ∧ k < s'.reached else g' = g := by
  by_cases hid : event.data.accountId = some accountId
  · simp only [if_pos hid]
    exact wp_own hallows (hplace hid) hid hg
  · simp only [if_neg hid]
    refine Outline.wp_mono (fun s' g' r _ hr => ?_) (wp_other hid)
    rw [hr]
    exact ⟨hg, rfl, fun _ _ => rfl⟩

/-! ## Parts of the log -/

/-- Every event of this part of the log has its position, and its place in the stream. -/
def Placed (accountId : String) (s : RebuildState) (log : List PositionedEvent) : Prop :=
  ∀ past x, past ++ [x] <+: log → x.position = past.length + 1 ∧
    (x.event.data.accountId = some accountId → (s.stream accountId)[countOf accountId past]? = some x.event)

omit [JsRuntime] in
theorem Placed.of_log {s : RebuildState} {log : List PositionedEvent} (h : LogOf accountId s.side.events)
    (hlog : log <+: s.side.events.allEvents) : Placed accountId s log := by
  intro past x hpast
  have hx := hpast.trans hlog
  refine ⟨?_, h.getElem? hx⟩
  obtain ⟨later, hlater⟩ := hx
  refine h.positions past.length x ?_
  rw [← hlater]
  simp

theorem Placed.later {s s' : RebuildState} {log : List PositionedEvent} (h : Placed accountId s log)
    (hle : (rebuildOutline accountId allows).le s s') : Placed accountId s' log := by
  intro past x hpast
  obtain ⟨hposition, hplace⟩ := h past x hpast
  exact ⟨hposition, fun hid => hle.2.getElem? (hplace hid)⟩

structure Through (accountId : String) (s : RebuildState) (g : RebuildGhost) (log : List PositionedEvent) : Prop where
  done : g.done = countOf accountId log
  reached : countOf accountId log ≤ s.reached

omit [JsRuntime] in
theorem Through.nil (s : RebuildState) {g : RebuildGhost} (hdone : g.done = 0) : Through accountId s g [] :=
  ⟨hdone, Nat.zero_le _⟩

omit [JsRuntime] in
theorem Through.later {s s' : RebuildState} {g : RebuildGhost} {log : List PositionedEvent}
    (h : Through accountId s g log) (hreached : s.reached ≤ s'.reached) : Through accountId s' g log :=
  ⟨h.done, Nat.le_trans h.reached hreached⟩

/-- **Step.** The next event of the log is given to both projectors. -/
theorem wp_projectBoth {q : RebuildRequest} {s : RebuildState} {g : RebuildGhost}
    (hallows : ∀ side op, allows side op → KeepsUp accountId side op) {past : List PositionedEvent}
    {x : PositionedEvent}
    (hplace : x.event.data.accountId = some accountId → (s.stream accountId)[countOf accountId past]? = some x.event)
    (hg : g.entry = none) (hpast : Through accountId s g past) :
    (rebuildOutline accountId allows).wp q (Projecting (projectBoth x.event)) s g fun s' g' r =>
      g'.entry = none ∧ g'.due = g.due ∧ ∀ u, r = .ok u → Through accountId s' g' (past ++ [x]) := by
  rw [projectBoth, projecting_bind]
  refine Outline.wp_bind (Outline.wp_mono (fun s₁ g₁ r hle hr => ?_) (wp_event hallows hplace hg))
  obtain ⟨hg₁, hdue, hok⟩ := hr
  cases r with
  | error e => exact ⟨hg₁, hdue, fun u hr => by cases hr⟩
  | ok b =>
    have hone := hok b rfl
    have hthrough : Through accountId s₁ g₁ (past ++ [x]) := by
      by_cases hid : x.event.data.accountId = some accountId
      · rw [if_pos hid] at hone
        constructor
        · rw [countOf_snoc, hone.1, RebuildGhost.past, if_pos hpast.done, if_pos hid]
        · rw [countOf_snoc, if_pos hid]
          exact hone.2
      · rw [if_neg hid] at hone
        constructor
        · rw [countOf_snoc, hone, hpast.done, if_neg hid, Nat.add_zero]
        · rw [countOf_snoc, if_neg hid]
          exact (hpast.later hle.1).reached
    dsimp only
    rw [projecting_bind]
    refine Outline.wp_bind (Outline.wp_mono (fun s₂ g₂ r hle₂ hr => ?_) (Outline.wp_only
      (only_projecting (only_projectTransfer x.event)) fun hop hinv hstep => RebuildInv.foreign hinv hstep hop))
    rw [hr]
    cases r with
    | error e => exact ⟨hg₁, hdue, fun u hr => by cases hr⟩
    | ok b => exact Outline.wp_pure ⟨hg₁, hdue, fun u _ => hthrough.later hle₂.1⟩

/-- **Run.** A page that follows on what has been gone through. -/
theorem wp_projectEach {q : RebuildRequest} {s : RebuildState} {g : RebuildGhost}
    (hallows : ∀ side op, allows side op → KeepsUp accountId side op) {page past : List PositionedEvent}
    (hplaced : Placed accountId s (past ++ page)) (hg : g.entry = none) (hpast : Through accountId s g past) :
    (rebuildOutline accountId allows).wp q (Projecting (projectEach page past.length)) s g fun s' g' r =>
      g'.entry = none ∧ g'.due = g.due ∧ ∀ checkpoint, r = .ok checkpoint →
        checkpoint = past.length + page.length ∧ Through accountId s' g' (past ++ page) := by
  induction page generalizing past s g with
  | nil =>
    refine Outline.wp_pure ⟨hg, rfl, fun checkpoint hr => ?_⟩
    obtain rfl := Except.ok.inj hr
    rw [List.append_nil]
    exact ⟨rfl, hpast⟩
  | cons x page ih =>
    have hpre : past ++ [x] <+: past ++ x :: page := ⟨page, by simp⟩
    obtain ⟨hposition, hplace⟩ := hplaced past x hpre
    rw [projectEach, projecting_bind]
    refine Outline.wp_bind (Outline.wp_mono (fun s₁ g₁ r hle hr => ?_) (wp_projectBoth hallows hplace hg hpast))
    obtain ⟨hg₁, hdue, hthrough⟩ := hr
    cases r with
    | error e => exact ⟨hg₁, hdue, fun checkpoint hr => by cases hr⟩
    | ok u =>
      have hlen : x.position = (past ++ [x]).length := by rw [hposition, List.length_append, List.length_singleton]
      have hplaced₁ := hplaced.later hle
      rw [List.append_cons] at hplaced₁
      dsimp only
      rw [hlen]
      refine Outline.wp_mono (fun s₂ g₂ r _ hr => ?_) (ih hplaced₁ hg₁ (hthrough u rfl))
      obtain ⟨hg₂, hdue₂, hok₂⟩ := hr
      refine ⟨hg₂, hdue₂.trans hdue, fun checkpoint hr => ?_⟩
      obtain ⟨hcheckpoint, hthrough₂⟩ := hok₂ checkpoint hr
      rw [List.append_assoc] at hthrough₂
      refine ⟨?_, hthrough₂⟩
      rw [hcheckpoint, List.length_append, List.length_singleton, List.length_cons]
      omega

/-! ## The loops -/

/-- The next page follows what is past, and is empty only when all that is due is past. -/
theorem wp_readAll {q : RebuildRequest} {s : RebuildState} {g : RebuildGhost} {past : List PositionedEvent}
    (hlog : past <+: s.side.events.allEvents) :
    (rebuildOutline accountId allows).wp q (RebuildOp.call (.read (.readAll past.length 1000))) s g fun s' g' r =>
      g' = g ∧ ∃ page : List PositionedEvent, r = .ok page ∧ past ++ page <+: s'.side.events.allEvents ∧
        Placed accountId s' (past ++ page) ∧ (page = [] → g.due ≤ countOf accountId past) := by
  refine Outline.wp_call fun i s₁ gs hle hinv hgi r s₂ hstep => ⟨g, ?_⟩
  rw [Outline.update_ghost hgi]
  have hinv₁ : RebuildInv accountId s₁ gs := hinv
  have hinv₂ := hinv₁.foreign hstep trivial
  cases hstep
  have hlog₁ : past <+: s₁.side.events.allEvents := hlog.trans hle.2.1
  have hread : s₁.side.events.readAll past.length 1000 = (s₁.side.events.allEvents.drop past.length).take 1000 :=
    EventStore.readAll_eq hinv₁.log.positions _ _
  have hpage : past ++ (s₁.side.events.allEvents.drop past.length).take 1000 <+: s₁.side.events.allEvents := by
    obtain ⟨later, hlater⟩ := hlog₁
    rw [← hlater, List.drop_left]
    exact (List.prefix_append_right_inj past).mpr (List.take_prefix _ _)
  refine ⟨hinv₂, rfl, _, congrArg Except.ok hread, hpage, .of_log hinv₂.log hpage, fun hempty => ?_⟩
  have hend : past = s₁.side.events.allEvents := by
    obtain ⟨later, hlater⟩ := hlog₁
    rw [← hlater, List.drop_left] at hempty
    have hlast : later = [] := by simpa using hempty
    rw [← hlater, hlast, List.append_nil]
  have hcount : countOf accountId past = (s₁.stream accountId).length := by
    rw [hend, countOf, hinv₁.log.own]
    rfl
  rw [hcount, ← hgi]
  exact Nat.le_trans (hinv₁.due_le i) hinv₁.reached_le

theorem wp_runLoop {q : RebuildRequest} {s : RebuildState} {g : RebuildGhost}
    (hallows : ∀ side op, allows side op → KeepsUp accountId side op) (rounds : Nat) (past : List PositionedEvent)
    (hlog : past <+: s.side.events.allEvents) (hg : g.entry = none) (hpast : Through accountId s g past) :
    (rebuildOutline accountId allows).wp q (Projecting (runLoop rounds past.length)) s g fun s' g' r =>
      g'.entry = none ∧ g'.due = g.due ∧ ∀ checkpoint, r = .ok checkpoint →
        ∃ through, through <+: s'.side.events.allEvents ∧ through.length = checkpoint ∧
          Through accountId s' g' through := by
  induction rounds generalizing past s g with
  | zero =>
    refine Outline.wp_pure ⟨hg, rfl, fun checkpoint hr => ?_⟩
    obtain rfl := Except.ok.inj hr
    exact ⟨past, hlog, rfl, hpast⟩
  | succ rounds ih =>
    rw [runLoop, projecting_bind, projecting_call]
    refine Outline.wp_bind (Outline.wp_mono (fun s₁ g₁ r hle hr => ?_) (wp_readAll hlog))
    obtain ⟨rfl, page, rfl, hpage, hplaced, -⟩ := hr
    dsimp only
    rw [projecting_bind]
    refine Outline.wp_bind (Outline.wp_mono (fun s₂ g₂ r hle₂ hr => ?_)
      (wp_projectEach hallows hplaced hg (hpast.later hle.1)))
    obtain ⟨hg₂, hdue, hok⟩ := hr
    cases r with
    | error e => exact ⟨hg₂, hdue, fun checkpoint hr => by cases hr⟩
    | ok checkpoint =>
      obtain ⟨rfl, hthrough⟩ := hok checkpoint rfl
      dsimp only
      rw [← List.length_append]
      refine Outline.wp_mono (fun s₃ g₃ r _ hr => ?_) (ih (past ++ page) (hpage.trans hle₂.2.1) hg₂ hthrough)
      exact ⟨hr.1, hr.2.1.trans hdue, hr.2.2⟩

/-- A replay of all is past what is due, or has run out of pages. -/
theorem wp_replayFrom {q : RebuildRequest} {s : RebuildState} {g : RebuildGhost}
    (hallows : ∀ side op, allows side op → KeepsUp accountId side op) (pages : Nat) (past : List PositionedEvent)
    (hlog : past <+: s.side.events.allEvents) (hg : g.entry = none) (hpast : Through accountId s g past) :
    (rebuildOutline accountId allows).wp q (Projecting (replayFrom pages past.length)) s g fun s' g' r =>
      g'.entry = none ∧ ∀ checkpoint, r = .ok checkpoint →
        g'.due ≤ g'.done ∨ past.length + pages ≤ s'.side.events.allEvents.length := by
  induction pages generalizing past s g with
  | zero => exact Outline.wp_pure ⟨hg, fun checkpoint _ => .inr hlog.length_le⟩
  | succ pages ih =>
    rw [replayFrom, projecting_bind, projecting_call]
    refine Outline.wp_bind (Outline.wp_mono (fun s₁ g₁ r hle hr => ?_) (wp_readAll hlog))
    obtain ⟨rfl, page, rfl, hpage, hplaced, hempty⟩ := hr
    dsimp only
    by_cases hlen : page.length = 0
    · rw [if_pos hlen]
      refine Outline.wp_pure ⟨hg, fun checkpoint _ => .inl ?_⟩
      rw [hpast.done]
      exact hempty (List.length_eq_zero_iff.mp hlen)
    · rw [if_neg hlen, projecting_bind]
      refine Outline.wp_bind (Outline.wp_mono (fun s₂ g₂ r hle₂ hr => ?_)
        (wp_projectEach hallows hplaced hg (hpast.later hle.1)))
      obtain ⟨hg₂, -, hok⟩ := hr
      cases r with
      | error e => exact ⟨hg₂, fun checkpoint hr => by cases hr⟩
      | ok checkpoint =>
        obtain ⟨rfl, hthrough⟩ := hok checkpoint rfl
        dsimp only
        rw [← List.length_append]
        refine Outline.wp_mono (fun s₃ g₃ r _ hr => ?_) (ih (past ++ page) (hpage.trans hle₂.2.1) hg₂ hthrough)
        refine ⟨hr.1, fun checkpoint hr' => (hr.2 checkpoint hr').imp_right fun hmany => ?_⟩
        rw [List.length_append] at hmany
        omega

/-! ## The rebuild of one account -/

theorem wp_projectStream {q : RebuildRequest} {s : RebuildState} {g : RebuildGhost}
    (hallows : ∀ side op, allows side op → KeepsUp accountId side op) (events past : List DomainEvent)
    (hstream : past ++ events <+: s.stream accountId)
    (hown : ∀ event ∈ events, event.data.accountId = some accountId) (hg : g.entry = none)
    (hdone : g.done = past.length) :
    (rebuildOutline accountId allows).wp q (projectStream events) s g fun _ g' r =>
      g'.entry = none ∧ g'.due = g.due ∧ ∀ u, r = .ok u → g'.done = past.length + events.length := by
  induction events generalizing past s g with
  | nil => exact Outline.wp_pure ⟨hg, rfl, fun u _ => hdone⟩
  | cons event events ih =>
    have hk : (s.stream accountId)[past.length]? = some event := by
      obtain ⟨later, hlater⟩ := hstream
      rw [← hlater]
      simp
    rw [projectStream]
    refine Outline.wp_bind (Outline.wp_mono (fun s₁ g₁ r hle hr => ?_)
      (wp_own hallows hk (hown event List.mem_cons_self) hg))
    obtain ⟨hg₁, hdue, hok⟩ := hr
    cases r with
    | error e => exact ⟨hg₁, hdue, fun u hu => by cases hu⟩
    | ok b =>
      have hnext : g₁.done = (past ++ [event]).length := by
        rw [(hok b rfl).1, RebuildGhost.past, if_pos hdone, List.length_append, List.length_singleton]
      have hstream₁ : past ++ [event] ++ events <+: s₁.stream accountId := by
        rw [List.append_assoc]
        exact hstream.trans (hle.2.2 (accountStream accountId))
      refine Outline.wp_mono (fun s₂ g₂ r _ hr => ?_)
        (ih (past ++ [event]) hstream₁ (fun other hother => hown other (List.mem_cons_of_mem _ hother)) hg₁ hnext)
      refine ⟨hr.1, hr.2.1.trans hdue, fun u hu => ?_⟩
      rw [hr.2.2 u hu, List.length_append, List.length_singleton, List.length_cons]
      omega

theorem wp_projectStream_other {q : RebuildRequest} {s : RebuildState} {g : RebuildGhost} {events : List DomainEvent}
    (hother : ∀ event ∈ events, event.data.accountId ≠ some accountId) :
    (rebuildOutline accountId allows).wp q (projectStream events) s g fun _ g' _ => g' = g := by
  induction events generalizing s with
  | nil => exact Outline.wp_pure rfl
  | cons event events ih =>
    rw [projectStream]
    refine Outline.wp_bind (Outline.wp_mono (fun s₁ g₁ r _ hr => ?_) (wp_other (hother event List.mem_cons_self)))
    rw [hr]
    cases r with
    | error e => rfl
    | ok b => exact ih fun other hmem => hother other (List.mem_cons_of_mem _ hmem)

/-! ## Every program -/

def RebuildPost (accountId : String) (q : RebuildRequest) (s : RebuildState) (g : RebuildGhost)
    (r : Except Failure (Option Nat)) : Prop :=
  g.entry = none ∧ match q with
  | .message event => g.due = 0 ∧
    ∀ a, r = .ok a → event.data.accountId = some accountId → event.streamVersion ≤ s.reached
  | .loop _ => g.due = 0 ∧ ∀ checkpoint, r = .ok (some checkpoint) → ∃ through,
    through <+: s.side.events.allEvents ∧ through.length = checkpoint ∧ Through accountId s g through
  | .rebuildAccount accountId' => (accountId' ≠ accountId → g.due = 0) ∧ ∀ a, r = .ok a → g.due ≤ g.done
  | .rebuildAll pages => ∀ a, r = .ok a → g.due ≤ g.done ∨ pages ≤ s.side.events.allEvents.length
  | .append .. => g.due = 0

section
variable {q : RebuildRequest} {s : RebuildState} (hallows : ∀ side op, allows side op → KeepsUp accountId side op)
include hallows

theorem wp_eachMessage (event : DomainEvent) :
    (rebuildOutline accountId allows).wp q (RebuildRequest.message event).body s {}
      (RebuildPost accountId (.message event)) := by
  unfold RebuildRequest.body AccountEventsConsumerService.eachMessage
  dsimp only
  rw [Async.bind_assoc]
  refine Outline.wp_bind (Outline.wp_call fun i s₁ gs _ hinv hgi r s₂ hstep => ⟨{}, ?_⟩)
  rw [Outline.update_ghost hgi]
  have hinv : RebuildInv accountId s₁ gs := hinv
  refine ⟨hinv.foreign hstep trivial, ?_⟩
  cases hstep with
  | performed hadmitted =>
    dsimp only [RebuildOp.perform]
    have hmem : event.data.accountId = some accountId → event ∈ s₁.stream accountId := hinv.log.mem_stream hadmitted
    obtain ⟨k, hk⟩ : ∃ k, event.data.accountId = some accountId →
        (s₁.stream accountId)[k]? = some event ∧ event.streamVersion = k + 1 := by
      by_cases hid : event.data.accountId = some accountId
      · obtain ⟨k, hk⟩ := List.mem_iff_getElem?.mp (hmem hid)
        exact ⟨k, fun _ => ⟨hk, hinv.log.history.stream.streamVersion hk⟩⟩
      · exact ⟨0, fun h => absurd h hid⟩
    rw [Async.bind_assoc]
    refine Outline.wp_bind (Outline.wp_mono (fun s₃ g r _ hr => ?_)
      (wp_event hallows (fun hid => (hk hid).1) rfl))
    obtain ⟨hg, hdue, hok⟩ := hr
    cases r with
    | error e => exact ⟨hg, hdue, fun a ha => by cases ha⟩
    | ok b =>
      refine Outline.wp_pure ⟨hg, hdue, fun a _ hid => ?_⟩
      have hone := hok b rfl
      rw [if_pos hid] at hone
      rw [(hk hid).2]
      exact hone.2

theorem wp_loop (rounds : Nat) :
    (rebuildOutline accountId allows).wp q (RebuildRequest.loop rounds).body s {}
      (RebuildPost accountId (.loop rounds)) := by
  unfold RebuildRequest.body
  refine Outline.wp_bind (Outline.wp_mono (fun s₁ g r _ hr => ?_)
    (wp_runLoop hallows rounds [] List.nil_prefix rfl (.nil s rfl)))
  obtain ⟨hg, hdue, hok⟩ := hr
  cases r with
  | error e => exact ⟨hg, hdue, fun a ha => by cases ha⟩
  | ok checkpoint =>
    refine Outline.wp_pure ⟨hg, hdue, fun checkpoint' h => ?_⟩
    obtain rfl := Option.some.inj (Except.ok.inj h)
    exact hok checkpoint rfl

theorem wp_rebuildAll (pages : Nat) :
    (rebuildOutline accountId allows).wp q (RebuildRequest.rebuildAll pages).body s {}
      (RebuildPost accountId (.rebuildAll pages)) := by
  unfold RebuildRequest.body ProjectionRunnerService.rebuildAll
  dsimp only
  rw [Async.bind_assoc]
  refine Outline.wp_bind (Outline.wp_call fun i s₁ gs _ hinv hgi r s₂ hstep => ?_)
  have hinv : RebuildInv accountId s₁ gs := hinv
  refine ⟨{ done := 0, due := s₁.reached }, ?_⟩
  cases hstep with
  | performed =>
    have hreset := hinv.reset (i := i) hinv.view.keyed.resetAll rfl rfl rfl rfl
    rw [hgi] at hreset
    refine ⟨hreset, ?_⟩
    dsimp only [RebuildOp.perform]
    rw [Async.bind_assoc]
    refine Outline.wp_bind (Outline.wp_call fun i s₃ gs _ hinv hgi r s₄ hstep => ⟨{ done := 0, due := s₁.reached }, ?_⟩)
    rw [Outline.update_ghost hgi]
    have hinv : RebuildInv accountId s₃ gs := hinv
    refine ⟨hinv.foreign hstep trivial, ?_⟩
    cases hstep with
    | performed =>
      dsimp only [RebuildOp.perform]
      refine Outline.wp_bind (Outline.wp_mono (fun s₅ g r _ hr => ?_)
        (wp_replayFrom hallows pages [] List.nil_prefix rfl (.nil _ rfl)))
      cases r with
      | error e => exact ⟨hr.1, fun a ha => by cases ha⟩
      | ok checkpoint =>
        refine Outline.wp_pure ⟨hr.1, fun a _ => ?_⟩
        simpa using hr.2 checkpoint rfl

theorem wp_rebuildAccount_own :
    (rebuildOutline accountId allows).wp q (RebuildRequest.rebuildAccount accountId).body s {}
      (RebuildPost accountId (.rebuildAccount accountId)) := by
  unfold RebuildRequest.body ProjectionRunnerService.rebuildAccount
  dsimp only
  rw [Async.bind_assoc]
  refine Outline.wp_bind (Outline.wp_call fun i s₁ gs _ hinv hgi r s₂ hstep => ⟨{ done := 0, due := s₁.reached }, ?_⟩)
  have hinv : RebuildInv accountId s₁ gs := hinv
  cases hstep with
  | performed =>
    have hreset := hinv.reset (i := i) (hinv.view.keyed.resetAccount accountId) rfl (hinv.resetAccount_defined _)
      (by rw [ReadSide.resetAccount_get, if_pos rfl]) (by rw [ReadSide.resetAccount_statement, if_pos rfl])
    rw [hgi] at hreset
    refine ⟨hreset, ?_⟩
    dsimp only [RebuildOp.perform]
    rw [Async.bind_assoc]
    refine Outline.wp_bind (Outline.wp_call fun i s₃ gs _ hinv hgi r s₄ hstep =>
      ⟨{ done := 0, due := s₁.reached }, ?_⟩)
    rw [Outline.update_ghost hgi]
    have hinv : RebuildInv accountId s₃ gs := hinv
    refine ⟨hinv.foreign hstep trivial, ?_⟩
    cases hstep with
    | performed =>
      dsimp only [RebuildOp.perform]
      have hread : s₃.side.events.readStream (accountStream accountId) 0 = s₃.stream accountId :=
        EventStore.readStream_eq hinv.log.history.stream.numbered 0
      have hdue : s₁.reached ≤ (s₃.stream accountId).length := by
        have hdue := hinv.due_le i
        rw [hgi] at hdue
        exact Nat.le_trans hdue hinv.reached_le
      have hown : ∀ event ∈ s₃.stream accountId, event.data.accountId = some accountId := fun event hevent =>
        hinv.log.own_accountId hevent
      rw [hread]
      refine Outline.wp_bind (Outline.wp_mono (fun s₅ g r _ hr => ?_)
        (wp_projectStream hallows _ [] List.prefix_rfl hown rfl rfl))
      obtain ⟨hg, hsame, hok⟩ := hr
      cases r with
      | error e => exact ⟨hg, fun h => absurd rfl h, fun a ha => by cases ha⟩
      | ok u =>
        refine Outline.wp_pure ⟨hg, fun h => absurd rfl h, fun a _ => ?_⟩
        rw [hsame, hok u rfl]
        simpa using hdue

omit hallows in
/-- The rebuild of another account leaves this one alone. -/
theorem wp_rebuildAccount_other {accountId' : String} (haccount : accountId' ≠ accountId) :
    (rebuildOutline accountId allows).wp q (RebuildRequest.rebuildAccount accountId').body s {}
      (RebuildPost accountId (.rebuildAccount accountId')) := by
  have hne : some accountId' ≠ some accountId := fun h => haccount (Option.some.inj h)
  unfold RebuildRequest.body ProjectionRunnerService.rebuildAccount
  dsimp only
  rw [Async.bind_assoc]
  refine Outline.wp_bind (Outline.wp_call fun i s₁ gs _ hinv hgi r s₂ hstep => ⟨{}, ?_⟩)
  rw [Outline.update_ghost hgi]
  have hinv : RebuildInv accountId s₁ gs := hinv
  cases hstep with
  | performed =>
    have hframe := hinv.frame (hinv.view.keyed.resetAccount accountId') rfl (hinv.resetAccount_defined _)
      (by rw [ReadSide.resetAccount_get, if_neg hne]) (by rw [ReadSide.resetAccount_statement, if_neg hne])
    refine ⟨hframe, ?_⟩
    dsimp only [RebuildOp.perform]
    rw [Async.bind_assoc]
    refine Outline.wp_bind (Outline.wp_call fun i s₃ gs _ hinv hgi r s₄ hstep => ⟨{}, ?_⟩)
    rw [Outline.update_ghost hgi]
    have hinv : RebuildInv accountId s₃ gs := hinv
    refine ⟨hinv.foreign hstep trivial, ?_⟩
    cases hstep with
    | performed =>
      dsimp only [RebuildOp.perform]
      have hother : ∀ event ∈ s₃.side.events.readStream (accountStream accountId') 0,
          event.data.accountId ≠ some accountId := fun event hevent =>
        hinv.log.others _ (fun h => haccount (accountStream_inj.mp h)) event (List.mem_filter.mp hevent).1
      refine Outline.wp_bind (Outline.wp_mono (fun s₅ g r _ hr => ?_) (wp_projectStream_other hother))
      rw [hr]
      cases r with
      | error e => exact ⟨rfl, fun _ => rfl, fun a ha => by cases ha⟩
      | ok u => exact Outline.wp_pure ⟨rfl, fun _ => rfl, fun a _ => Nat.le_refl _⟩

theorem wp_rebuildAccount (accountId' : String) :
    (rebuildOutline accountId allows).wp q (RebuildRequest.rebuildAccount accountId').body s {}
      (RebuildPost accountId (.rebuildAccount accountId')) := by
  by_cases haccount : accountId' = accountId
  · subst haccount
    exact wp_rebuildAccount_own hallows
  · exact wp_rebuildAccount_other haccount

omit hallows in
theorem wp_append (streamId : String) (events : List DomainEvent) :
    (rebuildOutline accountId allows).wp q (RebuildRequest.append streamId events).body s {}
      (RebuildPost accountId (.append streamId events)) := by
  unfold RebuildRequest.body
  refine Outline.wp_bind (Outline.wp_call fun i s₁ gs _ hinv hgi r s₂ hstep => ⟨{}, ?_⟩)
  rw [Outline.update_ghost hgi]
  have hinv : RebuildInv accountId s₁ gs := hinv
  cases hstep with
  | performed hadmitted => exact ⟨hinv.grow hadmitted (.write _ _ _), Outline.wp_pure ⟨rfl, rfl⟩⟩

/-- **Step.** Every program keeps the invariant. -/
theorem wp_rebuildRequest (q : RebuildRequest) (s : RebuildState) :
    (rebuildOutline accountId allows).wp q q.body s {} (RebuildPost accountId q) := by
  cases q with
  | message event => exact wp_eachMessage hallows event
  | loop rounds => exact wp_loop hallows rounds
  | rebuildAccount accountId' => exact wp_rebuildAccount hallows accountId'
  | rebuildAll pages => exact wp_rebuildAll hallows pages
  | append streamId events => exact wp_append streamId events

end

/-! ## Every run -/

omit [JsRuntime] in
theorem Through.past {s : RebuildState} {g : RebuildGhost} {through : List PositionedEvent}
    (h : Through accountId s g through) (hlog : LogOf accountId s.side.events)
    (hthrough : through <+: s.side.events.allEvents) {event : DomainEvent} {position : Nat}
    (hmem : ⟨event, position⟩ ∈ s.side.events.allEvents) (hle : position ≤ through.length)
    (hid : event.data.accountId = some accountId) : event.streamVersion ≤ s.reached := by
  obtain ⟨p, hp⟩ := List.mem_iff_getElem?.mp hmem
  have hposition : position = p + 1 := hlog.positions p _ hp
  have htake : s.side.events.allEvents.take (p + 1) = s.side.events.allEvents.take p ++ [⟨event, position⟩] := by
    rw [List.take_add_one, hp]
    rfl
  have hnext : s.side.events.allEvents.take p ++ [⟨event, position⟩] <+: s.side.events.allEvents := by
    rw [← htake]
    exact List.take_prefix _ _
  have hpast : s.side.events.allEvents.take p ++ [⟨event, position⟩] <+: through := by
    refine List.prefix_of_prefix_length_le hnext hthrough ?_
    rw [← htake, List.length_take]
    omega
  have hversion : event.streamVersion = countOf accountId (s.side.events.allEvents.take p) + 1 :=
    hlog.history.stream.streamVersion (hlog.getElem? hnext hid)
  have hcount := countOf_mono accountId hpast
  rw [countOf_snoc, if_pos hid] at hcount
  have hreached := h.reached
  omega

omit [JsRuntime] in
/-- A rebuild that counts has projected all it was due to. -/
theorem RebuildPost.settled {c : RebuildConfig} {q : RebuildRequest} {s : RebuildState} {g : RebuildGhost}
    {r : Except Failure (Option Nat)} (h : RebuildPost accountId q s g r)
    (hgrown : Grown s.side.events c.state.side.events)
    (hrebuilt : Rebuilt accountId c q (some (.done r))) : g.due ≤ g.done := by
  obtain ⟨-, hpost⟩ := h
  cases q with
  | message | loop => exact hpost.1 ▸ Nat.zero_le _
  | rebuildAccount accountId' =>
    by_cases haccount : accountId' = accountId
    · obtain ⟨a, ha⟩ := hrebuilt haccount
      exact hpost.2 a (Async.done.inj (Option.some.inj ha))
    · exact hpost.1 haccount ▸ Nat.zero_le _
  | rebuildAll pages =>
    obtain ⟨⟨a, ha⟩, hpages⟩ := hrebuilt
    have hlen := hgrown.1.length_le
    exact (hpost a (Async.done.inj (Option.some.inj ha))).resolve_right (by omega)
  | append => exact (show g.due = 0 from hpost) ▸ Nat.zero_le _

omit [JsRuntime] in
/-- What has been delivered is within what a summary has shown. -/
theorem Delivered.reached {c : RebuildConfig} {event : DomainEvent} (h : Delivered c event)
    (hlog : LogOf accountId c.state.side.events) (hid : event.data.accountId = some accountId)
    (hended : ∀ t ∈ c.threads, ∃ r s g, t.program = some (.done r) ∧
      (s.reached ≤ c.state.reached ∧ Grown s.side.events c.state.side.events) ∧
      RebuildPost accountId t.request s g r) : event.streamVersion ≤ c.state.reached := by
  obtain ⟨t, ht, hby⟩ := h
  obtain ⟨r, s, g, hp, hle, -, hpost⟩ := hended t ht
  rcases hby with ⟨hq, a, ha⟩ | ⟨rounds, checkpoint, position, hq, ha, hposition, hpast⟩
  · rw [hq] at hpost
    rw [hp] at ha
    exact Nat.le_trans (hpost.2 a (Async.done.inj (Option.some.inj ha)) hid) hle.1
  · rw [hq] at hpost
    rw [hp] at ha
    obtain ⟨through, hthrough, rfl, hwent⟩ := hpost.2 checkpoint (Async.done.inj (Option.some.inj ha))
    exact (hwent.later hle.1).past hlog (hthrough.trans hle.2.1) hposition hpast hid

namespace RebuildInv

variable {s : RebuildState} {gs : Nat → RebuildGhost}

/-- With no rebuild short of what it is due to project, no version is lost. -/
theorem reached_eq (h : RebuildInv accountId s gs) (hsettled : ∀ i, (gs i).due ≤ (gs i).done) :
    s.side.version accountId = s.reached := by
  refine Nat.le_antisymm h.version_le (Nat.not_lt.mp fun hlt => ?_)
  rcases h.kept _ hlt with hself | ⟨i, hdone, hdue⟩
  · exact Nat.lt_irrefl _ hself
  · have := hsettled i
    omega

/-- A summary at the end of the stream, with no entry owed, leaves nothing out. -/
theorem upToDate (h : RebuildInv accountId s gs) (hidle : ∀ i, (gs i).entry = none)
    (hlength : s.side.version accountId = (s.stream accountId).length) : UpToDate accountId s.side := by
  refine ⟨fun hne => ?_, ?_⟩
  · cases hget : s.side.summaries.get (some accountId) with
    | none =>
      rw [ReadSide.version_of_none hget] at hlength
      exact absurd (List.length_eq_zero_iff.mp hlength.symm) hne
    | some summary =>
      have hversion : summary.version = (s.stream accountId).length := ReadSide.version_of_get hget ▸ hlength
      have hshows := (h.view.summary hget).2.2
      rw [hversion, List.take_length] at hshows
      exact ⟨summary, rfl, hversion, hshows⟩
  · have hversions := h.view.versions h.log.history.stream h.log.stream_ids
      (fun k ⟨i, hi⟩ => by cases (hidle i).symm.trans hi) fun entry hentry => by
        obtain ⟨k, event, details, hk, rfl⟩ := h.view.entries entry hentry
        have hlt := (List.getElem?_eq_some_iff.mp hk).1
        rw [AccountProjector.statementEntry_streamVersion, h.log.history.stream.streamVersion hk, hlength]
        exact hlt
    rw [hversions, hlength]
    rfl

end RebuildInv

/-- **Rebuilding while events flow is safe** as long as no summary jumps ahead. -/
theorem rebuilt_up_to_date {c : RebuildConfig} (hc : (rebuilds accountId (KeepsUp accountId)).Reachable c)
    (hquiet : System.Quiescent c) (hrebuilt : ∀ t ∈ c.threads, Rebuilt accountId c t.request t.program)
    (hdelivered : ∀ event ∈ c.state.stream accountId, Delivered c event) : UpToDate accountId c.state.side := by
  obtain ⟨gs, ht⟩ := @Outline.sound _ _ _ _ _ _ _ _ (rebuildOutline accountId (KeepsUp accountId))
    (RebuildPost accountId) RebuildInv.empty (fun q s _ => wp_rebuildRequest (fun _ _ h => h) q s) c hc
  have hinv : RebuildInv accountId c.state gs := ht.inv
  have hidle : ∀ i, (gs i).entry = none ∧ (gs i).due ≤ (gs i).done := by
    intro i
    by_cases hi : i < c.threads.length
    · obtain ⟨r, s, hp, hle, hpost⟩ := ht.quiescent hc id hquiet (List.getElem?_eq_getElem hi)
      exact ⟨hpost.1, hpost.settled hle.2 (hp ▸ hrebuilt _ (List.getElem_mem hi))⟩
    · rw [ht.fresh i (by omega)]
      exact ⟨rfl, Nat.le_refl _⟩
  have hversion : c.state.side.version accountId = c.state.reached := hinv.reached_eq fun i => (hidle i).2
  refine hinv.upToDate (fun i => (hidle i).1) (hversion.trans (Nat.le_antisymm hinv.reached_le ?_))
  -- the last event of the stream has been delivered
  by_contra hlt
  have hk := List.getElem?_eq_getElem (Nat.lt_of_not_le hlt)
  have hmem := List.mem_of_getElem? hk
  have hreached := (hdelivered _ hmem).reached hinv.log (hinv.log.own_accountId hmem) fun t hthread => by
    obtain ⟨i, hi⟩ := List.mem_iff_getElem?.mp hthread
    obtain ⟨r, s, hp, hle, hpost⟩ := ht.quiescent hc id hquiet hi
    exact ⟨r, s, gs i, hp, hle, hpost⟩
  rw [hinv.log.history.stream.streamVersion hk] at hreached
  exact Nat.lt_irrefl _ hreached

end

/-! ## Schedules -/

def KeepsUp.check (accountId : String) (side : ReadSide) : RebuildOp → Bool
  | .read (.upsertAccountSummary summary) =>
    summary.accountId != some accountId || decide (summary.version ≤ side.version accountId + 1)
  | _ => true

theorem KeepsUp.of_check {accountId : String} {side : ReadSide} {op : RebuildOp} (h : check accountId side op = true) :
    KeepsUp accountId side op := by
  unfold check at h
  unfold KeepsUp
  split
  · intro hid
    simpa [hid] using h
  · trivial

def RebuildOp.admitted (side : ReadSide) : RebuildOp → Bool
  | .receive event => decide (event ∈ side.events.allEvents.map PositionedEvent.event)
  | .append .. => false
  | _ => true

/-- A call that is made where `check` lets it, but for appends. -/
def rebuildAnswer (accountId : String) (check : ReadSide → RebuildOp → Bool) (op : RebuildOp) (s : RebuildState) :
    Option (Except Failure op.Result × RebuildState) :=
  if op.admitted s.side && check s.side op then some ((op.perform s.side).1, s.next accountId (op.perform s.side).2)
  else none

theorem rebuildAnswer_step {accountId : String} {check : ReadSide → RebuildOp → Bool}
    {allows : ReadSide → RebuildOp → Prop} (hallows : ∀ side op, check side op = true → allows side op) {op : RebuildOp}
    {s s' : RebuildState} {r : Except Failure op.Result} (h : rebuildAnswer accountId check op s = some (r, s')) :
    RebuildStep accountId allows op s r s' := by
  unfold rebuildAnswer at h
  split at h
  case isTrue hif =>
    obtain ⟨hadmitted, hcheck⟩ := Bool.and_eq_true_iff.mp hif
    obtain ⟨rfl, rfl⟩ := Prod.mk.inj (Option.some.inj h)
    refine .performed ?_ (hallows _ _ hcheck)
    cases op with
    | receive event =>
      show event ∈ s.side.events.allEvents.map PositionedEvent.event
      exact of_decide_eq_true hadmitted
    | append => cases hadmitted
    | _ => trivial
  · cases h

def accountRequests : List BankRequest :=
  [.createAccount (some "key-1") ⟨"acc-1", "owner-1", "EUR", none⟩,
    .deposit (some "key-2") "acc-1" ⟨⟨"10.25"⟩, "EUR", "tx-1", none⟩,
    .withdraw (some "key-3") "acc-1" ⟨⟨"2.75"⟩, "EUR", "tx-2", none⟩]

def accountRun : BankConfig :=
  plainRun .none (fun _ => True) BankRequest.freezesKnown (fun _ _ => .answer) accountRequests

theorem accountRun_reachable :
    (plainBank .none (fun _ => True) BankRequest.freezesKnown).system.Reachable accountRun := by
  have hrequests : ∀ q ∈ accountRequests, @BankRequest.WellFormed decimalRuntime q ∧
      ∀ op s, BankRequest.freezesKnown q op s := by
    simp only [accountRequests, List.mem_cons, List.not_mem_nil, or_false]
    rintro q (rfl | rfl | rfl)
    all_goals exact ⟨show "acc-1" ≠ "" by decide, fun _ _ => trivial⟩
  exact plainRun_reachable (fun q hq => (hrequests q hq).1) (fun _ _ => trivial) fun q hq =>
    Service.permits_answer (hrequests q hq).2

def accountEvents : List DomainEvent := accountRun.state.store.stream (accountStream "acc-1")

/-- The log of the bank, in one append. -/
def accountLog : EventStore := EventStore.empty.write (accountStream "acc-1") accountEvents

theorem accountRun_events : accountRun.state.store.events = accountLog := by
  have hstreams : accountRun.state.store.events.streams = accountLog.streams :=
    OrderedMap.ext (by decide +kernel)
  have houtbox : accountRun.state.store.events.outbox = accountLog.outbox :=
    OrderedMap.ext (by decide +kernel)
  have hlog : accountRun.state.store.events.allEvents = accountLog.allEvents := by decide +kernel
  calc accountRun.state.store.events
      = ⟨accountRun.state.store.events.streams, accountRun.state.store.events.allEvents,
          accountRun.state.store.events.outbox⟩ := rfl
    _ = accountLog := by rw [hstreams, hlog, houtbox]

theorem accountLog_logOf : LogOf "acc-1" accountLog := by
  have hlog : WellFormedLog accountLog :=
    accountRun_events ▸ @reachable_wellFormedLog decimalRuntime plainDigest _ _ _ accountRun_reachable
  exact hlog.logOf (by decide +kernel) "acc-1"

def appendedConfig : RebuildConfig :=
  ⟨⟨{ ReadSide.empty .empty with events := accountLog }, 0⟩,
    [⟨.append (accountStream "acc-1") accountEvents, some (.done (.ok none))⟩]⟩

theorem appendedConfig_reachable {allows : ReadSide → RebuildOp → Prop}
    (happend : allows (.empty .empty) (.append (accountStream "acc-1") accountEvents)) :
    (@rebuilds decimalRuntime "acc-1" allows).Reachable appendedConfig := by
  have hstart : (@rebuilds decimalRuntime "acc-1" allows).Reachable _ :=
    System.Reachable.start.spawn (q := .append (accountStream "acc-1") accountEvents) trivial
  have hstep : RebuildStep "acc-1" allows (.append (accountStream "acc-1") accountEvents) ⟨.empty .empty, 0⟩ _ _ :=
    .performed accountLog_logOf happend
  have hcall := System.Step.call (S := @rebuilds decimalRuntime "acc-1" allows) (i := 0)
    (c := ⟨⟨.empty .empty, 0⟩, [⟨.append (accountStream "acc-1") accountEvents,
      some (@RebuildRequest.body decimalRuntime (.append (accountStream "acc-1") accountEvents))⟩]⟩) rfl hstep
  exact .step hstart hcall

/-- Everything started has returned or failed, rebuilds of the account have
returned, and each event has been delivered as a message. -/
def RebuildConfig.settled (accountId : String) (c : RebuildConfig) : Bool :=
  (c.threads.all fun t => t.program.all Async.isDone) &&
  (c.threads.all fun t => match t.request with
    | .rebuildAccount accountId' => accountId' != accountId || t.returned
    | .rebuildAll _ => false
    | _ => true) &&
  (c.state.stream accountId).all fun event => c.threads.any fun t => decide (t.request = .message event) && t.returned

theorem RebuildConfig.of_settled {accountId : String} {c : RebuildConfig} (h : settled accountId c = true) :
    System.Quiescent c ∧ (∀ t ∈ c.threads, Rebuilt accountId c t.request t.program) ∧
      ∀ event ∈ c.state.stream accountId, Delivered c event := by
  unfold settled at h
  rw [Bool.and_eq_true_iff, Bool.and_eq_true_iff] at h
  obtain ⟨⟨hdone, hrebuilt⟩, hdelivered⟩ := h
  refine ⟨System.quiescent_of_all hdone, fun t ht => ?_, fun event hevent => ?_⟩
  · have hthread := List.all_eq_true.mp hrebuilt t ht
    unfold Rebuilt
    split
    case h_1 accountId' hq =>
      rw [hq] at hthread
      intro haccount
      exact Thread.exists_of_returned (by simpa [haccount] using hthread)
    case h_2 pages hq =>
      rw [hq] at hthread
      cases hthread
    · trivial
  · obtain ⟨t, ht, hby⟩ := List.any_eq_true.mp (List.all_eq_true.mp hdelivered event hevent)
    obtain ⟨hq, hreturned⟩ := Bool.and_eq_true_iff.mp hby
    exact ⟨t, ht, .inl ⟨of_decide_eq_true hq, Thread.exists_of_returned hreturned⟩⟩

def rebuildRun (check : ReadSide → RebuildOp → Bool) (moves : List (System.Move RebuildRequest)) : RebuildConfig :=
  moves.foldl ((@rebuilds decimalRuntime "acc-1" fun _ _ => True).move fun _ _ => rebuildAnswer "acc-1" check)
    appendedConfig

theorem rebuildRun_reachable (check : ReadSide → RebuildOp → Bool) (allows : ReadSide → RebuildOp → Prop)
    (hallows : ∀ side op, check side op = true → allows side op)
    (happend : allows (.empty .empty) (.append (accountStream "acc-1") accountEvents))
    (moves : List (System.Move RebuildRequest)) :
    (@rebuilds decimalRuntime "acc-1" allows).Reachable (rebuildRun check moves) :=
  (appendedConfig_reachable happend).play moves (fun _ _ _ => trivial) fun h => rebuildAnswer_step hallows h

/-- The message of the deposit fails after the reset, and is delivered again. -/
def carefulMoves : List (System.Move RebuildRequest) :=
  match accountEvents with
  | [created, deposited, withdrawn] =>
    [.serve (.message created) 10, .serve (.rebuildAccount "acc-1") 1, .serve (.message deposited) 10,
      .resume 2 50, .serve (.message deposited) 10, .serve (.message withdrawn) 10]
  | _ => []

theorem rebuilt_up_to_date_redelivered :
    let c := rebuildRun (KeepsUp.check "acc-1") carefulMoves
    c.state.side.version "acc-1" = 3 ∧ UpToDate "acc-1" c.state.side := by
  intro c
  have hc : (@rebuilds decimalRuntime "acc-1" (KeepsUp "acc-1")).Reachable c :=
    rebuildRun_reachable (KeepsUp.check "acc-1") (KeepsUp "acc-1") (fun _ _ hcheck => KeepsUp.of_check hcheck) trivial
      carefulMoves
  obtain ⟨hquiet, hrebuilt, hdelivered⟩ := RebuildConfig.of_settled (show c.settled "acc-1" = true by decide +kernel)
  exact ⟨by decide +kernel, @rebuilt_up_to_date decimalRuntime _ _ hc hquiet hrebuilt hdelivered⟩

/-- The message of the deposit has read the summary before the reset. -/
def staleMoves : List (System.Move RebuildRequest) :=
  match accountEvents with
  | [created, deposited, withdrawn] =>
    [.serve (.message created) 10, .serve (.message deposited) 3, .serve (.rebuildAccount "acc-1") 1,
      .resume 2 10, .resume 3 50, .serve (.message withdrawn) 10]
  | _ => []

/-- The entry of the first event is lost: the deposit is stored after the reset,
and the rebuild takes the first event for an old one. -/
theorem rebuilt_out_of_date : ¬ ∀ c : RebuildConfig,
    (@rebuilds decimalRuntime "acc-1" fun _ _ => True).Reachable c → System.Quiescent c →
    (∀ t ∈ c.threads, Rebuilt "acc-1" c t.request t.program) →
    (∀ event ∈ c.state.stream "acc-1", Delivered c event) → UpToDate "acc-1" c.state.side := by
  intro h
  let c := rebuildRun (fun _ _ => true) staleMoves
  have hc : (@rebuilds decimalRuntime "acc-1" fun _ _ => True).Reachable c :=
    rebuildRun_reachable (fun _ _ => true) (fun _ _ => True) (fun _ _ _ => trivial) trivial staleMoves
  obtain ⟨hquiet, hrebuilt, hdelivered⟩ := RebuildConfig.of_settled (show c.settled "acc-1" = true by decide +kernel)
  have hstatement := (h c hc hquiet hrebuilt hdelivered).statement
  have hentries : (c.state.side.statement (some "acc-1")).map (·.streamVersion) = [2, 3] := by decide +kernel
  have hlength : (c.state.side.events.stream (accountStream "acc-1")).length = 3 := by decide +kernel
  rw [hentries, hlength] at hstatement
  cases hstatement

end CoreBanking
