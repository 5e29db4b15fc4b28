import CoreBanking.Lib.Machine
import CoreBanking.PostgresEventStore
import CoreBanking.Rebuild

/-!
# Replaying the Postgres log

The loop of `replayFrom` beside the transactions that append. A page may hold a
position above one that is seen only later, and the checkpoint then passes it by.
-/

namespace CoreBanking

open ProjectionRunnerService (projectBoth)

/-- `replayFrom`: not called yet; at `readAll`; in the loop over a page, with what is
left of it; returned; rejected. -/
inductive ReplayStage
  | idle
  | reading
  | projecting (rest : List PositionedEvent)
  | returned
  | rejected (error : Failure)
deriving DecidableEq

/-- `given` is what `project` has been called with, and `overtaken` the positions
that were in flight when a page with later positions was read. -/
structure PostgresReplay where
  table : EventsTable
  side : ReadSide
  stage : ReplayStage
  checkpoint : Nat
  given : List PositionedEvent
  overtaken : List Nat

namespace PostgresReplay

inductive Event
  | append (e : AppendStep)
  | rebuildAll
  | readAll
  | project
  | rejected (error : Failure)

def init (side : ReadSide) : PostgresReplay := ⟨.empty, side, .idle, 0, [], []⟩

section
variable [JsRuntime]

def step (hashtext : String → Int) (s : PostgresReplay) : Event → Option PostgresReplay
  | .append e => (PostgresEventStore.step hashtext s.table e).map fun table => { s with table := table }
  | .rebuildAll =>
    match s.stage with
    | .reading | .projecting _ => none
    | _ => some { s with
        side := s.side.resetAll.resetAllTransfers, stage := .reading, checkpoint := 0, given := [], overtaken := [] }
  | .readAll =>
    match s.stage with
    | .reading =>
      let events := PostgresEventStore.readAll s.table s.checkpoint 1000
      if events.length = 0 then some { s with stage := .returned }
      else some { s with
        stage := .projecting events
        overtaken := s.overtaken ++ Paging.overtakenBy PositionedEvent.position s.table.toRows events }
    | _ => none
  | .project =>
    match s.stage with
    | .projecting (event :: rest) =>
      match (projectBoth event.event).eval ReadSide.perform s.side with
      | (.ok _, side) => some { s with
          side := side, stage := if rest = [] then .reading else .projecting rest
          checkpoint := event.position, given := s.given ++ [event] }
      | (.error error, side) => some { s with
          side := side, stage := .rejected error, given := s.given ++ [event] }
    | _ => none
  | .rejected error =>
    match s.stage with
    | .reading => some { s with stage := .rejected error }
    | .projecting (event :: _) => some { s with stage := .rejected error, given := s.given ++ [event] }
    | _ => none

def machine (hashtext : String → Int) : Machine PostgresReplay Event where
  starts s := ∃ side, s = init side
  allows _ _ := True
  step := step hashtext

abbrev Reached (hashtext : String → Int) : PostgresReplay → Prop := (machine hashtext).Reached

end

/-- Every event that is committed at or below the checkpoint has been given to
the projectors. -/
def SkipsNothing (s : PostgresReplay) : Prop :=
  ∀ row ∈ s.table.visible, row.position ≤ s.checkpoint → row ∈ s.given

def NoGap (s : PostgresReplay) : Prop :=
  ∀ k : Fin s.given.length, ∀ row ∈ s.table.visible, row.event.streamId = s.given[k].event.streamId →
    row.event.streamVersion < s.given[k].event.streamVersion → row ∈ s.given.take k

instance (s : PostgresReplay) : Decidable s.SkipsNothing := by
  unfold SkipsNothing
  infer_instance

instance (s : PostgresReplay) : Decidable s.NoGap := by
  unfold NoGap
  infer_instance

structure ReplayComplete (s : PostgresReplay) : Prop where
  returned : s.stage = .returned → s.SkipsNothing
  noGap : s.NoGap

/-- Nothing that is committed was in flight when a page with a later position was read. -/
def NoneOvertaken (s : PostgresReplay) : Prop := ∀ row ∈ s.table.visible, row.position ∉ s.overtaken

instance (s : PostgresReplay) : Decidable s.NoneOvertaken := by
  unfold NoneOvertaken
  infer_instance

/-! ## The run -/

def Rest (s : PostgresReplay) (rest : List PositionedEvent) : Prop :=
  match s.stage with
  | .projecting page => page = rest ∧ s.checkpoint = Paging.lastKey PositionedEvent.position s.given
  | .rejected _ => True
  | _ => rest = [] ∧ s.checkpoint = Paging.lastKey PositionedEvent.position s.given

structure Inv (hashtext : String → Int) (s : PostgresReplay) : Prop where
  ordered : s.table.Ordered hashtext
  cursor : ∃ rest, s.Rest rest ∧
    Paging.Follows PositionedEvent.position s.table.toRows (s.given ++ rest) s.overtaken

theorem Inv.init (hashtext : String → Int) (side : ReadSide) : (init side).Inv hashtext where
  ordered := .empty hashtext
  cursor := ⟨[], ⟨rfl, rfl⟩, .nil _⟩

section
variable [JsRuntime] {hashtext : String → Int} {s s' : PostgresReplay}

omit [JsRuntime] in
theorem Inv.append (h : s.Inv hashtext) {e : AppendStep} {table : EventsTable}
    (htable : PostgresEventStore.step hashtext s.table e = some table) :
    Inv hashtext { s with table := table } where
  ordered := by
    obtain ⟨i, t', hchanges⟩ := PostgresEventStore.step_changes htable
    exact h.ordered.turn hchanges
  cursor := by
    obtain ⟨i, t', hchanges⟩ := PostgresEventStore.step_changes htable
    obtain ⟨rest, hrest, hfollows⟩ := h.cursor
    exact ⟨rest, hrest, hfollows.advance h.ordered.keyed (h.ordered.advances hchanges)⟩

theorem Inv.readAll (h : s.Inv hashtext) (hs : s.step hashtext .readAll = some s') : s'.Inv hashtext := by
  obtain ⟨table, side, stage, checkpoint, given, overtaken⟩ := s
  simp only [step] at hs
  split at hs
  · obtain ⟨hordered, rest, ⟨rfl, hcheckpoint⟩, hfollows⟩ := h
    split at hs
    · obtain rfl := Option.some.inj hs
      exact ⟨hordered, [], ⟨rfl, hcheckpoint⟩, hfollows⟩
    · obtain rfl := Option.some.inj hs
      refine ⟨hordered, _, ⟨rfl, hcheckpoint⟩, ?_⟩
      change checkpoint = Paging.lastKey PositionedEvent.position given at hcheckpoint
      change Paging.Follows PositionedEvent.position table.toRows (given ++ []) overtaken at hfollows
      rw [List.append_nil] at hfollows
      rw [hcheckpoint]
      exact hfollows.nextPage hordered.keyed 1000
  · cases hs

theorem Inv.project (h : s.Inv hashtext) (hs : s.step hashtext .project = some s') : s'.Inv hashtext := by
  obtain ⟨table, side, stage, checkpoint, given, overtaken⟩ := s
  simp only [step] at hs
  split at hs
  · next event rest =>
    obtain ⟨hordered, _, ⟨rfl, -⟩, hfollows⟩ := h
    rw [List.append_cons] at hfollows
    split at hs
    · obtain rfl := Option.some.inj hs
      refine ⟨hordered, rest, ?_, hfollows⟩
      have hlast : event.position = Paging.lastKey PositionedEvent.position (given ++ [event]) :=
        (Paging.lastKey_append_singleton given event).symm
      cases rest with
      | nil => exact ⟨rfl, hlast⟩
      | cons next rest => exact ⟨rfl, hlast⟩
    · obtain rfl := Option.some.inj hs
      exact ⟨hordered, rest, trivial, hfollows⟩
  · cases hs

theorem Inv.rejected (h : s.Inv hashtext) {error : Failure} (hs : s.step hashtext (.rejected error) = some s') :
    s'.Inv hashtext := by
  obtain ⟨table, side, stage, checkpoint, given, overtaken⟩ := s
  obtain ⟨hordered, rest, hrest, hfollows⟩ := h
  simp only [step] at hs
  split at hs
  · obtain rfl := Option.some.inj hs
    exact ⟨hordered, rest, trivial, hfollows⟩
  · next event rest =>
    obtain ⟨rfl, -⟩ := hrest
    obtain rfl := Option.some.inj hs
    rw [List.append_cons] at hfollows
    exact ⟨hordered, rest, trivial, hfollows⟩
  · cases hs

theorem Inv.step (h : s.Inv hashtext) {e : Event} (hs : s.step hashtext e = some s') : s'.Inv hashtext := by
  cases e with
  | append e =>
    obtain ⟨table, htable, rfl⟩ := Option.map_eq_some_iff.mp hs
    exact h.append htable
  | rebuildAll =>
    simp only [PostgresReplay.step] at hs
    split at hs
    · cases hs
    · cases hs
    · obtain rfl := Option.some.inj hs
      exact ⟨h.ordered, [], ⟨rfl, rfl⟩, .nil _⟩
  | readAll => exact h.readAll hs
  | project => exact h.project hs
  | rejected error => exact h.rejected hs

theorem Reached.inv (h : Reached hashtext s) : s.Inv hashtext := by
  refine Machine.Reached.invariant h ?_ fun _ _ hs ih => ih.step hs
  rintro _ ⟨side, rfl⟩
  exact .init hashtext side

end

theorem Inv.skipsNothing_iff {hashtext : String → Int} {s : PostgresReplay} (h : s.Inv hashtext)
    (hreturned : s.stage = .returned) : s.SkipsNothing ↔ s.NoneOvertaken := by
  obtain ⟨rest, hrest, hfollows⟩ := h.cursor
  rw [Rest, hreturned] at hrest
  obtain ⟨rfl, hcheckpoint⟩ := hrest
  rw [List.append_nil] at hfollows
  rw [SkipsNothing, hcheckpoint]
  exact hfollows.complete_iff h.ordered.keyed

/-- Versions follow positions in a stream, so that the earlier event is read ahead
of the later one. -/
theorem Inv.noGap {hashtext : String → Int} {s : PostgresReplay} (h : s.Inv hashtext) (hnone : s.NoneOvertaken) :
    s.NoGap := by
  obtain ⟨rest, -, hfollows⟩ := h.cursor
  intro k row hrow hstream hversion
  have hget : (s.given ++ rest)[(k : Nat)]? = some s.given[k] := by
    rw [List.getElem?_append_left k.isLt]
    exact List.getElem?_eq_getElem k.isLt
  have hevent : s.given[k] ∈ s.table.visible := hfollows.visible _ (List.mem_of_getElem? hget)
  have hlt := h.ordered.order row hrow _ hevent hstream hversion
  have hmem := hfollows.mem_take hget hrow hlt (hnone row hrow)
  rwa [List.take_append_of_le_length (Nat.le_of_lt k.isLt)] at hmem

/-! ## Two schedules -/

def created (accountId : String) : DomainEvent :=
  ⟨"created-" ++ accountId, accountStream accountId, 1, 1, .AccountCreated accountId "owner" "EUR",
    { commandId := "c-1", correlationId := "c-1" }⟩

def frozen (accountId : String) (k : Nat) : DomainEvent :=
  ⟨"frozen-" ++ accountId ++ toString k, accountStream accountId, k, k, .AccountFrozen (some accountId) "audit",
    { commandId := "c-1", correlationId := "c-1" }⟩

def insertion (i : Nat) (event : DomainEvent) (expectedVersion : Nat) : List Event :=
  [.append (.begin event.streamId [event] expectedVersion), .append (.lock i), .append (.check i), .append (.insert i)]

def commit (i : Nat) : Event := .append (.commit i)

/-- The first transaction commits behind the page that has the event of the second. -/
def slowTransaction : List Event :=
  insertion 0 (created "1") 0 ++ insertion 1 (created "22") 0 ++
    [commit 1, .rebuildAll, .readAll, .project, commit 0]

/-- The third transaction appends to the stream of the first, which has
committed behind the page. -/
def followedTransaction : List Event :=
  insertion 0 (created "1") 0 ++ [commit 0] ++ insertion 1 (frozen "1" 2) 1 ++ insertion 2 (created "22") 0 ++
    [commit 2, .rebuildAll, .readAll, .project, commit 1] ++ insertion 3 (frozen "1" 3) 2 ++
    [commit 3, .project, .readAll, .project]

/-- As the first schedule, but all commits are ahead of the page. -/
def promptTransaction : List Event :=
  insertion 0 (created "1") 0 ++ insertion 1 (created "22") 0 ++
    [commit 1, commit 0, .rebuildAll, .readAll, .project, .project, .readAll]

theorem Reached.of_play [JsRuntime] (hashtext : String → Int) (es : List Event) (p : PostgresReplay → Bool)
    (h : ((machine hashtext).play (fun _ _ => true) (PostgresReplay.init (.empty .empty)) es).any p = true) :
    ∃ s, Reached hashtext s ∧ p s = true := by
  obtain ⟨s, hs, hp⟩ := (Option.any_eq_true p _).mp h
  have hstart : Reached hashtext (PostgresReplay.init (.empty .empty)) := .start ⟨_, rfl⟩
  exact ⟨s, hstart.play (fun _ _ _ => trivial) hs, hp⟩

/-- While no committed event has been overtaken by a page, nothing is skipped and
there is no gap; and when the replay has returned, only then. -/
theorem replay_complete_iff [JsRuntime] {hashtext : String → Int} {s : PostgresReplay} (h : Reached hashtext s) :
    (s.NoneOvertaken → s.ReplayComplete) ∧ (s.stage = .returned → (s.ReplayComplete ↔ s.NoneOvertaken)) := by
  have hcomplete : s.NoneOvertaken → s.ReplayComplete := fun hnone =>
    ⟨fun hreturned => (h.inv.skipsNothing_iff hreturned).mpr hnone, h.inv.noGap hnone⟩
  refine ⟨hcomplete, fun hreturned => ⟨fun hall => ?_, hcomplete⟩⟩
  exact (h.inv.skipsNothing_iff hreturned).mp (hall.returned hreturned)

theorem replay_complete_iff_prompt :
    ∃ s : PostgresReplay, s.stage = .returned ∧ s.checkpoint = 2 ∧ s.ReplayComplete := by
  let runtime := decimalRuntime
  obtain ⟨s, hs, hp⟩ := Reached.of_play (fun streamId => streamId.length) promptTransaction
    (fun s => decide (s.stage = .returned ∧ s.checkpoint = 2 ∧ s.NoneOvertaken)) (by decide +kernel)
  obtain ⟨hreturned, hcheckpoint, hnone⟩ := of_decide_eq_true hp
  exact ⟨s, hreturned, hcheckpoint, (replay_complete_iff hs).1 hnone⟩

/-- The replay returns at position 2 without the event at position 1; or it
rejects an event of the account whose freeze it has passed by. -/
theorem not_replay_complete :
    let _runtime := decimalRuntime
    let hashtext : String → Int := fun streamId => streamId.length
    (∃ s s' : PostgresReplay, Reached hashtext s ∧ s.step hashtext .readAll = some s' ∧ s'.stage = .returned ∧
      ¬ s'.SkipsNothing) ∧
    ∃ s : PostgresReplay, Reached hashtext s ∧ s.stage = .rejected (.projectionGap "1" 2 3) ∧ ¬ s.NoGap := by
  intro runtime hashtext
  constructor
  · obtain ⟨s, hs, hreturns⟩ := Reached.of_play hashtext slowTransaction
      (fun s => (s.step hashtext .readAll).any fun (s' : PostgresReplay) =>
        decide (s'.stage = .returned ∧ ¬ s'.SkipsNothing))
      (by decide +kernel)
    obtain ⟨s', hs', hp⟩ := (Option.any_eq_true _ _).mp hreturns
    exact ⟨s, s', hs, hs', of_decide_eq_true hp⟩
  · obtain ⟨s, hs, hp⟩ := Reached.of_play hashtext followedTransaction
      (fun s => decide (s.stage = .rejected (.projectionGap "1" 2 3) ∧ ¬ s.NoGap)) (by decide +kernel)
    exact ⟨s, hs, of_decide_eq_true hp⟩

end PostgresReplay

end CoreBanking
