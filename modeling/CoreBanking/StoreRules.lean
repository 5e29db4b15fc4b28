import CoreBanking.World

/-!
# The stores, called by the repositories

Reading never changes a stream and saving a snapshot never changes what loading
gives, so any invariant under which accounts can be loaded is kept by all the
calls of a repository but the append, whatever the other programs do in between.
-/

namespace CoreBanking

def FaultModel.Reports (F : FaultModel) (message : String) : Prop :=
  ∃ op, F.rejected op message ∨ F.ambiguous op message

/-- A call has its effect or none. -/
theorem Exec.effect {F : FaultModel} {op : StoreOp} {s s' : Store} {r : Except Failure op.Result}
    (h : Exec F op s r s') : s' = s ∨ s' = (perform op s).2 := by
  cases h with
  | performed => exact .inr rfl
  | ambiguous => exact .inr rfl
  | _ => exact .inl rfl

/-- A call that would leave the store as it is does, whatever it meets. -/
theorem Exec.unchanged {F : FaultModel} {op : StoreOp} {s s' : Store} {r : Except Failure op.Result}
    (h : Exec F op s r s') (hs : (perform op s).2 = s) : s' = s :=
  h.effect.elim id fun heffect => heffect.trans hs

/-- A call that the runtime does not answer is answered by its store, or rejected. -/
theorem Exec.answer {F : FaultModel} {op : StoreOp} {s s' : Store} {r : Except Failure op.Result}
    (h : Exec F op s r s') (hop : op ≠ .randomUUID ∧ op ≠ .now) :
    r = (perform op s).1 ∨ ∃ message, r = .error (.store message) ∧
      (F.rejected op message ∨ F.ambiguous op message) := by
  cases h with
  | randomUUID => exact absurd rfl hop.1
  | now => exact absurd rfl hop.2
  | performed => exact .inl rfl
  | lost => exact .inl rfl
  | rejected message hm => exact .inr ⟨message, rfl, .inl hm⟩
  | ambiguous message hm => exact .inr ⟨message, rfl, .inr hm⟩

/-- A repository call may be rejected with `message` when its commit is made. -/
inductive FaultModel.Late (F : FaultModel) (message : String) : Prop
  | append (streamId events expectedVersion) : F.ambiguous (.append streamId events expectedVersion) message →
      Late F message
  | snapshotBeforeSave (streamId) : F.rejected (.snapshotBeforeSave streamId) message ∨
      F.ambiguous (.snapshotBeforeSave streamId) message → Late F message
  | putSnapshot (snapshot) : F.rejected (.putSnapshot snapshot) message ∨
      F.ambiguous (.putSnapshot snapshot) message → Late F message

/-- Calls and answers after which the streams and records are what they were. -/
inductive Quiet : (op : StoreOp) → Except Failure op.Result → Prop
  | randomUUID (r) : Quiet .randomUUID r
  | now (r) : Quiet .now r
  | readStream (streamId fromVersion r) : Quiet (.readStream streamId fromVersion) r
  | getLatestSnapshot (streamId r) : Quiet (.getLatestSnapshot streamId) r
  | snapshotBeforeSave (streamId r) : Quiet (.snapshotBeforeSave streamId) r
  | putSnapshot (snapshot r) : Quiet (.putSnapshot snapshot) r
  | append (streamId events expectedVersion e) : Quiet (.append streamId events expectedVersion) (.error e)

structure Store.SameBooks (s s' : Store) : Prop where
  events : s'.events = s.events
  transactions : s'.transactions = s.transactions
  idempotency : s'.idempotency = s.idempotency

theorem Store.SameBooks.refl (s : Store) : s.SameBooks s := ⟨rfl, rfl, rfl⟩

inductive FailedSave : (op : StoreOp) → Except Failure op.Result → Prop
  | snapshotBeforeSave (streamId e) : FailedSave (.snapshotBeforeSave streamId) (.error e)
  | putSnapshot (snapshot e) : FailedSave (.putSnapshot snapshot) (.error e)

theorem FailedSave.quiet {op : StoreOp} {r : Except Failure op.Result} (h : FailedSave op r) : Quiet op r := by
  cases h <;> constructor

section
variable {Req Out G : Type}

/-- An invariant under which accounts can be loaded and saved. A program may
note in its ghost that the save of a snapshot has failed. -/
structure Loads (V : Service Req Out) (inv : World Req → (Nat → G) → Prop) (fail : G → G) : Prop where
  loadable : ∀ {w gs}, inv w gs → w.store.Loadable
  quiet : ∀ {i q op w r w' gs}, inv w gs → V.CallStep i q op w r w' → Quiet op r → ¬ FailedSave op r →
    w.store.SameBooks w'.store → w'.store.Loadable → inv w' gs
  failed : ∀ {i q op w r w' gs}, inv w gs → V.CallStep i q op w r w' → FailedSave op r →
    w.store.SameBooks w'.store → w'.store.Loadable → inv w' (Function.update gs i (fail (gs i)))

variable {V : Service Req Out} {idle : G} {inv : World Req → (Nat → G) → Prop} {fail : G → G} (H : Loads V inv fail)
variable {q : Req} {w : World Req} {g : G}
include H

theorem Loads.quiet_step {op : StoreOp} {i : Nat} {w₁ w₂ : World Req} {gs : Nat → G} {r : Except Failure op.Result}
    (hinv : inv w₁ gs) (hg : gs i = g) (hstep : V.CallStep i q op w₁ r w₂) (hq : Quiet op r) (hn : ¬ FailedSave op r)
    (hsame : w₁.store.SameBooks w₂.store) (hloadable : w₂.store.Loadable) : inv w₂ (Function.update gs i g) := by
  rw [Outline.update_ghost hg]
  exact H.quiet hinv hstep hq hn hsame hloadable

theorem Loads.wp_read {op : StoreOp} {Q : World Req → G → Except Failure op.Result → Prop} (hq : ∀ r, Quiet op r)
    (hn : ∀ r, ¬ FailedSave op r) (hs : ∀ {s r s'}, Exec V.faults op s r s' → s' = s)
    (h : ∀ w' r, w.Le w' → (∃ gs, inv w' gs) → Exec V.faults op w'.store r w'.store → Q w' g r) :
    (V.outline idle inv).wp q (Async.call op) w g Q := by
  refine Outline.wp_call fun i w₁ gs hle hinv hg r w₂ hstep => ?_
  have hstep : V.CallStep i q op w₁ r w₂ := hstep
  have hsame : w₂.store = w₁.store := hs hstep.exec
  have hinv₂ : inv w₂ (Function.update gs i g) :=
    H.quiet_step hinv hg hstep (hq r) (hn r) (hsame ▸ .refl _) (hsame ▸ H.loadable hinv)
  refine ⟨g, hinv₂, h w₂ r ((V.outline idle inv).le_trans hle ((V.outline idle inv).le_step hstep)) ⟨_, hinv₂⟩ ?_⟩
  have hexec := hstep.exec
  rw [← hsame] at hexec
  exact hexec

theorem Loads.wp_takeStamp {Q : World Req → G → Except Failure Stamp → Prop}
    (hok : ∀ w' stamp, w.Le w' → Q w' g (.ok stamp))
    (herr : ∀ w' message, w.Le w' → V.faults.Reports message → Q w' g (.error (.store message))) :
    (V.outline idle inv).wp q takeStamp w g Q := by
  refine Outline.wp_bind (H.wp_read .randomUUID nofun (fun h => by cases h <;> rfl) fun w₁ r hle _ hexec => ?_)
  cases hexec with
  | rejected message hf => exact herr w₁ message hle ⟨_, .inl hf⟩
  | ambiguous message hf => exact herr w₁ message hle ⟨_, .inr hf⟩
  | performed h => exact absurd rfl h.1
  | randomUUID uuid =>
    refine Outline.wp_bind (H.wp_read .now nofun (fun h => by cases h <;> rfl) fun w₂ r hle₂ _ hexec => ?_)
    have hle₂ := (V.outline idle inv).le_trans hle hle₂
    cases hexec with
    | rejected message hf => exact herr w₂ message hle₂ ⟨_, .inl hf⟩
    | ambiguous message hf => exact herr w₂ message hle₂ ⟨_, .inr hf⟩
    | performed h => exact absurd rfl h.2
    | now time => exact Outline.wp_pure (hok w₂ _ hle₂)

/-! ## Loading -/

theorem Loads.wp_account_getById (accountId : String) {Q : World Req → G → Except Failure AccountAggregate → Prop}
    (hok : ∀ w', w.Le w' → (∃ gs, inv w' gs) →
      Q w' g (.ok (AccountAggregate.replay (w'.store.stream (accountStream accountId)))))
    (herr : ∀ w' message, w.Le w' → V.faults.Reports message → Q w' g (.error (.store message))) :
    (V.outline idle inv).wp q (AccountRepository.getById accountId) w g Q := by
  refine Outline.wp_bind (H.wp_read (.getLatestSnapshot _) nofun (fun h => by cases h <;> rfl)
    fun w₁ r hle ⟨_, hinv₁⟩ hexec => ?_)
  have hl₁ := H.loadable hinv₁
  cases hexec with
  | rejected message hf => exact herr w₁ message hle ⟨_, .inl hf⟩
  | ambiguous message hf => exact herr w₁ message hle ⟨_, .inr hf⟩
  | performed =>
    refine Outline.wp_bind (H.wp_read (.readStream _ _) nofun (fun h => by cases h <;> rfl)
      fun w₂ r hle₂ ⟨_, hinv₂⟩ hexec => ?_)
    have hl₂ := H.loadable hinv₂
    have hle' := (V.outline idle inv).le_trans hle hle₂
    cases hexec with
    | rejected message hf => exact herr w₂ message hle' ⟨_, .inl hf⟩
    | ambiguous message hf => exact herr w₂ message hle' ⟨_, .inr hf⟩
    | performed =>
      -- The snapshot may be older than the stream read after it.
      cases hs : w₁.store.snapshots.get (accountStream accountId) with
      | none =>
        refine Outline.wp_pure ?_
        simp only [Option.map_none, Option.getD_none, hl₂.load_stream]
        exact hok w₂ hle' ⟨_, hinv₂⟩
      | some snapshot =>
        refine Outline.wp_pure ?_
        simp only [Option.map_some, Option.getD_some,
          hl₂.load_snapshot (hl₁.snapshot _ _ hs) (hle₂.store.stream _)]
        exact hok w₂ hle' ⟨_, hinv₂⟩

/-! ## Saving -/

theorem Loads.wp_putSnapshot {snapshot : Snapshot} (hf : snapshot.Faithful (w.store.stream snapshot.streamId))
    {Q : World Req → G → Except Failure Unit → Prop} (hok : ∀ w', w.Le w' → Q w' g (.ok ()))
    (herr : ∀ w' message, w.Le w' → V.faults.Late message → Q w' (fail g) (.error (.store message))) :
    (V.outline idle inv).wp q (StoreOp.putSnapshot snapshot).call w g Q := by
  refine Outline.wp_call fun i w₁ gs hle hinv hg r w₂ hstep => ?_
  have hstep : V.CallStep i q (.putSnapshot snapshot) w₁ r w₂ := hstep
  have hl := H.loadable hinv
  have hput := hl.putSnapshot (hf.mono (hle.store.stream _))
  have hle' := (V.outline idle inv).le_trans hle ((V.outline idle inv).le_step hstep)
  have hfailed : ∀ {message}, r = .error (.store message) → w₁.store.SameBooks w₂.store → w₂.store.Loadable →
      inv w₂ (Function.update gs i (fail g)) := by
    rintro message rfl hsame hl₂
    exact hg ▸ H.failed hinv hstep (.putSnapshot _ _) hsame hl₂
  have hexec := hstep.exec
  generalize hs₂ : w₂.store = s at hexec
  cases hexec with
  | performed =>
    exact ⟨g, H.quiet_step hinv hg hstep (.putSnapshot _ _) nofun (hs₂ ▸ ⟨rfl, rfl, rfl⟩) (hs₂ ▸ hput), hok w₂ hle'⟩
  | lost =>
    exact ⟨g, H.quiet_step hinv hg hstep (.putSnapshot _ _) nofun (hs₂ ▸ .refl _) (hs₂ ▸ hl), hok w₂ hle'⟩
  | rejected message hm =>
    exact ⟨fail g, hfailed rfl (hs₂ ▸ .refl _) (hs₂ ▸ hl), herr w₂ message hle' (.putSnapshot _ (.inl hm))⟩
  | ambiguous message hm =>
    exact ⟨fail g, hfailed rfl (hs₂ ▸ ⟨rfl, rfl, rfl⟩) (hs₂ ▸ hput), herr w₂ message hle' (.putSnapshot _ (.inr hm))⟩

theorem Loads.wp_snapshot_save {snapshot : Snapshot} (hf : snapshot.Faithful (w.store.stream snapshot.streamId))
    {Q : World Req → G → Except Failure Unit → Prop} (hok : ∀ w', w.Le w' → Q w' g (.ok ()))
    (herr : ∀ w' message, w.Le w' → V.faults.Late message → Q w' (fail g) (.error (.store message))) :
    (V.outline idle inv).wp q (SnapshotStore.save snapshot) w g Q := by
  have hput : ∀ w₀, w.Le w₀ → (V.outline idle inv).wp q (StoreOp.putSnapshot snapshot).call w₀ g Q :=
    fun w₀ hle₀ => H.wp_putSnapshot (hf.mono (hle₀.store.stream _))
      (fun w' hle => hok w' ((V.outline idle inv).le_trans hle₀ hle))
      fun w' message hle hm => herr w' message ((V.outline idle inv).le_trans hle₀ hle) hm
  refine Outline.wp_bind (Outline.wp_call fun i w₁ gs hle hinv hg r w₂ hstep => ?_)
  have hstep : V.CallStep i q (.snapshotBeforeSave snapshot.streamId) w₁ r w₂ := hstep
  have hl := H.loadable hinv
  have hle' := (V.outline idle inv).le_trans hle ((V.outline idle inv).le_step hstep)
  have hfailed : ∀ {message}, r = .error (.store message) → w₂.store = w₁.store →
      inv w₂ (Function.update gs i (fail g)) := by
    rintro message rfl hsame
    exact hg ▸ H.failed hinv hstep (.snapshotBeforeSave _ _) (hsame ▸ .refl _) (hsame ▸ hl)
  have hexec := hstep.exec
  generalize hs₂ : w₂.store = s at hexec
  cases hexec with
  | rejected message hm => exact ⟨fail g, hfailed rfl hs₂, herr w₂ message hle' (.snapshotBeforeSave _ (.inl hm))⟩
  | ambiguous message hm => exact ⟨fail g, hfailed rfl hs₂, herr w₂ message hle' (.snapshotBeforeSave _ (.inr hm))⟩
  | performed =>
    refine ⟨g, H.quiet_step hinv hg hstep (.snapshotBeforeSave _ _) nofun (hs₂ ▸ .refl _) (hs₂ ▸ hl), ?_⟩
    dsimp only [perform]
    cases w₁.store.snapshots.get snapshot.streamId with
    | none => exact hput w₂ hle'
    | some current =>
      by_cases hv : snapshot.version ≤ current.version
      · simp only [if_pos hv]
        exact Outline.wp_pure (hok w₂ hle')
      · simp only [if_neg hv]
        exact hput w₂ hle'

theorem Loads.wp_append {Done : World Req → G → Prop} {streamId : String} {es events : List DomainEvent}
    (hes : es <+: w.store.stream streamId)
    (hcommit : ∀ {i w₁ gs r w₂}, w.Le w₁ → inv w₁ gs → gs i = g → w₁.store.stream streamId = es →
      V.CallStep i q (.append streamId events es.length) w₁ r w₂ → w₂.store = w₁.store.write streamId events →
      (r = .ok () ∨ ∃ message, r = .error (.store message) ∧
        V.faults.ambiguous (.append streamId events es.length) message) →
      ∃ g', inv w₂ (Function.update gs i g') ∧ Done w₂ g')
    {Q : World Req → G → Except Failure Unit → Prop} (hok : ∀ w' g', Done w' g' → Q w' g' (.ok ()))
    (hlate : ∀ w' g' message, Done w' g' → V.faults.ambiguous (.append streamId events es.length) message →
      Q w' g' (.error (.store message)))
    (hstale : ∀ w' v, Q w' g (.error (.wrongExpectedVersion streamId es.length v)))
    (herr : ∀ w' message, V.faults.Reports message → Q w' g (.error (.store message))) :
    (V.outline idle inv).wp q (appendToStream streamId events es.length) w g Q := by
  refine Outline.wp_call fun i w₁ gs hle hinv hg r w₂ hstep => ?_
  have hstep : V.CallStep i q (.append streamId events es.length) w₁ r w₂ := hstep
  have hl := H.loadable hinv
  have hp : es <+: w₁.store.stream streamId := hes.trans (hle.store.stream _)
  have hrefused : ∀ {e}, r = .error e → w₂.store = w₁.store → inv w₂ (Function.update gs i g) := by
    rintro e rfl hsame
    exact H.quiet_step hinv hg hstep (.append _ _ _ _) nofun (hsame ▸ .refl _) (hsame ▸ hl)
  have hexec := hstep.exec
  by_cases hv : es.length = (w₁.store.stream streamId).length
  · obtain rfl := hp.eq_of_length hv
    have hwrite : (perform (.append streamId events (w₁.store.stream streamId).length) w₁.store) =
        (.ok (), w₁.store.write streamId events) := by
      simp [perform, EventStore.append, Store.write, Store.stream]
    generalize hs₂ : w₂.store = s₂ at hexec
    cases hexec with
    | performed =>
      rw [hwrite] at hs₂
      obtain ⟨g', hinv', hdone⟩ := hcommit hle hinv hg rfl hstep hs₂ (.inl (by rw [hwrite]))
      refine ⟨g', hinv', ?_⟩
      rw [hwrite]
      exact hok w₂ g' hdone
    | rejected message hm => exact ⟨g, hrefused rfl hs₂, herr w₂ message ⟨_, .inl hm⟩⟩
    | ambiguous message hm =>
      rw [hwrite] at hs₂
      obtain ⟨g', hinv', hdone⟩ := hcommit hle hinv hg rfl hstep hs₂ (.inr ⟨message, rfl, hm⟩)
      exact ⟨g', hinv', hlate w₂ g' message hdone hm⟩
  · have hkeep : (perform (.append streamId events es.length) w₁.store) =
        (.error (.wrongExpectedVersion streamId es.length (w₁.store.stream streamId).length), w₁.store) := by
      have hv' : es.length ≠ (w₁.store.events.stream streamId).length := hv
      simp only [perform, EventStore.append, ne_eq, hv', not_false_eq_true, if_true, Store.stream]
    generalize hs₂ : w₂.store = s₂ at hexec
    cases hexec with
    | performed =>
      rw [hkeep] at hs₂
      refine ⟨g, hrefused (by rw [hkeep]) hs₂, ?_⟩
      rw [hkeep]
      exact hstale w₂ _
    | rejected message hm => exact ⟨g, hrefused rfl hs₂, herr w₂ message ⟨_, .inl hm⟩⟩
    | ambiguous message hm =>
      rw [hkeep] at hs₂
      exact ⟨g, hrefused rfl hs₂, herr w₂ message ⟨_, .inr hm⟩⟩

end

section
variable {Req Out G : Type} {V : Service Req Out} {idle : G} {inv : World Req → (Nat → G) → Prop}
variable {q : Req} {w : World Req} {g : G}

/-! ## Writing with retries -/

def Attempted (g : G) (Q : World Req → G → Except Failure Unit → Prop) (w : World Req) (g' : G)
    (r : Except Failure Unit) : Prop :=
  (∃ streamId expected actual, r = .error (.wrongExpectedVersion streamId expected actual) ∧ g' = g) ∨
  ((∀ streamId expected actual, r ≠ .error (.wrongExpectedVersion streamId expected actual)) ∧ Q w g' r)

theorem wp_retryLoop {attempt : Task Unit} {lost : Failure} {Q : World Req → G → Except Failure Unit → Prop}
    (hattempt : ∀ w', w.Le w' → (V.outline idle inv).wp q attempt w' g (Attempted g Q))
    (hlost : ∀ w', Q w' g (.error lost)) (n : Nat) :
    (V.outline idle inv).wp q (retryLoop attempt lost (n + 1)) w g Q := by
  have hloop : ∀ n w', w.Le w' → (V.outline idle inv).wp q (retryLoop attempt lost (n + 1)) w' g Q := by
    intro n
    induction n with
    | zero =>
      intro w' hle
      refine Outline.wp_tryCatch (Outline.wp_mono (fun w'' g'' r _ h => ?_) (hattempt w' hle))
      rcases h with ⟨streamId, expected, actual, rfl, rfl⟩ | ⟨hne, hQ⟩
      · exact Outline.wp_throw (hlost w'')
      · cases r with
        | ok u => exact hQ
        | error e =>
          cases e with
          | wrongExpectedVersion a b c => exact absurd rfl (hne a b c)
          | _ => exact Outline.wp_throw hQ
    | succ n ih =>
      intro w' hle
      refine Outline.wp_tryCatch (Outline.wp_mono (fun w'' g'' r hle' h => ?_) (hattempt w' hle))
      rcases h with ⟨streamId, expected, actual, rfl, rfl⟩ | ⟨hne, hQ⟩
      · exact ih w'' ((V.outline idle inv).le_trans hle hle')
      · cases r with
        | ok u => exact hQ
        | error e =>
          cases e with
          | wrongExpectedVersion a b c => exact absurd rfl (hne a b c)
          | _ => exact Outline.wp_throw hQ
  exact hloop n w ((V.outline idle inv).le_refl w)

end

end CoreBanking
