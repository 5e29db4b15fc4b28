import CoreBanking.Outbox

/-!
# No message is lost

A claim is a mark that only the publisher it was made for takes back. So each
claimed message is held by exactly one publisher or was let go of by one, and
what was let go of before it was published stays claimed for ever.
-/

namespace CoreBanking

namespace Outbox

variable {outbox : Outbox} {kind : OutboxStoreKind} {locked : List String} {limit : Nat}
  {batch : List OutboxMessage} {message : OutboxMessage}

theorem mem_claimable_iff : message ∈ outbox.claimable ↔
    message ∈ outbox.messages.values ∧ message.publishedAt = none ∧ message.id ∉ outbox.claimed := by
  unfold claimable
  simp [List.mem_filter]

/-! ## What is claimed -/

theorem Claims.subset (h : kind.Claims outbox locked limit batch) (hm : message ∈ batch) :
    message ∈ outbox.claimable := by
  cases kind with
  | inMemory =>
    have h : batch = InMemoryOutboxStore.claimPending outbox limit := h
    rw [h] at hm
    exact (List.perm_insertionSort _ _).subset (List.mem_of_mem_take hm)
  | postgres =>
    obtain ⟨rows, hrows, -, hbatch⟩ := h
    have hrow := hrows.subset (List.mem_of_mem_take (hbatch.subset hm))
    exact (List.mem_filter.mp hrow).1

theorem Claims.nodup (h : kind.Claims outbox locked limit batch) (hids : (idsOf outbox.messages.values).Nodup) :
    (idsOf batch).Nodup := by
  have hclaimable : (idsOf outbox.claimable).Nodup := hids.sublist (List.filter_sublist.map _)
  cases kind with
  | inMemory =>
    have h : batch = InMemoryOutboxStore.claimPending outbox limit := h
    subst h
    exact (((List.perm_insertionSort _ _).map _).nodup_iff.mpr hclaimable).sublist ((List.take_sublist _ _).map _)
  | postgres =>
    obtain ⟨rows, hrows, -, hbatch⟩ := h
    refine (hbatch.map _).nodup_iff.mpr (List.Nodup.sublist ((List.take_sublist _ _).map _) ?_)
    exact (hrows.map _).nodup_iff.mpr (hclaimable.sublist (List.filter_sublist.map _))

theorem Claims.complete (h : kind.Claims outbox [] limit batch) (hlimit : outbox.claimable.length ≤ limit)
    (hm : message ∈ outbox.claimable) : message ∈ batch := by
  cases kind with
  | inMemory =>
    have h : batch = InMemoryOutboxStore.claimPending outbox limit := h
    rw [h, InMemoryOutboxStore.claimPending, List.take_of_length_le]
    · exact (List.perm_insertionSort _ _).mem_iff.mpr hm
    · rw [List.length_insertionSort]
      exact hlimit
  | postgres =>
    obtain ⟨rows, hrows, -, hbatch⟩ := h
    rw [List.filter_eq_self.mpr (by simp)] at hrows
    rw [List.take_of_length_le (hrows.length_eq ▸ hlimit)] at hbatch
    exact hbatch.mem_iff.mpr (hrows.mem_iff.mpr hm)

theorem exists_claims (kind : OutboxStoreKind) (outbox : Outbox) (locked : List String) (limit : Nat) :
    ∃ batch, kind.Claims outbox locked limit batch := by
  cases kind with
  | inMemory => exact ⟨_, rfl⟩
  | postgres =>
    let before (left right : OutboxMessage) := PostgresOutboxStore.orderKey left ≤ PostgresOutboxStore.orderKey right
    have htotal : Std.Total before := ⟨fun _ _ => le_total _ _⟩
    have htrans : IsTrans OutboxMessage before := ⟨fun _ _ _ => le_trans⟩
    classical
    exact ⟨_, (outbox.claimable.filter fun message => !locked.contains message.id).insertionSort before,
      List.perm_insertionSort _ _, List.pairwise_insertionSort before _, List.Perm.refl _⟩

theorem get_stage {messages : List OutboxMessage} {x : String} {row : OutboxMessage}
    (hfresh : (outbox.messages.entries.map Prod.fst ++ idsOf messages).Nodup) :
    (outbox.stage messages).messages.get x = some row ↔
      outbox.messages.get x = some row ∨ (row ∈ messages ∧ row.id = x) := by
  rw [← OrderedMap.mem_entries_iff, ← OrderedMap.mem_entries_iff]
  unfold stage
  rw [EventStore.stage_fresh hfresh, List.mem_append, List.mem_map]
  refine or_congr_right ⟨?_, ?_⟩
  · rintro ⟨message, hm, heq⟩
    obtain ⟨rfl, rfl⟩ := Prod.mk.inj heq
    exact ⟨hm, rfl⟩
  · rintro ⟨hm, rfl⟩
    exact ⟨row, hm, rfl⟩

/-! ## Marks -/

theorem get_release (outbox : Outbox) (x y : String) (f : OutboxMessage → OutboxMessage) :
    (outbox.release x f).messages.get y = if x = y then (outbox.messages.get x).map f else outbox.messages.get y := by
  unfold release
  cases hx : outbox.messages.get x with
  | none =>
    by_cases heq : x = y
    · subst heq
      simp [hx]
    · simp [heq]
  | some current => simp only [OrderedMap.get_set, Option.map_some]

theorem mem_claimed_release {x y : String} {f : OutboxMessage → OutboxMessage} {row : OutboxMessage}
    (hrow : outbox.messages.get x = some row) :
    y ∈ (outbox.release x f).claimed ↔ y ∈ outbox.claimed ∧ y ≠ x := by
  unfold release
  rw [hrow]
  simp [List.mem_filter]

theorem mem_claimed_of_ne {x y : String} (f : OutboxMessage → OutboxMessage) (hx : x ∈ outbox.claimed) (hne : x ≠ y) :
    x ∈ (outbox.release y f).claimed := by
  cases hget : outbox.messages.get y with
  | none =>
    unfold Outbox.release
    rw [hget]
    exact hx
  | some other => exact (mem_claimed_release hget).mpr ⟨hx, hne⟩

def Taken (outbox : Outbox) (message : OutboxMessage) : Prop :=
  ∃ row, outbox.messages.get message.id = some row ∧ (message.id ∈ outbox.claimed ∨ row.publishedAt ≠ none)

theorem Taken.release {x : String} {f : OutboxMessage → OutboxMessage} (h : outbox.Taken message)
    (hx : message.id ≠ x) : (outbox.release x f).Taken message := by
  obtain ⟨row, hrow, htaken⟩ := h
  exact ⟨row, by rw [get_release, if_neg (Ne.symm hx), hrow],
    htaken.imp_left fun hclaimed => mem_claimed_of_ne f hclaimed hx⟩

theorem Taken.markPublished (h : outbox.Taken message) (publishedAt : Time) :
    (outbox.markPublished message.id publishedAt).Taken message := by
  obtain ⟨row, hrow, -⟩ := h
  refine ⟨{ row with publishedAt := some publishedAt, lastError := none }, ?_, .inr (by simp)⟩
  rw [Outbox.markPublished, get_release, if_pos rfl, hrow, Option.map_some]

structure Accounted (outbox : Outbox) (published taken : List OutboxMessage) : Prop where
  keyed : ∀ {x row}, outbox.messages.get x = some row → row.id = x
  nodup : (idsOf taken).Nodup
  kept : ∀ message ∈ taken, outbox.Taken message
  claimed : ∀ x ∈ outbox.claimed, x ∈ idsOf taken
  marked : ∀ {x row}, outbox.messages.get x = some row → row.publishedAt ≠ none → x ∈ idsOf published

namespace Accounted

variable {published taken taken' : List OutboxMessage}

theorem perm (h : outbox.Accounted published taken) (hp : taken.Perm taken') : outbox.Accounted published taken' where
  keyed := h.keyed
  nodup := (hp.map _).nodup_iff.mp h.nodup
  kept message hm := h.kept message (hp.mem_iff.mpr hm)
  claimed x hx := (hp.map _).mem_iff.mp (h.claimed x hx)
  marked := h.marked

theorem publish (h : outbox.Accounted published taken) (delivered : List OutboxMessage) :
    outbox.Accounted (published ++ delivered) taken where
  keyed := h.keyed
  nodup := h.nodup
  kept := h.kept
  claimed := h.claimed
  marked hrow hp := by
    rw [idsOf, List.map_append]
    exact List.mem_append_left _ (h.marked hrow hp)

theorem stage (h : outbox.Accounted published taken) {streamId : String} {messages : List OutboxMessage}
    (ha : Appends kind outbox streamId messages) : (outbox.stage messages).Accounted published taken := by
  have hget : ∀ {x row}, (outbox.stage messages).messages.get x = some row →
      outbox.messages.get x = some row ∨ (row ∈ messages ∧ row.id = x) := fun hrow => (get_stage ha.fresh).mp hrow
  refine ⟨fun hrow => ?_, h.nodup, fun message hm => ?_, h.claimed, fun hrow hp => ?_⟩
  · rcases hget hrow with hrow | ⟨-, hid⟩
    · exact h.keyed hrow
    · exact hid
  · obtain ⟨row, hrow, htaken⟩ := h.kept message hm
    exact ⟨row, (get_stage ha.fresh).mpr (.inl hrow), htaken⟩
  · rcases hget hrow with hrow | ⟨hm, -⟩
    · exact h.marked hrow hp
    · obtain ⟨event, position, rfl⟩ := ha.made _ hm
      exact absurd rfl hp

theorem keys (h : outbox.Accounted published taken) :
    idsOf outbox.messages.values = outbox.messages.entries.map Prod.fst := by
  unfold idsOf OrderedMap.values
  rw [List.map_map]
  exact List.map_congr_left fun e he => h.keyed (OrderedMap.mem_entries_iff.mp he)

theorem nodup_values (h : outbox.Accounted published taken) : (idsOf outbox.messages.values).Nodup :=
  h.keys ▸ outbox.messages.nodup

theorem claim (h : outbox.Accounted published taken) (hc : kind.Claims outbox locked limit batch) :
    (outbox.claim batch).Accounted published (batch ++ taken) := by
  have hrow : ∀ message ∈ batch, outbox.messages.get message.id = some message ∧ message.publishedAt = none ∧
      message.id ∉ outbox.claimed := by
    intro message hm
    obtain ⟨hvalue, hpublished, hclaimed⟩ := mem_claimable_iff.mp (Claims.subset hc hm)
    obtain ⟨x, hx⟩ := OrderedMap.mem_values_iff.mp hvalue
    exact ⟨h.keyed hx ▸ hx, hpublished, hclaimed⟩
  refine ⟨h.keyed, ?_, fun message hm => ?_, fun x hx => ?_, h.marked⟩
  · rw [idsOf, List.map_append]
    refine List.nodup_append.mpr ⟨Claims.nodup hc h.nodup_values, h.nodup, ?_⟩
    intro x hx y hy hxy
    obtain ⟨message, hm, rfl⟩ := List.mem_map.mp hx
    obtain ⟨other, hother, rfl⟩ := List.mem_map.mp hy
    obtain ⟨hget, hpublished, hclaimed⟩ := hrow message hm
    obtain ⟨row, hother, htaken⟩ := h.kept other hother
    rw [← hxy, hget] at hother
    obtain rfl := Option.some.inj hother
    rw [← hxy] at htaken
    exact htaken.elim hclaimed fun hp => hp hpublished
  · rcases List.mem_append.mp hm with hm | hm
    · exact ⟨message, (hrow message hm).1, .inl (List.mem_append_right _ (List.mem_map_of_mem hm))⟩
    · obtain ⟨row, hget, htaken⟩ := h.kept message hm
      exact ⟨row, hget, htaken.imp_left (List.mem_append_left _)⟩
  · rw [idsOf, List.map_append]
    rcases List.mem_append.mp hx with hx | hx
    · exact List.mem_append_right _ (h.claimed x hx)
    · exact List.mem_append_left _ hx

theorem release (h : outbox.Accounted published (message :: taken)) {f : OutboxMessage → OutboxMessage}
    (hid : ∀ row, (f row).id = row.id)
    (hmarked : ∀ row, outbox.messages.get message.id = some row → (f row).publishedAt ≠ none →
      message.id ∈ idsOf published) : (outbox.release message.id f).Accounted published taken := by
  obtain ⟨row, hrow, -⟩ := h.kept message List.mem_cons_self
  obtain ⟨hfresh, hnodup⟩ := List.nodup_cons.mp h.nodup
  refine ⟨fun {x row'} hx => ?_, hnodup, fun other hother => ?_, fun x hx => ?_, fun {x row'} hx hp => ?_⟩
  · rw [get_release, hrow] at hx
    split at hx
    case isTrue heq =>
      obtain rfl := Option.some.inj hx
      rw [hid, h.keyed hrow, heq]
    · exact h.keyed hx
  · have hne : other.id ≠ message.id := fun heq => hfresh (heq ▸ List.mem_map_of_mem hother)
    exact (h.kept other (List.mem_cons_of_mem _ hother)).release hne
  · obtain ⟨hclaimed, hne⟩ := (mem_claimed_release hrow).mp hx
    exact (List.mem_cons.mp (h.claimed x hclaimed)).resolve_left hne
  · rw [get_release, hrow] at hx
    split at hx
    case isTrue heq =>
      obtain rfl := Option.some.inj hx
      exact heq ▸ hmarked row hrow hp
    · exact h.marked hx hp

theorem markPublished (h : outbox.Accounted published (message :: taken)) (publishedAt : Time)
    (hp : message.id ∈ idsOf published) : (outbox.markPublished message.id publishedAt).Accounted published taken :=
  h.release (fun _ => rfl) fun _ _ _ => hp

theorem markFailed (h : outbox.Accounted published (message :: taken)) (error : String) :
    (outbox.markFailed message.id error).Accounted published taken :=
  h.release (fun _ => rfl) fun _ hrow hp => h.marked hrow hp

/-- The mark has been made, but the publisher does not know it. -/
theorem markPublished_held (h : outbox.Accounted published (message :: taken)) (publishedAt : Time)
    (hp : message.id ∈ idsOf published) :
    (outbox.markPublished message.id publishedAt).Accounted published (message :: taken) := by
  have hdone := h.markPublished publishedAt hp
  refine ⟨hdone.keyed, h.nodup, fun other hother => ?_, fun x hx => ?_, hdone.marked⟩
  · rcases List.mem_cons.mp hother with rfl | hother
    · exact (h.kept other List.mem_cons_self).markPublished publishedAt
    · exact hdone.kept other hother
  · exact List.mem_cons_of_mem _ (hdone.claimed x hx)

end Accounted

end Outbox

/-! ## Runs -/

section
variable {kind : OutboxStoreKind} {outbox : Outbox} {published others : List OutboxMessage} {p p' : Publisher}
  {action : PublisherAction} {effect : PublisherEffect}

def Publisher.Honest (p : Publisher) (published : List OutboxMessage) : Prop :=
  ∀ message rest, p = .marking message rest → message.id ∈ idsOf published

theorem Publisher.Honest.mono {published' : List OutboxMessage} (h : p.Honest published) :
    p.Honest (published ++ published') := by
  intro message rest hp
  rw [idsOf, List.map_append]
  exact List.mem_append_left _ (h message rest hp)

theorem Publisher.honest_of_ne (h : ∀ message rest, p ≠ .marking message rest) : p.Honest published :=
  fun message rest hp => absurd hp (h message rest)

theorem Publisher.honest_next (batch : List OutboxMessage) : (Publisher.next batch).Honest published := by
  refine Publisher.honest_of_ne fun message rest h => ?_
  cases batch <;> cases h

theorem PublisherStep.accounted (h : outbox.Accounted published (p.held ++ others)) (hp : p.Honest published)
    (hs : PublisherStep kind outbox p action effect p') :
    effect.outbox.Accounted (published ++ effect.delivered) (effect.left ++ p'.held ++ others) ∧
      p'.Honest (published ++ effect.delivered) := by
  cases hs with
  | claim hc =>
    rw [Publisher.held_next]
    exact ⟨(h.claim hc).publish [], Publisher.honest_next _⟩
  | claimNothing => exact ⟨h.publish [], Publisher.honest_of_ne (by simp)⟩
  | claimRejected => exact ⟨h.publish [], Publisher.honest_of_ne (by simp)⟩
  | wake => exact ⟨h.publish [], Publisher.honest_of_ne (by simp)⟩
  | publish =>
    refine ⟨h.publish _, fun message rest heq => ?_⟩
    cases heq
    simp
  | publishRejected => exact ⟨h.publish _, Publisher.honest_of_ne (by simp)⟩
  | markPublished publishedAt =>
    rw [Publisher.held_next]
    exact ⟨(Outbox.Accounted.markPublished h publishedAt (hp _ _ rfl)).publish [], Publisher.honest_next _⟩
  | markPublishedRejected error publishedAt applied =>
    refine ⟨Outbox.Accounted.publish ?_ [], Publisher.honest_of_ne (by simp)⟩
    cases applied with
    | false => exact h
    | true => exact Outbox.Accounted.markPublished_held h publishedAt (hp _ _ rfl)
  | markFailed =>
    rw [Publisher.held_next]
    exact ⟨(Outbox.Accounted.markFailed h _).publish [], Publisher.honest_next _⟩
  | markFailedRejected applied =>
    refine ⟨Outbox.Accounted.publish ?_ [], Publisher.honest_of_ne (by simp)⟩
    cases applied with
    | false => simpa [Publisher.held] using h
    | true => simpa [Publisher.held] using Outbox.Accounted.markFailed h _
  | stop hidle =>
    refine ⟨h.publish [] |>.perm ?_, Publisher.honest_of_ne (by simp)⟩
    rcases hidle with rfl | rfl <;> exact .refl _
  | crash =>
    refine ⟨h.publish [] |>.perm ?_, Publisher.honest_of_ne (by simp)⟩
    simp [Publisher.held]

end

namespace OutboxSystem

def taken (c : OutboxSystem) : List OutboxMessage := c.abandoned ++ c.publishers.flatMap Publisher.held

structure Inv (c : OutboxSystem) : Prop where
  accounted : c.outbox.Accounted c.published c.taken
  honest : ∀ p ∈ c.publishers, p.Honest c.published

theorem taken_perm (abandoned left : List OutboxMessage) (before : List Publisher) (p : Publisher)
    (after : List Publisher) :
    (abandoned ++ left ++ (before ++ p :: after).flatMap Publisher.held).Perm
      (left ++ p.held ++ (abandoned ++ (before ++ after).flatMap Publisher.held)) := by
  refine List.perm_iff_count.mpr fun message => ?_
  simp only [List.flatMap_append, List.flatMap_cons, List.count_append]
  omega

theorem Inv.accounted_for {c : OutboxSystem} (h : c.Inv) {before after : List Publisher} {p : Publisher}
    (hc : c.publishers = before ++ p :: after) :
    c.outbox.Accounted c.published (p.held ++ (c.abandoned ++ (before ++ after).flatMap Publisher.held)) := by
  refine h.accounted.perm ?_
  unfold taken
  rw [hc]
  simpa using taken_perm c.abandoned [] before p after

theorem Inv.step {kind : OutboxStoreKind} {c c' : OutboxSystem} {action : OutboxAction} (h : c.Inv)
    (hs : OutboxStep kind c action c') : c'.Inv := by
  cases hs with
  | append ha => exact ⟨h.accounted.stage ha, h.honest⟩
  | start =>
    refine ⟨h.accounted.perm ?_, fun p hp => ?_⟩
    · simp [taken, Publisher.held]
    · rcases List.mem_append.mp hp with hp | hp
      · exact h.honest p hp
      · rw [List.mem_singleton.mp hp]
        exact Publisher.honest_of_ne (by simp)
  | @publisher action effect before p after p' hc hs =>
    have hmem : ∀ q, q ∈ before ∨ q ∈ after → q.Honest (c.published ++ effect.delivered) := by
      intro q hq
      refine (h.honest q ?_).mono
      rw [hc, List.mem_append, List.mem_cons]
      exact hq.imp_right .inr
    obtain ⟨haccounted', hhonest⟩ := hs.accounted (h.accounted_for hc) (h.honest p (hc ▸ by simp))
    refine ⟨haccounted'.perm (taken_perm _ _ _ _ _).symm, fun q hq => ?_⟩
    rw [List.mem_append, List.mem_cons] at hq
    rcases hq with hq | rfl | hq
    · exact hmem q (.inl hq)
    · exact hhonest
    · exact hmem q (.inr hq)

theorem Inv.start : OutboxSystem.start.Inv where
  accounted := by constructor <;> simp [OutboxSystem.start, taken, Outbox.empty]
  honest := by simp [OutboxSystem.start]

end OutboxSystem

theorem OutboxReachable.inv {kind : OutboxStoreKind} {allows : OutboxSystem → OutboxAction → Prop} {c : OutboxSystem}
    (h : OutboxReachable kind allows c) : c.Inv := by
  induction h with
  | start => exact .start
  | step _ _ hs ih => exact ih.step hs

/-- **Nothing is lost**, exactly where all that publishers let go of had been published. -/
theorem nothing_lost_iff {kind : OutboxStoreKind} {c : OutboxSystem} (hc : OutboxReachable kind (fun _ _ => True) c) :
    NothingLost kind c ↔ ∀ message ∈ c.abandoned, message.id ∈ idsOf c.published := by
  obtain ⟨haccounted, -⟩ := hc.inv
  constructor
  · intro h message hm
    by_contra hpublished
    obtain ⟨row, hrow, htaken⟩ := haccounted.kept message (List.mem_append_left _ hm)
    have hid := haccounted.keyed hrow
    have hclaimed : row.id ∈ c.outbox.claimed :=
      hid ▸ htaken.resolve_right fun hp => hpublished (haccounted.marked hrow hp)
    obtain ⟨enough, hreturned⟩ := h row (OrderedMap.mem_values_iff.mpr ⟨_, hrow⟩)
      (hid ▸ hpublished) fun p hp hheld => by
      -- no two publishers, past or present, have the same message
      have hnodup := haccounted.nodup
      unfold OutboxSystem.taken at hnodup
      rw [idsOf, List.map_append] at hnodup
      obtain ⟨other, hother, heq⟩ := List.mem_map.mp hheld
      exact (List.nodup_append.mp hnodup).2.2 message.id (List.mem_map_of_mem hm) other.id
        (List.mem_map_of_mem (List.mem_flatMap.mpr ⟨p, hp, hother⟩)) (heq.trans hid).symm
    obtain ⟨⟨batch, hbatch⟩, hall⟩ := hreturned enough (Nat.le_refl _)
    exact (Outbox.mem_claimable_iff.mp (Outbox.Claims.subset hbatch (hall batch hbatch))).2.2 hclaimed
  · intro h message hvalue hpublished hheld
    obtain ⟨x, hrow⟩ := OrderedMap.mem_values_iff.mp hvalue
    obtain rfl := haccounted.keyed hrow
    have hclaimable : message ∈ c.outbox.claimable := by
      refine Outbox.mem_claimable_iff.mpr ⟨hvalue, ?_, fun hclaimed => ?_⟩
      · by_contra hp
        exact hpublished (haccounted.marked hrow hp)
      · obtain ⟨other, hother, heq⟩ := List.mem_map.mp (haccounted.claimed _ hclaimed)
        rcases List.mem_append.mp hother with hother | hother
        · exact hpublished (heq ▸ h other hother)
        · obtain ⟨p, hp, hother⟩ := List.mem_flatMap.mp hother
          exact hheld p hp (heq ▸ List.mem_map_of_mem hother)
    refine ⟨c.outbox.claimable.length, fun limit hlimit => ⟨Outbox.exists_claims _ _ _ _, fun batch hbatch => ?_⟩⟩
    exact Outbox.Claims.complete hbatch hlimit hclaimable

/-! ## One batch, one publisher -/

theorem orderKey_lt {earlier message : OutboxMessage} {p q : Nat} (hp : earlier.eventPosition = some p)
    (hq : message.eventPosition = some q) (hlt : p < q) :
    PostgresOutboxStore.orderKey earlier < PostgresOutboxStore.orderKey message := by
  unfold PostgresOutboxStore.orderKey
  rw [hp, hq]
  exact Prod.Lex.toLex_lt_toLex.mpr (.inl (WithTop.coe_lt_coe.mpr hlt))

def createdMessage : OutboxMessage :=
  { EventStore.toMessage "account-acc-1" ⟨"event-1", "account-acc-1", 1, 0, .AccountCreated "acc-1" "owner-1" "EUR",
      { commandId := "key-1", correlationId := "corr-1" }⟩ with eventPosition := some 1 }

theorem OutboxReachable.alone {kind : OutboxStoreKind} {allows : OutboxSystem → OutboxAction → Prop} {outbox : Outbox}
    {published abandoned : List OutboxMessage} {p p' : Publisher} {action : PublisherAction} {effect : PublisherEffect}
    (h : OutboxReachable kind allows ⟨outbox, published, [p], abandoned⟩)
    (hs : PublisherStep kind outbox p action effect p')
    (hallows : allows ⟨outbox, published, [p], abandoned⟩ (.publisher action)) :
    OutboxReachable kind allows ⟨effect.outbox, published ++ effect.delivered, [p'], abandoned ++ effect.left⟩ :=
  .step h hallows (.publisher [] [] rfl hs)

def depositedMessage : OutboxMessage :=
  { EventStore.toMessage "account-acc-1" ⟨"event-2", "account-acc-1", 2, 5,
    .MoneyDeposited "acc-1" (.format 100) "EUR" "tx-1",
      { commandId := "key-2", correlationId := "corr-2" }⟩ with eventPosition := some 2 }

def twoStaged : Outbox := Outbox.empty.stage [createdMessage, depositedMessage]

theorem two_appends : Appends .postgres .empty "account-acc-1" [createdMessage, depositedMessage] where
  made message hm := by
    rcases List.mem_cons.mp hm with rfl | hm
    · exact ⟨_, _, rfl⟩
    · exact ⟨_, _, List.mem_singleton.mp hm⟩
  fresh := by decide
  versions := by decide
  positions _ := ⟨[1, 2], rfl, by decide, by simp [Outbox.empty, OrderedMap.values, OrderedMap.empty]⟩
  unplaced h := by cases h

theorem two_pairwise : [createdMessage, depositedMessage].Pairwise fun left right =>
    PostgresOutboxStore.orderKey left ≤ PostgresOutboxStore.orderKey right := by
  have hlt : PostgresOutboxStore.orderKey createdMessage < PostgresOutboxStore.orderKey depositedMessage :=
    orderKey_lt rfl rfl (by decide)
  simpa using hlt.le

theorem two_claims : OutboxStoreKind.postgres.Claims twoStaged [] batchSize [createdMessage, depositedMessage] :=
  ⟨[createdMessage, depositedMessage], .refl _, two_pairwise, .refl _⟩

/-- Both messages are staged and claimed by a publisher. -/
theorem two_claimed {allows : OutboxSystem → OutboxAction → Prop}
    (happend : allows .start (.append "account-acc-1" [createdMessage, depositedMessage]))
    (hstart : allows ⟨twoStaged, [], [], []⟩ .start)
    (hclaim : allows ⟨twoStaged, [], [.claiming], []⟩ (.publisher (.claim [] [createdMessage, depositedMessage]))) :
    OutboxReachable .postgres allows
      ⟨twoStaged.claim [createdMessage, depositedMessage], [],
        [.publishing createdMessage [depositedMessage]], []⟩ := by
  have hstaged : OutboxReachable .postgres allows ⟨twoStaged, [], [], []⟩ := .step .start happend (.append two_appends)
  have hstarted : OutboxReachable .postgres allows ⟨twoStaged, [], [.claiming], []⟩ := .step hstaged hstart .start
  exact hstarted.alone (.claim two_claims (by simp)) hclaim

/-- The publisher dies when it has published the second message and not yet marked it. -/
theorem nothing_lost_iff_published :
    let c : OutboxSystem := ⟨(twoStaged.claim [createdMessage, depositedMessage]).markPublished createdMessage.id 10,
      [createdMessage, depositedMessage], [.gone], [depositedMessage]⟩
    OutboxReachable .postgres (fun _ _ => True) c ∧ NothingLost .postgres c := by
  intro c
  have hclaimed : OutboxReachable .postgres (fun _ _ => True) _ := two_claimed trivial trivial trivial
  have hfirst := (hclaimed.alone .publish trivial).alone (.markPublished 10) trivial
  have hc : OutboxReachable .postgres (fun _ _ => True) c := (hfirst.alone .publish trivial).alone .crash trivial
  refine ⟨hc, (nothing_lost_iff hc).mpr fun message hm => ?_⟩
  obtain rfl := List.mem_singleton.mp hm
  decide

/-- A publisher that dies with a claimed message takes it along. -/
theorem message_lost : ¬ ∀ kind c, OutboxReachable kind (fun _ _ => True) c → NothingLost kind c := by
  intro h
  have hclaimed : OutboxReachable .postgres (fun _ _ => True) _ := two_claimed trivial trivial trivial
  have hcrashed := hclaimed.alone .crash trivial
  obtain ⟨enough, hreturned⟩ := h _ _ hcrashed createdMessage (by decide) (by decide) (by simp [Publisher.held])
  obtain ⟨⟨batch, hbatch⟩, hall⟩ := hreturned enough (Nat.le_refl _)
  have hclaimable := Outbox.Claims.subset hbatch (hall batch hbatch)
  exact (Outbox.mem_claimable_iff.mp hclaimable).2.2 (by decide)

end CoreBanking
