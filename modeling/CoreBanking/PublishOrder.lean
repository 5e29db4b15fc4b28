import CoreBanking.OutboxRules
import CoreBanking.Lib.StableSort

/-!
# The order of publication

The messages of a stream are staged in the order of their versions, and a claim
takes the lowest positions first. They also reach the topic in this order as
long as no message overtakes an earlier one that is held elsewhere or has just
failed.
-/

namespace CoreBanking

def OutboxMessage.Earlier (left right : OutboxMessage) : Prop :=
  left.messageKey = right.messageKey ∧ left.payload.streamVersion < right.payload.streamVersion

instance (left right : OutboxMessage) : Decidable (left.Earlier right) := by
  unfold OutboxMessage.Earlier
  infer_instance

/-- Who reads a topic from its start meets no gap: the earlier versions of a
stream come first. -/
def PublishedInOrder (published : List OutboxMessage) : Prop :=
  ∀ before message after, published = before ++ message :: after →
    ∀ version, 0 < version → version < message.payload.streamVersion →
      ∃ earlier ∈ before, earlier.messageKey = message.messageKey ∧ earlier.payload.streamVersion = version

/-- A claim returns the messages of a stream in their order and takes none
while an earlier one is locked, or claimed, and not published; and a message
fails only while no later one of its stream is claimed. -/
def OvertakesNone (c : OutboxSystem) : OutboxAction → Prop
  | .publisher (.claim locked batch) =>
    batch.Pairwise (fun left right => ¬ right.Earlier left) ∧
    ∀ message ∈ batch, ∀ row ∈ c.outbox.messages.values, row.Earlier message →
      row.id ∈ c.outbox.claimed ∨ row.id ∈ locked → row.id ∈ idsOf c.published
  | .publisher (.publishRejected message _ delivered) =>
    delivered = true ∨ message.id ∈ idsOf c.published ∨
    ∀ row ∈ c.outbox.messages.values, message.Earlier row → row.id ∉ c.outbox.claimed
  | _ => True

/-! ## Messages as they were staged -/

/-- What no mark changes. -/
def OutboxMessage.asStaged (message : OutboxMessage) : OutboxMessage :=
  { message with publishedAt := none, attempts := 0, lastError := none }

def Outbox.staged (outbox : Outbox) : List OutboxMessage := outbox.messages.values.map OutboxMessage.asStaged

namespace Outbox

variable {outbox : Outbox}

theorem staged_release {x : String} {f : OutboxMessage → OutboxMessage}
    (hf : ∀ row, (f row).asStaged = row.asStaged) : (outbox.release x f).staged = outbox.staged := by
  unfold staged release
  cases hx : outbox.messages.get x with
  | none => rfl
  | some current => exact OrderedMap.map_values_set hx (hf current)

theorem staged_markPublished (x : String) (publishedAt : Time) :
    (outbox.markPublished x publishedAt).staged = outbox.staged := staged_release fun _ => rfl

theorem staged_markFailed (x error : String) : (outbox.markFailed x error).staged = outbox.staged :=
  staged_release fun _ => rfl

theorem staged_stage {kind : OutboxStoreKind} {streamId : String} {messages : List OutboxMessage}
    (ha : Appends kind outbox streamId messages) : (outbox.stage messages).staged = outbox.staged ++ messages := by
  have hmade : ∀ message ∈ messages, message.asStaged = message := by
    intro message hm
    obtain ⟨event, position, rfl⟩ := ha.made message hm
    rfl
  unfold staged stage OrderedMap.values
  rw [EventStore.stage_fresh ha.fresh, List.map_append, List.map_append, List.map_map, List.map_map, List.map_map]
  congr 1
  exact (List.map_congr_left hmade).trans (List.map_id messages)

theorem filter_staged (outbox : Outbox) (streamId : String) :
    (outbox.staged.filter fun message => message.messageKey = streamId) =
      (outbox.messages.values.filter fun row => row.messageKey = streamId).map OutboxMessage.asStaged := by
  rw [staged, List.filter_map]
  rfl

end Outbox

structure InStreams (log : List OutboxMessage) : Prop where
  ids : (idsOf log).Nodup
  versions : ∀ streamId, Numbered (fun message : OutboxMessage => message.payload.streamVersion)
    (log.filter fun message => message.messageKey = streamId)
  positions : ∀ streamId, (log.filter fun message => message.messageKey = streamId).Pairwise fun left right =>
    ∃ p q, left.eventPosition = some p ∧ right.eventPosition = some q ∧ p < q

namespace InStreams

variable {log : List OutboxMessage} {message earlier : OutboxMessage}

theorem eq_of_id (h : InStreams log) (hm : message ∈ log) (he : earlier ∈ log) (hid : message.id = earlier.id) :
    message = earlier := List.inj_on_of_nodup_map h.ids hm he hid

theorem getElem? (h : InStreams log) (hm : message ∈ log) :
    0 < message.payload.streamVersion ∧ (log.filter fun other => other.messageKey = message.messageKey)[
      message.payload.streamVersion - 1]? = some message := by
  have hmem : message ∈ log.filter fun other => other.messageKey = message.messageKey :=
    List.mem_filter.mpr ⟨hm, by simp⟩
  obtain ⟨k, hk⟩ := List.mem_iff_getElem?.mp hmem
  have hversion := h.versions message.messageKey k message hk
  dsimp only at hversion
  rw [hversion]
  exact ⟨Nat.succ_pos k, hk⟩

theorem exists_version (h : InStreams log) (hm : message ∈ log) {version : Nat} (hpos : 0 < version)
    (hlt : version < message.payload.streamVersion) :
    ∃ earlier ∈ log, earlier.messageKey = message.messageKey ∧ earlier.payload.streamVersion = version := by
  obtain ⟨-, hk⟩ := h.getElem? hm
  have hlen := (List.getElem?_eq_some_iff.mp hk).1
  have hlt' : version - 1 < (log.filter fun other => other.messageKey = message.messageKey).length := by omega
  have hget := List.getElem?_eq_getElem hlt'
  obtain ⟨hlog, hkey⟩ := List.mem_filter.mp (List.getElem_mem hlt')
  refine ⟨_, hlog, by simpa using hkey, ?_⟩
  have hversion := h.versions message.messageKey (version - 1) _ hget
  dsimp only at hversion
  omega

theorem position_lt (h : InStreams log) (he : earlier ∈ log) (hm : message ∈ log) (hlt : earlier.Earlier message) :
    ∃ p q, earlier.eventPosition = some p ∧ message.eventPosition = some q ∧ p < q := by
  obtain ⟨hpos, hi⟩ := h.getElem? he
  obtain ⟨-, hj⟩ := h.getElem? hm
  rw [hlt.1] at hi
  obtain ⟨hi, hgeti⟩ := List.getElem?_eq_some_iff.mp hi
  obtain ⟨hj, hgetj⟩ := List.getElem?_eq_some_iff.mp hj
  have hpair := List.pairwise_iff_getElem.mp (h.positions message.messageKey) _ _ hi hj (by have := hlt.2; omega)
  rwa [hgeti, hgetj] at hpair

theorem append {outbox : Outbox} {streamId : String} {messages : List OutboxMessage} (h : InStreams outbox.staged)
    (hkeyed : ∀ {x row}, outbox.messages.get x = some row → row.id = x)
    (ha : Appends .postgres outbox streamId messages) : InStreams (outbox.staged ++ messages) := by
  have hkey : ∀ message ∈ messages, message.messageKey = streamId := by
    intro message hm
    obtain ⟨event, position, rfl⟩ := ha.made message hm
    rfl
  have hnew : ∀ streamId', (messages.filter fun message => message.messageKey = streamId') =
      if streamId = streamId' then messages else [] := by
    intro streamId'
    split
    case isTrue heq =>
      exact List.filter_eq_self.mpr fun message hm => by simp [hkey message hm, heq]
    case isFalse hne =>
      exact List.filter_eq_nil_iff.mpr fun message hm => by simp [hkey message hm, hne]
  refine ⟨?_, fun streamId' => ?_, fun streamId' => ?_⟩
  · have hids : idsOf outbox.staged = outbox.messages.entries.map Prod.fst := by
      unfold idsOf Outbox.staged OrderedMap.values
      rw [List.map_map, List.map_map]
      refine List.map_congr_left fun e he => ?_
      show e.2.id = e.1
      exact hkeyed (OrderedMap.mem_entries_iff.mp he)
    rw [idsOf, List.map_append, show outbox.staged.map OutboxMessage.id = _ from hids]
    exact ha.fresh
  · rw [List.filter_append, hnew]
    split
    case isTrue heq =>
      subst heq
      refine (h.versions streamId).append ?_
      rw [ha.versions, Outbox.filter_staged, List.length_map]
    · rw [List.append_nil]
      exact h.versions streamId'
  · rw [List.filter_append, hnew]
    split
    case isTrue heq =>
      subst heq
      obtain ⟨positions, hpositions, hgrow, hlater⟩ := ha.positions rfl
      refine List.pairwise_append.mpr ⟨h.positions streamId, ?_, fun left hleft right hright => ?_⟩
      · have hpairs : (messages.map OutboxMessage.eventPosition).Pairwise
            fun left right => ∃ p q, left = some p ∧ right = some q ∧ p < q := by
          rw [hpositions]
          exact List.pairwise_map.mpr (hgrow.imp fun hlt => ⟨_, _, rfl, rfl, hlt⟩)
        exact List.pairwise_map.mp hpairs
      · rw [Outbox.filter_staged] at hleft
        obtain ⟨row, hrow, rfl⟩ := List.mem_map.mp hleft
        obtain ⟨hvalue, hstream⟩ := List.mem_filter.mp hrow
        have hplace : right.eventPosition ∈ positions.map some := hpositions ▸ List.mem_map_of_mem hright
        obtain ⟨position, hmem, hposition⟩ := List.mem_map.mp hplace
        obtain ⟨earlier, hearlier, hlt⟩ := hlater row hvalue (by simpa using hstream) position hmem
        exact ⟨earlier, position, hearlier, hposition.symm, hlt⟩
    · rw [List.append_nil]
      exact h.positions streamId'

theorem not_earlier {outbox : Outbox} {streamId : String} {messages : List OutboxMessage}
    (h : InStreams outbox.staged) (ha : Appends .postgres outbox streamId messages) (hm : message ∈ outbox.staged)
    (he : earlier ∈ messages) : ¬ earlier.Earlier message := by
  rintro ⟨hkey, hlt⟩
  obtain ⟨event, position, hmade⟩ := ha.made earlier he
  have hstream : message.messageKey = streamId := by
    rw [← hkey, hmade]
    rfl
  have hlow := (h.versions streamId).le_length (List.mem_filter.mpr ⟨hm, by simpa using hstream⟩)
  have hhigh : earlier.payload.streamVersion ∈ messages.map fun message => message.payload.streamVersion :=
    List.mem_map_of_mem he
  rw [ha.versions, ← List.length_map (f := OutboxMessage.asStaged), ← Outbox.filter_staged] at hhigh
  have := (List.mem_range'_1.mp hhigh).1
  omega

end InStreams

/-! ## Publishers that keep the order -/

namespace Publisher

def todo : Publisher → List OutboxMessage
  | .publishing message rest => message :: rest
  | .marking _ rest => rest
  | .recording _ _ rest => rest
  | _ => []

@[simp] theorem todo_next (batch : List OutboxMessage) : (next batch).todo = batch := by
  cases batch <;> rfl

theorem todo_sublist_held (p : Publisher) : p.todo.Sublist p.held := by
  cases p <;> simp [todo, held]

/-- The publisher works on claimed messages, and before each of them come all
the earlier ones of its stream that have not been published. -/
structure Orderly (p : Publisher) (outbox : Outbox) (published : List OutboxMessage) : Prop where
  staged : ∀ message ∈ p.held, message.asStaged ∈ outbox.staged
  claimed : ∀ message ∈ p.todo, message.id ∈ outbox.claimed
  order : ∀ message ∈ p.todo, ∀ earlier ∈ outbox.staged, earlier.Earlier message →
    earlier.id ∈ idsOf published ∨ [earlier.id, message.id].Sublist (idsOf p.todo)

namespace Orderly

variable {p : Publisher} {outbox outbox' : Outbox} {published delivered : List OutboxMessage}

theorem of_todo_nil (hheld : p.held = []) : p.Orderly outbox published := by
  have htodo : p.todo = [] := List.sublist_nil.mp (hheld ▸ p.todo_sublist_held)
  constructor <;> simp [hheld, htodo]

theorem mono {p' : Publisher} (h : p.Orderly outbox published) (htodo : p'.todo = p.todo) (hheld : p'.held ⊆ p.held)
    (hstaged : outbox'.staged = outbox.staged) (hclaimed : ∀ message ∈ p.todo, message.id ∈ outbox'.claimed) :
    p'.Orderly outbox' (published ++ delivered) where
  staged message hm := hstaged ▸ h.staged message (hheld hm)
  claimed message hm := hclaimed message (htodo ▸ hm)
  order message hm earlier he hlt := by
    rw [htodo] at hm ⊢
    rw [idsOf, List.map_append, List.mem_append]
    exact (h.order message hm earlier (hstaged ▸ he) hlt).imp_left .inl

theorem append (h : p.Orderly outbox published) {streamId : String} {messages : List OutboxMessage}
    (hstreams : InStreams outbox.staged) (ha : Appends .postgres outbox streamId messages) :
    p.Orderly (outbox.stage messages) published where
  staged message hm := by
    rw [Outbox.staged_stage ha]
    exact List.mem_append_left _ (h.staged message hm)
  claimed := h.claimed
  order message hm earlier he hlt := by
    rw [Outbox.staged_stage ha] at he
    rcases List.mem_append.mp he with he | he
    · exact h.order message hm earlier he hlt
    · have hmem := h.staged message (p.todo_sublist_held.subset hm)
      have hlater : ¬ earlier.Earlier message.asStaged := hstreams.not_earlier ha hmem he
      exact absurd hlt hlater

theorem tail {p' : Publisher} {message : OutboxMessage} {rest : List OutboxMessage} (h : p.Orderly outbox published)
    (htodo : p.todo = message :: rest) (htodo' : p'.todo = rest) (hheld : p'.held = message :: rest)
    (hpast : message.id ∈ idsOf (published ++ delivered) ∨ ∀ later ∈ rest, ∀ earlier ∈ outbox.staged,
      earlier.id = message.id → ¬ earlier.Earlier later) :
    p'.Orderly outbox (published ++ delivered) where
  staged other hother := h.staged other (p.todo_sublist_held.subset (htodo ▸ hheld ▸ hother))
  claimed other hother := h.claimed other (htodo ▸ List.mem_cons_of_mem _ (htodo' ▸ hother))
  order other hother earlier he hlt := by
    rw [htodo'] at hother ⊢
    rw [idsOf, List.map_append, List.mem_append]
    rcases h.order other (htodo ▸ List.mem_cons_of_mem _ hother) earlier he hlt with hpublished | hbefore
    · exact .inl (.inl hpublished)
    · rw [htodo, idsOf, List.map_cons, List.sublist_cons_iff] at hbefore
      rcases hbefore with hbefore | ⟨_, heq, -⟩
      · exact .inr hbefore
      · have hid : earlier.id = message.id := (List.cons.inj heq).1
        rcases hpast with hpast | hpast
        · rw [idsOf, List.map_append, List.mem_append, ← hid] at hpast
          exact .inl hpast
        · exact absurd hlt (hpast other hother earlier he hid)

end Orderly

end Publisher

/-! ## A step of a publisher -/

section
variable {kind : OutboxStoreKind} {outbox : Outbox} {p p' : Publisher} {action : PublisherAction}
  {effect : PublisherEffect}

theorem PublisherStep.staged (hs : PublisherStep kind outbox p action effect p') :
    effect.outbox.staged = outbox.staged := by
  cases hs with
  | markPublished => exact Outbox.staged_markPublished _ _
  | markPublishedRejected error publishedAt applied =>
    cases applied with
    | false => rfl
    | true => exact Outbox.staged_markPublished _ _
  | markFailed => exact Outbox.staged_markFailed _ _
  | markFailedRejected applied =>
    cases applied with
    | false => rfl
    | true => exact Outbox.staged_markFailed _ _
  | _ => rfl

/-- A publisher takes no claim back but its own. -/
theorem PublisherStep.keeps_claim (hs : PublisherStep kind outbox p action effect p') {x : String}
    (hx : x ∈ outbox.claimed) (hp : x ∉ idsOf p.held) : x ∈ effect.outbox.claimed := by
  have hne : ∀ {message rest}, p.held = message :: rest → x ≠ message.id := by
    rintro message rest hheld rfl
    exact hp (hheld ▸ List.mem_cons_self)
  cases hs with
  | claim => exact List.mem_append_left _ hx
  | markPublished => exact Outbox.mem_claimed_of_ne _ hx (hne rfl)
  | markPublishedRejected error publishedAt applied =>
    cases applied with
    | false => exact hx
    | true => exact Outbox.mem_claimed_of_ne _ hx (hne rfl)
  | markFailed => exact Outbox.mem_claimed_of_ne _ hx (hne rfl)
  | markFailedRejected applied =>
    cases applied with
    | false => exact hx
    | true => exact Outbox.mem_claimed_of_ne _ hx (hne rfl)
  | _ => exact hx

end

/-! ## Claims in order -/

section
variable {outbox : Outbox} {published : List OutboxMessage} {batch : List OutboxMessage} {limit : Nat}
  {locked : List String}

/-- What may be claimed comes before the later messages of its stream. -/
theorem claimed_in_order {message earlier : OutboxMessage} (hstreams : InStreams outbox.staged)
    (hc : PostgresOutboxStore.Claims outbox locked limit batch)
    (hordered : batch.Pairwise fun left right => ¬ right.Earlier left) (hm : message ∈ batch)
    (he : earlier ∈ outbox.claimable) (hfree : earlier.id ∉ locked) (hlt : earlier.Earlier message) :
    [earlier, message].Sublist batch := by
  have hstaged : ∀ {row}, row ∈ outbox.claimable → row.asStaged ∈ outbox.staged := fun hrow =>
    List.mem_map_of_mem (Outbox.mem_claimable_iff.mp hrow).1
  have hclaims : OutboxStoreKind.postgres.Claims outbox locked limit batch := hc
  have hmem : message ∈ outbox.claimable := Outbox.Claims.subset hclaims hm
  obtain ⟨p, q, hp, hq, hpq⟩ := hstreams.position_lt (hstaged he) (hstaged hmem) hlt
  have hkey : PostgresOutboxStore.orderKey earlier < PostgresOutboxStore.orderKey message := orderKey_lt hp hq hpq
  obtain ⟨rows, hrows, hsorted, hbatch⟩ := hc
  have hrow : earlier ∈ rows := hrows.symm.subset (List.mem_filter.mpr ⟨he, by simpa using hfree⟩)
  have htaken := StableSort.mem_take_of_mem_take hsorted hrow (hbatch.subset hm) (not_le.mpr hkey)
  refine StableSort.pair_sublist hordered (hbatch.symm.subset htaken) hm ?_ (not_not.mpr hlt)
  intro heq
  rw [heq] at hkey
  exact lt_irrefl _ hkey

theorem orderly_claim {taken : List OutboxMessage} (h : outbox.Accounted published taken)
    (hstreams : InStreams outbox.staged) (hc : PostgresOutboxStore.Claims outbox locked limit batch)
    (hordered : batch.Pairwise fun left right => ¬ right.Earlier left)
    (hfree : ∀ message ∈ batch, ∀ row ∈ outbox.messages.values, row.Earlier message →
      row.id ∈ outbox.claimed ∨ row.id ∈ locked → row.id ∈ idsOf published) :
    (Publisher.next batch).Orderly (outbox.claim batch) published := by
  refine ⟨fun message hm => ?_, fun message hm => ?_, fun message hm earlier he hlt => ?_⟩
  · rw [Publisher.held_next] at hm
    have hclaims : OutboxStoreKind.postgres.Claims outbox locked limit batch := hc
    have hrow := Outbox.mem_claimable_iff.mp (Outbox.Claims.subset hclaims hm)
    exact List.mem_map_of_mem hrow.1
  · rw [Publisher.todo_next] at hm
    exact List.mem_append_right _ (List.mem_map_of_mem hm)
  · rw [Publisher.todo_next] at hm ⊢
    obtain ⟨row, hrow, rfl⟩ := List.mem_map.mp he
    by_cases hpublished : row.id ∈ idsOf published
    · exact .inl hpublished
    · obtain ⟨x, hx⟩ := OrderedMap.mem_values_iff.mp hrow
      have hnot : ¬ (row.id ∈ outbox.claimed ∨ row.id ∈ locked) := fun htaken =>
        hpublished (hfree message hm row hrow hlt htaken)
      have hclaimable : row ∈ outbox.claimable := by
        refine Outbox.mem_claimable_iff.mpr ⟨hrow, ?_, fun hclaimed => hnot (.inl hclaimed)⟩
        by_contra hmarked
        exact hpublished (h.keyed hx ▸ h.marked hx hmarked)
      have hpair := claimed_in_order hstreams hc hordered hm hclaimable (fun hlocked => hnot (.inr hlocked)) hlt
      exact .inr (hpair.map OutboxMessage.id)

end

/-! ## Runs -/

section
variable {c : OutboxSystem} {others : List OutboxMessage} {p p' : Publisher} {action : PublisherAction}
  {effect : PublisherEffect}

theorem PublisherStep.orderly (h : c.outbox.Accounted c.published (p.held ++ others))
    (hstreams : InStreams c.outbox.staged)
    (hp : p.Orderly c.outbox c.published) (hallows : OvertakesNone c (.publisher action))
    (hs : PublisherStep .postgres c.outbox p action effect p') :
    p'.Orderly effect.outbox (c.published ++ effect.delivered) := by
  have hothers : ∀ {message rest}, p.held = message :: rest → ∀ other ∈ rest, other.id ≠ message.id := by
    intro message rest hheld other hother heq
    have hnodup := h.nodup
    rw [hheld, List.cons_append, idsOf, List.map_cons, ← heq] at hnodup
    exact (List.nodup_cons.mp hnodup).1 (List.mem_map_of_mem (List.mem_append_left _ hother))
  cases hs with
  | claim hc =>
    obtain ⟨hordered, hfree⟩ := hallows
    rw [List.append_nil]
    exact orderly_claim h hstreams hc hordered hfree
  | @publish message rest => exact hp.tail rfl rfl rfl (.inl (by simp))
  | @publishRejected message rest error delivered =>
    refine hp.tail rfl rfl rfl ?_
    rcases hallows with rfl | hpublished | hlast
    · exact .inl (by simp)
    · refine .inl ?_
      rw [idsOf, List.map_append]
      exact List.mem_append_left _ hpublished
    · refine .inr fun later hlater earlier he hid hlt => ?_
      -- the message that failed is the earlier one
      have hfailed := hp.staged message List.mem_cons_self
      obtain rfl := hstreams.eq_of_id he hfailed hid
      have hrest : later ∈ message :: rest := List.mem_cons_of_mem _ hlater
      obtain ⟨row, hrow, heq⟩ := List.mem_map.mp (hp.staged later hrest)
      have hrowlt : message.Earlier row.asStaged := heq ▸ hlt
      have hrowid : row.asStaged.id = later.asStaged.id := congrArg OutboxMessage.id heq
      exact hlast row hrow hrowlt (hrowid ▸ hp.claimed later hrest)
  | @markPublished message rest publishedAt =>
    refine hp.mono (Publisher.todo_next rest) ?_ (Outbox.staged_markPublished _ _) fun other hother => ?_
    · rw [Publisher.held_next]
      exact List.subset_cons_self _ _
    · exact Outbox.mem_claimed_of_ne _ (hp.claimed other hother) (hothers rfl other hother)
  | @markPublishedRejected message rest error publishedAt applied =>
    refine hp.mono rfl (List.Subset.refl _) ?_ fun other hother => ?_
    · cases applied with
      | false => rfl
      | true => exact Outbox.staged_markPublished _ _
    · cases applied with
      | false => exact hp.claimed other hother
      | true => exact Outbox.mem_claimed_of_ne _ (hp.claimed other hother) (hothers rfl other hother)
  | @markFailed message error rest =>
    refine hp.mono (Publisher.todo_next rest) ?_ (Outbox.staged_markFailed _ _) fun other hother => ?_
    · rw [Publisher.held_next]
      exact List.subset_cons_self _ _
    · exact Outbox.mem_claimed_of_ne _ (hp.claimed other hother) (hothers rfl other hother)
  | _ => exact .of_todo_nil rfl

/-- What another publisher does does not matter to it. -/
theorem PublisherStep.orderly_other {q : Publisher} (h : c.outbox.Accounted c.published (p.held ++ others))
    (hq : q.Orderly c.outbox c.published) (hheld : q.held ⊆ others)
    (hs : PublisherStep .postgres c.outbox p action effect p') :
    q.Orderly effect.outbox (c.published ++ effect.delivered) := by
  refine hq.mono rfl (List.Subset.refl _) hs.staged fun message hm => hs.keeps_claim (hq.claimed message hm) ?_
  intro hmem
  have hnodup := h.nodup
  rw [idsOf, List.map_append] at hnodup
  have hother := List.mem_map_of_mem (f := OutboxMessage.id) (hheld (q.todo_sublist_held.subset hm))
  exact (List.nodup_append.mp hnodup).2.2 _ hmem _ hother rfl

end

theorem PublishedInOrder.snoc {published : List OutboxMessage} {message : OutboxMessage}
    (h : PublishedInOrder published)
    (hm : ∀ version, 0 < version → version < message.payload.streamVersion →
      ∃ earlier ∈ published, earlier.messageKey = message.messageKey ∧ earlier.payload.streamVersion = version) :
    PublishedInOrder (published ++ [message]) := by
  intro before current after heq
  rcases List.eq_nil_or_concat after with rfl | ⟨after, last, rfl⟩
  · obtain ⟨rfl, hlast⟩ := List.append_inj' heq rfl
    obtain rfl := List.head_eq_of_cons_eq hlast
    exact hm
  · rw [List.concat_eq_append, ← List.cons_append, ← List.append_assoc] at heq
    obtain ⟨heq, -⟩ := List.append_inj' heq rfl
    exact h before current after heq

/-- What comes before the message a publisher is to publish is in the topic. -/
theorem Publisher.Orderly.publish {outbox : Outbox} {published rest : List OutboxMessage} {message : OutboxMessage}
    (h : (Publisher.publishing message rest).Orderly outbox published) (hstreams : InStreams outbox.staged)
    (hpublished : ∀ message ∈ published, message.asStaged ∈ outbox.staged) (hnodup : (idsOf (message :: rest)).Nodup)
    (hin : PublishedInOrder published) : PublishedInOrder (published ++ [message]) := by
  refine hin.snoc fun version hpos hlt => ?_
  have hmem := h.staged message List.mem_cons_self
  obtain ⟨earlier, he, hkey, hversion⟩ := hstreams.exists_version hmem hpos hlt
  have hearlier : earlier.Earlier message := ⟨hkey, hversion ▸ hlt⟩
  have hdone : earlier.id ∈ idsOf published := by
    rcases h.order message List.mem_cons_self earlier he hearlier with hdone | hbefore
    · exact hdone
    · -- it would have to stand before the first of the batch
      have hfresh : message.id ∉ idsOf rest := (List.nodup_cons.mp hnodup).1
      have hlater : [message.id].Sublist (idsOf rest) := by
        cases List.sublist_cons_iff.mp hbefore with
        | inl hrest => exact (List.sublist_cons_self _ _).trans hrest
        | inr hhead =>
          obtain ⟨_, heq, hrest⟩ := hhead
          exact (List.cons.inj heq).2 ▸ hrest
      exact absurd (List.singleton_sublist.mp hlater) hfresh
  obtain ⟨other, hother, hid⟩ := List.mem_map.mp hdone
  obtain rfl : other.asStaged = earlier := hstreams.eq_of_id (hpublished other hother) he hid
  exact ⟨other, hother, hkey, hversion⟩

section
variable {c : OutboxSystem} {p p' : Publisher} {action : PublisherAction} {effect : PublisherEffect}

/-- A publisher publishes only what it holds first. -/
theorem PublisherStep.delivered_cases {kind : OutboxStoreKind} {outbox : Outbox}
    (hs : PublisherStep kind outbox p action effect p') :
    effect.delivered = [] ∨ ∃ message rest, p = .publishing message rest ∧ effect.delivered = [message] := by
  cases hs with
  | @publish message rest => exact .inr ⟨message, rest, rfl, rfl⟩
  | @publishRejected message rest error delivered =>
    cases delivered with
    | false => exact .inl rfl
    | true => exact .inr ⟨message, rest, rfl, rfl⟩
  | _ => exact .inl rfl

theorem PublisherStep.delivered_staged {kind : OutboxStoreKind} {outbox : Outbox} {published : List OutboxMessage}
    {message : OutboxMessage} (hs : PublisherStep kind outbox p action effect p') (hp : p.Orderly outbox published)
    (hm : message ∈ effect.delivered) : message.asStaged ∈ outbox.staged := by
  rcases hs.delivered_cases with hnone | ⟨first, rest, rfl, hone⟩
  · rw [hnone] at hm
    cases hm
  · rw [hone] at hm
    rw [List.mem_singleton.mp hm]
    exact hp.staged first List.mem_cons_self

theorem PublisherStep.inOrder {kind : OutboxStoreKind} {others : List OutboxMessage}
    (h : c.outbox.Accounted c.published (p.held ++ others)) (hstreams : InStreams c.outbox.staged)
    (hstaged : ∀ message ∈ c.published, message.asStaged ∈ c.outbox.staged) (hp : p.Orderly c.outbox c.published)
    (hin : PublishedInOrder c.published) (hs : PublisherStep kind c.outbox p action effect p') :
    PublishedInOrder (c.published ++ effect.delivered) := by
  rcases hs.delivered_cases with hnone | ⟨first, rest, rfl, hone⟩
  · rw [hnone, List.append_nil]
    exact hin
  · rw [hone]
    have hnodup := h.nodup
    rw [idsOf, List.map_append] at hnodup
    exact hp.publish hstreams hstaged (List.nodup_append.mp hnodup).1 hin

end

namespace OutboxSystem

structure OrderInv (c : OutboxSystem) : Prop where
  inv : c.Inv
  streams : InStreams c.outbox.staged
  staged : ∀ message ∈ c.published, message.asStaged ∈ c.outbox.staged
  orderly : ∀ p ∈ c.publishers, p.Orderly c.outbox c.published
  inOrder : PublishedInOrder c.published

theorem OrderInv.start : OutboxSystem.start.OrderInv where
  inv := .start
  streams := by
    refine ⟨List.nodup_nil, fun streamId => ?_, fun streamId => List.Pairwise.nil⟩
    exact Numbered.nil
  staged := by simp [OutboxSystem.start]
  orderly := by simp [OutboxSystem.start]
  inOrder before message after heq := by simp [OutboxSystem.start] at heq

theorem OrderInv.step {c c' : OutboxSystem} {action : OutboxAction} (h : c.OrderInv) (hallows : OvertakesNone c action)
    (hs : OutboxStep .postgres c action c') : c'.OrderInv := by
  have hinv := h.inv.step hs
  cases hs with
  | append ha =>
    have hstaged := Outbox.staged_stage ha
    refine ⟨hinv, ?_, fun message hm => ?_, fun p hp => (h.orderly p hp).append h.streams ha, h.inOrder⟩
    · dsimp only
      rw [hstaged]
      exact h.streams.append h.inv.accounted.keyed ha
    · dsimp only
      rw [hstaged]
      exact List.mem_append_left _ (h.staged message hm)
  | start =>
    refine ⟨hinv, h.streams, h.staged, fun p hp => ?_, h.inOrder⟩
    rcases List.mem_append.mp hp with hp | hp
    · exact h.orderly p hp
    · rw [List.mem_singleton.mp hp]
      exact .of_todo_nil rfl
  | @publisher action effect before p after p' hpublishers hs =>
    have hp : p ∈ c.publishers := hpublishers ▸ List.mem_append_right _ List.mem_cons_self
    have haccounted := h.inv.accounted_for hpublishers
    refine ⟨hinv, ?_, fun message hm => ?_, fun q hq => ?_, ?_⟩
    · dsimp only
      rw [hs.staged]
      exact h.streams
    · dsimp only at hm ⊢
      rw [hs.staged]
      rcases List.mem_append.mp hm with hm | hm
      · exact h.staged message hm
      · exact hs.delivered_staged (h.orderly p hp) hm
    · have hother : ∀ q, q ∈ before ++ after → q.Orderly effect.outbox (c.published ++ effect.delivered) := by
        intro q hq
        refine hs.orderly_other haccounted (h.orderly q ?_) fun message hm => ?_
        · rw [hpublishers]
          rcases List.mem_append.mp hq with hq | hq
          · exact List.mem_append_left _ hq
          · exact List.mem_append_right _ (List.mem_cons_of_mem _ hq)
        · exact List.mem_append_right _ (List.mem_flatMap.mpr ⟨q, hq, hm⟩)
      dsimp only at hq
      rw [List.mem_append, List.mem_cons] at hq
      rcases hq with hq | rfl | hq
      · exact hother q (List.mem_append_left _ hq)
      · exact hs.orderly haccounted h.streams (h.orderly p hp) hallows
      · exact hother q (List.mem_append_right _ hq)
    · exact hs.inOrder haccounted h.streams h.staged (h.orderly p hp) h.inOrder

end OutboxSystem

/-- **Publication order.** Where nothing overtakes, the topic has the messages
of every stream in the order of their versions. -/
theorem published_in_order {c : OutboxSystem} (hc : OutboxReachable .postgres OvertakesNone c) :
    PublishedInOrder c.published := by
  have hinv : c.OrderInv := by
    induction hc with
    | start => exact .start
    | step _ hallows hs ih => exact ih.step hallows hs
  exact hinv.inOrder

/-! ## Two messages of one stream -/

def retriedMessage : OutboxMessage := { depositedMessage with attempts := 1, lastError := some "broker down" }

/-- The second message fails when the first has been published, and is
published when it is claimed again. -/
theorem published_in_order_retried : ∃ c, OutboxReachable .postgres OvertakesNone c ∧
    c.published = [createdMessage, retriedMessage] ∧ PublishedInOrder c.published := by
  have hclaimed : OutboxReachable .postgres OvertakesNone _ :=
    two_claimed trivial trivial ⟨by decide, by decide⟩
  have hfirst := (hclaimed.alone .publish trivial).alone (.markPublished 10) trivial
  have hfailed := hfirst.alone (.publishRejected "broker down" false) (.inr (.inr (by decide +kernel)))
  have hretry := hfailed.alone .markFailed trivial
  have hclaims : OutboxStoreKind.postgres.Claims
      (((twoStaged.claim [createdMessage, depositedMessage]).markPublished createdMessage.id 10).markFailed
        depositedMessage.id "broker down") [] batchSize [retriedMessage] :=
    ⟨[retriedMessage], .of_eq (by decide +kernel), List.pairwise_singleton _ _, .refl _⟩
  have hagain := hretry.alone (.claim hclaims (by simp)) ⟨List.pairwise_singleton _ _, by decide +kernel⟩
  have hc := hagain.alone .publish trivial
  exact ⟨_, hc, rfl, published_in_order hc⟩

/-- When the first message cannot be published, the second one is. -/
theorem published_out_of_order :
    ¬ ∀ c, OutboxReachable .postgres (fun _ _ => True) c → PublishedInOrder c.published := by
  intro h
  have hclaimed : OutboxReachable .postgres (fun _ _ => True) _ := two_claimed trivial trivial trivial
  have hfailed := (hclaimed.alone (.publishRejected "broker down" false) trivial).alone .markFailed trivial
  have hsecond := hfailed.alone .publish trivial
  obtain ⟨earlier, hmem, -⟩ := h _ hsecond [] depositedMessage [] rfl 1 (by decide) (by decide)
  cases hmem

end CoreBanking
