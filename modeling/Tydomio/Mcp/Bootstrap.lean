import Tydomio.Mcp.Order

/-!
# What a bootstrap leaves in the cache

How far the bootstrap of a connection is (`Progress`), and what the cache
holds of the answers it got (`Holds`). The endpoints and the areas are two
instances of one kind of part, a `Part`.
-/

namespace Tydomio

open Common Protocol

namespace Mcp

variable {codec : Codec} {s s' : SyncState}

/-! ## How far a bootstrap is -/

/-- The place of a request in the bootstrap. -/
def SyncRequest.rank : SyncRequest → ℕ
  | config => 0
  | devices => 1
  | areas => 2
  | refresh => 3

theorem SyncRequest.rank_next {request next : SyncRequest} (h : request.next = some next) :
    next.rank = request.rank + 1 := by
  cases request <;> cases h <;> rfl

theorem SyncRequest.rank_inj {request request' : SyncRequest} :
    request.rank = request'.rank ↔ request = request' := by
  cases request <;> cases request' <;> decide

/-- The requests before one were answered in the bootstrap, no other. -/
def AnsweredBefore (history : SyncHistory) (request : SyncRequest) : Prop :=
  ∀ r, (history.answered r).isSome = true ↔ r.rank < request.rank

/-- **A cache is synced from the end of a bootstrap to the end of its
routine.** -/
structure Progress (s : SyncState) : Prop where
  answered : ∀ request, s.phase.request? = some request → AnsweredBefore s.history request
  synced : s.cache.synced = true →
    (s.phase.request? = some .refresh ∨ s.phase = .parked ∨ s.phase = .cancelled) ∧
    ∀ r, r ≠ .refresh → (s.history.answered r).isSome = true

@[simp] theorem SyncHistory.record_answered_self (history : SyncHistory) (request : SyncRequest)
    (id : ℤ) (read : ReadResponse) :
    (history.record request id read).answered request = some (id, read) :=
  Function.update_self _ _ _

theorem SyncHistory.record_answered_of_ne (history : SyncHistory) {request r : SyncRequest}
    (id : ℤ) (read : ReadResponse) (h : r ≠ request) :
    (history.record request id read).answered r = history.answered r :=
  Function.update_of_ne h _ _

theorem AnsweredBefore.record {history : SyncHistory} {request next : SyncRequest}
    (h : AnsweredBefore history request) (hnext : request.next = some next) (id : ℤ)
    (read : ReadResponse) : AnsweredBefore (history.record request id read) next := by
  intro r
  rw [SyncRequest.rank_next hnext]
  by_cases hr : r = request
  · rw [hr, SyncHistory.record_answered_self]
    exact iff_of_true rfl (Nat.lt_succ_self _)
  · rw [history.record_answered_of_ne id read hr, h r]
    have hne : r.rank ≠ request.rank := fun hrank => hr (SyncRequest.rank_inj.1 hrank)
    omega

/-- A `send` that starts or raises, with the requests before it answered. -/
theorem Settles.progress {request : SyncRequest} (h : Settles request s s')
    (hanswered : AnsweredBefore s.history request)
    (hsynced : s.cache.synced = true → request = .refresh) : Progress s' := by
  have hall : request = .refresh → ∀ r, r ≠ .refresh → (s.history.answered r).isSome = true := by
    rintro rfl r hr
    rw [hanswered r]
    cases r <;> first | decide | exact absurd rfl hr
  cases h with
  | writing id | waiting id =>
      refine ⟨?_, fun h => ?_⟩
      · rintro _ ⟨⟩
        exact hanswered
      · obtain rfl := hsynced h
        exact ⟨.inl rfl, hall rfl⟩
  | backedOff delay hne => exact ⟨nofun, fun h => absurd (hsynced h) hne⟩
  | parked heq => exact ⟨nofun, fun _ => ⟨.inr (.inl rfl), hall heq⟩⟩
  | finished => exact ⟨nofun, nofun⟩

theorem synced_onAnswer {request : SyncRequest} {response : Response} {parsed : ParsedResponse}
    (h : Parsed response request parsed) (now : DateTime) (cache : Cache) :
    (onAnswer now parsed cache).synced = (decide (request = .areas) || cache.synced) := by
  cases h <;> rfl

theorem RoutineCase.progress (h : RoutineCase codec s s') (hs : Progress s) : Progress s' := by
  cases h with
  | bootstrap failures hphase hsettles =>
      refine hsettles.progress (fun r => iff_of_false nofun (Nat.not_lt_zero _)) fun hsynced => ?_
      -- a synced cache is past its bootstrap
      rcases (hs.synced hsynced).1 with hp | hp | hp <;> rcases hphase with hphase | hphase <;>
        rw [hphase] at hp <;> cases hp
  | awaits request id hphase =>
      refine ⟨fun r hr => hs.answered r ?_, fun hsynced => ?_⟩
      · rw [hphase]
        exact hr
      · obtain ⟨hp, hall⟩ := hs.synced hsynced
        rw [hphase] at hp
        exact ⟨hp.imp_right (Or.imp nofun nofun), hall⟩
  | fails request hphase hsettles =>
      refine hsettles.progress (hs.answered request hphase) fun hsynced => ?_
      rcases (hs.synced hsynced).1 with hp | hp | hp
      · exact Option.some.inj (hphase.symm.trans hp)
      · rw [hp] at hphase
        cases hphase
      · rw [hp] at hphase
        cases hphase
  | finishes => exact ⟨nofun, nofun⟩
  | answers request id read parsed now hphase hparsed hnext =>
      have hrequest : s.phase.request? = some request := by
        rcases hphase with hp | hp <;> rw [hp] <;> rfl
      have hbefore := hs.answered request hrequest
      have hold : s.cache.synced = true → request = .refresh := by
        intro hsynced
        rcases (hs.synced hsynced).1 with hp | hp | hp
        · exact Option.some.inj (hrequest.symm.trans hp)
        · rw [hp] at hrequest
          cases hrequest
        · rw [hp] at hrequest
          cases hrequest
      have hnew := synced_onAnswer (parsed_of_parseResponse hparsed) now s.cache
      rcases hnext with ⟨next, hnext, hsettles⟩ | ⟨hnext, rfl⟩
      · refine hsettles.progress (hbefore.record hnext id read) fun hsynced => ?_
        dsimp only at hsynced
        rw [hnew, Bool.or_eq_true, decide_eq_true_eq] at hsynced
        -- the last GET syncs the cache, and the refresh follows it
        rcases hsynced with rfl | hsynced
        · exact (Option.some.inj hnext).symm
        · rw [hold hsynced] at hnext
          cases hnext
      · have hrefresh : request = .refresh := by cases request <;> cases hnext; rfl
        subst hrefresh
        refine ⟨nofun, fun hsynced => ⟨.inr (.inl rfl), fun r hr => ?_⟩⟩
        rw [s.history.record_answered_of_ne id read hr, hbefore r]
        cases r <;> first | decide | exact absurd rfl hr

/-- A step that leaves `synced` and the answers alone. -/
theorem Progress.frame (hs : Progress s) (hcache : s'.cache.synced = s.cache.synced)
    (hanswered : s'.history.answered = s.history.answered)
    (hphase : s'.phase = .cancelled ∨ s'.phase.request? = s.phase.request? ∧
      (s.phase = .parked → s'.phase = .parked) ∧ (s.phase = .cancelled → s'.phase = .cancelled)) :
    Progress s' where
  answered request hrequest := by
    rcases hphase with hp | ⟨hp, -, -⟩
    · rw [hp] at hrequest
      cases hrequest
    · rw [hp] at hrequest
      have hbefore := hs.answered request hrequest
      intro r
      rw [hanswered]
      exact hbefore r
  synced hsynced := by
    rw [hcache] at hsynced
    obtain ⟨hp, hall⟩ := hs.synced hsynced
    rw [hanswered]
    refine ⟨?_, hall⟩
    rcases hphase with hp' | ⟨hrequest, hparked, hcancelled⟩
    · exact .inr (.inr hp')
    · rw [hrequest]
      exact hp.imp_right (Or.imp hparked hcancelled)

theorem synced_onPush (push : TydomRequest) (cache : Cache) :
    (onPush push cache).synced = cache.synced := by
  cases push <;> rfl

theorem StepCase.progress {event : SyncEvent} (h : StepCase codec s event s')
    (hs : Progress s) : Progress s' := by
  cases h with
  | connect hphase =>
      refine ⟨nofun, fun hsynced => ?_⟩
      rcases (hs.synced hsynced).1 with hp | hp | hp <;> rcases hphase with hphase | hphase <;>
        rw [hphase] at hp <;> cases hp
  | quiet hquiet => exact hs.frame (by rw [hquiet.cache]) hquiet.answered hquiet.phase
  | handler push queue hqueue =>
      exact hs.frame (synced_onPush push s.cache) rfl (.inr ⟨rfl, id, id⟩)
  | routine queue hqueue hcase => exact hcase.progress ⟨hs.answered, hs.synced⟩

/-! ## What the cache holds of a bootstrap -/

/-- The config held is the one answered. -/
def ConfigHeld (codec : Codec) (cache : Cache) (history : SyncHistory) : Prop :=
  ∀ id read, history.answered .config = some (id, read) →
    Recorded history.log id read ∧
    ∃ config, (getConfigFile id).parseResponse codec read.response =
        .ok (.config read.response config) ∧
      cache.config = some config ∧ cache.endpointUsages = config.endpointUsages ∧
      cache.areaUsages = config.areaUsages

/-- **A part of the cache**, endpoints or areas: the request that asks for
it, and what a push and an answer do to its entities. -/
structure Part (K : Type) [DecidableEq K] where
  request : SyncRequest
  usages : Cache → Dict K String
  entities : Cache → Dict K Entity
  /-- The items of a push. -/
  pushed : TydomRequest → Option (List (K × DataEndpoint))
  /-- The items of an answer, and its invalid keys. -/
  snapshot : ParsedResponse → Option (List (K × DataEndpoint) × List K)
  pushed_isSome : ∀ push, (pushed push).isSome = request.concerns push
  usages_onPush : ∀ push cache, usages (onPush push cache) = usages cache
  entities_onPush : ∀ push cache, entities (onPush push cache) =
    (pushed push).toList.foldl (fun entities items => mergeEntities (usages cache) items entities)
      (entities cache)
  usages_onAnswer : ∀ {response r parsed}, Parsed response r parsed → r ≠ .config →
    ∀ now cache, usages (onAnswer now parsed cache) = usages cache
  entities_onAnswer : ∀ {response r parsed}, Parsed response r parsed → r ≠ .config →
    r ≠ request → ∀ now cache, entities (onAnswer now parsed cache) = entities cache
  entities_snapshot : ∀ {response parsed}, Parsed response request parsed →
    ∃ items invalid, snapshot parsed = some (items, invalid) ∧
      ∀ now cache, entities (onAnswer now parsed cache) =
        replaceEntities (usages cache) items invalid
  /-- The marks of a connection change neither. -/
  marks : ∀ cache connection synced syncedAt,
    usages { cache with connection, synced, syncedAt } = usages cache ∧
    entities { cache with connection, synced, syncedAt } = entities cache

/-- The endpoints. -/
def devicesPart : Part (ℤ × ℤ) where
  request := .devices
  usages := Cache.endpointUsages
  entities := Cache.endpoints
  pushed
    | .putDevicesData _ data => some (deviceItems data)
    | .putAreasData .. => none
  snapshot
    | .devicesData _ data invalid => some (deviceItems data, invalid)
    | _ => none
  pushed_isSome push := by cases push <;> rfl
  usages_onPush push cache := by cases push <;> rfl
  entities_onPush push cache := by cases push <;> rfl
  usages_onAnswer h hr now cache := by cases h <;> first | rfl | exact absurd rfl hr
  entities_onAnswer h hr hne now cache := by
    cases h <;> first | rfl | exact absurd rfl hr | exact absurd rfl hne
  entities_snapshot h := by
    cases h
    exact ⟨_, _, rfl, fun _ _ => rfl⟩
  marks _ _ _ _ := ⟨rfl, rfl⟩

/-- The areas. -/
def areasPart : Part ℤ where
  request := .areas
  usages := Cache.areaUsages
  entities := Cache.areas
  pushed
    | .putDevicesData .. => none
    | .putAreasData _ data => some (areaItems data)
  snapshot
    | .areasData _ data invalid => some (areaItems data, invalid)
    | _ => none
  pushed_isSome push := by cases push <;> rfl
  usages_onPush push cache := by cases push <;> rfl
  entities_onPush push cache := by cases push <;> rfl
  usages_onAnswer h hr now cache := by cases h <;> first | rfl | exact absurd rfl hr
  entities_onAnswer h hr hne now cache := by
    cases h <;> first | rfl | exact absurd rfl hr | exact absurd rfl hne
  entities_snapshot h := by
    cases h
    exact ⟨_, _, rfl, fun _ _ => rfl⟩
  marks _ _ _ _ := ⟨rfl, rfl⟩

namespace Part

variable {K : Type} [DecidableEq K] (P : Part K) {cache cache' : Cache}
variable {history history' : SyncHistory}

/-- A snapshot with pushes merged, the first of the list first. -/
def merged (cache : Cache) (items : List (K × DataEndpoint)) (invalid : List K)
    (pushes : List (List (K × DataEndpoint))) : Dict K Entity :=
  pushes.foldl (fun entities items => mergeEntities (P.usages cache) items entities)
    (replaceEntities (P.usages cache) items invalid)

/-- **The entities held are the snapshot answered, with the pushes handled
since then merged**: `pushes` are those of the handled pushes that were
read after the answer. -/
def Held (codec : Codec) (cache : Cache) (history : SyncHistory) : Prop :=
  ∀ id read, history.answered P.request = some (id, read) →
    Recorded history.log id read ∧
    ∃ parsed items invalid pushes,
      (P.request.toRequest id).parseResponse codec read.response = .ok parsed ∧
      P.snapshot parsed = some (items, invalid) ∧
      history.handled.filterMap P.pushed =
        (pushesOf (history.log.take read.place)).filterMap P.pushed ++ pushes ∧
      P.entities cache = P.merged cache items invalid pushes

theorem held_of_not_answered (h : history.answered P.request = none) :
    P.Held codec cache history := by
  intro id read hanswered
  rw [h] at hanswered
  cases hanswered

variable {P}

/-- What neither the part nor its history sees. -/
theorem Held.frame (h : P.Held codec cache history) (husages : P.usages cache' = P.usages cache)
    (hentities : P.entities cache' = P.entities cache)
    (hhandled : history'.handled = history.handled)
    (hanswered : history'.answered P.request = history.answered P.request)
    (hlog : history.log <+: history'.log) : P.Held codec cache' history' := by
  intro id read hread
  obtain ⟨hrecorded, parsed, items, invalid, pushes, hparsed, hsnapshot, hpushes, heq⟩ :=
    h id read (hanswered ▸ hread)
  obtain ⟨later, hlater⟩ := hlog
  refine ⟨hlater ▸ hrecorded.append later, parsed, items, invalid, pushes, hparsed, hsnapshot,
    ?_, ?_⟩
  · rw [hhandled, ← hlater, hrecorded.take_append, hpushes]
  · rw [hentities, heq, merged, merged, husages]

theorem Held.onPush (h : P.Held codec cache history) (push : TydomRequest) :
    P.Held codec (onPush push cache)
      { history with handled := history.handled ++ [push] } := by
  intro id read hread
  obtain ⟨hrecorded, parsed, items, invalid, pushes, hparsed, hsnapshot, hpushes, heq⟩ :=
    h id read hread
  refine ⟨hrecorded, parsed, items, invalid, pushes ++ (P.pushed push).toList, hparsed,
    hsnapshot, ?_, ?_⟩
  · rw [List.filterMap_append, hpushes, List.append_assoc]
    cases hpush : P.pushed push <;> simp [hpush]
  · rw [P.entities_onPush, heq, merged, merged, P.usages_onPush, List.foldl_append]

/-- Pushes handled in the order read leave the same items. -/
theorem filterMap_pushed_eq {pushes pushes' : List TydomRequest}
    (h : pushes.filter P.request.concerns = pushes'.filter P.request.concerns) :
    pushes.filterMap P.pushed = pushes'.filterMap P.pushed := by
  have hfilter : ∀ l : List TydomRequest,
      (l.filter P.request.concerns).filterMap P.pushed = l.filterMap P.pushed := by
    intro l
    induction l with
    | nil => rfl
    | cons push l ih =>
        have hpush := P.pushed_isSome push
        cases hconcerns : P.request.concerns push with
        | true => rw [List.filter_cons_of_pos hconcerns, List.filterMap_cons,
            List.filterMap_cons, ih]
        | false =>
            rw [hconcerns, Option.isSome_eq_false_iff, Option.isNone_iff_eq_none] at hpush
            rw [List.filter_cons_of_neg (by simp [hconcerns]), List.filterMap_cons_none hpush, ih]
  rw [← hfilter pushes, h, hfilter]

/-- The answer to the part's own request: no push after it is handled
yet. -/
theorem held_snapshot {id : ℤ} {read : ReadResponse} {parsed : ParsedResponse}
    (hrecorded : Recorded history.log id read)
    (hparsed : (P.request.toRequest id).parseResponse codec read.response = .ok parsed)
    (hhandled : history.handled.filter P.request.concerns =
      (pushesOf (history.log.take read.place)).filter P.request.concerns)
    (hconfig : P.request ≠ .config) (now : DateTime) :
    P.Held codec (onAnswer now parsed cache) (history.record P.request id read) := by
  intro id' read' hread
  rw [SyncHistory.record_answered_self] at hread
  cases hread
  have hform := parsed_of_parseResponse hparsed
  obtain ⟨items, invalid, hsnapshot, hentities⟩ := P.entities_snapshot hform
  refine ⟨hrecorded, parsed, items, invalid, [], hparsed, hsnapshot, ?_, ?_⟩
  · rw [List.append_nil]
    exact filterMap_pushed_eq hhandled
  · rw [hentities, merged, P.usages_onAnswer hform hconfig, List.foldl_nil]

/-- The answer to another GET. -/
theorem Held.onAnswer (h : P.Held codec cache history) {request : SyncRequest} {id : ℤ}
    {read : ReadResponse} {parsed : ParsedResponse}
    (hparsed : (request.toRequest id).parseResponse codec read.response = .ok parsed)
    (hconfig : request ≠ .config) (hne : request ≠ P.request) (now : DateTime) :
    P.Held codec (onAnswer now parsed cache) (history.record request id read) := by
  have hform := parsed_of_parseResponse hparsed
  exact h.frame (P.usages_onAnswer hform hconfig now cache)
    (P.entities_onAnswer hform hconfig hne now cache) rfl
    (history.record_answered_of_ne id read hne.symm) (List.prefix_refl _)

end Part

/-- What the cache holds, of its config and of both parts. -/
structure Holds (codec : Codec) (cache : Cache) (history : SyncHistory) : Prop where
  config : ConfigHeld codec cache history
  devices : devicesPart.Held codec cache history
  areas : areasPart.Held codec cache history

section Holds

variable {cache : Cache} {history history' : SyncHistory}

/-- The marks of a connection and a longer log change nothing. -/
theorem Holds.marks (h : Holds codec cache history) (connection : Connection) (synced : Bool)
    (syncedAt : Option DateTime) (hhandled : history'.handled = history.handled)
    (hanswered : history'.answered = history.answered)
    (hlog : history.log <+: history'.log) :
    Holds codec { cache with connection, synced, syncedAt } history' where
  config id read hread := by
    obtain ⟨hrecorded, hconfig⟩ := h.config id read (hanswered ▸ hread)
    obtain ⟨later, hlater⟩ := hlog
    exact ⟨hlater ▸ hrecorded.append later, hconfig⟩
  devices := h.devices.frame rfl rfl hhandled (hanswered ▸ rfl) hlog
  areas := h.areas.frame rfl rfl hhandled (hanswered ▸ rfl) hlog

/-- Nothing is answered yet. -/
theorem holds_of_not_answered (h : history.answered = fun _ => none) :
    Holds codec cache history where
  config id read hread := by
    rw [h] at hread
    cases hread
  devices := devicesPart.held_of_not_answered (by rw [h])
  areas := areasPart.held_of_not_answered (by rw [h])

theorem Holds.onPush (h : Holds codec cache history) (push : TydomRequest) :
    Holds codec (onPush push cache) { history with handled := history.handled ++ [push] } where
  config id read hread := by
    obtain ⟨hrecorded, hconfig⟩ := h.config id read hread
    exact ⟨hrecorded, by cases push <;> exact hconfig⟩
  devices := h.devices.onPush push
  areas := h.areas.onPush push

/-- **An answer taken in order.** -/
theorem Holds.onAnswer (h : Holds codec cache history) {request : SyncRequest} {id : ℤ}
    {read : ReadResponse} {parsed : ParsedResponse} (hbefore : AnsweredBefore history request)
    (hrecorded : Recorded history.log id read)
    (hparsed : (request.toRequest id).parseResponse codec read.response = .ok parsed)
    (hhandled : history.handled.filter request.concerns =
      (pushesOf (history.log.take read.place)).filter request.concerns) (now : DateTime) :
    Holds codec (onAnswer now parsed cache) (history.record request id read) := by
  have hconfig : request ≠ .config →
      ConfigHeld codec (Mcp.onAnswer now parsed cache) (history.record request id read) := by
    intro hne id' read' hread
    rw [history.record_answered_of_ne id read hne.symm] at hread
    obtain ⟨hrecorded', hheld⟩ := h.config id' read' hread
    refine ⟨hrecorded', ?_⟩
    cases parsed_of_parseResponse hparsed with
    | config => exact absurd rfl hne
    | devices | areas | refresh => exact hheld
  cases request with
  | config =>
      -- the first answer of a bootstrap: neither part was answered yet
      have hnone : ∀ r, r ≠ .config → (history.record .config id read).answered r = none := by
        intro r hr
        rw [history.record_answered_of_ne id read hr]
        have hrank := hbefore r
        exact Option.not_isSome_iff_eq_none.1 fun hsome => Nat.not_lt_zero _ (hrank.1 hsome)
      refine ⟨fun id' read' hread => ?_, devicesPart.held_of_not_answered (hnone _ nofun),
        areasPart.held_of_not_answered (hnone _ nofun)⟩
      rw [SyncHistory.record_answered_self] at hread
      cases hread
      generalize hform : SyncRequest.config = request at hparsed
      cases parsed_of_parseResponse hparsed with
      | config config =>
          exact ⟨hrecorded, config, hparsed, rfl, rfl, rfl⟩
      | devices | areas | refresh => cases hform
  | devices =>
      exact ⟨hconfig nofun,
        Part.held_snapshot (P := devicesPart) hrecorded hparsed hhandled nofun now,
        h.areas.onAnswer hparsed nofun nofun now⟩
  | areas =>
      exact ⟨hconfig nofun, h.devices.onAnswer hparsed nofun nofun now,
        Part.held_snapshot (P := areasPart) hrecorded hparsed hhandled nofun now⟩
  | refresh =>
      exact ⟨hconfig nofun, h.devices.onAnswer hparsed nofun nofun now,
        h.areas.onAnswer hparsed nofun nofun now⟩

theorem Settles.holds {request : SyncRequest} (h : Settles request s s')
    (hs : Holds codec s.cache s.history) : Holds codec s'.cache s'.history := by
  cases h with
  | finished => exact hs.marks _ _ _ rfl rfl (List.prefix_refl _)
  | writing | waiting | backedOff | parked => exact hs

end Holds

end Mcp

end Tydomio
