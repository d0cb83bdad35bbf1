import Tydomio.Mcp.Model.History
import Mathlib.Data.List.Induction

/-!
# The cache keeps the law of every key's history

What an operation does to a key depends on the key's usage, its entity and
its own items only (`keyStep`), so the cache refines one small machine for
each key. The law of a history is kept by each step of that machine, and
`cache_law` reads it back on the cache.
-/

namespace Tydomio

open Common

namespace Mcp

variable {configured : Bool} {events history : List KeyEvent} {entity : Option Entity}

/-! ## Items merged one after the other -/

theorem getLast?_map_eq_foldl {α β : Type} (f : α → β) (xs : List α) (init : Option β) :
    xs.foldl (fun _ x => some (f x)) init = (xs.getLast?.map f).or init := by
  induction xs using List.reverseRecOn with
  | nil => simp
  | append_singleton xs x => simp

theorem lastDatum_append (name : String) (items items' : List DataEndpoint) :
    lastDatum name (items ++ items') = (lastDatum name items').or (lastDatum name items) := by
  simp [lastDatum, List.flatMap_append, List.reverse_append, List.find?_append]

theorem lastDatum_nil (name : String) : lastDatum name [] = none := rfl

/-- The fields after an item: its own, the last of a name first, then the
fields before. -/
theorem get?_merge (entity : Entity) (item : DataEndpoint) (name : String) :
    (entity.merge item).fields.get? name =
      (lastDatum name [item]).or (entity.fields.get? name) := by
  have hfold : ∀ (data : List Data) (fields : Dict String Data),
      (data.foldl (fun fields field => fields.set field.name field) fields).get? name =
        (data.reverse.find? fun field => field.name = name).or (fields.get? name) := by
    intro data
    induction data with
    | nil => intro fields; simp
    | cons field data ih =>
        intro fields
        rw [List.foldl_cons, ih, Dict.get?_set, List.reverse_cons, List.find?_append]
        by_cases hname : name = field.name
        · simp [hname]
        · have hne : ¬ field.name = name := fun h => hname h.symm
          simp [hname, hne]
  simpa [lastDatum, Entity.merge] using hfold item.data entity.fields

/-- A push merged: the entity there is after at least one item. -/
theorem foldl_merge (items : List DataEndpoint) (entity : Option Entity) (hne : items ≠ []) :
    ∃ x, items.foldl (fun v a => some ((v.getD .empty).merge a)) entity = some x ∧
      x.invalid = false ∧
      x.error = (items.getLast?.map DataEndpoint.error).getD 0 ∧
      ∀ name, x.fields.get? name =
        (lastDatum name items).or ((entity.getD .empty).fields.get? name) := by
  induction items using List.reverseRecOn with
  | nil => exact absurd rfl hne
  | append_singleton items item ih =>
      rw [List.foldl_append]
      refine ⟨_, rfl, rfl, by simp [Entity.merge], fun name => ?_⟩
      rw [get?_merge, lastDatum_append]
      by_cases hnil : items = []
      · rw [hnil]
        simp [lastDatum_nil]
      · obtain ⟨x, hx, -, -, hfields⟩ := ih hnil
        rw [hx, Option.getD_some, hfields, Option.or_assoc]

/-! ## What each event does to the law -/

theorem keyLaw_none (h : configured = false ∨ ∀ event ∈ events, event.mentions = false) :
    KeyLaw configured events none where
  held := by
    refine iff_of_false nofun ?_
    rintro ⟨hconf, event, hmem, hmentions⟩
    rcases h with h | h
    · rw [h] at hconf
      cases hconf
    · rw [h event hmem] at hmentions
      cases hmentions
  fields _ hx := nomatch hx
  error _ hx := nomatch hx
  invalid _ hx := nomatch hx
  noFields _ hx := nomatch hx

theorem counted_eq_nil {event : KeyEvent} (h : event.mentions = false) : event.counted = [] := by
  cases event with
  | config => rfl
  | snapshot items invalid =>
      cases invalid <;> simp_all [KeyEvent.mentions, KeyEvent.counted]
  | push items => simpa [KeyEvent.mentions, KeyEvent.counted] using h

/-- An event that says nothing of the key changes nothing. -/
theorem KeyLaw.append_quiet {event : KeyEvent} (hlaw : KeyLaw configured events entity)
    (h : event.mentions = false) (hhead : ∀ items, event ≠ .snapshot items true) :
    KeyLaw configured (events ++ [event]) entity where
  held := by
    rw [hlaw.held]
    simp [or_and_right, exists_or, h]
  fields x hx name := by
    simpa [counted_eq_nil h] using hlaw.fields x hx name
  error x hx := by
    simpa [counted_eq_nil h] using hlaw.error x hx
  invalid x hx := by
    rw [hlaw.invalid x hx]
    -- the quiet event is the last of the later ones
    constructor
    · rintro ⟨items, later, rfl, hlater⟩
      refine ⟨items, later ++ [event], rfl, fun e he => ?_⟩
      rcases List.mem_append.1 he with he | he
      · exact hlater e he
      · rw [List.mem_singleton.1 he, h]
    · rintro ⟨items, later, heq, hlater⟩
      cases events with
      | nil => exact absurd (List.cons.inj heq).1 (hhead items)
      | cons first rest =>
          obtain ⟨rfl, rfl⟩ := List.cons.inj heq
          exact ⟨items, rest, rfl, fun e he => hlater e (List.mem_append_left _ he)⟩
  noFields := hlaw.noFields

/-- A push with items is merged into what is held. -/
theorem KeyLaw.append_push {items : List DataEndpoint} (hlaw : KeyLaw true events entity)
    (hne : items ≠ []) :
    KeyLaw true (events ++ [.push items])
      (items.foldl (fun v a => some ((v.getD .empty).merge a)) entity) := by
  obtain ⟨x, hx, hinvalid, herror, hfields⟩ := foldl_merge items entity hne
  have hmentions : (KeyEvent.push items).mentions = true := by simp [KeyEvent.mentions, hne]
  rw [hx]
  refine ⟨iff_of_true rfl ⟨rfl, .push items, by simp, hmentions⟩, ?_, ?_, ?_, ?_⟩
  · rintro _ ⟨⟩ name
    rw [hfields, List.flatMap_append, lastDatum_append, List.flatMap_singleton,
      KeyEvent.counted]
    cases hentity : entity with
    | some y => rw [Option.getD_some, hlaw.fields y hentity name]
    | none =>
        -- nothing was counted before
        have hquiet : ∀ event ∈ events, event.mentions = false := by
          intro event hevent
          by_contra hmentions
          have hheld := hlaw.held.2 ⟨rfl, event, hevent, by simpa using hmentions⟩
          rw [hentity] at hheld
          cases hheld
        have hcounted : events.flatMap KeyEvent.counted = [] :=
          List.flatMap_eq_nil_iff.2 fun event hevent => counted_eq_nil (hquiet event hevent)
        rw [hcounted]
        rfl
  · rintro _ ⟨⟩
    rw [herror, List.flatMap_append, List.flatMap_singleton, KeyEvent.counted,
      List.getLast?_append_of_ne_nil _ hne]
  · rintro _ ⟨⟩
    refine iff_of_false (by rw [hinvalid]; nofun) ?_
    rintro ⟨items', later, heq, hlater⟩
    cases events with
    | nil => cases heq
    | cons first rest =>
        obtain ⟨-, rfl⟩ := List.cons.inj heq
        rw [hlater (.push items) (by simp)] at hmentions
        cases hmentions
  · rintro _ ⟨⟩ hx'
    rw [hinvalid] at hx'
    cases hx'

/-- A snapshot starts anew. -/
theorem keyLaw_snapshot (items : List DataEndpoint) (invalid : Bool) :
    KeyLaw true [.snapshot items invalid]
      (if invalid then some .invalidState else items.getLast?.map Entity.empty.merge) := by
  cases invalid with
  | true =>
      refine ⟨iff_of_true rfl ⟨rfl, _, List.mem_singleton_self _, by simp [KeyEvent.mentions]⟩,
        ?_, ?_, ?_, ?_⟩
      · rintro _ ⟨⟩ name
        rfl
      · rintro _ ⟨⟩
        rfl
      · rintro _ ⟨⟩
        exact iff_of_true rfl ⟨items, [], rfl, nofun⟩
      · rintro _ ⟨⟩ -
        rfl
  | false =>
      rw [if_neg Bool.false_ne_true]
      cases hlast : items.getLast? with
      | none =>
          rw [List.getLast?_eq_none_iff.1 hlast]
          exact keyLaw_none (.inr (by simp [KeyEvent.mentions]))
      | some item =>
          have hne : items ≠ [] := by
            rintro rfl
            cases hlast
          have hcounted : ([KeyEvent.snapshot items false]).flatMap KeyEvent.counted = [item] := by
            simp [KeyEvent.counted, hlast]
          refine ⟨iff_of_true rfl ⟨rfl, _, List.mem_singleton_self _, by
            simp [KeyEvent.mentions, hne]⟩, ?_, ?_, ?_, ?_⟩
          · rintro _ ⟨⟩ name
            rw [hcounted, get?_merge]
            exact Option.or_none
          · rintro _ ⟨⟩
            rw [hcounted]
            rfl
          · rintro _ ⟨⟩
            exact iff_of_false (by simp [Entity.merge]) (by simp)
          · rintro _ ⟨⟩ hinvalid
            cases hinvalid

/-! ## One machine for each key -/

/-- What an event does to the entity of a key of the given usage. -/
def keyStep (usage : Option String) (entity : Option Entity) : KeyEvent → Option Entity
  | .config usage' => if usage' = usage ∧ usage'.isSome then entity else none
  | .snapshot items invalid =>
      if usage.isSome then
        if invalid then some .invalidState else items.getLast?.map Entity.empty.merge
      else none
  | .push items =>
      if usage.isSome then items.foldl (fun v a => some ((v.getD .empty).merge a)) entity
      else entity

/-- **Each event keeps the law.** -/
theorem historyLaw_cons (event : KeyEvent) (h : HistoryLaw history entity) :
    HistoryLaw (event :: history) (keyStep (usageOf history) entity event) := by
  unfold HistoryLaw at h ⊢
  rw [sinceReset]
  cases event with
  | config usage =>
      by_cases hreset : isReset history (.config usage) = true
      · -- whatever was held is dropped
        have hdrop : ¬ (usage = usageOf history ∧ usage.isSome = true) := by
          rintro ⟨rfl, hsome⟩
          cases hu : usageOf history <;> simp [isReset, hu] at hreset hsome
        rw [if_pos hreset, keyStep, if_neg hdrop]
        refine keyLaw_none (.inr fun event hevent => ?_)
        split at hevent
        · rw [List.mem_singleton.1 hevent]
          rfl
        · cases hevent
      · simp only [isReset, Bool.or_eq_true, decide_eq_true_eq, not_or, ne_eq,
          Decidable.not_not] at hreset
        obtain ⟨hsome, rfl⟩ := hreset
        have hconf : (usageOf history).isSome = true := Option.isSome_iff_ne_none.2 hsome
        rw [if_neg (by simp [isReset, hsome]), if_pos hconf, keyStep, if_pos ⟨rfl, hconf⟩]
        exact h.append_quiet rfl (by simp)
  | snapshot items invalid =>
      have hreset : isReset history (.snapshot items invalid) = true := rfl
      rw [if_pos hreset, keyStep, usageOf_snapshot]
      cases hconf : (usageOf history).isSome with
      | true =>
          rw [if_pos rfl, if_pos rfl]
          exact keyLaw_snapshot items invalid
      | false => exact keyLaw_none (.inl rfl)
  | push items =>
      rw [if_neg (by simp [isReset]), keyStep, usageOf_push]
      cases hconf : (usageOf history).isSome with
      | false => simpa [hconf] using h
      | true =>
          rw [hconf] at h
          rw [if_pos rfl, if_pos rfl]
          by_cases hne : items = []
          · rw [hne]
            exact h.append_quiet (by simp [KeyEvent.mentions]) (by simp)
          · exact h.append_push hne

/-! ## The cache refines the machine of each key -/

section Keys

variable {K : Type} [DecidableEq K] {usages old : Dict K String} {entities : Dict K Entity}

theorem get?_keepEntities (key : K) :
    (keepEntities usages old entities).get? key =
      keyStep (old.get? key) (entities.get? key) (.config (usages.get? key)) := by
  rw [keepEntities, Dict.get?_filter, keyStep]
  by_cases h : usages.get? key = old.get? key ∧ (usages.get? key).isSome = true
  · have hkeep : usages.get? key = old.get? key ∧ usages.contains key = true := h
    rw [if_pos h]
    cases entities.get? key with
    | none => rfl
    | some entity => rw [Option.filter_some, if_pos (decide_eq_true hkeep)]
  · have hdrop : ¬ (usages.get? key = old.get? key ∧ usages.contains key = true) := h
    rw [if_neg h]
    cases entities.get? key with
    | none => rfl
    | some entity => rw [Option.filter_some, if_neg (by simpa using hdrop)]

/-- The keys listed as invalid, one after the other. -/
theorem foldl_invalid (invalid : List K) (key : K) (entity : Option Entity) :
    (Dict.itemsOf key (invalid.map fun k => (k, ()))).foldl
        (fun _ _ => some Entity.invalidState) entity =
      if key ∈ invalid then some .invalidState else entity := by
  induction invalid generalizing entity with
  | nil => rfl
  | cons k invalid ih =>
      by_cases hk : k = key
      · have hcons : Dict.itemsOf key ((k :: invalid).map fun k => (k, ())) =
            () :: Dict.itemsOf key (invalid.map fun k => (k, ())) := by
          simp [Dict.itemsOf, hk]
        rw [hcons, List.foldl_cons, ih, ite_self, if_pos (hk ▸ List.mem_cons_self)]
      · have hcons : Dict.itemsOf key ((k :: invalid).map fun k => (k, ())) =
            Dict.itemsOf key (invalid.map fun k => (k, ())) := by
          simp [Dict.itemsOf, hk]
        have hmem : key ∈ k :: invalid ↔ key ∈ invalid := by
          rw [List.mem_cons, or_iff_right fun h => hk h.symm]
        rw [hcons, ih]
        simp only [hmem]

theorem get?_replaceEntities (items : List (K × DataEndpoint)) (invalid : List K) (key : K)
    (entity : Option Entity) :
    (replaceEntities usages items invalid).get? key =
      keyStep (usages.get? key) entity (snapshotEvent key items invalid) := by
  unfold replaceEntities snapshotEvent
  dsimp only
  rw [Dict.get?_upsertAll, foldl_invalid, Dict.get?_upsertAll, getLast?_map_eq_foldl,
    Dict.get?_empty, Option.or_none, keyStep]
  simp only [decide_eq_true_eq]
  by_cases husage : usages.contains key = true
  · have hsome : (usages.get? key).isSome = true := husage
    rw [if_pos husage, if_pos husage, if_pos hsome]
  · have hnone : ¬ (usages.get? key).isSome = true := husage
    rw [if_neg husage, if_neg husage, if_neg hnone]

theorem get?_mergeEntities (items : List (K × DataEndpoint)) (key : K) :
    (mergeEntities usages items entities).get? key =
      keyStep (usages.get? key) (entities.get? key) (pushEvent key items) := by
  rw [mergeEntities, Dict.get?_upsertAll]
  rfl

/-- The entity of a key after its history. -/
def entityOf : List KeyEvent → Option Entity
  | [] => none
  | event :: history => keyStep (usageOf history) (entityOf history) event

theorem historyLaw_entityOf (history : List KeyEvent) :
    HistoryLaw history (entityOf history) := by
  induction history with
  | nil => exact keyLaw_none (.inl rfl)
  | cons event history ih => exact historyLaw_cons event ih

end Keys

/-- **The key a part of the cache is about**: an operation does to its
usage and its entity what its event does, and nothing where it is none. -/
def Refines (event : CacheOp → Option KeyEvent) (usage : Cache → Option String)
    (entity : Cache → Option Entity) : Prop :=
  ∀ op cache,
    (event op = none ∧ usage (op.apply cache) = usage cache ∧
      entity (op.apply cache) = entity cache) ∨
    ∃ e, event op = some e ∧
      (∀ history, usageOf history = usage cache →
        usageOf (e :: history) = usage (op.apply cache)) ∧
      entity (op.apply cache) = keyStep (usage cache) (entity cache) e

theorem refines_endpoint (key : ℤ × ℤ) :
    Refines (CacheOp.endpointEvent key) (fun cache => cache.endpointUsages.get? key)
      (fun cache => cache.endpoints.get? key) := by
  intro op cache
  cases op with
  | applyConfig config => exact .inr ⟨_, rfl, fun _ _ => rfl, get?_keepEntities key⟩
  | replaceDevices data invalid =>
      exact .inr ⟨_, rfl, fun _ h => h, get?_replaceEntities _ invalid key _⟩
  | mergeDevices data => exact .inr ⟨_, rfl, fun _ h => h, get?_mergeEntities _ key⟩
  | replaceAreas | mergeAreas => exact .inl ⟨rfl, rfl, rfl⟩

theorem refines_area (key : ℤ) :
    Refines (CacheOp.areaEvent key) (fun cache => cache.areaUsages.get? key)
      (fun cache => cache.areas.get? key) := by
  intro op cache
  cases op with
  | applyConfig config => exact .inr ⟨_, rfl, fun _ _ => rfl, get?_keepEntities key⟩
  | replaceAreas data invalid =>
      exact .inr ⟨_, rfl, fun _ h => h, get?_replaceEntities _ invalid key _⟩
  | mergeAreas data => exact .inr ⟨_, rfl, fun _ h => h, get?_mergeEntities _ key⟩
  | replaceDevices | mergeDevices => exact .inl ⟨rfl, rfl, rfl⟩

/-- After any operations, the usage and the entity are those of the key's
history. -/
theorem Refines.applyAll {event : CacheOp → Option KeyEvent} {usage : Cache → Option String}
    {entity : Cache → Option Entity} (h : Refines event usage entity)
    (husage : usage .init = none) (hentity : entity .init = none) (ops : List CacheOp) :
    usage (applyAll ops .init) = usageOf (ops.filterMap event).reverse ∧
      entity (applyAll ops .init) = entityOf (ops.filterMap event).reverse := by
  induction ops using List.reverseRecOn with
  | nil => exact ⟨husage, hentity⟩
  | append_singleton ops op ih =>
      obtain ⟨ihusage, ihentity⟩ := ih
      have happly : Mcp.applyAll (ops ++ [op]) .init = op.apply (Mcp.applyAll ops .init) := by
        rw [Mcp.applyAll, List.foldl_append]
        rfl
      rw [happly, List.filterMap_append, List.reverse_append]
      rcases h op (Mcp.applyAll ops .init) with
        ⟨hevent, husage', hentity'⟩ | ⟨e, hevent, husage', hentity'⟩
      · rw [husage', hentity', List.filterMap_cons_none hevent]
        exact ⟨ihusage, ihentity⟩
      · rw [hentity', List.filterMap_cons_some hevent]
        refine ⟨(husage' _ ihusage.symm).symm, ?_⟩
        rw [ihentity, ihusage]
        rfl

/-- **What the cache holds of every endpoint and area is the law of its
history**, after any operations on an empty cache. -/
theorem cache_law (ops : List CacheOp) :
    (∀ key, HistoryLaw (endpointHistory key ops) ((applyAll ops .init).endpoints.get? key)) ∧
    (∀ key, HistoryLaw (areaHistory key ops) ((applyAll ops .init).areas.get? key)) := by
  refine ⟨fun key => ?_, fun key => ?_⟩
  · rw [((refines_endpoint key).applyAll rfl rfl ops).2]
    exact historyLaw_entityOf _
  · rw [((refines_area key).applyAll rfl rfl ops).2]
    exact historyLaw_entityOf _

/-- A push under another usage is not seen: the config that changed it is
the last reset. -/
example : sinceReset
    [.push [⟨1, 0, []⟩], .config (some "light"), .push [⟨1, 7, []⟩], .config (some "shutter")] =
    [.config (some "light"), .push [⟨1, 0, []⟩]] := by decide

end Mcp

end Tydomio
