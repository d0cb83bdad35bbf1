import Tydomio.Mcp.Model.Cache

/-!
# What the cache holds of a key, from its history

The purpose of the cache, stated of one key and apart from how the cache
computes it: from the configs, snapshots and pushes that concerned the key,
what is held of it now. A history is read newest event first.
-/

namespace Tydomio

open Common

namespace Mcp

/-- **What an operation is to a key**: a config and the usage it gives the
key, a snapshot with the key's items and whether it lists the key as
invalid, a push with the key's items. -/
inductive KeyEvent where
  | config (usage : Option String)
  | snapshot (items : List DataEndpoint) (invalid : Bool)
  | push (items : List DataEndpoint)
  deriving DecidableEq

namespace KeyEvent

/-- The event says something of the key's data. -/
def mentions : KeyEvent → Bool
  | config _ => false
  | snapshot items invalid => items ≠ [] || invalid
  | push items => items ≠ []

/-- The items of the event that count: of a snapshot the last, and none
where it lists the key as invalid. -/
def counted : KeyEvent → List DataEndpoint
  | config _ => []
  | snapshot items invalid => if invalid then [] else items.getLast?.toList
  | push items => items

end KeyEvent

/-- The usage of the key in the current config. -/
def usageOf : List KeyEvent → Option String
  | [] => none
  | .config usage :: _ => usage
  | _ :: history => usageOf history

@[simp] theorem usageOf_snapshot (items : List DataEndpoint) (invalid : Bool)
    (history : List KeyEvent) :
    usageOf (.snapshot items invalid :: history) = usageOf history := rfl

@[simp] theorem usageOf_push (items : List DataEndpoint) (history : List KeyEvent) :
    usageOf (.push items :: history) = usageOf history := rfl

/-- **A reset of the key**: a config that lacks it or gives it another usage
than the config before, or a snapshot. -/
def isReset (history : List KeyEvent) : KeyEvent → Bool
  | .config usage => usage = none || usage ≠ usageOf history
  | .snapshot .. => true
  | .push _ => false

/-- The events since the last reset, it included, that were applied while
the key was configured, oldest first. -/
def sinceReset : List KeyEvent → List KeyEvent
  | [] => []
  | event :: history =>
      let applied := if (usageOf history).isSome then [event] else []
      if isReset history event then applied else sinceReset history ++ applied

/-- The datum of the last item that names a field. -/
def lastDatum (name : String) (items : List DataEndpoint) : Option Data :=
  (items.flatMap DataEndpoint.data).reverse.find? fun field => field.name = name

/-- **What is to be held of a key** that is configured or not, after events
since its last reset. -/
structure KeyLaw (configured : Bool) (events : List KeyEvent) (entity : Option Entity) :
    Prop where
  /-- An entity is held of a configured key that was mentioned. -/
  held : entity.isSome = true ↔
    configured = true ∧ ∃ event ∈ events, event.mentions = true
  /-- Each field is the datum of the last item naming it. -/
  fields : ∀ x, entity = some x → ∀ name,
    x.fields.get? name = lastDatum name (events.flatMap KeyEvent.counted)
  /-- The error is that of the last item. -/
  error : ∀ x, entity = some x →
    x.error = (((events.flatMap KeyEvent.counted).getLast?).map DataEndpoint.error).getD 0
  /-- The entity is invalid while a snapshot that listed the key as invalid
  is the last to mention it. -/
  invalid : ∀ x, entity = some x →
    (x.invalid = true ↔ ∃ items later, events = .snapshot items true :: later ∧
      ∀ event ∈ later, event.mentions = false)
  /-- An invalid entity has no fields. -/
  noFields : ∀ x, entity = some x → x.invalid = true → x.fields = ∅

/-- **The law of a key's history.** -/
def HistoryLaw (history : List KeyEvent) (entity : Option Entity) : Prop :=
  KeyLaw (usageOf history).isSome (sinceReset history) entity

/-! ## The history of a key in the operations of a cache -/

section Events

variable {K : Type} [DecidableEq K] (key : K) (items : List (K × DataEndpoint))

/-- What a snapshot is to a key. -/
def snapshotEvent (invalid : List K) : KeyEvent :=
  .snapshot (Dict.itemsOf key items) (decide (key ∈ invalid))

/-- What a push is to a key. -/
def pushEvent : KeyEvent := .push (Dict.itemsOf key items)

end Events

/-- What an operation is to an endpoint. -/
def CacheOp.endpointEvent (key : ℤ × ℤ) : CacheOp → Option KeyEvent
  | applyConfig config => some (.config (config.endpointUsages.get? key))
  | replaceDevices data invalid => some (snapshotEvent key (deviceItems data) invalid)
  | mergeDevices data => some (pushEvent key (deviceItems data))
  | _ => none

/-- What an operation is to an area. -/
def CacheOp.areaEvent (key : ℤ) : CacheOp → Option KeyEvent
  | applyConfig config => some (.config (config.areaUsages.get? key))
  | replaceAreas data invalid => some (snapshotEvent key (areaItems data) invalid)
  | mergeAreas data => some (pushEvent key (areaItems data))
  | _ => none

/-- The history of an endpoint, newest event first. -/
def endpointHistory (key : ℤ × ℤ) (ops : List CacheOp) : List KeyEvent :=
  (ops.filterMap (CacheOp.endpointEvent key)).reverse

/-- The history of an area. -/
def areaHistory (key : ℤ) (ops : List CacheOp) : List KeyEvent :=
  (ops.filterMap (CacheOp.areaEvent key)).reverse

end Mcp

end Tydomio
