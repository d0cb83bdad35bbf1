import Tydomio.Model.Installation

/-!
# The cache

`mcp_server/cache.py`: the raw data of the endpoints and areas of the
config, by id, with its freshness. Endpoints and areas are kept the same
way, under different keys: each operation on one or the other is the same
function of the usages, the items and the entities.
-/

namespace Tydomio

open Common

namespace Mcp

/-- A moment, in seconds. -/
abbrev DateTime : Type := ℚ

/-- `Connection`. -/
inductive Connection where
  | connecting
  | connected
  | disconnected
  deriving DecidableEq

/-- `Entity`: the cached fields of one endpoint or area, by Tydom name. -/
structure Entity where
  fields : Dict String Data
  error : ℤ
  invalid : Bool
  deriving DecidableEq

/-- `Entity({})`. -/
def Entity.empty : Entity := ⟨∅, 0, false⟩

/-- `Entity({}, invalid=True)`. -/
def Entity.invalidState : Entity := ⟨∅, 0, true⟩

/-- `_merge`. -/
def Entity.merge (entity : Entity) (item : DataEndpoint) : Entity :=
  ⟨item.data.foldl (fun fields field => fields.set field.name field) entity.fields, item.error,
    false⟩

section Entities

variable {K : Type} [DecidableEq K] (usages : Dict K String)

/-- What `apply_config` keeps of the entities. -/
def keepEntities (old : Dict K String) (entities : Dict K Entity) : Dict K Entity :=
  entities.filter fun key _ => usages.get? key = old.get? key ∧ usages.contains key

/-- The entities of a snapshot: the last item of a key counts, and an
invalid key has no fields. -/
def replaceEntities (items : List (K × DataEndpoint)) (invalid : List K) : Dict K Entity :=
  let entities := Dict.upsertAll usages.contains (fun _ item => Entity.empty.merge item) items ∅
  Dict.upsertAll usages.contains (fun _ _ => Entity.invalidState)
    (invalid.map fun key => (key, ())) entities

/-- The entities after a push: each item is merged into the entity of its
key, or into a new one. -/
def mergeEntities (items : List (K × DataEndpoint)) (entities : Dict K Entity) : Dict K Entity :=
  Dict.upsertAll usages.contains (fun entity item => (entity.getD .empty).merge item) items entities

end Entities

/-- The endpoints of devices data, with their keys. -/
def deviceItems (data : DevicesData) : List ((ℤ × ℤ) × DataEndpoint) :=
  data.flatMap fun item => item.endpoints.map fun endpoint => ((item.id, endpoint.id), endpoint)

/-- The areas of areas data, with their keys. -/
def areaItems (data : AreasData) : List (ℤ × DataEndpoint) := data.map fun item => (item.id, item)

/-- **`Cache`.** -/
structure Cache where
  config : Option Config
  installation : Option Installation
  endpoints : Dict (ℤ × ℤ) Entity
  areas : Dict ℤ Entity
  connection : Connection
  synced : Bool
  syncedAt : Option DateTime
  /-- `_endpoint_usages`. -/
  endpointUsages : Dict (ℤ × ℤ) String
  /-- `_area_usages`. -/
  areaUsages : Dict ℤ String

namespace Cache

/-- `__init__`. -/
def init : Cache := ⟨none, none, ∅, ∅, .connecting, false, none, ∅, ∅⟩

variable (cache : Cache)

/-- `fresh`. -/
def fresh : Bool := cache.connection = .connected && cache.synced

/-- `apply_config`. -/
def applyConfig (config : Config) : Cache :=
  { cache with
    endpoints := keepEntities config.endpointUsages cache.endpointUsages cache.endpoints
    areas := keepEntities config.areaUsages cache.areaUsages cache.areas
    endpointUsages := config.endpointUsages
    areaUsages := config.areaUsages
    config := some config
    installation := some (.fromConfig config) }

/-- `replace_devices`. -/
def replaceDevices (data : DevicesData) (invalid : List (ℤ × ℤ)) : Cache :=
  { cache with endpoints := replaceEntities cache.endpointUsages (deviceItems data) invalid }

/-- `replace_areas`. -/
def replaceAreas (data : AreasData) (invalid : List ℤ) : Cache :=
  { cache with areas := replaceEntities cache.areaUsages (areaItems data) invalid }

/-- `merge_devices`. -/
def mergeDevices (data : DevicesData) : Cache :=
  { cache with
    endpoints := mergeEntities cache.endpointUsages (deviceItems data) cache.endpoints }

/-- `merge_areas`. -/
def mergeAreas (data : AreasData) : Cache :=
  { cache with areas := mergeEntities cache.areaUsages (areaItems data) cache.areas }

/-- `mark_connected`. -/
def markConnected : Cache := { cache with connection := .connected }

/-- `mark_synced`. -/
def markSynced (now : DateTime) : Cache := { cache with synced := true, syncedAt := some now }

/-- `mark_disconnected`. -/
def markDisconnected : Cache := { cache with connection := .disconnected, synced := false }

end Cache

/-- The operations on a cache's data. -/
inductive CacheOp where
  | applyConfig (config : Config)
  | replaceDevices (data : DevicesData) (invalid : List (ℤ × ℤ))
  | mergeDevices (data : DevicesData)
  | replaceAreas (data : AreasData) (invalid : List ℤ)
  | mergeAreas (data : AreasData)

/-- The cache after an operation. -/
def CacheOp.apply : CacheOp → Cache → Cache
  | applyConfig config, cache => cache.applyConfig config
  | replaceDevices data invalid, cache => cache.replaceDevices data invalid
  | mergeDevices data, cache => cache.mergeDevices data
  | replaceAreas data invalid, cache => cache.replaceAreas data invalid
  | mergeAreas data, cache => cache.mergeAreas data

/-- The cache after operations, the first of the list first. -/
def applyAll (ops : List CacheOp) (cache : Cache) : Cache :=
  ops.foldl (fun cache op => op.apply cache) cache

end Mcp

end Tydomio
