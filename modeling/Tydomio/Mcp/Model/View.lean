import Tydomio.Mcp.Model.Writes
import Tydomio.Model.Secrets

/-!
# The read tool

`mcp_server/view.py` and the `get_state` call of `mcp_server/tools.py`:
the items of the config in its order, the shutter groups, and the asked ids
that are not in the config. An item is what it shows before its state, with
the usage model and the entity that its state is read from.
-/

namespace Tydomio

open Common

namespace Mcp

/-! ## Texts -/

/-- `MAX_STRING`. -/
def maxString : ℕ := 64

/-- The characters of category `Cc` or `Cf`. -/
def isControlOrFormat (c : Char) : Bool :=
  let n := c.toNat
  n < 0x20 || (0x7F ≤ n && n ≤ 0x9F) || n = 0xAD || (0x600 ≤ n && n ≤ 0x605) || n = 0x61C ||
    n = 0x6DD || n = 0x70F || n = 0x890 || n = 0x891 || n = 0x8E2 || n = 0x180E ||
    (0x200B ≤ n && n ≤ 0x200F) || (0x202A ≤ n && n ≤ 0x202E) || (0x2060 ≤ n && n ≤ 0x2064) ||
    (0x2066 ≤ n && n ≤ 0x206F) || n = 0xFEFF || (0xFFF9 ≤ n && n ≤ 0xFFFB) || n = 0x110BD ||
    n = 0x110CD || (0x13430 ≤ n && n ≤ 0x1343F) || (0x1BCA0 ≤ n && n ≤ 0x1BCA3) ||
    (0x1D173 ≤ n && n ≤ 0x1D17A) || n = 0xE0001 || (0xE0020 ≤ n && n ≤ 0xE007F)

/-- `_WHITESPACE.sub(" ", text)`: `inRun` where the character before is
white space. -/
def collapseSpace (inRun : Bool) : List Char → List Char
  | [] => []
  | c :: cs =>
      if Text.isSpace c then
        if inRun then collapseSpace true cs else ' ' :: collapseSpace true cs
      else c :: collapseSpace false cs

/-- `sanitize`. -/
def sanitize (sameLetter : Char → Char → Bool) (secrets : Secrets) (text : String) : String :=
  let shown := text.toList.filter fun c => Text.isSpace c || !isControlOrFormat c
  let scrubbed := secrets.scrub sameLetter (Text.strip Text.isSpace (collapseSpace false shown))
  String.ofList
    (if scrubbed.length > maxString then scrubbed.take (maxString - 1) ++ ['…'] else scrubbed)

/-! ## Ids -/

/-- The id of an endpoint. -/
def endpointId (deviceId endpointId : ℤ) : String :=
  "e:" ++ toString deviceId ++ ":" ++ toString endpointId

/-- The id of an area. -/
def areaId (areaId : ℤ) : String := "a:" ++ toString areaId

/-- The id of a group. -/
def groupId (groupId : ℤ) : String := "g:" ++ toString groupId

/-! ## What is shown -/

/-- What `_item` shows of an endpoint or area. -/
structure Item where
  id : String
  name : String
  kind : String
  /-- What its state is read with: the model of its usage, if there is one,
  and its entity. -/
  reads : Option (UsageModel × Entity)

/-- A group, as it is shown. -/
structure GroupItem where
  id : String
  name : String
  groupAll : Bool
  deriving DecidableEq

/-- The output of `get_state`. -/
structure StateResult where
  connection : Connection
  synced : Bool
  syncedAt : Option DateTime
  items : List Item
  /-- Shown with the write tools, where no ids are asked. -/
  groups : Option (List GroupItem)
  unknownIds : List String

section GetState

variable (sameLetter : Char → Char → Bool) (cache : Cache) (secrets : Secrets)

/-- `_item`. -/
def item (itemId name kind : String) (modelType : Option UsageModel) (entity : Entity) : Item :=
  ⟨itemId, sanitize sameLetter secrets name, sanitize sameLetter secrets kind,
    modelType.map fun model => (model, entity)⟩

/-- The item of an endpoint. -/
def endpointItem (endpoint : ConfigEndpoint) : Item :=
  item sameLetter secrets (endpointId endpoint.idDevice endpoint.idEndpoint) endpoint.name
    endpoint.lastUsage (usages.get? endpoint.lastUsage)
    ((cache.endpoints.get? (endpoint.idDevice, endpoint.idEndpoint)).getD .empty)

/-- The item of an area. -/
def areaItem (area : ConfigArea) : Item :=
  item sameLetter secrets (areaId area.id) area.name "area" (some .area)
    ((cache.areas.get? area.id).getD .empty)

/-- A shutter group. -/
def groupItem (group : ConfigGroup) : GroupItem :=
  ⟨groupId group.id, sanitize sameLetter secrets group.name, group.groupAll⟩

/-- **`get_state`.** -/
def getState (ids : Option (List String)) (withGroups : Bool) : StateResult :=
  let endpoints := (cache.config.map Config.endpoints).getD []
  let areas := (cache.config.map Config.areas).getD []
  let items := endpoints.map (endpointItem sameLetter cache secrets) ++
    areas.map (areaItem sameLetter cache secrets)
  { connection := cache.connection
    synced := cache.synced
    syncedAt := cache.syncedAt
    items := items.filter fun item => ids.all (item.id ∈ ·)
    groups :=
      if withGroups && ids.isNone then
        some ((((cache.config.map Config.groups).getD []).filter (·.usage = "shutter")).map
          (groupItem sameLetter secrets))
      else none
    -- a group is no item
    unknownIds := (ids.getD []).filter (· ∉ items.map Item.id) }

end GetState

/-! ## The call -/

/-- `ID_PATTERN`: an endpoint or an area. -/
def idPattern (text : String) : Bool :=
  match Target.parse text with
  | some (.endpoint _ _) | some (.area _) => true
  | _ => false

/-- A text. -/
def textOf : JsonValue → Option String
  | .str text => some text
  | _ => none

/-- `GetStateInput.model_validate`: the ids, none where they are
omitted. -/
def GetStateInput.modelValidate (arguments : Dict String JsonValue) : Option (List String) :=
  if arguments.keys.all (· ∈ ["ids"]) then
    match arguments.get? "ids" with
    | none => some []
    | some (.list items) =>
        (items.mapM textOf).filter fun ids =>
          1 ≤ ids.length && ids.length ≤ 50 && ids.all idPattern && decide ids.Nodup
    | _ => none
  else none

/-- The `get_state` call of a server, `none` for `INVALID_INPUT`. -/
def callGetState (sameLetter : Char → Char → Bool) (cache : Cache) (secrets : Secrets)
    (writes : Bool) (arguments : Dict String JsonValue) : Option StateResult :=
  (GetStateInput.modelValidate arguments).map fun ids =>
    getState sameLetter cache secrets (if ids = [] then none else some ids) writes

end Mcp

end Tydomio
