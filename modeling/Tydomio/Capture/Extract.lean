import Tydomio.Capture.Model.Extract
import Tydomio.Capture.Policies

/-!
# The catalog of an anonymized capture

Anonymizing keeps every key the catalog reads, keeps the leaves it reads of
a descriptor, and numbers the ids alike wherever they stand. So each shape
reads from a document rewritten what it reads from the document, up to the
numbers of the ids (`Survives`), and the join of the config with the
descriptors gives the same entries.
-/

namespace Tydomio

open Common

namespace Capture

/-! ## Nodes of a body -/

section NodeOf

variable {body value : JsonValue} {path : List Step} {dicts : List (List (String × JsonValue))}

/-- **A node of a body**: its places are places of the body. -/
def NodeOf (body : JsonValue) (path : List Step) (dicts : List (List (String × JsonValue)))
    (value : JsonValue) : Prop :=
  ∀ place ∈ places path dicts value, place ∈ places [] [] body

theorem mem_placesItems {items : List JsonValue} (h : value ∈ items) {place : Place}
    (hplace : place ∈ places (path ++ [.item]) dicts value) :
    place ∈ placesItems path dicts items := by
  induction items with
  | nil => exact absurd h List.not_mem_nil
  | cons item items ih =>
      rw [placesItems]
      rcases List.mem_cons.1 h with rfl | h
      · exact List.mem_append_left _ hplace
      · exact List.mem_append_right _ (ih h)

theorem mem_placesKeys {items : List (String × JsonValue)} {key : String}
    (h : items.lookup key = some value) {place : Place}
    (hplace : place ∈ places (path ++ [.key key]) dicts value) :
    place ∈ placesKeys path dicts items := by
  induction items with
  | nil => cases h
  | cons item items ih =>
      rw [Dict.lookup_cons_eq] at h
      rw [placesKeys]
      refine List.mem_cons_of_mem _ ?_
      split at h
      · rename_i hkey
        cases h
        rw [← hkey]
        exact List.mem_append_left _ hplace
      · exact List.mem_append_right _ (ih h)

/-- An item of a list. -/
theorem NodeOf.item {items : List JsonValue} (h : NodeOf body path dicts (.list items))
    (hvalue : value ∈ items) : NodeOf body (path ++ [.item]) dicts value :=
  fun _ hplace => h _ (mem_placesItems hvalue hplace)

/-- The value under a key. -/
theorem NodeOf.field {items : List (String × JsonValue)} {key : String}
    (h : NodeOf body path dicts (.dict items)) (hvalue : items.lookup key = some value) :
    NodeOf body (path ++ [.key key]) (dicts ++ [items]) value :=
  fun _ hplace => h _ (mem_placesKeys hvalue hplace)

/-- A leaf. -/
theorem NodeOf.leaf (h : NodeOf body path dicts value) (hleaf : value.isLeaf = true) :
    ⟨path, dicts, value⟩ ∈ leaves body := by
  refine List.mem_filterMap.2 ⟨.leaf ⟨path, dicts, value⟩, h _ ?_, rfl⟩
  rw [places_leaf hleaf]
  exact List.mem_cons_self

end NodeOf

/-! ## What is read of a body rewritten -/

/-- **A rewriting under which models are read**: an identifier stays, and
nothing else becomes it; nulls stay. -/
structure Rewrite.KeepsNames (r : Rewrite) : Prop where
  key : ∀ path key key', isIdentifier key = true → (r.key path key' = key ↔ key' = key)
  null : ∀ path dicts, r.leaf ⟨path, dicts, .null⟩ = .null

theorem Rewrite.KeepsNames.lookup_fields {r : Rewrite} (h : r.KeepsNames) {key : String}
    (hkey : isIdentifier key = true) (path : List Step)
    (dicts : List (List (String × JsonValue))) (items : List (String × JsonValue)) :
    (r.fields path dicts items).lookup key =
      (items.lookup key).map (r.node (path ++ [.key key]) dicts) := by
  induction items with
  | nil => rfl
  | cons item items ih =>
      rw [Rewrite.fields, Dict.lookup_cons_eq, Dict.lookup_cons_eq, ih]
      by_cases hname : key = item.1
      · rw [if_pos hname, if_pos ((h.key path key item.1 hkey).2 hname.symm).symm, ← hname]
        rfl
      · rw [if_neg hname, if_neg fun hout => hname ((h.key path key item.1 hkey).1 hout.symm).symm]

section Survives

variable {α : Type}

/-- **What is read of a node is read of it rewritten**, up to a relation: of
each node of a body at a path that is read as what has a property. -/
def Survives (r : Rewrite) (body : JsonValue) (path : List Step) (P : α → Prop)
    (R : α → α → Prop) (read : JsonValue → Option α) : Prop :=
  ∀ dicts value, NodeOf body path dicts value → ∀ x, read value = some x → P x →
    ∃ x', read (r.node path dicts value) = some x' ∧ R x x'

/-- The same of what is read of the fields of an object. -/
def FieldSurvives (r : Rewrite) (body : JsonValue) (path : List Step) (P : α → Prop)
    (R : α → α → Prop) (read : List (String × JsonValue) → Option α) : Prop :=
  ∀ dicts items, NodeOf body path dicts (.dict items) → ∀ x, read items = some x → P x →
    ∃ x', read (r.fields path (dicts ++ [items]) items) = some x' ∧ R x x'

/-- The same is read. -/
def Stays (r : Rewrite) (body : JsonValue) (path : List Step) (read : JsonValue → Option α) :
    Prop :=
  Survives r body path (fun _ => True) Eq read

/-- The same is read of the fields. -/
def FieldStays (r : Rewrite) (body : JsonValue) (path : List Step)
    (read : List (String × JsonValue) → Option α) : Prop :=
  FieldSurvives r body path (fun _ => True) Eq read

variable {r : Rewrite} {body : JsonValue} {path : List Step} {P : α → Prop} {R : α → α → Prop}
  {read : JsonValue → Option α}

theorem FieldStays.eq {read : List (String × JsonValue) → Option α}
    (h : FieldStays r body path read) {dicts : List (List (String × JsonValue))}
    {items : List (String × JsonValue)} (hnode : NodeOf body path dicts (.dict items)) {x : α}
    (hx : read items = some x) : read (r.fields path (dicts ++ [items]) items) = some x := by
  obtain ⟨x', hx', rfl⟩ := h dicts items hnode x hx trivial
  exact hx'

theorem FieldStays.of_eq {read : List (String × JsonValue) → Option α}
    (h : ∀ dicts items, NodeOf body path dicts (.dict items) → ∀ x, read items = some x →
      read (r.fields path (dicts ++ [items]) items) = some x) : FieldStays r body path read :=
  fun dicts items hnode x hx _ => ⟨x, h dicts items hnode x hx, rfl⟩

theorem Survives.of_imp {P' : α → Prop} (h : Survives r body path P R read)
    (himp : ∀ x, P' x → P x) : Survives r body path P' R read :=
  fun dicts value hnode x hx hP' => h dicts value hnode x hx (himp x hP')

/-- A model survives with its fields. -/
theorem FieldSurvives.model {read : List (String × JsonValue) → Option α}
    (h : FieldSurvives r body path P R read) : Survives r body path P R (readModel read) := by
  intro dicts value hnode x hx hP
  cases value with
  | dict items =>
      rw [Rewrite.node]
      exact h dicts items hnode x hx hP
  | _ => cases hx

/-- A list survives with its items. -/
theorem Survives.list (h : Survives r body (path ++ [.item]) P R read) :
    Survives r body path (fun xs => ∀ x ∈ xs, P x) (List.Forall₂ R) (readList read) := by
  intro dicts value hnode xs hxs hP
  cases value with
  | list items =>
      have hitems : ∀ item ∈ items, NodeOf body (path ++ [.item]) dicts item :=
        fun item hitem => hnode.item hitem
      clear hnode
      rw [Rewrite.node, readList]
      rw [readList] at hxs
      induction items generalizing xs with
      | nil =>
          cases hxs
          exact ⟨[], rfl, .nil⟩
      | cons item items ih =>
          simp only [List.mapM_cons, Option.bind_eq_bind, Option.bind_eq_some_iff,
            Option.pure_def, Option.some.injEq] at hxs
          obtain ⟨x, hx, rest, hrest, rfl⟩ := hxs
          obtain ⟨hfirst, hothers⟩ := List.forall_mem_cons.1 hitems
          obtain ⟨hPfirst, hPothers⟩ := List.forall_mem_cons.1 hP
          obtain ⟨x', hx', hR⟩ := h dicts item hfirst x hx hPfirst
          obtain ⟨rest', hrest', hRrest⟩ := ih rest hPothers hrest hothers
          refine ⟨x' :: rest', ?_, .cons hR hRrest⟩
          rw [Rewrite.items', List.mapM_cons, hx', hrest']
          rfl
  | _ => cases hxs

/-- So the same list is read. -/
theorem Stays.list (h : Stays r body (path ++ [.item]) read) :
    Stays r body path (readList read) := by
  intro dicts value hnode xs hxs _
  obtain ⟨xs', hxs', hR⟩ := Survives.list h dicts value hnode xs hxs fun _ _ => trivial
  rw [List.forall₂_eq_eq_eq] at hR
  exact ⟨xs', hxs', hR⟩

/-- An empty list stays, whatever its items would be read as. -/
theorem survives_nil : Survives r body path (· = []) Eq (readList read) := by
  intro dicts value _ xs hxs hnil
  cases value with
  | list items =>
      cases items with
      | nil => exact ⟨xs, hxs, rfl⟩
      | cons item items =>
          rw [hnil, readList, List.mapM_cons] at hxs
          simp only [Option.bind_eq_bind, Option.bind_eq_some_iff, Option.pure_def,
            Option.some.injEq] at hxs
          obtain ⟨_, _, _, _, hcons⟩ := hxs
          cases hcons
  | _ => cases hxs

theorem readOptional_of_ne_null {value : JsonValue} (h : value ≠ .null) :
    readOptional read value = (read value).map some := by
  cases value with
  | null => exact absurd rfl h
  | _ => rfl

variable (hr : r.KeepsNames)

include hr

/-- What may be null stays with what is not. -/
theorem Stays.optional (h : Stays r body path read) (hread : read .null = none) :
    Stays r body path (readOptional read) := by
  intro dicts value hnode found hfound _
  by_cases hnull : value = .null
  · rw [hnull] at hfound ⊢
    refine ⟨found, ?_, rfl⟩
    rw [Rewrite.node_leaf r rfl, hr.null]
    exact hfound
  · rw [readOptional_of_ne_null hnull, Option.map_eq_some_iff] at hfound
    obtain ⟨x, hx, rfl⟩ := hfound
    obtain ⟨x', hx', rfl⟩ := h dicts value hnode x hx trivial
    refine ⟨some x, ?_, rfl⟩
    rw [readOptional_of_ne_null fun hout => ?_, hx', Option.map_some]
    rw [hout, hread] at hx'
    cases hx'

/-- **A field survives with the value under its key.** -/
theorem Survives.field {key : String} (h : Survives r body (path ++ [.key key]) P R read)
    (hkey : isIdentifier key = true) {default : Option α} (hdefault : ∀ d ∈ default, R d d) :
    FieldSurvives r body path P R (readField read default key) := by
  intro dicts items hnode x hx hP
  rw [readField] at hx ⊢
  rw [hr.lookup_fields hkey]
  cases hvalue : items.lookup key with
  | none =>
      rw [hvalue] at hx
      exact ⟨x, hx, hdefault x hx⟩
  | some value =>
      rw [hvalue] at hx
      exact h _ value (hnode.field hvalue) x hx hP

theorem Stays.field {key : String} (h : Stays r body (path ++ [.key key]) read)
    (hkey : isIdentifier key = true) (default : Option α) :
    FieldStays r body path (readField read default key) :=
  Survives.field hr h hkey fun _ _ => rfl

end Survives

/-! ## What anonymizing keeps -/

section Scalars

variable {lax : LaxNumbers} {value : JsonValue}

/-- What is read as a text, an integer or a number is no container. -/
theorem isLeaf_of_readStr {text : String} (h : readStr value = some text) :
    value.isLeaf = true := by
  cases value with
  | str text => rfl
  | _ => cases h

theorem isLeaf_of_readInt {n : ℤ} (h : readInt lax value = some n) : value.isLeaf = true := by
  cases value with
  | list items => cases h
  | dict items => cases h
  | _ => rfl

theorem isLeaf_of_readNumber {number : Number} (h : readNumber lax value = some number) :
    value.isLeaf = true := by
  cases value with
  | list items => cases h
  | dict items => cases h
  | _ => rfl

theorem eq_int_of_jsonTypeOf (h : jsonTypeOf value = some .int) : ∃ n, value = .int n := by
  cases value with
  | int n => exact ⟨n, rfl⟩
  | _ => cases h

end Scalars

/-- **A url as the catalog expects it**: its body came with status 200, its
kept leaves pass and its ids are integers. -/
structure Captured.Expected (capture : Captured) (url : String) : Prop where
  status : capture.statuses.get? url = some 200
  keep : ∀ body ∈ capture.bodies.get? url, ∀ leaf ∈ leaves body,
    ∀ rule ∈ leaf.rule (capture.policyOf url), rule.action = .keep →
      rule.keep.any (passes leaf.value) = true
  id : ∀ body ∈ capture.bodies.get? url, ∀ leaf ∈ leaves body,
    ∀ rule ∈ leaf.rule (capture.policyOf url), rule.action = .id →
      jsonTypeOf leaf.value = some .int

instance (capture : Captured) (url : String) : Decidable (capture.Expected url) :=
  decidable_of_iff (capture.statuses.get? url = some 200 ∧
    (∀ body ∈ capture.bodies.get? url, ∀ leaf ∈ leaves body,
      ∀ rule ∈ leaf.rule (capture.policyOf url), rule.action = .keep →
        rule.keep.any (passes leaf.value) = true) ∧
    ∀ body ∈ capture.bodies.get? url, ∀ leaf ∈ leaves body,
      ∀ rule ∈ leaf.rule (capture.policyOf url), rule.action = .id →
        jsonTypeOf leaf.value = some .int)
    ⟨fun h => ⟨h.1, h.2.1, h.2.2⟩, fun h => ⟨h.status, h.keep, h.id⟩⟩

/-- **An id and its number.** -/
def Numbered (capture : Captured) (n m : ℤ) : Prop :=
  toString n ∈ capture.trail.filterMap Stop.idText ∧ m = idNumber capture.trail (toString n)

theorem biUnique_numbered (capture : Captured) : Relator.BiUnique (Numbered capture) := by
  refine ⟨?_, ?_⟩
  · rintro n m n' ⟨hn, rfl⟩ ⟨-, heq⟩
    rw [Nat.cast_inj] at heq
    exact Text.intText_injective ((number_inj hn).1 heq)
  · rintro n m m' ⟨-, rfl⟩ ⟨-, rfl⟩
    rfl

theorem outLeaf_null (trail : List Stop) (texts : Texts)
    (descriptors : Dict String DescriptorIndex) (url : String) (policy : EndpointPolicy)
    (path : List Step) (dicts : List (List (String × JsonValue))) :
    outLeaf trail texts descriptors url policy ⟨path, dicts, .null⟩ = .null := by
  unfold outLeaf
  split
  · rfl
  · split
    · exact ite_self _
    · rfl
    · rfl
    · rfl
    · rfl

section Kept

variable {capture : Captured} {texts : Texts} {url : String} {policy : EndpointPolicy}
  {body : JsonValue} {path : List Step}

/-- No key of a policy without opaque paths is opaque. -/
theorem isOpaque_along (h : policy.opaquePaths = []) (path : List Step) :
    (Position.along policy path).isOpaque = false := by
  have hnoPaths : ∀ text ∈ policy.opaquePaths, parsePath text ≠ [] := by
    rw [h]
    exact fun text htext => absurd htext List.not_mem_nil
  rw [← Bool.not_eq_true, (at_along hnoPaths path).isOpaque, h]
  simp

theorem keeps_of_isIdentifier (h : policy.opaquePaths = []) {key : String}
    (hkey : isIdentifier key = true) : (Position.along policy path).keeps key = true := by
  rw [Position.keeps, isOpaque_along h, hkey]
  exact Bool.or_true _

/-- **Identifiers and nulls stay**, in a policy without opaque paths. -/
theorem keepsNames_rewrite (h : (capture.policyOf url).opaquePaths = []) :
    (capture.rewrite texts url).KeepsNames where
  key path key key' hkey := by
    have hkeeps := @keeps_of_isIdentifier (capture.policyOf url) path h key hkey
    show outKey capture.trail (capture.policyOf url) path key' = key ↔ key' = key
    unfold outKey
    split
    · exact Iff.rfl
    · rename_i hrenamed
      refine iff_of_false (fun heq => ?_) ?_
      · exact ne_keyToken_of_keeps (capture.namesNoToken_policyOf url) hkeeps _ heq.symm
      · rintro rfl
        exact hrenamed hkeeps
  null path dicts := outLeaf_null _ _ _ _ _ path dicts

variable (hexpected : capture.Expected url) (hbody : capture.bodies.get? url = some body)

include hexpected hbody

/-- **What is read of kept leaves stays.** -/
theorem stays_of_keep {α : Type} {read : JsonValue → Option α}
    (hact : Acts (capture.policyOf url) path .keep)
    (hread : ∀ value x, read value = some x → value.isLeaf = true) :
    Stays (capture.rewrite texts url) body path read := by
  intro dicts value hnode x hx _
  have hleaf := hread value x hx
  obtain ⟨rule, hact, haction⟩ := hact
  have hrule : Leaf.rule (capture.policyOf url) ⟨path, dicts, value⟩ = some rule := hact
  have hout : (capture.rewrite texts url).leaf ⟨path, dicts, value⟩ = value :=
    (outLeaf_of_keep hrule haction).trans
      (if_pos (hexpected.keep body hbody _ (hnode.leaf hleaf) rule hrule haction))
  refine ⟨x, ?_, rfl⟩
  rw [Rewrite.node_leaf _ hleaf, hout]
  exact hx

/-- **An id survives as its number.** -/
theorem survives_of_id (lax : LaxNumbers) (hact : Acts (capture.policyOf url) path .id) :
    Survives (capture.rewrite texts url) body path (fun _ => True) (Numbered capture)
      (readInt lax) := by
  intro dicts value hnode n hn _
  obtain ⟨rule, hact, haction⟩ := hact
  have hrule : Leaf.rule (capture.policyOf url) ⟨path, dicts, value⟩ = some rule := hact
  have hmem := hnode.leaf (isLeaf_of_readInt hn)
  obtain ⟨m, rfl⟩ := eq_int_of_jsonTypeOf (hexpected.id body hbody _ hmem rule hrule haction)
  cases hn
  have hout : (capture.rewrite texts url).leaf ⟨path, dicts, .int n⟩ =
      .int (idNumber capture.trail (toString n)) := outLeaf_of_id hrule haction
  have hid : Stop.idText ⟨url, capture.policyOf url, .leaf ⟨path, dicts, .int n⟩⟩ =
      some (toString n) := by
    simp only [Stop.idText, hrule, Option.bind_some, if_pos haction]
    rfl
  refine ⟨idNumber capture.trail (toString n), ?_, ?_, rfl⟩
  · rw [Rewrite.node_leaf _ rfl, hout]
    rfl
  · have htrail := capture.mem_trail hbody (place_of_mem_leaves hmem)
    exact List.mem_filterMap.2 ⟨_, htrail, hid⟩

end Kept

/-! ## What the shapes read -/

/-- Two endpoints that differ in the numbers of their ids. -/
structure EndpointAlike (capture : Captured) (endpoint endpoint' : MetaEndpoint) : Prop where
  id : Numbered capture endpoint.id endpoint'.id
  metadata : endpoint.metadata = endpoint'.metadata
  cmetadata : endpoint.cmetadata = endpoint'.cmetadata

/-- Two devices that do. -/
structure DeviceAlike (capture : Captured) (device device' : MetaDevice) : Prop where
  id : Numbered capture device.id device'.id
  endpoints : List.Forall₂ (EndpointAlike capture) device.endpoints device'.endpoints

/-- Two endpoints of the config that do. -/
structure UsageAlike (capture : Captured) (endpoint endpoint' : UsageEndpoint) : Prop where
  idDevice : Numbered capture endpoint.idDevice endpoint'.idDevice
  idEndpoint : Numbered capture endpoint.idEndpoint endpoint'.idEndpoint
  lastUsage : endpoint.lastUsage = endpoint'.lastUsage

section Shapes

variable (lax : LaxNumbers) {capture : Captured} {texts : Texts} {url : String}
  {body : JsonValue} {path : List Step}
  (hnoPaths : (capture.policyOf url).opaquePaths = []) (hexpected : capture.Expected url)
  (hbody : capture.bodies.get? url = some body)

include hnoPaths hexpected hbody

/-- **A descriptor stays.** -/
theorem stays_readDescriptor (hrules : DescriptorRead (capture.policyOf url) path) :
    Stays (capture.rewrite texts url) body path (readDescriptor lax) := by
  have hnames := @keepsNames_rewrite capture texts url hnoPaths
  have htext : ∀ key ∈ descriptorKeys,
      Stays (capture.rewrite texts url) body (path ++ [.key key]) readStr :=
    fun key hkey =>
      stays_of_keep hexpected hbody (hrules.field key hkey) fun _ _ => isLeaf_of_readStr
  have hnumber : ∀ key ∈ descriptorKeys,
      Stays (capture.rewrite texts url) body (path ++ [.key key]) (readNumber lax) :=
    fun key hkey =>
      stays_of_keep hexpected hbody (hrules.field key hkey) fun _ _ => isLeaf_of_readNumber
  have hsize : Stays (capture.rewrite texts url) body (path ++ [.key "size"]) (readInt lax) :=
    stays_of_keep hexpected hbody (hrules.field "size" (by decide)) fun _ _ => isLeaf_of_readInt
  have henum : Stays (capture.rewrite texts url) body (path ++ [.key "enum_values"])
      (readList readStr) :=
    (stays_of_keep hexpected hbody hrules.enum fun _ _ => isLeaf_of_readStr).list
  refine FieldSurvives.model (FieldStays.of_eq fun dicts items hnode x hx => ?_)
  simp only [descriptorFieldsOf, Option.bind_eq_bind, Option.bind_eq_some_iff] at hx ⊢
  obtain ⟨name, hname, type, htype, permission, hpermission, validity, hvalidity, unit, hunit,
    min, hmin, max, hmax, step, hstep, size, hsize', enumValues, henumValues, hresult⟩ := hx
  refine ⟨name, ?_, type, ?_, permission, ?_, validity, ?_, unit, ?_, min, ?_, max, ?_, step, ?_,
    size, ?_, enumValues, ?_, hresult⟩
  · exact ((htext "name" (by decide)).field hnames rfl none).eq hnode hname
  · exact ((htext "type" (by decide)).field hnames rfl none).eq hnode htype
  · exact (((htext "permission" (by decide)).optional hnames rfl).field hnames rfl _).eq hnode
      hpermission
  · exact (((htext "validity" (by decide)).optional hnames rfl).field hnames rfl _).eq hnode
      hvalidity
  · exact (((htext "unit" (by decide)).optional hnames rfl).field hnames rfl _).eq hnode hunit
  · exact (((hnumber "min" (by decide)).optional hnames rfl).field hnames rfl _).eq hnode hmin
  · exact (((hnumber "max" (by decide)).optional hnames rfl).field hnames rfl _).eq hnode hmax
  · exact (((hnumber "step" (by decide)).optional hnames rfl).field hnames rfl _).eq hnode hstep
  · exact ((hsize.optional hnames rfl).field hnames rfl _).eq hnode hsize'
  · exact ((henum.optional hnames rfl).field hnames rfl _).eq hnode henumValues

/-- **A command stays.** -/
theorem stays_readCommand (hrules : CommandRead (capture.policyOf url) path) :
    Stays (capture.rewrite texts url) body path (readCommand lax) := by
  have hnames := @keepsNames_rewrite capture texts url hnoPaths
  have hparameters := (@stays_readDescriptor lax capture texts url body _ hnoPaths hexpected hbody
    hrules.parameters).list
  have hname' : Stays (capture.rewrite texts url) body (path ++ [.key "name"]) readStr :=
    stays_of_keep hexpected hbody hrules.name fun _ _ => isLeaf_of_readStr
  have hpermission' : Stays (capture.rewrite texts url) body (path ++ [.key "permission"])
      readStr :=
    stays_of_keep hexpected hbody hrules.permission fun _ _ => isLeaf_of_readStr
  refine FieldSurvives.model (FieldStays.of_eq fun dicts items hnode x hx => ?_)
  simp only [Option.bind_eq_bind, Option.bind_eq_some_iff] at hx ⊢
  obtain ⟨name, hname, permission, hpermission, parameters, hread, hresult⟩ := hx
  refine ⟨name, ?_, permission, ?_, parameters, ?_, hresult⟩
  · exact (hname'.field hnames rfl none).eq hnode hname
  · exact (hpermission'.field hnames rfl none).eq hnode hpermission
  · exact (hparameters.field hnames rfl _).eq hnode hread

variable {P : List Descriptor → Prop} {Q : List Command → Prop}

/-- **An endpoint survives** with its descriptors and its commands. -/
theorem survives_readMetaEndpoint (hid : Acts (capture.policyOf url) (path ++ [.key "id"]) .id)
    (hmetadata : Survives (capture.rewrite texts url) body (path ++ [.key "metadata"]) P Eq
      (readList (readDescriptor lax)))
    (hcmetadata : Survives (capture.rewrite texts url) body (path ++ [.key "cmetadata"]) Q Eq
      (readList (readCommand lax))) :
    Survives (capture.rewrite texts url) body path
      (fun endpoint => P endpoint.metadata ∧ Q endpoint.cmetadata) (EndpointAlike capture)
      (readMetaEndpoint lax) := by
  have hnames := @keepsNames_rewrite capture texts url hnoPaths
  refine FieldSurvives.model fun dicts items hnode endpoint hread hP => ?_
  simp only [Option.bind_eq_bind, Option.bind_eq_some_iff] at hread ⊢
  obtain ⟨id, hreadId, metadata, hreadMetadata, cmetadata, hreadCmetadata, hresult⟩ := hread
  cases hresult
  obtain ⟨id', hreadId', hnumber⟩ := (survives_of_id hexpected hbody lax hid).field hnames rfl
    (by nofun) dicts items hnode id hreadId trivial
  obtain ⟨_, hreadMetadata', rfl⟩ := hmetadata.field hnames rfl (fun _ _ => rfl) dicts items hnode
    metadata hreadMetadata hP.1
  obtain ⟨_, hreadCmetadata', rfl⟩ := hcmetadata.field hnames rfl (fun _ _ => rfl) dicts items
    hnode cmetadata hreadCmetadata hP.2
  exact ⟨⟨id', metadata, cmetadata⟩,
    ⟨id', hreadId', metadata, hreadMetadata', cmetadata, hreadCmetadata', rfl⟩, hnumber, rfl, rfl⟩

/-- **A device survives** with its endpoints. -/
theorem survives_readMetaDevice {P : MetaEndpoint → Prop}
    (hid : Acts (capture.policyOf url) (path ++ [.key "id"]) .id)
    (hendpoints : Survives (capture.rewrite texts url) body (path ++ [.key "endpoints"] ++ [.item])
      P (EndpointAlike capture) (readMetaEndpoint lax)) :
    Survives (capture.rewrite texts url) body path
      (fun device => ∀ endpoint ∈ device.endpoints, P endpoint) (DeviceAlike capture)
      (readMetaDevice lax) := by
  have hnames := @keepsNames_rewrite capture texts url hnoPaths
  refine FieldSurvives.model fun dicts items hnode device hread hP => ?_
  simp only [Option.bind_eq_bind, Option.bind_eq_some_iff] at hread ⊢
  obtain ⟨id, hreadId, endpoints, hreadEndpoints, hresult⟩ := hread
  cases hresult
  obtain ⟨id', hreadId', hnumber⟩ := (survives_of_id hexpected hbody lax hid).field hnames rfl
    (by nofun) dicts items hnode id hreadId trivial
  obtain ⟨endpoints', hreadEndpoints', halike⟩ := hendpoints.list.field hnames rfl (by nofun) dicts
    items hnode endpoints hreadEndpoints hP
  exact ⟨⟨id', endpoints'⟩, ⟨id', hreadId', endpoints', hreadEndpoints', rfl⟩, hnumber, halike⟩

/-- **An endpoint of the config survives.** -/
theorem survives_readUsageEndpoint
    (hidDevice : Acts (capture.policyOf url) (path ++ [.key "id_device"]) .id)
    (hidEndpoint : Acts (capture.policyOf url) (path ++ [.key "id_endpoint"]) .id)
    (hlastUsage : Acts (capture.policyOf url) (path ++ [.key "last_usage"]) .keep) :
    Survives (capture.rewrite texts url) body path (fun _ => True) (UsageAlike capture)
      (readUsageEndpoint lax) := by
  have hnames := @keepsNames_rewrite capture texts url hnoPaths
  refine FieldSurvives.model fun dicts items hnode endpoint hread _ => ?_
  simp only [Option.bind_eq_bind, Option.bind_eq_some_iff] at hread ⊢
  obtain ⟨idDevice, hreadDevice, idEndpoint, hreadEndpoint, lastUsage, hreadUsage, hresult⟩ := hread
  cases hresult
  obtain ⟨idDevice', hreadDevice', hdevice⟩ := (survives_of_id hexpected hbody lax hidDevice).field
    hnames rfl (by nofun) dicts items hnode idDevice hreadDevice trivial
  obtain ⟨idEndpoint', hreadEndpoint', hendpoint⟩ :=
    (survives_of_id hexpected hbody lax hidEndpoint).field hnames rfl (by nofun) dicts items
      hnode idEndpoint hreadEndpoint trivial
  have hstays := @stays_of_keep capture texts url body _ hexpected hbody _ readStr hlastUsage
    fun _ _ => isLeaf_of_readStr
  have hreadUsage' := (hstays.field hnames rfl none).eq hnode hreadUsage
  exact ⟨⟨idDevice', idEndpoint', lastUsage⟩,
    ⟨idDevice', hreadDevice', idEndpoint', hreadEndpoint', lastUsage, hreadUsage', rfl⟩,
    hdevice, hendpoint, rfl⟩

end Shapes

/-! ## The rules of the five urls -/

section Policies

open Rule

variable {capture : Captured} {url : String}

/-- A body that came with status 200 has the rules of its url. -/
theorem policyOf_of_status (hstatus : capture.statuses.get? url = some 200)
    {policy : EndpointPolicy} (hpolicy : policyTable.get? url = some policy) :
    capture.policyOf url = policy := by
  rw [Captured.policyOf, hpolicy]
  exact if_pos hstatus

/-- The id of a device is numbered. -/
theorem acts_deviceId {rules : List Rule} (hrules : Without anyKey rules)
    (hpolicy : capture.policyOf url = ⟨deviceIds ++ rules, []⟩) :
    Acts (capture.policyOf url) [.item, .key "id"] .id := by
  have hid : (tableOf deviceIds).lookup ["[]", "id"] = some (ofId "[].id") := rfl
  rw [hpolicy]
  exact acts_of_lookup ((without_deviceIds (.inr rfl)).append hrules) rfl
    (lookup_append_left rules hid) rfl

variable (hexpected : capture.Expected url) {body : JsonValue}
  (hbody : capture.bodies.get? url = some body) (lax : LaxNumbers) (texts : Texts)

include hexpected hbody

/-- **The config survives.** -/
theorem survives_config (hurl : url = "/configs/file") :
    Survives (capture.rewrite texts url) body [] (fun _ => True)
      (List.Forall₂ (UsageAlike capture)) (readConfig lax) := by
  have hpolicy : capture.policyOf url = configsFile :=
    policyOf_of_status hexpected.status (by rw [hurl]; rfl)
  have hrules : Without anyKey (capture.policyOf url).rules := by
    rw [hpolicy]
    exact without_configsFile (.inr rfl)
  have hnoPaths : (capture.policyOf url).opaquePaths = [] := by
    rw [hpolicy]
    rfl
  have hacts : ∀ {path : List Step} {rule : Rule},
      (tableOf configsFile.rules).lookup (path.map Step.text) = some rule →
        Acts (capture.policyOf url) path rule.action := by
    intro path rule hrule
    rw [← hpolicy] at hrule
    exact acts_of_lookup hrules hnoPaths hrule rfl
  have hendpoint := @survives_readUsageEndpoint lax capture texts url body
    [.key "endpoints", .item] hnoPaths hexpected hbody
    (@hacts _ (ofId "endpoints[].id_device") rfl) (@hacts _ (ofId "endpoints[].id_endpoint") rfl)
    (@hacts _ (keeping "endpoints[].last_usage" .word) rfl)
  refine FieldSurvives.model fun dicts items hnode endpoints hread _ => ?_
  exact (@Survives.list _ _ _ [.key "endpoints"] _ _ _ hendpoint).field
    (keepsNames_rewrite hnoPaths) rfl (by nofun) dicts items hnode endpoints hread
    fun _ _ => trivial

section Listed

variable {ids : List Rule} {start : String} (h : IdsBefore ids start) {path : List Step}
  {rule : Rule} (hid : (tableOf ids).lookup ((path ++ [Step.key "id"]).map Step.text) = some rule)
  (haction : rule.action = .id)

include h hid haction

/-- **An endpoint of a meta document survives** where it has no command. -/
theorem survives_metaEndpoint (hpolicy : capture.policyOf url = ⟨ids ++ descriptor start, []⟩)
    (hstart : (path ++ [Step.key "metadata"] ++ [Step.item]).map Step.text = parsePath start) :
    Survives (capture.rewrite texts url) body path (fun endpoint => endpoint.cmetadata = [])
      (EndpointAlike capture) (readMetaEndpoint lax) := by
  have hnoPaths : (capture.policyOf url).opaquePaths = [] := by rw [hpolicy]
  have hact : Acts (capture.policyOf url) (path ++ [.key "id"]) .id := by
    rw [hpolicy]
    exact h.acts_id (without_descriptor (.inr rfl) h.plainStart) hid haction
  have hread : DescriptorRead (capture.policyOf url) (path ++ [.key "metadata"] ++ [.item]) := by
    rw [hpolicy]
    exact h.descriptorRead hstart
  have hdescriptors := @stays_readDescriptor lax _ texts _ _ _ hnoPaths hexpected hbody hread
  exact (survives_readMetaEndpoint lax hnoPaths hexpected hbody hact hdescriptors.list
    survives_nil).of_imp fun endpoint hnone => ⟨trivial, hnone⟩

/-- **An endpoint of a cmeta document survives** where it has no field. -/
theorem survives_cmetaEndpoint (hpolicy : capture.policyOf url = ⟨ids ++ cmeta start, []⟩)
    (hstart : (path ++ [Step.key "cmetadata"] ++ [Step.item]).map Step.text = parsePath start) :
    Survives (capture.rewrite texts url) body path (fun endpoint => endpoint.metadata = [])
      (EndpointAlike capture) (readMetaEndpoint lax) := by
  have hnoPaths : (capture.policyOf url).opaquePaths = [] := by rw [hpolicy]
  have hact : Acts (capture.policyOf url) (path ++ [.key "id"]) .id := by
    rw [hpolicy]
    exact h.acts_id (without_cmeta (.inr rfl) h.plainStart) hid haction
  have hread : CommandRead (capture.policyOf url) (path ++ [.key "cmetadata"] ++ [.item]) := by
    rw [hpolicy]
    exact h.commandRead hstart
  have hcommands := @stays_readCommand lax _ texts _ _ _ hnoPaths hexpected hbody hread
  exact (survives_readMetaEndpoint lax hnoPaths hexpected hbody hact survives_nil
    hcommands.list).of_imp fun endpoint hnone => ⟨hnone, trivial⟩

end Listed

/-- **The descriptors of the devices survive.** -/
theorem survives_devicesMeta (hurl : url = "/devices/meta") :
    Survives (capture.rewrite texts url) body []
      (fun devices => ∀ device ∈ devices, ∀ endpoint ∈ device.endpoints, endpoint.cmetadata = [])
      (List.Forall₂ (DeviceAlike capture)) (readList (readMetaDevice lax)) := by
  have hpolicy : capture.policyOf url =
      ⟨deviceIds ++ descriptor "[].endpoints[].metadata[]", []⟩ :=
    policyOf_of_status hexpected.status (by rw [hurl]; rfl)
  have hstart : parsePath "[].endpoints[].metadata[]" =
      ["[]", "endpoints", "[]", "metadata", "[]"] := rfl
  have hids := idsBefore_deviceIds hstart (by simp [anyKey])
  have hendpoint := @survives_metaEndpoint capture url hexpected body hbody lax texts _ _ hids
    [.item, .key "endpoints", .item] (ofId "[].endpoints[].id") rfl rfl hpolicy hstart.symm
  have hid := @acts_deviceId _ _ _ (without_descriptor (.inr rfl) hids.plainStart) hpolicy
  have hnoPaths : (capture.policyOf url).opaquePaths = [] := by rw [hpolicy]
  exact (survives_readMetaDevice lax hnoPaths hexpected hbody hid hendpoint).list

/-- **The commands of the devices survive.** -/
theorem survives_devicesCmeta (hurl : url = "/devices/cmeta") :
    Survives (capture.rewrite texts url) body []
      (fun devices => ∀ device ∈ devices, ∀ endpoint ∈ device.endpoints, endpoint.metadata = [])
      (List.Forall₂ (DeviceAlike capture)) (readList (readMetaDevice lax)) := by
  have hpolicy : capture.policyOf url =
      ⟨deviceIds ++ cmeta "[].endpoints[].cmetadata[]", []⟩ :=
    policyOf_of_status hexpected.status (by rw [hurl]; rfl)
  have hstart : parsePath "[].endpoints[].cmetadata[]" =
      ["[]", "endpoints", "[]", "cmetadata", "[]"] := rfl
  have hids := idsBefore_deviceIds hstart (by simp [anyKey])
  have hendpoint := @survives_cmetaEndpoint capture url hexpected body hbody lax texts _ _ hids
    [.item, .key "endpoints", .item] (ofId "[].endpoints[].id") rfl rfl hpolicy hstart.symm
  have hid := @acts_deviceId _ _ _ (without_cmeta (.inr rfl) hids.plainStart) hpolicy
  have hnoPaths : (capture.policyOf url).opaquePaths = [] := by rw [hpolicy]
  exact (survives_readMetaDevice lax hnoPaths hexpected hbody hid hendpoint).list

/-- **The descriptors of the areas survive.** -/
theorem survives_areasMeta (hurl : url = "/areas/meta") :
    Survives (capture.rewrite texts url) body [] (fun areas => ∀ area ∈ areas, area.cmetadata = [])
      (List.Forall₂ (EndpointAlike capture)) (readList (readMetaEndpoint lax)) := by
  have hpolicy : capture.policyOf url = ⟨areaIds ++ descriptor "[].metadata[]", []⟩ :=
    policyOf_of_status hexpected.status (by rw [hurl]; rfl)
  have hstart : parsePath "[].metadata[]" = ["[]", "metadata", "[]"] := rfl
  have hids := idsBefore_areaIds hstart (by simp [anyKey])
  exact (@survives_metaEndpoint capture url hexpected body hbody lax texts _ _ hids [.item]
    (ofId "[].id") rfl rfl hpolicy hstart.symm).list

/-- **The commands of the areas survive.** -/
theorem survives_areasCmeta (hurl : url = "/areas/cmeta") :
    Survives (capture.rewrite texts url) body [] (fun areas => ∀ area ∈ areas, area.metadata = [])
      (List.Forall₂ (EndpointAlike capture)) (readList (readMetaEndpoint lax)) := by
  have hpolicy : capture.policyOf url = ⟨areaIds ++ cmeta "[].cmetadata[]", []⟩ :=
    policyOf_of_status hexpected.status (by rw [hurl]; rfl)
  have hstart : parsePath "[].cmetadata[]" = ["[]", "cmetadata", "[]"] := rfl
  have hids := idsBefore_areaIds hstart (by simp [anyKey])
  exact (@survives_cmetaEndpoint capture url hexpected body hbody lax texts _ _ hids [.item]
    (ofId "[].id") rfl rfl hpolicy hstart.symm).list

end Policies

/-! ## The documents -/

/-- **The envelope under a file name** is that of the body of its url. -/
theorem get?_envelopes (statuses : Dict String ℤ) (bodies : Dict String JsonValue)
    {endpoint : Endpoint} (h : endpoint ∈ endpoints) :
    (envelopes statuses bodies).get? endpoint.fileName =
      (bodies.get? endpoint.url).map fun body =>
        buildEnvelope ⟨endpoint, .ok, statuses.get? endpoint.url, body, none⟩ (some body) := by
  let byFile : Dict String Endpoint := ⟨endpoints.map fun endpoint => (endpoint.fileName, endpoint),
    by decide⟩
  have henvelopes : envelopes statuses bodies = .ofList (byFile.entries.filterMap fun item =>
      ((bodies.get? item.2.url).map fun body =>
        buildEnvelope ⟨item.2, .ok, statuses.get? item.2.url, body, none⟩ (some body)).map
          (item.1, ·)) := by
    rw [envelopes, List.filterMap_map]
    simp only [Option.map_map, Function.comp_def]
  have hget : byFile.get? endpoint.fileName = some endpoint :=
    Dict.get?_eq_some_iff.2 (List.mem_map_of_mem h)
  rw [henvelopes, Dict.get?_ofList_filterMap byFile fun endpoint =>
    (bodies.get? endpoint.url).map fun body =>
      buildEnvelope ⟨endpoint, .ok, statuses.get? endpoint.url, body, none⟩ (some body), hget]
  rfl

theorem validated_eq_ok_iff {α : Type} {read : JsonValue → Option α} {statuses : Dict String ℤ}
    {bodies : Dict String JsonValue} {endpoint : Endpoint} (h : endpoint ∈ endpoints) {x : α} :
    validated read (envelopes statuses bodies) endpoint.fileName = .ok x ↔
      ∃ body, bodies.get? endpoint.url = some body ∧ read body = some x := by
  have hread : ∀ body : JsonValue, readModel (readField read none "body")
      (buildEnvelope ⟨endpoint, .ok, statuses.get? endpoint.url, body, none⟩ (some body)) =
        read body := fun _ => rfl
  rw [validated, get?_envelopes statuses bodies h]
  cases bodies.get? endpoint.url with
  | none => simp
  | some body =>
      rw [Option.map_some, Option.bind_some, hread]
      cases hbody : read body <;> simp [hbody]

/-- **The five documents with no command in a meta document and no field in
a cmeta document.** -/
structure Described.Apart (described : Described) : Prop where
  devicesMeta : ∀ device ∈ described.devicesMeta, ∀ endpoint ∈ device.endpoints,
    endpoint.cmetadata = []
  devicesCmeta : ∀ device ∈ described.devicesCmeta, ∀ endpoint ∈ device.endpoints,
    endpoint.metadata = []
  areasMeta : ∀ area ∈ described.areasMeta, area.cmetadata = []
  areasCmeta : ∀ area ∈ described.areasCmeta, area.metadata = []

/-- Five documents that differ in the numbers of the ids. -/
structure DescribedAlike (capture : Captured) (described described' : Described) : Prop where
  config : List.Forall₂ (UsageAlike capture) described.config described'.config
  devicesMeta : List.Forall₂ (DeviceAlike capture) described.devicesMeta described'.devicesMeta
  devicesCmeta : List.Forall₂ (DeviceAlike capture) described.devicesCmeta described'.devicesCmeta
  areasMeta : List.Forall₂ (EndpointAlike capture) described.areasMeta described'.areasMeta
  areasCmeta : List.Forall₂ (EndpointAlike capture) described.areasCmeta described'.areasCmeta

/-- The endpoints whose documents the catalog reads. -/
def catalogEndpoints : List Endpoint :=
  endpoints.filter fun endpoint => endpoint.fileName ∈ captureFiles

section Documents

variable {capture : Captured} {texts : Texts} {result : Anonymized}
  (hok : anonymize texts capture = .ok result)

include hok

/-- **What is validated of a document is validated of it anonymized.** -/
theorem validated_anonymized {α : Type} {read : JsonValue → Option α} {P : α → Prop}
    {R : α → α → Prop} {endpoint : Endpoint} (hmem : endpoint ∈ endpoints)
    (h : ∀ body, capture.bodies.get? endpoint.url = some body →
      Survives (capture.rewrite texts endpoint.url) body [] P R read) {x : α}
    (hx : validated read (envelopes capture.statuses capture.bodies) endpoint.fileName = .ok x)
    (hP : P x) :
    ∃ x', validated read (envelopes capture.statuses result.bodies) endpoint.fileName = .ok x' ∧
      R x x' := by
  obtain ⟨body, hbody, hread⟩ := (validated_eq_ok_iff hmem).1 hx
  obtain ⟨x', hread', hR⟩ := h body hbody [] body (fun _ hplace => hplace) x hread hP
  refine ⟨x', (validated_eq_ok_iff hmem).2 ⟨_, ?_, hread'⟩, hR⟩
  rw [anonymize_body hok, hbody]
  rfl

/-- **The documents anonymized are validated**, to what differs in the
numbers of the ids. -/
theorem describedOf_anonymized (lax : LaxNumbers)
    (hexpected : ∀ endpoint ∈ catalogEndpoints, capture.Expected endpoint.url)
    {described : Described}
    (h : describedOf lax (envelopes capture.statuses capture.bodies) = .ok described)
    (hapart : described.Apart) :
    ∃ described', describedOf lax (envelopes capture.statuses result.bodies) = .ok described' ∧
      DescribedAlike capture described described' := by
  have hurl : ∀ endpoint, endpoint ∈ catalogEndpoints → endpoint ∈ endpoints :=
    fun _ hmem => (List.mem_filter.1 hmem).1
  simp only [describedOf, bind_eq_ok_iff] at h ⊢
  obtain ⟨config, hconfig, devicesMeta, hdevicesMeta, devicesCmeta, hdevicesCmeta, areasMeta,
    hareasMeta, areasCmeta, hareasCmeta, hresult⟩ := h
  cases hresult
  have hmem : ∀ endpoint : Endpoint, decide (endpoint ∈ catalogEndpoints) = true →
      capture.Expected endpoint.url ∧ endpoint ∈ endpoints :=
    fun endpoint h => ⟨hexpected _ (of_decide_eq_true h), hurl _ (of_decide_eq_true h)⟩
  obtain ⟨hurlConfig, hmemConfig⟩ := hmem ⟨"/configs/file", "configs_file.json"⟩ (by decide)
  obtain ⟨config', hconfig', halikeConfig⟩ := validated_anonymized hok hmemConfig
    (fun body hbody => survives_config hurlConfig hbody lax texts rfl) hconfig trivial
  obtain ⟨hurlDevicesMeta, hmemDevicesMeta⟩ :=
    hmem ⟨"/devices/meta", "devices_meta.json"⟩ (by decide)
  obtain ⟨devicesMeta', hdevicesMeta', halikeDevicesMeta⟩ := validated_anonymized hok
    hmemDevicesMeta (fun body hbody => survives_devicesMeta hurlDevicesMeta hbody lax texts rfl)
    hdevicesMeta hapart.devicesMeta
  obtain ⟨hurlDevicesCmeta, hmemDevicesCmeta⟩ :=
    hmem ⟨"/devices/cmeta", "devices_cmeta.json"⟩ (by decide)
  obtain ⟨devicesCmeta', hdevicesCmeta', halikeDevicesCmeta⟩ := validated_anonymized hok
    hmemDevicesCmeta (fun body hbody => survives_devicesCmeta hurlDevicesCmeta hbody lax texts rfl)
    hdevicesCmeta hapart.devicesCmeta
  obtain ⟨hurlAreasMeta, hmemAreasMeta⟩ := hmem ⟨"/areas/meta", "areas_meta.json"⟩ (by decide)
  obtain ⟨areasMeta', hareasMeta', halikeAreasMeta⟩ := validated_anonymized hok
    hmemAreasMeta (fun body hbody => survives_areasMeta hurlAreasMeta hbody lax texts rfl)
    hareasMeta hapart.areasMeta
  obtain ⟨hurlAreasCmeta, hmemAreasCmeta⟩ := hmem ⟨"/areas/cmeta", "areas_cmeta.json"⟩ (by decide)
  obtain ⟨areasCmeta', hareasCmeta', halikeAreasCmeta⟩ := validated_anonymized hok
    hmemAreasCmeta (fun body hbody => survives_areasCmeta hurlAreasCmeta hbody lax texts rfl)
    hareasCmeta hapart.areasCmeta
  exact ⟨⟨config', devicesMeta', devicesCmeta', areasMeta', areasCmeta'⟩,
    ⟨config', hconfig', devicesMeta', hdevicesMeta', devicesCmeta', hdevicesCmeta', areasMeta',
      hareasMeta', areasCmeta', hareasCmeta', rfl⟩,
    ⟨halikeConfig, halikeDevicesMeta, halikeDevicesCmeta, halikeAreasMeta, halikeAreasCmeta⟩⟩

end Documents

/-! ## The entries -/

section Entries

variable {capture : Captured} {described described' : Described}

/-- The entries of endpoints that differ in the numbers of their ids. -/
theorem EndpointAlike.entry_eq {endpoint endpoint' : MetaEndpoint}
    (h : EndpointAlike capture endpoint endpoint') (usage : String) :
    entry usage endpoint = entry usage endpoint' := by
  rw [entry, entry, h.metadata, h.cmetadata]

variable (h : DescribedAlike capture described described')

include h

/-- **The config joins the endpoints alike**, by the numbers of their ids. -/
theorem DescribedAlike.get?_usages {device device' endpoint endpoint' : ℤ}
    (hdevice : Numbered capture device device') (hendpoint : Numbered capture endpoint endpoint') :
    described.usages.get? (device, endpoint) = described'.usages.get? (device', endpoint') := by
  have hunique := biUnique_numbered capture
  have hpairs : Relator.BiUnique fun (ids ids' : ℤ × ℤ) =>
      Numbered capture ids.1 ids'.1 ∧ Numbered capture ids.2 ids'.2 :=
    ⟨fun _ _ _ h h' => Prod.ext (hunique.1 h.1 h'.1) (hunique.1 h.2 h'.2),
      fun _ _ _ h h' => Prod.ext (hunique.2 h.1 h'.1) (hunique.2 h.2 h'.2)⟩
  have hitems : List.Forall₂ (fun (item item' : (ℤ × ℤ) × String) =>
      (Numbered capture item.1.1 item'.1.1 ∧ Numbered capture item.1.2 item'.1.2) ∧
        item.2 = item'.2)
      (described.config.map fun endpoint =>
        ((endpoint.idDevice, endpoint.idEndpoint), endpoint.lastUsage)).reverse
      (described'.config.map fun endpoint =>
        ((endpoint.idDevice, endpoint.idEndpoint), endpoint.lastUsage)).reverse := by
    rw [List.forall₂_reverse_iff, List.forall₂_map_left_iff, List.forall₂_map_right_iff]
    exact h.config.imp fun _ _ halike => ⟨⟨halike.idDevice, halike.idEndpoint⟩, halike.lastUsage⟩
  have hkeys : Numbered capture (device, endpoint).1 (device', endpoint').1 ∧
      Numbered capture (device, endpoint).2 (device', endpoint').2 := ⟨hdevice, hendpoint⟩
  have hsame : ∀ {usage usage' : Option String}, Option.Rel Eq usage usage' → usage = usage' := by
    intro usage usage' hrel
    cases hrel with
    | none => rfl
    | some heq => rw [heq]
  rw [Described.usages, Described.usages, Dict.get?_ofList, Dict.get?_ofList]
  exact hsame (Dict.lookup_rel hpairs hitems hkeys)

/-- **The same entries are merged.** -/
theorem DescribedAlike.entries_eq : described.entries = described'.entries := by
  have hdevices : List.Forall₂ (DeviceAlike capture)
      (described.devicesMeta ++ described.devicesCmeta)
      (described'.devicesMeta ++ described'.devicesCmeta) :=
    List.rel_append h.devicesMeta h.devicesCmeta
  have hareas : List.Forall₂ (EndpointAlike capture)
      (described.areasMeta ++ described.areasCmeta)
      (described'.areasMeta ++ described'.areasCmeta) :=
    List.rel_append h.areasMeta h.areasCmeta
  have hdevice : ∀ device device', DeviceAlike capture device device' →
      described.deviceEntries device = described'.deviceEntries device' := by
    intro device device' halike
    refine filterMap_eq_of_rel halike.endpoints fun endpoint endpoint' hendpoint => ?_
    rw [h.get?_usages halike.id hendpoint.id]
    exact Option.map_congr fun usage _ => hendpoint.entry_eq usage
  have hentries : (described.areasMeta ++ described.areasCmeta).map (entry areaUsage) =
      (described'.areasMeta ++ described'.areasCmeta).map (entry areaUsage) := by
    rw [List.map_eq_flatMap, List.map_eq_flatMap]
    exact flatMap_eq_of_rel hareas fun _ _ halike => by rw [halike.entry_eq]
  rw [Described.entries, Described.entries, flatMap_eq_of_rel hdevices hdevice, hentries]

end Entries

/-- **Anonymizing does not change the catalog** of a capture that the catalog
reads, where the meta documents hold no command and the cmeta documents no
field. -/
theorem extract_anonymize (lax : LaxNumbers) {texts : Texts} {capture : Captured}
    {result : Anonymized} (hok : anonymize texts capture = .ok result)
    (hexpected : ∀ endpoint ∈ catalogEndpoints, capture.Expected endpoint.url)
    {found : Catalog × List Conflict}
    (hraw : extract lax (envelopes capture.statuses capture.bodies) = .ok found)
    (hapart : ∀ described,
      describedOf lax (envelopes capture.statuses capture.bodies) = .ok described →
        described.Apart) :
    extract lax (envelopes capture.statuses result.bodies) = .ok found := by
  rw [extract, map_eq_ok_iff] at hraw
  obtain ⟨described, hdescribed, rfl⟩ := hraw
  obtain ⟨described', hdescribed', halike⟩ :=
    describedOf_anonymized hok lax hexpected hdescribed (hapart described hdescribed)
  rw [extract, hdescribed', halike.entries_eq]
  rfl

/-! ## Two captures -/

/-- A library that reads only what is of the type. -/
def LaxNumbers.strict : LaxNumbers := ⟨fun _ => none, fun _ => none⟩

/-- Five documents with status 200, two of them empty. -/
def catalogCapture (config devicesMeta areasMeta : JsonValue)
    (distinct : ∀ body ∈ [config, devicesMeta, .list [], areasMeta, .list []],
      body.distinctKeys = true) : Captured where
  bodies := .ofList [("/configs/file", config), ("/devices/meta", devicesMeta),
    ("/devices/cmeta", .list []), ("/areas/meta", areasMeta), ("/areas/cmeta", .list [])]
  statuses := .ofList [("/configs/file", 200), ("/devices/meta", 200), ("/devices/cmeta", 200),
    ("/areas/meta", 200), ("/areas/cmeta", 200)]
  distinct := distinct

/-- An endpoint of the config with a field. -/
def endpointField : Captured :=
  catalogCapture
    (.dict [("endpoints", .list [.dict [("id_device", .int 7), ("id_endpoint", .int 9),
      ("last_usage", .str "shutter")]])])
    (.list [.dict [("id", .int 7), ("endpoints", .list [.dict [("id", .int 9),
      ("metadata", .list [.dict [("name", .str "position"), ("type", .str "numeric")]])]])]])
    (.list []) (by decide)

/-- The field, described. -/
def positionField : Descriptor :=
  ⟨"position", "numeric", none, none, none, none, none, none, none, none⟩

/-- Its catalog stays. -/
theorem extract_endpointField : ∃ result, anonymize .simple endpointField = .ok result ∧
    extract .strict (envelopes endpointField.statuses result.bodies) =
      .ok (oneUsage "shutter" ⟨[positionField], []⟩, []) := by
  have hreturns : (anonymize .simple endpointField).map (fun _ => ()) = .ok () := by
    decide +kernel
  have hdescribed : describedOf .strict (envelopes endpointField.statuses endpointField.bodies) =
      .ok ⟨[⟨7, 9, "shutter"⟩], [⟨7, [⟨9, [positionField], []⟩]⟩], [], [], []⟩ := by
    decide +kernel
  obtain ⟨result, hok, -⟩ := map_eq_ok_iff.1 hreturns
  refine ⟨result, hok, extract_anonymize .strict hok (by decide +kernel) (by decide +kernel) ?_⟩
  intro described h
  cases hdescribed.symm.trans h
  exact ⟨by simp, by simp, by simp, by simp⟩

/-- An area with a command in the meta document. -/
def areaCommand : Captured :=
  catalogCapture (.dict [("endpoints", .list [])]) (.list [])
    (.list [.dict [("id", .int 3), ("cmetadata", .list [.dict [("name", .str "setpoint"),
      ("permission", .str "w")]])]]) (by decide)

/-- **A command of a meta document is redacted**, in a capture that is
otherwise as the catalog expects it. -/
theorem areaCommand_redacted :
    (∀ endpoint ∈ catalogEndpoints, areaCommand.Expected endpoint.url) ∧
      extract .strict (envelopes areaCommand.statuses areaCommand.bodies) =
        .ok (oneUsage areaUsage ⟨[], [⟨"setpoint", "w", []⟩]⟩, []) ∧
      (anonymize .simple areaCommand).map (fun result =>
          extract .strict (envelopes areaCommand.statuses result.bodies)) =
        .ok (.ok (oneUsage areaUsage ⟨[], [⟨"<redacted>", "<redacted>", []⟩]⟩, [])) :=
  ⟨by decide +kernel, by decide +kernel, by decide +kernel⟩

end Capture

end Tydomio
