/-
`Models/FoodEventModel.swift`: the food event and its two hand-written traversals
of the document format.

`init(from:)` and `encode(to:)` are written out below level by level, as in the
source. `format` is the same document format as a shape, and
`map_encode_decode` is the step from one to the other: reading a document and
writing it back is cutting it down to the format. What the format accepts and what
it leaves is then the general theory of shapes, at fourteen leaves and five maps.
-/
import FreeFood.Landmark

set_option autoImplicit false

namespace FreeFood.FoodEventModel

open Document FreeFood.Platform FreeFood.Landmarks

/-- `FoodEvent`. -/
structure FoodEvent where
  id : String
  dateCreated : Date
  additionalInfo : String
  building : String
  foodType : String
  quantity : String
  roomNum : String
  UID : String
  username : String
  landmarkID : UUID
  name : String
  address : String
  latitude : Double
  longitude : Double
deriving DecidableEq

/-! ## The coding keys -/

inductive CodingKeys where
  | id
  | dateCreated
  | foodEvent
deriving DecidableEq

inductive FoodKeys where
  | additionalInfo
  | building
  | foodType
  | quantity
  | roomNum
  | user
  | landmark
deriving DecidableEq

inductive UserKeys where
  | UID
  | username
deriving DecidableEq

inductive LandmarkKeys where
  | landmarkID
  | name
  | address
  | coordinate
deriving DecidableEq

inductive CoordKeys where
  | latitude
  | longitude
deriving DecidableEq

instance : CodingKey CodingKeys where
  stringValue
    | .id => "id"
    | .dateCreated => "dateCreated"
    | .foodEvent => "foodEvent"
  stringValue_injective a b h := by cases a <;> cases b <;> first | rfl | exact absurd h (by decide)

instance : CodingKey FoodKeys where
  stringValue
    | .additionalInfo => "additionalInfo"
    | .building => "building"
    | .foodType => "foodType"
    | .quantity => "quantity"
    | .roomNum => "roomNum"
    | .user => "user"
    | .landmark => "landmark"
  stringValue_injective a b h := by cases a <;> cases b <;> first | rfl | exact absurd h (by decide)

instance : CodingKey UserKeys where
  stringValue
    | .UID => "UID"
    | .username => "username"
  stringValue_injective a b h := by cases a <;> cases b <;> first | rfl | exact absurd h (by decide)

/-- `landmarkID` is the one key whose text is not its name. -/
instance : CodingKey LandmarkKeys where
  stringValue
    | .landmarkID => "landmark_id"
    | .name => "name"
    | .address => "address"
    | .coordinate => "coordinate"
  stringValue_injective a b h := by cases a <;> cases b <;> first | rfl | exact absurd h (by decide)

instance : CodingKey CoordKeys where
  stringValue
    | .latitude => "latitude"
    | .longitude => "longitude"
  stringValue_injective a b h := by cases a <;> cases b <;> first | rfl | exact absurd h (by decide)

namespace FoodEvent

/-- The memberwise `init`, which takes the coordinate as one value. -/
def new (docID : String) (date : Date) (adtlInfo building type quantity roomNo UID username : String)
    (landmarkID : UUID) (name address : String) (coord : Coordinate) : FoodEvent where
  id := docID
  dateCreated := date
  additionalInfo := adtlInfo
  building := building
  foodType := type
  quantity := quantity
  roomNum := roomNo
  UID := UID
  username := username
  landmarkID := landmarkID
  name := name
  address := address
  latitude := coord.latitude
  longitude := coord.longitude

variable {L : Type} (K : Codecs L)

/-- `init(from:)`. A failed read of the source throws, and the one caller of the
decoder turns every throw into `nil`. -/
def decode (decoder : Value L) : Option FoodEvent := do
  let container ← decoder.container CodingKeys
  let id ← container.decode K.string .id
  let dateCreated ← container.decode K.date .dateCreated
  let event ← container.nestedContainer FoodKeys .foodEvent
  let additionalInfo ← event.decode K.string .additionalInfo
  let building ← event.decode K.string .building
  let roomNum ← event.decode K.string .roomNum
  let foodType ← event.decode K.string .foodType
  let quantity ← event.decode K.string .quantity
  let user ← event.nestedContainer UserKeys .user
  let UID ← user.decode K.string .UID
  let username ← user.decode K.string .username
  let landmark ← event.nestedContainer LandmarkKeys .landmark
  let landmarkID ← landmark.decode K.uuid .landmarkID
  let name ← landmark.decode K.string .name
  let address ← landmark.decode K.string .address
  let coordinate ← landmark.nestedContainer CoordKeys .coordinate
  let latitude ← coordinate.decode K.double .latitude
  let longitude ← coordinate.decode K.double .longitude
  return { id, dateCreated, additionalInfo, building, foodType, quantity, roomNum, UID, username,
           landmarkID, name, address, latitude, longitude }

/-- `encode(to:)`. -/
def encode (e : FoodEvent) : Value L :=
  let container : KeyedEncodingContainer L CodingKeys := {}
  let container := container.encode K.string e.id .id
  let container := container.encode K.date e.dateCreated .dateCreated
  let container := container.nestedContainer .foodEvent fun event : KeyedEncodingContainer L FoodKeys =>
    let event := event.encode K.string e.additionalInfo .additionalInfo
    let event := event.encode K.string e.building .building
    let event := event.encode K.string e.roomNum .roomNum
    let event := event.encode K.string e.foodType .foodType
    let event := event.encode K.string e.quantity .quantity
    let event := event.nestedContainer .user fun user : KeyedEncodingContainer L UserKeys =>
      let user := user.encode K.string e.UID .UID
      user.encode K.string e.username .username
    event.nestedContainer .landmark fun landmark : KeyedEncodingContainer L LandmarkKeys =>
      let landmark := landmark.encode K.uuid e.landmarkID .landmarkID
      let landmark := landmark.encode K.string e.name .name
      let landmark := landmark.encode K.string e.address .address
      landmark.nestedContainer .coordinate fun coordinate : KeyedEncodingContainer L CoordKeys =>
        let coordinate := coordinate.encode K.double e.latitude .latitude
        coordinate.encode K.double e.longitude .longitude
  .map container.container

/-! ## The document format -/

/-- The format as a shape, its fields in the order both traversals visit them. -/
def format : Shape L :=
  .node [
    ("id", .leaf K.string.canonical),
    ("dateCreated", .leaf K.date.canonical),
    ("foodEvent", .node [
      ("additionalInfo", .leaf K.string.canonical),
      ("building", .leaf K.string.canonical),
      ("roomNum", .leaf K.string.canonical),
      ("foodType", .leaf K.string.canonical),
      ("quantity", .leaf K.string.canonical),
      ("user", .node [
        ("UID", .leaf K.string.canonical),
        ("username", .leaf K.string.canonical)]),
      ("landmark", .node [
        ("landmark_id", .leaf K.uuid.canonical),
        ("name", .leaf K.string.canonical),
        ("address", .leaf K.string.canonical),
        ("coordinate", .node [
          ("latitude", .leaf K.double.canonical),
          ("longitude", .leaf K.double.canonical)])])])]

/-- The document `encode` writes, as one tree. -/
theorem encode_eq (e : FoodEvent) : encode K e =
    .map [
      ("id", .leaf (K.string.encode e.id)),
      ("dateCreated", .leaf (K.date.encode e.dateCreated)),
      ("foodEvent", .map [
        ("additionalInfo", .leaf (K.string.encode e.additionalInfo)),
        ("building", .leaf (K.string.encode e.building)),
        ("roomNum", .leaf (K.string.encode e.roomNum)),
        ("foodType", .leaf (K.string.encode e.foodType)),
        ("quantity", .leaf (K.string.encode e.quantity)),
        ("user", .map [
          ("UID", .leaf (K.string.encode e.UID)),
          ("username", .leaf (K.string.encode e.username))]),
        ("landmark", .map [
          ("landmark_id", .leaf (K.uuid.encode e.landmarkID)),
          ("name", .leaf (K.string.encode e.name)),
          ("address", .leaf (K.string.encode e.address)),
          ("coordinate", .map [
            ("latitude", .leaf (K.double.encode e.latitude)),
            ("longitude", .leaf (K.double.encode e.longitude))])])])] := rfl

/-- The fourteen leaves, each with the canonical form of its type. -/
def leafPaths : List (List String × (L → Option L)) := [
  (["id"], K.string.canonical),
  (["dateCreated"], K.date.canonical),
  (["foodEvent", "additionalInfo"], K.string.canonical),
  (["foodEvent", "building"], K.string.canonical),
  (["foodEvent", "roomNum"], K.string.canonical),
  (["foodEvent", "foodType"], K.string.canonical),
  (["foodEvent", "quantity"], K.string.canonical),
  (["foodEvent", "user", "UID"], K.string.canonical),
  (["foodEvent", "user", "username"], K.string.canonical),
  (["foodEvent", "landmark", "landmark_id"], K.uuid.canonical),
  (["foodEvent", "landmark", "name"], K.string.canonical),
  (["foodEvent", "landmark", "address"], K.string.canonical),
  (["foodEvent", "landmark", "coordinate", "latitude"], K.double.canonical),
  (["foodEvent", "landmark", "coordinate", "longitude"], K.double.canonical)]

/-- Which field of an event is at which path, with the value it is stored as. -/
def fieldValues (e : FoodEvent) : List (List String × L) := [
  (["id"], K.string.encode e.id),
  (["dateCreated"], K.date.encode e.dateCreated),
  (["foodEvent", "additionalInfo"], K.string.encode e.additionalInfo),
  (["foodEvent", "building"], K.string.encode e.building),
  (["foodEvent", "roomNum"], K.string.encode e.roomNum),
  (["foodEvent", "foodType"], K.string.encode e.foodType),
  (["foodEvent", "quantity"], K.string.encode e.quantity),
  (["foodEvent", "user", "UID"], K.string.encode e.UID),
  (["foodEvent", "user", "username"], K.string.encode e.username),
  (["foodEvent", "landmark", "landmark_id"], K.uuid.encode e.landmarkID),
  (["foodEvent", "landmark", "name"], K.string.encode e.name),
  (["foodEvent", "landmark", "address"], K.string.encode e.address),
  (["foodEvent", "landmark", "coordinate", "latitude"], K.double.encode e.latitude),
  (["foodEvent", "landmark", "coordinate", "longitude"], K.double.encode e.longitude)]

/-- The maps on the way to them. -/
def nodePaths : List (List String) := [
  [],
  ["foodEvent"],
  ["foodEvent", "user"],
  ["foodEvent", "landmark"],
  ["foodEvent", "landmark", "coordinate"]]

theorem leaves_format : (format K).leaves = leafPaths K := by
  simp only [format, Shape.leaves, Shape.leavesFields, leafPaths, List.map_cons, List.map_nil,
    List.append_nil, List.cons_append, List.nil_append]

theorem nodes_format : (format K).nodes = nodePaths := by
  simp only [format, Shape.nodes, Shape.nodesFields, nodePaths, List.map_cons, List.map_nil,
    List.append_nil, List.cons_append, List.nil_append]

theorem distinct_format : (format K).Distinct := by
  simp only [format, Shape.Distinct, Shape.DistinctFields, List.map_cons, List.map_nil]
  decide

/-! ## The two traversals -/

/-- Reading what `encode` wrote: each of the reads finds the value its key was
written with. -/
theorem decode_encode (e : FoodEvent) : decode K (encode K e) = some e := by
  open KeyedDecodingContainer in
  rw [encode_eq]
  apply decode_bind K.string CodingKeys.id rfl
  apply decode_bind K.date CodingKeys.dateCreated rfl
  apply nestedContainer_bind FoodKeys CodingKeys.foodEvent rfl
  apply decode_bind K.string FoodKeys.additionalInfo rfl
  apply decode_bind K.string FoodKeys.building rfl
  apply decode_bind K.string FoodKeys.roomNum rfl
  apply decode_bind K.string FoodKeys.foodType rfl
  apply decode_bind K.string FoodKeys.quantity rfl
  apply nestedContainer_bind UserKeys FoodKeys.user rfl
  apply decode_bind K.string UserKeys.UID rfl
  apply decode_bind K.string UserKeys.username rfl
  apply nestedContainer_bind LandmarkKeys FoodKeys.landmark rfl
  apply decode_bind K.uuid LandmarkKeys.landmarkID rfl
  apply decode_bind K.string LandmarkKeys.name rfl
  apply decode_bind K.string LandmarkKeys.address rfl
  apply nestedContainer_bind CoordKeys LandmarkKeys.coordinate rfl
  apply decode_bind K.double CoordKeys.latitude rfl
  exact decode_bind K.double CoordKeys.longitude rfl rfl

/-- Each field of an event is written at its path. -/
theorem encode_at? (e : FoodEvent) :
    ∀ f ∈ fieldValues K e, (encode K e).at? f.1 = some (.leaf f.2) := by
  rw [encode_eq]
  simp only [fieldValues, List.forall_mem_cons]
  exact ⟨rfl, rfl, rfl, rfl, rfl, rfl, rfl, rfl, rfl, rfl, rfl, rfl, rfl, rfl,
    fun _ h => absurd h List.not_mem_nil⟩

/-- **Reading a document and writing it back is cutting it down to the format.**
The two sides go through the same keys in the same order, so they are compared
read by read. -/
theorem map_encode_decode (v : Value L) : (decode K v).map (encode K) = (format K).restrict v := by
  open Shape in
  rcases v with l | vs | vs
  · rfl
  · rfl
  · rw [format, restrict, Option.map_eq_bind, Option.map_eq_bind]
    refine decode_step K.string CodingKeys.id fun id => ?_
    refine decode_step K.date CodingKeys.dateCreated fun dateCreated => ?_
    refine nestedContainer_step FoodKeys CodingKeys.foodEvent fun event => ?_
    refine decode_step K.string FoodKeys.additionalInfo fun additionalInfo => ?_
    refine decode_step K.string FoodKeys.building fun building => ?_
    refine decode_step K.string FoodKeys.roomNum fun roomNum => ?_
    refine decode_step K.string FoodKeys.foodType fun foodType => ?_
    refine decode_step K.string FoodKeys.quantity fun quantity => ?_
    refine nestedContainer_step UserKeys FoodKeys.user fun user => ?_
    refine decode_step K.string UserKeys.UID fun UID => ?_
    refine decode_step K.string UserKeys.username fun username => ?_
    rw [restrictFields_nil_bind]
    refine nestedContainer_step LandmarkKeys FoodKeys.landmark fun landmark => ?_
    refine decode_step K.uuid LandmarkKeys.landmarkID fun landmarkID => ?_
    refine decode_step K.string LandmarkKeys.name fun name => ?_
    refine decode_step K.string LandmarkKeys.address fun address => ?_
    refine nestedContainer_step CoordKeys LandmarkKeys.coordinate fun coordinate => ?_
    refine decode_step K.double CoordKeys.latitude fun latitude => ?_
    refine decode_step K.double CoordKeys.longitude fun longitude => ?_
    -- the three maps that end here are the coordinate, the landmark and the food event
    rw [restrictFields_nil_bind, restrictFields_nil_bind, restrictFields_nil_bind,
      restrictFields_nil_bind]
    rfl

theorem decode_isSome_iff (v : Value L) :
    (decode K v).isSome ↔ Shape.Carries v (leafPaths K) nodePaths := by
  have h := Shape.restrict_isSome_iff (format K) v
  rwa [← map_encode_decode, Option.isSome_map, leaves_format, nodes_format] at h

/-- **The codec is exact.** A written event is read back, and each of its fields is at its
path in what is written; a document is read exactly when each of the fourteen leaves is at its
path with a value of its type and the nodes above them are maps; and what an accepted document
is written back as has those leaves in their canonical form, those maps, and nothing at any
other path. -/
theorem codec_exact :
    (∀ e, decode K (encode K e) = some e)
      ∧ (∀ v, (decode K v).isSome ↔
          (∀ pc ∈ leafPaths K, ∃ l, v.at? pc.1 = some (.leaf l) ∧ (pc.2 l).isSome)
            ∧ ∀ p ∈ nodePaths, ∃ fields, v.at? p = some (.map fields))
      ∧ (∀ v e, decode K v = some e → ∀ p,
          (∀ c, (p, c) ∈ leafPaths K →
              ∃ l, v.at? p = some (.leaf l) ∧ (encode K e).at? p = (c l).map Value.leaf)
            ∧ (p ∈ nodePaths → ∃ fields, (encode K e).at? p = some (.map fields))
            ∧ ((∀ c, (p, c) ∉ leafPaths K) → p ∉ nodePaths → (encode K e).at? p = none))
      ∧ ∀ e, ∀ f ∈ fieldValues K e, (encode K e).at? f.1 = some (.leaf f.2) := by
  refine ⟨decode_encode K, decode_isSome_iff K, fun v e he p => ?_, encode_at? K⟩
  have hrestrict : (format K).restrict v = some (encode K e) := by
    rw [← map_encode_decode, he, Option.map_some]
  have hat := Shape.restrict_at? (distinct_format K) hrestrict p
  rw [leaves_format, nodes_format] at hat
  exact ⟨hat.leaf, hat.node, hat.other⟩

end FoodEvent

end FreeFood.FoodEventModel
