/-
Documents: trees of maps over scalar leaves, read and written through keyed
containers, and the shapes such trees are checked against.

A document's scalars are of an arbitrary type `L`. A `Codec` turns the values of
one type into leaves and back, and carries its round trip as a field, so that a
codec that loses a value cannot be built.

The containers are the usual pair of a keyed format: a decoding container is a
map seen through an enumeration of keys, an encoding container is a map being
written through one. Both work one level at a time. What they do to a whole tree
is the second half of the file: a `Shape` lists the leaves and the maps a format
reads, `restrict` is the tree cut down to them, and

| | |
|---|---|
| `restrict_isSome_iff` | the trees a shape accepts, path by path |
| `restrict_at?` | what is left of an accepted tree, path by path |
-/
import Mathlib.Logic.Function.Basic
import Mathlib.Data.List.Basic

set_option autoImplicit false

namespace Document

/-! ## Values -/

/-- A document value over the scalars `L`. -/
inductive Value (L : Type*) where
  | leaf (l : L)
  | array (vs : List (Value L))
  | map (fields : List (String × Value L))

/-- The fields of a map. A key is looked up at its first occurrence, so a second
one is not part of the map. -/
abbrev Fields (L : Type*) := List (String × Value L)

variable {L : Type*}

/-- The value of field `k`, if the value is a map that has it. -/
def Value.field? (k : String) : Value L → Option (Value L)
  | .map fields => fields.lookup k
  | _ => none

/-- The value at the end of a path of keys. -/
def Value.at? : Value L → List String → Option (Value L)
  | v, [] => some v
  | v, k :: p => (v.field? k).bind (fun w => w.at? p)

@[simp] theorem Value.field?_map (k : String) (fields : Fields L) :
    (Value.map fields).field? k = fields.lookup k := rfl

@[simp] theorem Value.field?_leaf (k : String) (l : L) : (Value.leaf l).field? k = none := rfl

@[simp] theorem Value.field?_array (k : String) (vs : List (Value L)) :
    (Value.array vs).field? k = none := rfl

@[simp] theorem Value.at?_nil (v : Value L) : v.at? [] = some v := by rw [Value.at?]

@[simp] theorem Value.at?_cons (v : Value L) (k : String) (p : List String) :
    v.at? (k :: p) = (v.field? k).bind (fun w => w.at? p) := by rw [Value.at?]

/-! ## Scalars -/

/-- One scalar type's two ways between its values and the leaves. -/
structure Codec (L α : Type*) where
  encode : α → L
  decode : L → Option α
  decode_encode : ∀ a, decode (encode a) = some a

namespace Codec

variable {α : Type*} (c : Codec L α)

/-- The form in which a leaf is written back after it was read; `none` where the
leaf is not of the codec's type. -/
def canonical (l : L) : Option L := (c.decode l).map c.encode

/-- Reading a value that must be a leaf of the codec's type. -/
def read : Value L → Option α
  | .leaf l => c.decode l
  | _ => none

@[simp] theorem read_leaf (l : L) : c.read (.leaf l) = c.decode l := rfl

@[simp] theorem read_array (vs : List (Value L)) : c.read (.array vs) = none := rfl

@[simp] theorem read_map (fields : Fields L) : c.read (.map fields) = none := rfl

@[simp] theorem read_encode (a : α) : c.read (.leaf (c.encode a)) = some a := c.decode_encode a

end Codec

/-! ## Keyed containers -/

/-- An enumeration of keys. Two keys of one enumeration never share their text. -/
class CodingKey (K : Type*) where
  stringValue : K → String
  stringValue_injective : Function.Injective stringValue

/-- A map read through the keys `K`. -/
structure KeyedDecodingContainer (L : Type*) (K : Type*) where
  container : Fields L

/-- The container of a value; only a map has one. -/
def Value.container (K : Type*) : Value L → Option (KeyedDecodingContainer L K)
  | .map fields => some ⟨fields⟩
  | _ => none

namespace KeyedDecodingContainer

variable {K : Type*} [CodingKey K] {α : Type*}

/-- The scalar under a key: the key must be there and its value of the type. -/
def decode (d : KeyedDecodingContainer L K) (c : Codec L α) (key : K) : Option α :=
  (d.container.lookup (CodingKey.stringValue key)).bind c.read

/-- The container of the map under a key. -/
def nestedContainer (d : KeyedDecodingContainer L K) (K' : Type*) (key : K) :
    Option (KeyedDecodingContainer L K') :=
  (d.container.lookup (CodingKey.stringValue key)).bind (Value.container K')

/-! Reading a map that a codec wrote, one key at a time: what is bound is what was
written, and the reader goes on with it. -/

theorem decode_bind {γ : Type*} (c : Codec L α) (key : K) {fields : Fields L} {a : α}
    {next : α → Option γ} {r : Option γ}
    (hkey : fields.lookup (CodingKey.stringValue key) = some (.leaf (c.encode a)))
    (hnext : next a = r) :
    ((⟨fields⟩ : KeyedDecodingContainer L K).decode c key).bind next = r := by
  rw [decode, hkey, Option.bind_some, Codec.read_encode, Option.bind_some, hnext]

theorem nestedContainer_bind {γ : Type*} (K' : Type*) (key : K) {fields inner : Fields L}
    {next : KeyedDecodingContainer L K' → Option γ} {r : Option γ}
    (hkey : fields.lookup (CodingKey.stringValue key) = some (.map inner))
    (hnext : next ⟨inner⟩ = r) :
    ((⟨fields⟩ : KeyedDecodingContainer L K).nestedContainer K' key).bind next = r := by
  rw [nestedContainer, hkey, Option.bind_some, Value.container, Option.bind_some, hnext]

end KeyedDecodingContainer

/-- Writing a key: the value replaces one that is there. -/
def Fields.set (fields : Fields L) (k : String) (v : Value L) : Fields L :=
  fields.filter (fun f => !(f.1 == k)) ++ [(k, v)]

theorem Fields.lookup_cons_self (fields : Fields L) (k : String) (v : Value L) :
    List.lookup k ((k, v) :: fields) = some v := by
  rw [List.lookup_cons, beq_self_eq_true]

theorem Fields.lookup_cons_of_ne (fields : Fields L) {k k' : String} (v : Value L) (h : k' ≠ k) :
    List.lookup k' ((k, v) :: fields) = fields.lookup k' := by
  rw [List.lookup_cons, beq_eq_false_iff_ne.mpr h]

/-- A map being written through the keys `K`. -/
structure KeyedEncodingContainer (L : Type*) (K : Type*) where
  container : Fields L := []

namespace KeyedEncodingContainer

variable {K : Type*} [CodingKey K] {K' : Type*} {α : Type*}

/-- Writes a scalar under a key. -/
def encode (d : KeyedEncodingContainer L K) (c : Codec L α) (a : α) (key : K) :
    KeyedEncodingContainer L K :=
  ⟨d.container.set (CodingKey.stringValue key) (.leaf (c.encode a))⟩

/-- Writes a map under a key: `body` is what is written into the nested container,
which starts empty. -/
def nestedContainer (d : KeyedEncodingContainer L K) (key : K)
    (body : KeyedEncodingContainer L K' → KeyedEncodingContainer L K') :
    KeyedEncodingContainer L K :=
  ⟨d.container.set (CodingKey.stringValue key) (.map (body {}).container)⟩

end KeyedEncodingContainer

/-! ## Shapes -/

/-- What a format reads of a document: at a leaf, how it is rewritten (`none`
where the leaf has the wrong type); at a map, the fields it looks at. -/
inductive Shape (L : Type*) where
  | leaf (canonical : L → Option L)
  | node (fields : List (String × Shape L))

namespace Shape

mutual

/-- The document cut down to the shape, its leaves rewritten; `none` where a part
of the shape is missing or of another kind. -/
def restrict : Shape L → Value L → Option (Value L)
  | .leaf canonical, .leaf l => (canonical l).map Value.leaf
  | .node fields, .map vs => (restrictFields fields vs).map Value.map
  | _, _ => none

def restrictFields : List (String × Shape L) → Fields L → Option (Fields L)
  | [], _ => some []
  | (k, s) :: fields, vs =>
      ((vs.lookup k).bind (restrict s)).bind fun v =>
        (restrictFields fields vs).map fun rest => (k, v) :: rest

end

mutual

/-- The paths of the leaves, each with its rewriting. -/
def leaves : Shape L → List (List String × (L → Option L))
  | .leaf canonical => [([], canonical)]
  | .node fields => leavesFields fields

def leavesFields : List (String × Shape L) → List (List String × (L → Option L))
  | [] => []
  | (k, s) :: fields => (leaves s).map (fun pc => (k :: pc.1, pc.2)) ++ leavesFields fields

end

mutual

/-- The paths of the maps. -/
def nodes : Shape L → List (List String)
  | .leaf _ => []
  | .node fields => [] :: nodesFields fields

def nodesFields : List (String × Shape L) → List (List String)
  | [] => []
  | (k, s) :: fields => (nodes s).map (fun p => k :: p) ++ nodesFields fields

end

mutual

/-- No map of the shape names a field twice. -/
def Distinct : Shape L → Prop
  | .leaf _ => True
  | .node fields => (fields.map Prod.fst).Nodup ∧ DistinctFields fields

def DistinctFields : List (String × Shape L) → Prop
  | [] => True
  | (_, s) :: fields => Distinct s ∧ DistinctFields fields

end

/-- Induction over shapes, a map's case from those of its fields. -/
theorem induction_mem {P : Shape L → Prop} (leaf : ∀ canonical, P (.leaf canonical))
    (node : ∀ fields, (∀ k s, (k, s) ∈ fields → P s) → P (.node fields)) : ∀ s, P s
  | .leaf canonical => leaf canonical
  | .node fields => node fields fun k s hs =>
      -- the shape of a field is smaller than the shape of the map
      have : sizeOf s < 1 + sizeOf fields := by
        have hmem := List.sizeOf_lt_of_mem hs
        rw [Prod.mk.sizeOf_spec] at hmem
        omega
      induction_mem leaf node s
termination_by s => sizeOf s

/-! ### The paths of a shape, field by field -/

theorem nil_notMem_leavesFields (fields : List (String × Shape L)) (c : L → Option L) :
    ([], c) ∉ leavesFields fields := by
  induction fields with
  | nil => simp [leavesFields]
  | cons f fields ih => simpa [leavesFields] using ih

theorem cons_mem_leavesFields {fields : List (String × Shape L)} {k : String} {p : List String}
    {c : L → Option L} :
    (k :: p, c) ∈ leavesFields fields ↔ ∃ s, (k, s) ∈ fields ∧ (p, c) ∈ leaves s := by
  induction fields with
  | nil => simp [leavesFields]
  | cons f fields ih =>
      obtain ⟨kf, sf⟩ := f
      simp only [leavesFields, List.mem_append, ih, List.mem_map, List.mem_cons, Prod.mk.injEq,
        Prod.exists, List.cons.injEq]
      constructor
      · rintro (⟨q, c', hq, ⟨rfl, rfl⟩, rfl⟩ | ⟨s, hs, hp⟩)
        · exact ⟨sf, Or.inl ⟨rfl, rfl⟩, hq⟩
        · exact ⟨s, Or.inr hs, hp⟩
      · rintro ⟨s, ⟨rfl, rfl⟩ | hs, hp⟩
        · exact Or.inl ⟨p, c, hp, ⟨rfl, rfl⟩, rfl⟩
        · exact Or.inr ⟨s, hs, hp⟩

theorem cons_mem_nodesFields {fields : List (String × Shape L)} {k : String} {p : List String} :
    k :: p ∈ nodesFields fields ↔ ∃ s, (k, s) ∈ fields ∧ p ∈ nodes s := by
  induction fields with
  | nil => simp [nodesFields]
  | cons f fields ih =>
      obtain ⟨kf, sf⟩ := f
      simp only [nodesFields, List.mem_append, ih, List.mem_map, List.mem_cons, Prod.mk.injEq,
        List.cons.injEq]
      constructor
      · rintro (⟨q, hq, rfl, rfl⟩ | ⟨s, hs, hp⟩)
        · exact ⟨sf, Or.inl ⟨rfl, rfl⟩, hq⟩
        · exact ⟨s, Or.inr hs, hp⟩
      · rintro ⟨s, ⟨rfl, rfl⟩ | hs, hp⟩
        · exact Or.inl ⟨p, hp, rfl, rfl⟩
        · exact Or.inr ⟨s, hs, hp⟩

theorem distinct_of_mem {fields : List (String × Shape L)} {k : String} {s : Shape L}
    (h : DistinctFields fields) (hs : (k, s) ∈ fields) : Distinct s := by
  induction fields with
  | nil => exact absurd hs List.not_mem_nil
  | cons f fields ih =>
      obtain ⟨kf, sf⟩ := f
      rw [DistinctFields] at h
      rcases List.mem_cons.mp hs with heq | hs
      · rw [Prod.mk.injEq] at heq
        exact heq.2 ▸ h.1
      · exact ih h.2 hs

/-! ### Reading through containers

A reader that goes through the fields of a map in some order and writes them back
in the same order does what a shape with these fields does. The two lemmas are one
step of that comparison: what is left to show is the same for the rest of the
reader and the rest of the shape. -/

theorem restrict_leaf {α : Type*} (c : Codec L α) (v : Value L) :
    restrict (.leaf c.canonical) v = (c.read v).map (fun a => .leaf (c.encode a)) := by
  rcases v with l | vs | vs
  · rw [restrict, Codec.canonical, Option.map_map]
    rfl
  · rfl
  · rfl

theorem restrictFields_nil_bind {β : Type*} (vs : Fields L) (g : Fields L → Option β) :
    (restrictFields [] vs).bind g = g [] := by rw [restrictFields, Option.bind_some]

theorem decode_step {K α β γ : Type*} [CodingKey K] (c : Codec L α) (key : K)
    {fields : List (String × Shape L)} {vs : Fields L} {next : α → Option γ}
    {f : γ → Option β} {g : Fields L → Option β}
    (hrest : ∀ a, (next a).bind f = (restrictFields fields vs).bind fun rest =>
      g ((CodingKey.stringValue key, .leaf (c.encode a)) :: rest)) :
    (((⟨vs⟩ : KeyedDecodingContainer L K).decode c key).bind next).bind f
      = (restrictFields ((CodingKey.stringValue key, .leaf c.canonical) :: fields) vs).bind g := by
  rw [KeyedDecodingContainer.decode, restrictFields]
  -- a missing key ends both sides, and so does a value of another type
  rcases vs.lookup (CodingKey.stringValue key) with _ | v
  · rfl
  · rw [Option.bind_some, Option.bind_some, restrict_leaf]
    rcases c.read v with _ | a
    · rfl
    · rw [Option.map_some, Option.bind_some, Option.bind_some, Option.bind_map, hrest a]
      rfl

theorem nestedContainer_step {K β γ : Type*} (K' : Type*) [CodingKey K] (key : K)
    {inner fields : List (String × Shape L)} {vs : Fields L}
    {next : KeyedDecodingContainer L K' → Option γ} {f : γ → Option β} {g : Fields L → Option β}
    (hrest : ∀ d : KeyedDecodingContainer L K', (next d).bind f =
      (restrictFields inner d.container).bind fun r => (restrictFields fields vs).bind fun rest =>
        g ((CodingKey.stringValue key, .map r) :: rest)) :
    (((⟨vs⟩ : KeyedDecodingContainer L K).nestedContainer K' key).bind next).bind f
      = (restrictFields ((CodingKey.stringValue key, .node inner) :: fields) vs).bind g := by
  rw [KeyedDecodingContainer.nestedContainer, restrictFields]
  rcases vs.lookup (CodingKey.stringValue key) with _ | v
  · rfl
  · rcases v with l | ws | ws
    · rfl
    · rfl
    · -- only a map has a container, and only a map is cut down to a map
      rw [Option.bind_some, Option.bind_some, Value.container, Option.bind_some, restrict, hrest]
      show (restrictFields inner ws).bind _ = _
      rcases restrictFields inner ws with _ | r
      · rfl
      · rw [Option.map_some, Option.bind_some, Option.bind_some, Option.bind_map]
        rfl

/-! ### What a shape accepts -/

/-- The leaves and the maps listed are in the document, the leaves with the types
their rewritings ask for. -/
def Carries (v : Value L) (leaves : List (List String × (L → Option L)))
    (nodes : List (List String)) : Prop :=
  (∀ pc ∈ leaves, ∃ l, v.at? pc.1 = some (.leaf l) ∧ (pc.2 l).isSome)
    ∧ ∀ p ∈ nodes, ∃ fields, v.at? p = some (.map fields)

theorem restrictFields_isSome_iff (fields : List (String × Shape L)) (vs : Fields L) :
    (restrictFields fields vs).isSome
      ↔ ∀ k s, (k, s) ∈ fields → ∃ w, vs.lookup k = some w ∧ (restrict s w).isSome := by
  induction fields with
  | nil => simp [restrictFields]
  | cons f fields ih =>
      obtain ⟨kf, sf⟩ := f
      -- the first field must be there and be accepted, and so must the others
      have hfirst : (((vs.lookup kf).bind (restrict sf)).bind fun v =>
          (restrictFields fields vs).map fun rest => (kf, v) :: rest).isSome
          ↔ (∃ w, vs.lookup kf = some w ∧ (restrict sf w).isSome)
            ∧ (restrictFields fields vs).isSome := by
        rcases vs.lookup kf with _ | w
        · simp
        · rw [Option.bind_some]
          rcases hr : restrict sf w with _ | r
          · simp [hr]
          · simp [hr]
      rw [restrictFields, hfirst, ih]
      constructor
      · rintro ⟨h, hrest⟩ k s hs
        rcases List.mem_cons.mp hs with heq | hs
        · rw [Prod.mk.injEq] at heq
          rw [heq.1, heq.2]
          exact h
        · exact hrest k s hs
      · intro h
        exact ⟨h kf sf (List.mem_cons_self ..),
          fun k s hs => h k s (List.mem_cons_of_mem _ hs)⟩

/-- A shape asks for something, so what a missing field would hold is missed. -/
theorem exists_path (s : Shape L) : (∃ pc, pc ∈ leaves s) ∨ ∃ p, p ∈ nodes s := by
  rcases s with c | fields
  · exact Or.inl ⟨([], c), by rw [leaves]; exact List.mem_singleton_self _⟩
  · exact Or.inr ⟨[], by rw [nodes]; exact List.mem_cons_self ..⟩

/-- What a map carries for the shape of a map, its fields carry for theirs. -/
theorem carries_node_iff (fields : List (String × Shape L)) (vs : Fields L) :
    Carries (.map vs) (leaves (.node fields)) (nodes (.node fields))
      ↔ ∀ k s, (k, s) ∈ fields → ∃ w, vs.lookup k = some w ∧ Carries w (leaves s) (nodes s) := by
  rw [leaves, nodes]
  constructor
  · rintro ⟨hleaves, hnodes⟩ k s hs
    have hleaf : ∀ p c, (p, c) ∈ leaves s →
        ∃ l, (Value.map vs).at? (k :: p) = some (.leaf l) ∧ (c l).isSome := by
      intro p c hp
      exact hleaves (k :: p, c) (cons_mem_leavesFields.mpr ⟨s, hs, hp⟩)
    have hnode : ∀ p, p ∈ nodes s → ∃ fs, (Value.map vs).at? (k :: p) = some (.map fs) := by
      intro p hp
      exact hnodes (k :: p) (List.mem_cons_of_mem _ (cons_mem_nodesFields.mpr ⟨s, hs, hp⟩))
    simp only [Value.at?_cons, Value.field?_map] at hleaf hnode
    rcases hw : vs.lookup k with _ | w
    · -- the shape of the field asks for some path, and there is none below it
      rw [hw] at hleaf hnode
      rcases exists_path s with ⟨⟨p, c⟩, hp⟩ | ⟨p, hp⟩
      · obtain ⟨l, hl, -⟩ := hleaf p c hp
        exact absurd hl (by simp)
      · obtain ⟨fs, hfs⟩ := hnode p hp
        exact absurd hfs (by simp)
    · rw [hw] at hleaf hnode
      exact ⟨w, rfl, fun pc hpc => hleaf pc.1 pc.2 hpc, hnode⟩
  · intro h
    constructor
    · rintro ⟨p, c⟩ hp
      rcases p with _ | ⟨k, p⟩
      · -- no leaf is at the empty path of a map
        exact absurd hp (nil_notMem_leavesFields fields c)
      · obtain ⟨s, hs, hp⟩ := cons_mem_leavesFields.mp hp
        obtain ⟨w, hw, hcarries⟩ := h k s hs
        obtain ⟨l, hl, hc⟩ := hcarries.1 (p, c) hp
        refine ⟨l, ?_, hc⟩
        rw [Value.at?_cons, Value.field?_map, hw]
        exact hl
    · intro p hp
      rcases p with _ | ⟨k, p⟩
      · exact ⟨vs, Value.at?_nil _⟩
      · have hp : k :: p ∈ nodesFields fields := by simpa using hp
        obtain ⟨s, hs, hp⟩ := cons_mem_nodesFields.mp hp
        obtain ⟨w, hw, hcarries⟩ := h k s hs
        obtain ⟨fs, hfs⟩ := hcarries.2 p hp
        refine ⟨fs, ?_⟩
        rw [Value.at?_cons, Value.field?_map, hw]
        exact hfs

/-- **Acceptance, path by path.** The shape cuts a document down exactly when every
leaf of the shape is there with its type and every map of the shape is a map. -/
theorem restrict_isSome_iff (s : Shape L) (v : Value L) :
    (restrict s v).isSome ↔ Carries v (leaves s) (nodes s) := by
  induction s using induction_mem generalizing v with
  | leaf canonical =>
      rcases v with l | vs | vs <;> simp [restrict, Carries, leaves, nodes]
  | node fields ih =>
      rcases v with l | vs | vs
      · simp [restrict, Carries, leaves, nodes]
      · simp [restrict, Carries, leaves, nodes]
      · -- field by field on both sides
        rw [restrict, Option.isSome_map, restrictFields_isSome_iff, carries_node_iff]
        constructor
        · intro h k s hs
          obtain ⟨w, hw, hsome⟩ := h k s hs
          exact ⟨w, hw, (ih k s hs w).mp hsome⟩
        · intro h k s hs
          obtain ⟨w, hw, hcarries⟩ := h k s hs
          exact ⟨w, hw, (ih k s hs w).mpr hcarries⟩

/-! ### What a shape leaves -/

/-- The fields left are the shape's, each cut down to the shape it has there. -/
theorem restrictFields_lookup {fields : List (String × Shape L)} {vs rs : Fields L}
    (hnodup : (fields.map Prod.fst).Nodup) (h : restrictFields fields vs = some rs) (k : String) :
    (∀ s, (k, s) ∈ fields →
        ∃ w r, vs.lookup k = some w ∧ restrict s w = some r ∧ rs.lookup k = some r)
      ∧ (k ∉ fields.map Prod.fst → rs.lookup k = none) := by
  induction fields generalizing rs with
  | nil =>
      rw [restrictFields, Option.some.injEq] at h
      subst h
      exact ⟨fun s hs => absurd hs List.not_mem_nil, fun _ => rfl⟩
  | cons f fields ih =>
      obtain ⟨kf, sf⟩ := f
      rw [List.map_cons, List.nodup_cons] at hnodup
      rw [restrictFields, Option.bind_eq_some_iff] at h
      obtain ⟨r, hwr, h⟩ := h
      obtain ⟨w, hw, hr⟩ := Option.bind_eq_some_iff.mp hwr
      obtain ⟨rest, hrest, rfl⟩ := Option.map_eq_some_iff.mp h
      have ih := ih hnodup.2 hrest
      by_cases hk : k = kf
      · subst hk
        refine ⟨fun s hs => ?_, fun hnot => absurd (by simp) hnot⟩
        rcases List.mem_cons.mp hs with heq | hs
        · rw [Prod.mk.injEq] at heq
          rw [heq.2]
          exact ⟨w, r, hw, hr, Fields.lookup_cons_self rest k r⟩
        · -- a second field of this key would make the map name it twice
          exact absurd (List.mem_map.mpr ⟨(k, s), hs, rfl⟩) hnodup.1
      · rw [Fields.lookup_cons_of_ne rest r hk]
        refine ⟨fun s hs => ?_, fun hnot => ?_⟩
        · rcases List.mem_cons.mp hs with heq | hs
          · rw [Prod.mk.injEq] at heq
            exact absurd heq.1 hk
          · exact ih.1 s hs
        · rw [List.map_cons, List.mem_cons, not_or] at hnot
          exact ih.2 hnot.2

/-- What is left of `v` at a path: at a leaf of the shape the rewritten leaf, at a map
of the shape a map, and nowhere else anything. -/
structure LeftAt (v r : Value L) (leaves : List (List String × (L → Option L)))
    (nodes : List (List String)) (p : List String) : Prop where
  leaf : ∀ c, (p, c) ∈ leaves →
    ∃ l, v.at? p = some (.leaf l) ∧ r.at? p = (c l).map Value.leaf
  node : p ∈ nodes → ∃ fields, r.at? p = some (.map fields)
  other : (∀ c, (p, c) ∉ leaves) → p ∉ nodes → r.at? p = none

/-- What is left of a map below one of its keys is what is left of the field. -/
theorem LeftAt.cons {fields : List (String × Shape L)} {vs rs : Fields L} {k : String}
    {p : List String} (hnodup : (fields.map Prod.fst).Nodup)
    (hrs : restrictFields fields vs = some rs)
    (hfield : ∀ s w r, (k, s) ∈ fields → restrict s w = some r →
      LeftAt w r (leaves s) (nodes s) p) :
    LeftAt (.map vs) (.map rs) (leaves (.node fields)) (nodes (.node fields)) (k :: p) := by
  obtain ⟨hmem, hnone⟩ := restrictFields_lookup hnodup hrs k
  rw [leaves, nodes]
  refine ⟨?_, ?_, ?_⟩
  · intro c hc
    obtain ⟨s, hs, hp⟩ := cons_mem_leavesFields.mp hc
    obtain ⟨w, r, hw, hr, hrk⟩ := hmem s hs
    rw [Value.at?_cons, Value.at?_cons, Value.field?_map, Value.field?_map, hw, hrk]
    exact (hfield s w r hs hr).leaf c hp
  · intro hp
    have hp : k :: p ∈ nodesFields fields := by simpa using hp
    obtain ⟨s, hs, hp⟩ := cons_mem_nodesFields.mp hp
    obtain ⟨w, r, hw, hr, hrk⟩ := hmem s hs
    rw [Value.at?_cons, Value.field?_map, hrk]
    exact (hfield s w r hs hr).node hp
  · intro hleaf hnode
    rw [Value.at?_cons, Value.field?_map]
    by_cases hk : k ∈ fields.map Prod.fst
    · obtain ⟨⟨k', s⟩, hs, rfl⟩ := List.mem_map.mp hk
      obtain ⟨w, r, hw, hr, hrk⟩ := hmem s hs
      rw [hrk]
      apply (hfield s w r hs hr).other
      · intro c hc
        exact hleaf c (cons_mem_leavesFields.mpr ⟨s, hs, hc⟩)
      · intro hp
        exact hnode (List.mem_cons_of_mem _ (cons_mem_nodesFields.mpr ⟨s, hs, hp⟩))
    · -- a key that the shape does not have is not written back
      rw [hnone hk, Option.bind_none]

/-- **The document left, path by path.** -/
theorem restrict_at? {s : Shape L} {v r : Value L} (hs : Distinct s)
    (h : restrict s v = some r) (p : List String) : LeftAt v r (leaves s) (nodes s) p := by
  induction s using induction_mem generalizing v r p with
  | leaf canonical =>
      rcases v with l | vs | vs
      · obtain ⟨l', hl', rfl⟩ := Option.map_eq_some_iff.mp h
        rw [leaves, nodes]
        -- a leaf has a value at the empty path and at no other
        rcases p with _ | ⟨k, p⟩
        · refine ⟨?_, fun hp => absurd hp List.not_mem_nil,
            fun hnot => absurd (List.mem_singleton_self _) (hnot canonical)⟩
          intro c hc
          obtain rfl : c = canonical := by simpa using hc
          exact ⟨l, Value.at?_nil _, by rw [Value.at?_nil, hl', Option.map_some]⟩
        · exact ⟨fun c hc => by simp at hc, fun hp => absurd hp List.not_mem_nil,
            fun _ _ => by simp⟩
      · exact absurd h (by simp [restrict])
      · exact absurd h (by simp [restrict])
  | node fields ih =>
      rcases v with l | vs | vs
      · exact absurd h (by simp [restrict])
      · exact absurd h (by simp [restrict])
      · rw [restrict, Option.map_eq_some_iff] at h
        obtain ⟨rs, hrs, rfl⟩ := h
        rw [Distinct] at hs
        obtain ⟨hnodup, hdistinct⟩ := hs
        rcases p with _ | ⟨k, p⟩
        · rw [leaves, nodes]
          exact ⟨fun c hc => absurd hc (nil_notMem_leavesFields fields c),
            fun _ => ⟨rs, Value.at?_nil _⟩,
            fun _ hnot => absurd (List.mem_cons_self ..) hnot⟩
        · apply LeftAt.cons hnodup hrs
          intro s w r hsmem hr
          exact ih k s hsmem (distinct_of_mem hdistinct hsmem) hr p

end Shape

end Document
