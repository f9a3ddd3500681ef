/-
`model/mutation.h` with its four kinds of mutation, `model/precondition.h`,
`model/mutation_batch.h` and `model/mutation_batch_result.h`: writes, and what they make of
a document.

A mutation is made to the document that the client has, to show it at once, and again to
the one that the backend has confirmed when its result is there. The operations of a
transform are an abstract class in the source, and are known here by its three functions.
-/
import FreeFood.Firestore.ObjectValue
import FreeFood.Firestore.View
import FreeFood.Lib.Overlay
import FreeFood.Lib.Transition
import Mathlib.Dynamics.FixedPoints.Basic

set_option autoImplicit false

namespace FreeFood.Firestore

open Std

/-! ## 1. Documents and preconditions -/

/-- `MaybeDocument`, with the data that mutations change. -/
abbrev AnyDocument := MaybeDocument ObjectValue

def MaybeDocument.version {D : Type} : MaybeDocument D → SnapshotVersion
  | document doc => doc.version
  | noDocument _ version _ => version
  | unknownDocument _ version => version

/-- `has_pending_writes`: there is a mutation that the backend has not sent back yet. -/
def MaybeDocument.hasPendingWrites {D : Type} : MaybeDocument D → Bool
  | document doc => doc.hasLocalMutations || doc.hasCommittedMutations
  | noDocument _ _ committedMutations => committedMutations
  | unknownDocument _ _ => true

/-- Documents that are the same have one key and one version, and the same writes. -/
theorem MaybeDocument.labels_of_beq {D : Type} [Ord D] {a b : MaybeDocument D}
    (h : (a == b) = true) : a.key = b.key ∧ a.version = b.version ∧
      a.hasPendingWrites = b.hasPendingWrites := by
  match a, b, h with
  | .document a, .document b, h =>
      obtain ⟨hkey, hversion, hstate, -⟩ := Document.of_beq (a := a) (b := b) h
      refine ⟨hkey, hversion, ?_⟩
      simp only [hasPendingWrites, Document.hasLocalMutations, Document.hasCommittedMutations,
        hstate]
  | .noDocument k v c, .noDocument k' v' c', h =>
      simp only [BEq.beq, Bool.and_eq_true, decide_eq_true_eq] at h
      exact ⟨h.1.1, h.1.2, h.2⟩
  | .unknownDocument k v, .unknownDocument k' v', h =>
      simp only [BEq.beq, Bool.and_eq_true, decide_eq_true_eq] at h
      exact ⟨h.1, h.2, rfl⟩


/-- `SnapshotVersion::None`. -/
def noVersion : SnapshotVersion := 0

/-- `Precondition`. -/
inductive Precondition where
  | none
  | existing (exist : Bool)
  | updateTime (version : SnapshotVersion)
deriving DecidableEq

/-- The document under a key, if there is one. -/
def document? (maybeDoc : Option AnyDocument) : Option (Document ObjectValue) :=
  maybeDoc.bind MaybeDocument.document?

def Precondition.isValidFor (p : Precondition) (maybeDoc : Option AnyDocument) : Bool :=
  match p with
  | .updateTime version => (document? maybeDoc).any fun doc => doc.version == version
  | .existing exist => exist == (document? maybeDoc).isSome
  | .none => true

/-- `GetPostMutationVersion`. -/
def getPostMutationVersion (maybeDoc : Option AnyDocument) : SnapshotVersion :=
  ((document? maybeDoc).map Document.version).getD noVersion

/-! ## 2. Mutations -/

/-- `FieldMask`. -/
abbrev FieldMask := SortedMap FieldPath Unit comparePaths

namespace FieldValue

mutual

/-- The paths of the leaves of an object. -/
def leafPaths : FieldValue → List FieldPath
  | .map l => leafPathsMap l
  | _ => []

def leafPathsMap : List (String × FieldValue) → List FieldPath
  | [] => []
  | (name, v) :: l =>
      -- an empty map is kept by its own path
      (match leafPaths v with
        | [] => [[name]]
        | paths => paths.map fun path => name :: path) ++ leafPathsMap l

end

end FieldValue

/-- `ToFieldMask`. -/
def ObjectValue.toFieldMask (o : ObjectValue) : FieldMask :=
  (FieldValue.leafPathsMap o.fields).foldl (fun mask path => mask.insert path ()) SortedMap.empty

open ObjectValue (OrderedValue)

/-- `TransformOperation`: what its subclasses make of the value of a field. -/
structure TransformOperation where
  applyToLocalView : Option OrderedValue → Timestamp → OrderedValue
  applyToRemoteDocument : Option OrderedValue → OrderedValue → OrderedValue
  computeBaseValue : Option OrderedValue → Option OrderedValue

structure FieldTransform where
  path : FieldPath
  transformation : TransformOperation

/-- `MutationResult`. -/
structure MutationResult where
  version : SnapshotVersion
  transformResults : Option (List OrderedValue)

/-- `SetMutation`, `PatchMutation`, `TransformMutation` and `DeleteMutation`. -/
inductive Mutation where
  | set (key : DocumentKey) (value : ObjectValue) (precondition : Precondition)
  | patch (key : DocumentKey) (value : ObjectValue) (mask : FieldMask)
      (precondition : Precondition)
  | transform (key : DocumentKey) (fieldTransforms : List FieldTransform)
  | delete (key : DocumentKey) (precondition : Precondition)

namespace Mutation

def key : Mutation → DocumentKey
  | set key _ _ => key
  | patch key _ _ _ => key
  | transform key _ => key
  | delete key _ => key

def precondition : Mutation → Precondition
  | set _ _ precondition => precondition
  | patch _ _ _ precondition => precondition
  | transform _ _ => .existing true
  | delete _ precondition => precondition

/-- One path of `PatchObject`. -/
def patchPath (value : ObjectValue) (obj : ObjectValue) (path : FieldPath) : ObjectValue :=
  if path = [] then obj
  else
    match value.get? path with
    | none => obj.delete path
    | some v => obj.set path v.1 v.2

/-- `PatchObject`. -/
def patchObject (value : ObjectValue) (mask : FieldMask) (obj : ObjectValue) : ObjectValue :=
  (mask.toList.map Prod.fst).foldl (patchPath value) obj

/-- `PatchDocument`. -/
def patchDocument (value : ObjectValue) (mask : FieldMask) (maybeDoc : Option AnyDocument) :
    ObjectValue :=
  patchObject value mask (((document? maybeDoc).map Document.data).getD ObjectValue.empty)

/-- `LocalTransformResults`: a field that the document has no value for may have had one
before the batch. -/
def localTransformResults (fieldTransforms : List FieldTransform) (doc : Document ObjectValue)
    (baseDoc : Option AnyDocument) (localWriteTime : Timestamp) : List OrderedValue :=
  fieldTransforms.map fun t =>
    t.transformation.applyToLocalView
      ((doc.data.get? t.path).or ((document? baseDoc).bind fun base => base.data.get? t.path))
      localWriteTime

/-- `ServerTransformResults`, which asserts that there is a result for each transform. -/
def serverTransformResults (fieldTransforms : List FieldTransform) (doc : Document ObjectValue)
    (results : List OrderedValue) : Option (List OrderedValue) :=
  if fieldTransforms.length = results.length then
    some ((fieldTransforms.zip results).map fun (t, result) =>
      t.transformation.applyToRemoteDocument (doc.data.get? t.path) result)
  else none

/-- `TransformObject`. -/
def transformObject (fieldTransforms : List FieldTransform) (data : ObjectValue)
    (results : List OrderedValue) : ObjectValue :=
  (fieldTransforms.zip results).foldl (fun obj (t, v) => obj.set t.path v.1 v.2) data

/-- `ApplyToLocalView`. -/
def applyToLocalView (m : Mutation) (maybeDoc baseDoc : Option AnyDocument)
    (localWriteTime : Timestamp) : Option AnyDocument :=
  if m.precondition.isValidFor maybeDoc then
    match m with
    | set key value _ =>
        some (.document ⟨key, getPostMutationVersion maybeDoc, value, .localMutations⟩)
    | patch key value mask _ =>
        some (.document ⟨key, getPostMutationVersion maybeDoc, patchDocument value mask maybeDoc,
          .localMutations⟩)
    | transform _ fieldTransforms =>
        -- the precondition holds of documents only, as the source asserts
        (document? maybeDoc).map fun doc =>
          .document ⟨doc.key, doc.version,
            transformObject fieldTransforms doc.data
              (localTransformResults fieldTransforms doc baseDoc localWriteTime),
            .localMutations⟩
    | delete key _ => some (.noDocument key noVersion false)
  else maybeDoc

/-- `ApplyToRemoteDocument`, `none` where an assertion fails. Only a transform has
transform results. -/
def applyToRemoteDocument (m : Mutation) (maybeDoc : Option AnyDocument) (result : MutationResult) :
    Option AnyDocument :=
  match m, result.transformResults with
  | set key value _, none => some (.document ⟨key, result.version, value, .committedMutations⟩)
  | patch key value mask precondition, none =>
      -- the backend has taken the mutation, so the client has the wrong document
      if precondition.isValidFor maybeDoc then
        some (.document ⟨key, result.version, patchDocument value mask maybeDoc,
          .committedMutations⟩)
      else some (.unknownDocument key result.version)
  | transform key fieldTransforms, some results =>
      match document? maybeDoc with
      | none => some (.unknownDocument key result.version)
      | some doc =>
          (serverTransformResults fieldTransforms doc results).map fun results =>
            .document ⟨key, result.version, transformObject fieldTransforms doc.data results,
              .committedMutations⟩
  | delete key _, none => some (.noDocument key result.version true)
  | _, _ => none

/-- `ExtractBaseValue`: the values that transforms must not be made to twice. -/
def extractBaseValue (m : Mutation) (maybeDoc : Option AnyDocument) : Option ObjectValue :=
  match m with
  | transform _ fieldTransforms =>
      fieldTransforms.foldl
        (fun base t =>
          let existing := (document? maybeDoc).bind fun doc => doc.data.get? t.path
          match t.transformation.computeBaseValue existing with
          | some v => some ((base.getD ObjectValue.empty).set t.path v.1 v.2)
          | none => base)
        none
  | _ => none

end Mutation

/-! ## 3. Batches -/

/-- `MutationBatch`. It is asserted that there are mutations, and the local store makes base
mutations of documents that the batch mutates. -/
structure MutationBatch where
  batchId : ℤ
  localWriteTime : Timestamp
  baseMutations : List Mutation
  mutations : List Mutation
  nonempty : mutations ≠ []
  based : ∀ b ∈ baseMutations, ∃ m ∈ mutations, m.key = b.key

namespace MutationBatch

/-- The mutations of one document, one after the other. -/
def applyMutations (mutations : List Mutation) (localWriteTime : Timestamp) (k : DocumentKey)
    (baseDoc : Option AnyDocument → Option AnyDocument) (maybeDoc : Option AnyDocument) :
    Option AnyDocument :=
  mutations.foldl
    (fun doc m => if m.key = k then m.applyToLocalView doc (baseDoc doc) localWriteTime else doc)
    maybeDoc

/-- `ApplyToLocalDocument`: the base state first, and over it what the user has written. -/
def applyToLocalDocument (b : MutationBatch) (k : DocumentKey) (maybeDoc : Option AnyDocument) :
    Option AnyDocument :=
  let baseDoc := applyMutations b.baseMutations b.localWriteTime k id maybeDoc
  applyMutations b.mutations b.localWriteTime k (fun _ => baseDoc) baseDoc

/-- `ApplyToLocalDocumentSet`: the whole batch for each of its mutations. -/
def applyToLocalDocumentSet (b : MutationBatch) (documentSet : MaybeDocumentMap ObjectValue) :
    MaybeDocumentMap ObjectValue :=
  b.mutations.foldl
    (fun docs m =>
      match b.applyToLocalDocument m.key (docs.get m.key) with
      | some doc => docs.insert m.key doc
      | none => docs)
    documentSet

def keys (b : MutationBatch) : DocumentKeySet :=
  b.mutations.foldl (fun set m => set.insert m.key ()) SortedMap.empty

/-- Whether the batch has a mutation of a document. -/
def mutates (b : MutationBatch) (k : DocumentKey) : Bool := b.mutations.any fun m => m.key == k

end MutationBatch

/-- `MutationBatchResult`, which asserts that there is a result for each mutation. -/
structure MutationBatchResult where
  batch : MutationBatch
  commitVersion : SnapshotVersion
  mutationResults : List MutationResult
  sizes : batch.mutations.length = mutationResults.length

/-- `doc_versions`: the version of the last mutation of a document. -/
def MutationBatchResult.docVersions (r : MutationBatchResult) :
    SortedMap DocumentKey SnapshotVersion compareKeys :=
  (r.batch.mutations.zip r.mutationResults).foldl
    (fun versions (m, result) => versions.insert m.key result.version) SortedMap.empty

/-- `ApplyToRemoteDocument`, `none` where an assertion fails. -/
def MutationBatch.applyToRemoteDocument (b : MutationBatch) (k : DocumentKey)
    (results : List MutationResult) (maybeDoc : Option AnyDocument) : Option (Option AnyDocument) :=
  (b.mutations.zip results).foldlM
    (fun doc (m, result) =>
      if m.key = k then (m.applyToRemoteDocument doc result).map some else some doc)
    maybeDoc

/-! ## 4. Documents that are not there -/

/-- What is shown of a key under which nothing is known. -/
def missing (k : DocumentKey) : AnyDocument := .noDocument k noVersion false

/-- What is shown of a key. -/
def shown (k : DocumentKey) (maybeDoc : Option AnyDocument) : AnyDocument :=
  maybeDoc.getD (missing k)

theorem document?_shown (k : DocumentKey) (maybeDoc : Option AnyDocument) :
    (shown k maybeDoc).document? = document? maybeDoc := by
  cases maybeDoc <;> rfl

theorem document?_eq_of_shown {k : DocumentKey} {a b : Option AnyDocument}
    (h : shown k a = shown k b) : document? a = document? b := by
  rw [← document?_shown k a, h, document?_shown]

theorem Precondition.isValidFor_congr {p : Precondition} {a b : Option AnyDocument}
    (h : document? a = document? b) : p.isValidFor a = p.isValidFor b := by
  cases p <;> simp only [isValidFor, h]

namespace Mutation

variable {m : Mutation} {a b base base' : Option AnyDocument} {k : DocumentKey} {t : Timestamp}

/-- What a mutation makes depends on the document there is, and on no more. -/
theorem applyToLocalView_congr (h : document? a = document? b)
    (hbase : document? base = document? base') (hvalid : m.precondition.isValidFor a = true) :
    m.applyToLocalView a base t = m.applyToLocalView b base' t := by
  have hvalid' : m.precondition.isValidFor b = true := by
    rw [← Precondition.isValidFor_congr h]
    exact hvalid
  unfold applyToLocalView
  rw [if_pos hvalid, if_pos hvalid']
  cases m <;> simp only [getPostMutationVersion, patchDocument, localTransformResults, h, hbase]

/-! ## 5. What a patch leaves -/

section Patch

variable {value obj : ObjectValue} {path s : FieldPath}

theorem get_eq_bind (o : ObjectValue) (p r : FieldPath) :
    o.get (p ++ r) = (o.get p).bind (FieldValue.getIn r) := FieldValue.getIn_append p r _

/-- One path of `PatchObject`, if every value that is put in replaced the one there. -/
def replacePath (value : ObjectValue) (obj : ObjectValue) (path : FieldPath) : ObjectValue :=
  if path = [] then obj
  else
    match value.get? path with
    | none => obj.take path
    | some v => obj.put path v.1 v.2

/-- At a path of the mask and below it there is what the patch has there. -/
theorem get_replacePath_below (hpath : path ≠ []) (rest : FieldPath) :
    (replacePath value obj path).get (path ++ rest) = value.get (path ++ rest) := by
  have hvalue := ObjectValue.map_get? value path
  unfold replacePath
  rw [if_neg hpath, get_eq_bind value]
  cases hget : value.get? path with
  | none =>
      rw [hget, Option.map_none] at hvalue
      rw [← hvalue, Option.bind_none]
      exact (obj.get_take hpath).1 rest
  | some v =>
      rw [hget, Option.map_some] at hvalue
      rw [← hvalue, Option.bind_some]
      exact (obj.get_put hpath v.2).1 rest

theorem get_replacePath_beside (hpath : ¬ path <+: s) (hs : ¬ s <+: path) :
    (replacePath value obj path).get s = obj.get s := by
  have hne : path ≠ [] := fun h => hpath (h ▸ List.nil_prefix)
  unfold replacePath
  rw [if_neg hne]
  cases value.get? path with
  | none => exact (obj.get_take hne).2.1 s hpath hs
  | some v => exact (obj.get_put hne v.2).2.1 s hpath hs

/-- A path that is as the patch has it stays as it is, and so does all the rest. -/
theorem replacePath_eq_self (h : obj.get path = value.get path) :
    replacePath value obj path = obj := by
  have hvalue := ObjectValue.map_get? value path
  unfold replacePath
  by_cases hpath : path = []
  · rw [if_pos hpath]
  · rw [if_neg hpath]
    rw [← hvalue] at h
    cases hget : value.get? path with
    | none =>
        rw [hget, Option.map_none] at h
        exact ObjectValue.take_eq_self h
    | some v =>
        rw [hget, Option.map_some] at h
        exact ObjectValue.put_eq_self v.2 h

/-- What is as the patch has it is not changed by another path of the mask, be it above,
below or beside. -/
theorem get_replacePath_of_eq (h : obj.get s = value.get s) (path : FieldPath) :
    (replacePath value obj path).get s = value.get s := by
  by_cases hpath : path = []
  · rw [replacePath, if_pos hpath, h]
  · -- the path is above what is asked for, below it or beside it
    by_cases hbelow : path <+: s
    · obtain ⟨rest, rfl⟩ := hbelow
      exact get_replacePath_below hpath rest
    · by_cases habove : s <+: path
      · obtain ⟨rest, rfl⟩ := habove
        have hsame : obj.get (s ++ rest) = value.get (s ++ rest) := by
          rw [get_eq_bind, h, get_eq_bind]
        rw [replacePath_eq_self hsame, h]
      · rw [get_replacePath_beside hbelow habove, h]

theorem get_foldl_of_eq (h : obj.get s = value.get s) (paths : List FieldPath) :
    (paths.foldl (replacePath value) obj).get s = value.get s := by
  induction paths generalizing obj with
  | nil => exact h
  | cons path paths ih => exact ih (get_replacePath_of_eq h path)

theorem get_foldl_covered {paths : List FieldPath}
    (h : ∃ path ∈ paths, path ≠ [] ∧ path <+: s) :
    (paths.foldl (replacePath value) obj).get s = value.get s := by
  induction paths generalizing obj with
  | nil =>
      obtain ⟨path, hmem, -⟩ := h
      cases hmem
  | cons first paths ih =>
      obtain ⟨path, hmem, hne, hprefix⟩ := h
      rcases List.mem_cons.mp hmem with rfl | hmem
      · -- once it is there, it stays
        obtain ⟨rest, rfl⟩ := hprefix
        exact get_foldl_of_eq (get_replacePath_below hne rest) paths
      · exact ih ⟨path, hmem, hne, hprefix⟩

theorem get_foldl_beside {paths : List FieldPath}
    (h : ∀ path ∈ paths, ¬ path <+: s ∧ ¬ s <+: path) :
    (paths.foldl (replacePath value) obj).get s = obj.get s := by
  induction paths generalizing obj with
  | nil => rfl
  | cons first paths ih =>
      obtain ⟨hpath, hs⟩ := h first List.mem_cons_self
      rw [List.foldl_cons, ih fun path hmem => h path (List.mem_cons_of_mem _ hmem)]
      exact get_replacePath_beside hpath hs

/-- `PatchObject` leaves the same as if it did. -/
theorem patchPath_related {R : FieldValue → FieldValue → Prop} (hR : FieldValue.Congruence R)
    {o o' : ObjectValue} (h : FieldValue.Related R o.fields o'.fields) (path : FieldPath) :
    FieldValue.Related R (replacePath value o path).fields (patchPath value o' path).fields := by
  unfold replacePath patchPath
  split
  · exact h
  · split
    · exact FieldValue.deleteIn_related hR o.ascending o'.ascending h
    · exact FieldValue.setIn_related hR o.ascending o'.ascending h

theorem foldl_patchPath_related {R : FieldValue → FieldValue → Prop}
    (hR : FieldValue.Congruence R) (paths : List FieldPath) {o o' : ObjectValue}
    (h : FieldValue.Related R o.fields o'.fields) :
    FieldValue.Related R (paths.foldl (replacePath value) o).fields
      (paths.foldl (patchPath value) o').fields := by
  induction paths generalizing o o' with
  | nil => exact h
  | cons path paths ih => exact ih (patchPath_related hR h path)

theorem mem_paths {mask : FieldMask} :
    path ∈ mask.toList.map Prod.fst ↔ mask.contains path = true := by
  rw [SortedMap.mem_keys_iff, SortedMap.contains_eq]

/-- **What a patch leaves at every path.** A path that the mask covers has the value of the
patch, or none if that has none, and one that is beside the whole mask has what it had, in
whatever way the paths of the mask are nested in one another. All this is up to `==`. -/
theorem get_patchObject (value obj : ObjectValue) (mask : FieldMask) (s : FieldPath) :
    ((∃ path, mask.contains path = true ∧ path ≠ [] ∧ path <+: s) →
        FieldValue.Equal (value.get s) ((patchObject value mask obj).get s))
      ∧ ((∀ path, mask.contains path = true → ¬ path <+: s ∧ ¬ s <+: path) →
        FieldValue.Equal (obj.get s) ((patchObject value mask obj).get s)) := by
  have hsame : FieldValue.Equal
      (((mask.toList.map Prod.fst).foldl (replacePath value) obj).get s)
      ((patchObject value mask obj).get s) :=
    FieldValue.getIn_related FieldValue.congruence_equals s
      (FieldValue.congruence_equals.map_iff.mpr (foldl_patchPath_related
        FieldValue.congruence_equals _ (FieldValue.related_refl FieldValue.congruence_equals _)))
  constructor
  · rintro ⟨path, hmem, hpath⟩
    rw [get_foldl_covered ⟨path, mem_paths.mpr hmem, hpath⟩] at hsame
    exact hsame
  · intro h
    rw [get_foldl_beside fun path hmem => h path (mem_paths.mp hmem)] at hsame
    exact hsame

/-- An object is patched in one field of a map. -/
theorem get_patchObject_inMap :
    let menu := ObjectValue.empty.set ["menu", "curry"] (.leaf (.integer 2)) rfl
    let patch := ObjectValue.empty.set ["menu", "pizza"] (.leaf (.integer 5)) rfl
    let mask : FieldMask := SortedMap.empty.insert ["menu", "pizza"] ()
    FieldValue.Equal (some (.leaf (.integer 5)))
        ((patchObject patch mask menu).get ["menu", "pizza"])
      ∧ FieldValue.Equal (some (.leaf (.integer 2)))
        ((patchObject patch mask menu).get ["menu", "curry"]) := by
  intro menu patch mask
  have hmask : ∀ path, mask.contains path = true → path = ["menu", "pizza"] := by
    intro path hpath
    rw [SortedMap.contains_eq, SortedMap.get_insert_of_lawful] at hpath
    by_contra hne
    rw [if_neg hne] at hpath
    cases hpath
  constructor
  · exact (get_patchObject patch menu mask _).1
      ⟨["menu", "pizza"], by decide +kernel, by decide, List.prefix_rfl⟩
  · refine (get_patchObject patch menu mask ["menu", "curry"]).2 fun path hpath => ?_
    rw [hmask path hpath]
    decide

end Patch

/-! ## 6. One mutation of one document -/

section Local

variable {m : Mutation} {a b base base' : Option AnyDocument} {k : DocumentKey} {t : Timestamp}

theorem applyToLocalView_shown (h : shown k a = shown k b)
    (hbase : document? base = document? base') :
    shown k (m.applyToLocalView a base t) = shown k (m.applyToLocalView b base' t) := by
  have hdoc := document?_eq_of_shown h
  by_cases hvalid : m.precondition.isValidFor a = true
  · rw [applyToLocalView_congr hdoc hbase hvalid]
  · have hvalid' : ¬ m.precondition.isValidFor b = true := by
      rw [← Precondition.isValidFor_congr hdoc]
      exact hvalid
    unfold applyToLocalView
    rw [if_neg hvalid, if_neg hvalid', h]

theorem isSome_applyToLocalView (h : a.isSome = true) :
    (m.applyToLocalView a base t).isSome = true := by
  unfold applyToLocalView
  split
  · next hvalid =>
      cases m with
      | transform key fieldTransforms =>
          have hdoc : (document? a).isSome = true := by
            simpa [precondition, Precondition.isValidFor] using hvalid
          dsimp only
          rw [Option.isSome_map, hdoc]
      | set key value p => rfl
      | patch key value mask p => rfl
      | delete key p => rfl
  · exact h

/-- `VerifyKeyMatches` holds of what a mutation leaves. -/
theorem key_applyToLocalView (h : ∀ d ∈ a, d.key = m.key) :
    ∀ d ∈ m.applyToLocalView a base t, d.key = m.key := by
  intro d hd
  unfold applyToLocalView at hd
  split at hd
  · cases m with
    | transform key fieldTransforms =>
        rw [Option.mem_def, Option.map_eq_some_iff] at hd
        obtain ⟨doc, hdoc, rfl⟩ := hd
        obtain ⟨maybeDoc, hmaybe, hof⟩ := Option.bind_eq_some_iff.mp hdoc
        have hkey := h maybeDoc hmaybe
        cases maybeDoc with
        | document doc' =>
            rw [MaybeDocument.document?, Option.some.injEq] at hof
            exact hof ▸ hkey
        | noDocument key version committed => cases hof
        | unknownDocument key version => cases hof
    | set key value p =>
        cases hd
        rfl
    | patch key value mask p =>
        cases hd
        rfl
    | delete key p =>
        cases hd
        rfl
  · exact h d hd

/-- An answered mutation leaves its document at the version of the answer. -/
theorem labels_applyToRemoteDocument {result : MutationResult} {d : AnyDocument}
    (h : m.applyToRemoteDocument a result = some d) :
    d.key = m.key ∧ d.version = result.version := by
  unfold applyToRemoteDocument at h
  split at h
  · rw [← Option.some.inj h]
    exact ⟨rfl, rfl⟩
  · split at h
    · rw [← Option.some.inj h]
      exact ⟨rfl, rfl⟩
    · rw [← Option.some.inj h]
      exact ⟨rfl, rfl⟩
  · split at h
    · rw [← Option.some.inj h]
      exact ⟨rfl, rfl⟩
    · obtain ⟨results, -, rfl⟩ := Option.map_eq_some_iff.mp h
      exact ⟨rfl, rfl⟩
  · rw [← Option.some.inj h]
    exact ⟨rfl, rfl⟩
  · cases h

end Local

end Mutation

/-! ## 7. One batch -/

namespace MutationBatch

open Overlay Transition

variable {b : MutationBatch} {k : DocumentKey}

/-- The mutations of a batch are a log. -/
theorem applyMutations_eq_read (ms : List Mutation) (t : Timestamp) (k : DocumentKey)
    (baseDoc : Option AnyDocument → Option AnyDocument) (d : Option AnyDocument) :
    applyMutations ms t k baseDoc d
      = read (fun (m : Mutation) k doc =>
          if m.key = k then m.applyToLocalView doc (baseDoc doc) t else doc) ms k d := rfl

theorem applyMutations_of_untouched {ms : List Mutation} (h : ∀ m ∈ ms, m.key ≠ k) (t : Timestamp)
    (baseDoc : Option AnyDocument → Option AnyDocument) (d : Option AnyDocument) :
    applyMutations ms t k baseDoc d = d := by
  have hlocal : Local (fun (m : Mutation) k doc =>
      if m.key = k then m.applyToLocalView doc (baseDoc doc) t else doc) fun m k => m.key == k := by
    intro m k doc hm
    exact if_neg (beq_eq_false_iff_ne.mp hm)
  rw [applyMutations_eq_read]
  exact read_of_untouched hlocal (fun m hm => beq_eq_false_iff_ne.mpr (h m hm)) d

theorem mutates_eq_true_iff : b.mutates k = true ↔ ∃ m ∈ b.mutations, m.key = k := by
  rw [mutates, List.any_eq_true]
  simp only [beq_iff_eq]

/-- **A batch leaves alone the documents that it has no mutation of.** -/
theorem local_applyToLocalDocument : Local applyToLocalDocument mutates := by
  intro b k d hmutates
  rw [Bool.eq_false_iff, ne_eq, mutates_eq_true_iff] at hmutates
  have hmutations : ∀ m ∈ b.mutations, m.key ≠ k := fun m hm hkey => hmutates ⟨m, hm, hkey⟩
  have hbase : ∀ m ∈ b.baseMutations, m.key ≠ k := by
    intro m hm hkey
    obtain ⟨m', hm', hkey'⟩ := b.based m hm
    exact hmutates ⟨m', hm', hkey'.trans hkey⟩
  rw [applyToLocalDocument, applyMutations_of_untouched hbase,
    applyMutations_of_untouched hmutations]

theorem applyMutations_shown {d d' : Option AnyDocument} (h : shown k d = shown k d')
    (ms : List Mutation) (t : Timestamp)
    {baseDoc baseDoc' : Option AnyDocument → Option AnyDocument}
    (hbase : ∀ a b, shown k a = shown k b → document? (baseDoc a) = document? (baseDoc' b)) :
    shown k (applyMutations ms t k baseDoc d) = shown k (applyMutations ms t k baseDoc' d') := by
  induction ms generalizing d d' with
  | nil => exact h
  | cons m ms ih =>
      refine ih ?_
      dsimp only
      split
      · exact Mutation.applyToLocalView_shown h (hbase d d' h)
      · exact h

/-- A document that is not there may as well be one that was deleted at no version. -/
theorem applyToLocalDocument_shown {d d' : Option AnyDocument} (h : shown k d = shown k d')
    (b : MutationBatch) :
    shown k (b.applyToLocalDocument k d) = shown k (b.applyToLocalDocument k d') := by
  have hbase : shown k (applyMutations b.baseMutations b.localWriteTime k id d)
      = shown k (applyMutations b.baseMutations b.localWriteTime k id d') :=
    applyMutations_shown h _ _ fun _ _ hshown => document?_eq_of_shown hshown
  exact applyMutations_shown hbase b.mutations b.localWriteTime
    fun _ _ _ => document?_eq_of_shown hbase

theorem isSome_applyToLocalDocument {d : Option AnyDocument} (h : d.isSome = true)
    (b : MutationBatch) : (b.applyToLocalDocument k d).isSome = true := by
  have hmutations : ∀ (ms : List Mutation) baseDoc (d : Option AnyDocument), d.isSome = true →
      (applyMutations ms b.localWriteTime k baseDoc d).isSome = true := by
    intro ms baseDoc d hd
    rw [applyMutations_eq_read]
    refine read_invariant (I := fun d : Option AnyDocument => d.isSome = true) ?_ hd
    intro m _ doc hdoc
    split
    · exact Mutation.isSome_applyToLocalView hdoc
    · exact hdoc
  exact hmutations _ _ _ (hmutations _ _ _ h)

theorem key_applyToLocalDocument {d : Option AnyDocument} (h : ∀ doc ∈ d, doc.key = k)
    (b : MutationBatch) : ∀ doc ∈ b.applyToLocalDocument k d, doc.key = k := by
  have hmutations : ∀ (ms : List Mutation) baseDoc (d : Option AnyDocument),
      (∀ doc ∈ d, doc.key = k) →
      ∀ doc ∈ applyMutations ms b.localWriteTime k baseDoc d, doc.key = k := by
    intro ms baseDoc d hd
    rw [applyMutations_eq_read]
    refine read_invariant (I := fun d : Option AnyDocument => ∀ doc ∈ d, doc.key = k) ?_ hd
    intro m _ doc hdoc
    split
    · next hkey =>
        rw [← hkey] at hdoc ⊢
        exact Mutation.key_applyToLocalView hdoc
    · exact hdoc
  exact hmutations _ _ _ (hmutations _ _ _ h)

theorem key_applyToRemoteDocument {results : List MutationResult} {d d' : Option AnyDocument}
    (h : ∀ doc ∈ d, doc.key = k) (happly : b.applyToRemoteDocument k results d = some d') :
    ∀ doc ∈ d', doc.key = k := by
  refine run_invariant (I := fun d : Option AnyDocument => ∀ doc ∈ d, doc.key = k) ?_ h happly
  rintro d ⟨m, result⟩ d' hd hstep
  dsimp only at hstep
  split at hstep
  · next hkey =>
      obtain ⟨doc, hdoc, rfl⟩ := Option.map_eq_some_iff.mp hstep
      rintro doc ⟨⟩
      rw [(Mutation.labels_applyToRemoteDocument hdoc).1, hkey]
  · rw [← Option.some.inj hstep]
    exact hd

theorem contains_keys (b : MutationBatch) (k : DocumentKey) : b.keys.contains k = b.mutates k := by
  rw [Bool.eq_iff_iff, mutates_eq_true_iff, keys, SortedMap.contains_foldl_insert,
    SortedMap.contains_eq]
  exact ⟨fun h => h.resolve_left Bool.false_ne_true, Or.inr⟩

/-- One turn of `ApplyToLocalDocumentSet`. -/
def applyForMutation (b : MutationBatch) (docs : MaybeDocumentMap ObjectValue) (m : Mutation) :
    MaybeDocumentMap ObjectValue :=
  match b.applyToLocalDocument m.key (docs.get m.key) with
  | some doc => docs.insert m.key doc
  | none => docs

theorem get_applyForMutation_of_ne (docs : MaybeDocumentMap ObjectValue) {m : Mutation}
    (hk : k ≠ m.key) : (b.applyForMutation docs m).get k = docs.get k := by
  unfold applyForMutation
  split
  · exact SortedMap.get_insert_of_ne _ hk _
  · rfl

/-- A turn makes the batch to the document, which stays if the result is the same. -/
theorem get_applyForMutation (docs : MaybeDocumentMap ObjectValue) {m : Mutation}
    (hk : m.key = k) :
    (b.applyForMutation docs m).get k = b.applyToLocalDocument k (docs.get k) ∨
      (b.applyForMutation docs m).get k = docs.get k ∧
        SortedMap.Same (b.applyToLocalDocument k (docs.get k)) (docs.get k) := by
  subst hk
  unfold applyForMutation
  cases happly : b.applyToLocalDocument m.key (docs.get m.key) with
  | some doc =>
      dsimp only
      obtain ⟨w, hget, hw⟩ := docs.get_insert_self m.key doc
      rcases hw with rfl | ⟨hold, hsame⟩
      · exact Or.inl hget
      · rw [hget, hold]
        exact Or.inr ⟨rfl, SortedMap.Same.kept hsame⟩
  | none =>
      -- nothing there before, and nothing after
      left
      rw [← Option.not_isSome_iff_eq_none]
      intro hsome
      have hthere := isSome_applyToLocalDocument (k := m.key) hsome b
      rw [happly] at hthere
      cases hthere

/-- Another time the batch changes nothing. -/
def Settled (b : MutationBatch) (k : DocumentKey) (d : Option AnyDocument) : Prop :=
  b.applyToLocalDocument k (b.applyToLocalDocument k d) = b.applyToLocalDocument k d

/-- What `ApplyToLocalDocumentSet` leaves of a document `d`: what the batch makes of it, or the
document itself, if that is the same. -/
def Applied (b : MutationBatch) (k : DocumentKey) (d y : Option AnyDocument) : Prop :=
  y = b.applyToLocalDocument k d ∨ y = d ∧ SortedMap.Same (b.applyToLocalDocument k d) d

theorem Applied.same {d y : Option AnyDocument} (h : b.Applied k d y) :
    SortedMap.Same (b.applyToLocalDocument k d) y := by
  rcases h with rfl | ⟨rfl, hsame⟩
  · cases b.applyToLocalDocument k d with
    | none => exact SortedMap.Same.none
    | some doc => exact SortedMap.Same.value doc
  · exact hsame

/-- A batch that is settled leaves what it has left. -/
theorem Applied.turn {d : Option AnyDocument} (hsettled : b.Settled k d)
    {docs : MaybeDocumentMap ObjectValue} (h : b.Applied k d (docs.get k)) (m : Mutation) :
    b.Applied k d ((b.applyForMutation docs m).get k) := by
  by_cases hk : m.key = k
  · rcases get_applyForMutation (b := b) docs hk with hmade | ⟨hkept, -⟩
    · rw [hmade]
      rcases h with hdone | ⟨hsame, -⟩
      · rw [hdone]
        exact Or.inl hsettled
      · rw [hsame]
        exact Or.inl rfl
    · rw [hkept]
      exact h
  · rw [get_applyForMutation_of_ne docs fun heq => hk heq.symm]
    exact h

theorem foldl_untouched {ms : List Mutation} (hk : ∀ m ∈ ms, m.key ≠ k)
    (docs : MaybeDocumentMap ObjectValue) :
    (ms.foldl b.applyForMutation docs).get k = docs.get k := by
  induction ms generalizing docs with
  | nil => rfl
  | cons m ms ih =>
      rw [List.forall_mem_cons] at hk
      rw [List.foldl_cons, ih hk.2, get_applyForMutation_of_ne docs fun heq => hk.1 heq.symm]

theorem foldl_settled {d : Option AnyDocument} (hsettled : b.Settled k d) (ms : List Mutation)
    {docs : MaybeDocumentMap ObjectValue} (h : b.Applied k d (docs.get k)) :
    b.Applied k d ((ms.foldl b.applyForMutation docs).get k) := by
  induction ms generalizing docs with
  | nil => exact h
  | cons m ms ih => exact ih (h.turn hsettled m)

theorem get_applyToLocalDocumentSet_of_untouched (hk : b.mutates k = false)
    (docs : MaybeDocumentMap ObjectValue) :
    (b.applyToLocalDocumentSet docs).get k = docs.get k := by
  refine foldl_untouched (b := b) (fun m hm heq => ?_) docs
  have hmutates := mutates_eq_true_iff.mpr ⟨m, hm, heq⟩
  rw [hk] at hmutates
  cases hmutates

/-- **The documents of a set that a batch is made to, when it makes no difference that it is
made to some of them more than once.** -/
theorem get_applyToLocalDocumentSet_of_settled {docs : MaybeDocumentMap ObjectValue}
    (h : 1 < (b.mutations.countP fun m => m.key == k) → b.Settled k (docs.get k)) :
    SortedMap.Same (b.applyToLocalDocument k (docs.get k))
      ((b.applyToLocalDocumentSet docs).get k) := by
  cases htouched : b.mutates k with
  | false =>
      rw [get_applyToLocalDocumentSet_of_untouched htouched,
        local_applyToLocalDocument b k _ htouched]
      cases docs.get k with
      | none => exact SortedMap.Same.none
      | some doc => exact SortedMap.Same.value doc
  | true =>
      -- the first mutation of the document, and those after it
      obtain ⟨m, hm, hkey⟩ := mutates_eq_true_iff.mp htouched
      obtain ⟨m, before, after, hbefore, hkey, hmutations, -⟩ :=
        List.exists_of_eraseP (p := fun m : Mutation => m.key == k) hm (beq_iff_eq.mpr hkey)
      rw [beq_iff_eq] at hkey
      simp only [beq_iff_eq] at hbefore
      have hstart : (before.foldl b.applyForMutation docs).get k = docs.get k :=
        foldl_untouched hbefore docs
      have hfirst : b.Applied k (docs.get k)
          ((b.applyForMutation (before.foldl b.applyForMutation docs) m).get k) := by
        have hturn := get_applyForMutation (b := b) (before.foldl b.applyForMutation docs) hkey
        rw [hstart] at hturn
        exact hturn
      have hset : b.applyToLocalDocumentSet docs = after.foldl b.applyForMutation
          (b.applyForMutation (before.foldl b.applyForMutation docs) m) := by
        have hfold : b.applyToLocalDocumentSet docs = b.mutations.foldl b.applyForMutation docs :=
          rfl
        rw [hfold, hmutations, List.foldl_append, List.foldl_cons]
      rw [hset]
      by_cases hlast : ∀ m ∈ after, m.key ≠ k
      · rw [foldl_untouched hlast]
        exact hfirst.same
      · refine (foldl_settled (h ?_) after hfirst).same
        push Not at hlast
        have hpos : 0 < after.countP fun m => m.key == k := by
          obtain ⟨m', hm', hkey'⟩ := hlast
          exact List.countP_pos_iff.mpr ⟨m', hm', beq_iff_eq.mpr hkey'⟩
        rw [hmutations, List.countP_append, List.countP_cons, if_pos (beq_iff_eq.mpr hkey)]
        omega

/-- **The version of an answered document is that of the last result under its key.** -/
theorem version_applyToRemoteDocument {r : MutationBatchResult} {d d' : Option AnyDocument}
    (happly : r.batch.applyToRemoteDocument k r.mutationResults d = some d')
    {version : SnapshotVersion} (hversion : r.docVersions.get k = some version) :
    ∃ doc, d' = some doc ∧ doc.version = version := by
  have hrun : ∀ (l : List (Mutation × MutationResult)) (d : Option AnyDocument)
      (versions : SortedMap DocumentKey SnapshotVersion compareKeys),
      (∀ v, versions.get k = some v → ∃ doc, d = some doc ∧ doc.version = v) →
      l.foldlM (fun doc (m, result) =>
        if m.key = k then (m.applyToRemoteDocument doc result).map some else some doc) d
          = some d' →
      (l.foldl (fun versions (m, result) => versions.insert m.key result.version) versions).get k
        = some version → ∃ doc, d' = some doc ∧ doc.version = version := by
    intro l
    induction l with
    | nil =>
        intro d versions h hd hv
        rw [← Option.some.inj hd]
        exact h version hv
    | cons e l ih =>
        obtain ⟨m, result⟩ := e
        intro d versions h hd hv
        rw [List.foldlM_cons, Option.bind_eq_bind, Option.bind_eq_some_iff] at hd
        obtain ⟨next, hstep, hrest⟩ := hd
        refine ih next _ (fun v hget => ?_) hrest hv
        dsimp only at hstep
        rw [SortedMap.get_insert_of_lawful] at hget
        split at hstep
        · next hkey =>
            rw [if_pos hkey.symm] at hget
            obtain ⟨doc, hdoc, rfl⟩ := Option.map_eq_some_iff.mp hstep
            refine ⟨doc, rfl, ?_⟩
            rw [(Mutation.labels_applyToRemoteDocument hdoc).2, Option.some.inj hget]
        · next hkey =>
            rw [if_neg fun heq => hkey heq.symm] at hget
            rw [← Option.some.inj hstep]
            exact h v hget
  exact hrun _ d SortedMap.empty (fun _ hv => nomatch hv) happly hversion

end MutationBatch

end FreeFood.Firestore
