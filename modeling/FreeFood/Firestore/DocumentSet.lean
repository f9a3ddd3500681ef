/-
`model/document.h` and `model/document_set.h`: documents, and the sets of documents in
the order of a query.

A document set is two containers, an index by key and a sorted set of the documents
themselves, and its operations change both. `DocumentSet` carries what ties the two
together, so that what is found by key is what is read in order. The order is any
comparator that tells documents of different keys apart, which a query's does.
-/
import FreeFood.Firestore.SortedMap
import Mathlib.Data.List.Nodup

set_option autoImplicit false

namespace FreeFood.Firestore

open Std OrderedList

/-! ## 1. Documents -/

/-- A path of field names. -/
abbrev FieldPath := List String

/-- A path to a collection or to a document, by its segments. -/
abbrev ResourcePath := List String

/-- `CompareContainer` of two paths. -/
def comparePaths : ResourcePath → ResourcePath → Ordering := List.compareLex compare

/-- A key, whose path is that of a document. -/
structure DocumentKey where
  path : ResourcePath
  isDocumentKey : path.length % 2 = 0
deriving DecidableEq

@[ext] theorem DocumentKey.ext {a b : DocumentKey} (h : a.path = b.path) : a = b := by
  cases a
  cases b
  cases h
  rfl

/-- `DocumentKey::CompareTo`. -/
def compareKeys (a b : DocumentKey) : Ordering := comparePaths a.path b.path

instance : TransCmp comparePaths := inferInstanceAs (TransCmp (List.compareLex compare))

instance : LawfulEqCmp comparePaths := inferInstanceAs (LawfulEqCmp (List.compareLex compare))

instance : TransCmp compareKeys where
  eq_swap {a b} := by
    unfold compareKeys
    exact OrientedCmp.eq_swap
  isLE_trans {a b c} hab hbc := by
    unfold compareKeys at hab hbc ⊢
    exact TransCmp.isLE_trans hab hbc

instance : LawfulEqCmp compareKeys where
  compare_self {a} := by
    unfold compareKeys
    exact ReflCmp.compare_self
  eq_of_compare {a b} h := by
    unfold compareKeys at h
    exact DocumentKey.ext (LawfulEqCmp.eq_of_compare h)

/-- A point in the history of the database. -/
abbrev SnapshotVersion := ℤ

/-- Where a document's data comes from. -/
inductive DocumentState where
  | localMutations
  | committedMutations
  | synced
deriving DecidableEq

/-- `Document`, with data of a type `D`. -/
structure Document (D : Type) where
  key : DocumentKey
  version : SnapshotVersion
  data : D
  state : DocumentState
deriving DecidableEq

/-- `MaybeDocument`: what is known under a key. -/
inductive MaybeDocument (D : Type) where
  | document (doc : Document D)
  | noDocument (key : DocumentKey) (version : SnapshotVersion) (committedMutations : Bool)
  | unknownDocument (key : DocumentKey) (version : SnapshotVersion)
deriving DecidableEq

variable {D : Type}

/-- `Document::operator==`. Data is the same where it compares the same. -/
instance [Ord D] : BEq (Document D) where
  beq a b := a.key == b.key && a.version == b.version && a.state == b.state
    && compare a.data b.data == .eq

theorem Document.of_beq [Ord D] {a b : Document D} (h : (a == b) = true) :
    a.key = b.key ∧ a.version = b.version ∧ a.state = b.state ∧ compare a.data b.data = .eq := by
  simp only [BEq.beq, Bool.and_eq_true, decide_eq_true_eq] at h
  obtain ⟨⟨⟨hkey, hversion⟩, hstate⟩, hdata⟩ := h
  exact ⟨hkey, hversion, hstate, hdata⟩

/-- `MaybeDocument::operator==`. -/
instance [Ord D] : BEq (MaybeDocument D) where
  beq
    | .document a, .document b => a == b
    | .noDocument k v c, .noDocument k' v' c' => k == k' && v == v' && c == c'
    | .unknownDocument k v, .unknownDocument k' v' => k == k' && v == v'
    | _, _ => false

def Document.hasLocalMutations (doc : Document D) : Bool := doc.state == .localMutations

def Document.hasCommittedMutations (doc : Document D) : Bool := doc.state == .committedMutations

/-- The document, if there is one: `is_document` and the cast. -/
def MaybeDocument.document? : MaybeDocument D → Option (Document D)
  | document doc => some doc
  | _ => none

def MaybeDocument.key : MaybeDocument D → DocumentKey
  | document doc => doc.key
  | noDocument key _ _ => key
  | unknownDocument key _ => key

/-- `DocumentComparator`, of a query: an order that tells keys apart. -/
class DocumentComparator (cmp : Document D → Document D → Ordering) : Prop
    extends TransCmp cmp where
  key_eq : ∀ {a b : Document D}, cmp a b = .eq → a.key = b.key

/-! ## 2. The set -/

/-- `DocumentSet`: `index_` and `sorted_set_`. -/
structure DocumentSet (D : Type) (cmp : Document D → Document D → Ordering) where
  index : SortedMap DocumentKey (Document D) compareKeys
  sortedSet : SortedMap (Document D) Unit cmp
  keyed : ∀ k doc, index.get k = some doc → doc.key = k
  agree : ∀ doc, (doc, ()) ∈ sortedSet.toList ↔ index.get doc.key = some doc

namespace DocumentSet

variable {cmp : Document D → Document D → Ordering}

/-- The documents in their order. -/
def toList (s : DocumentSet D cmp) : List (Document D) := s.sortedSet.toList.map Prod.fst

protected def empty : DocumentSet D cmp where
  index := SortedMap.empty
  sortedSet := SortedMap.empty
  keyed := by
    intro k doc h
    cases h
  agree := by
    intro doc
    constructor
    · intro h
      cases h
    · intro h
      cases h

def size (s : DocumentSet D cmp) : ℕ := s.index.size

def isEmpty (s : DocumentSet D cmp) : Bool := s.index.isEmpty

def getDocument (s : DocumentSet D cmp) (k : DocumentKey) : Option (Document D) := s.index.get k

def containsKey (s : DocumentSet D cmp) (k : DocumentKey) : Bool := (s.index.find k).isSome

def getFirstDocument (s : DocumentSet D cmp) : Option (Document D) :=
  s.sortedSet.min?.map Prod.fst

def getLastDocument (s : DocumentSet D cmp) : Option (Document D) :=
  s.sortedSet.max?.map Prod.fst

/-- `IndexOf`, `none` for `npos`. -/
def indexOf (s : DocumentSet D cmp) (k : DocumentKey) : Option ℕ :=
  (s.getDocument k).bind fun doc => s.sortedSet.findIndex doc

theorem mem_toList {s : DocumentSet D cmp} {doc : Document D} :
    doc ∈ s.toList ↔ s.getDocument doc.key = some doc := by
  rw [getDocument, ← s.agree, toList, List.mem_map]
  constructor
  · rintro ⟨⟨a, u⟩, ha, rfl⟩
    exact ha
  · intro h
    exact ⟨(doc, ()), h, rfl⟩

theorem getDocument_key {s : DocumentSet D cmp} {k : DocumentKey} {doc : Document D}
    (h : s.getDocument k = some doc) : doc.key = k := s.keyed k doc h

theorem getDocument_eq_some_iff {s : DocumentSet D cmp} {k : DocumentKey} {doc : Document D} :
    s.getDocument k = some doc ↔ doc ∈ s.toList ∧ doc.key = k := by
  constructor
  · intro h
    have hkey := getDocument_key h
    exact ⟨mem_toList.mpr (hkey ▸ h), hkey⟩
  · rintro ⟨hmem, rfl⟩
    exact mem_toList.mp hmem

/-- The documents ascend strictly. -/
theorem pairwise_toList (s : DocumentSet D cmp) :
    s.toList.Pairwise fun a b => cmp a b = .lt := by
  rw [toList, List.pairwise_map]
  exact s.sortedSet.sorted

variable [DocumentComparator cmp]

/-- Under a document that is in the set, the sorted set has that document alone. -/
theorem level_sortedSet {s : DocumentSet D cmp} {doc : Document D} (h : doc ∈ s.toList) :
    (level cmp doc s.sortedSet.toList).head? = some (doc, ()) := by
  rw [toList, List.mem_map] at h
  obtain ⟨⟨a, u⟩, ha, rfl⟩ := h
  have hmem : (a, u) ∈ level cmp a s.sortedSet.toList :=
    mem_level.mpr ⟨ha, ReflCmp.compare_self⟩
  rw [level_eq_toList s.sortedSet.sorted, Option.mem_toList] at hmem
  exact hmem

/-- What compares as a document of the set has its key, so it is under no other one. -/
theorem get_sortedSet_eq_none {s : DocumentSet D cmp} {doc : Document D}
    (h : s.getDocument doc.key = none) : s.sortedSet.get doc = none := by
  rw [SortedMap.get_eq, get_eq_none_iff s.sortedSet.sorted]
  rintro ⟨a, u⟩ ha heq
  have hkey : a.key = doc.key := DocumentComparator.key_eq heq
  have hindex := (s.agree a).mp ha
  rw [hkey] at hindex
  rw [getDocument, hindex] at h
  cases h

/-- `erase`. -/
protected def erase (s : DocumentSet D cmp) (k : DocumentKey) : DocumentSet D cmp :=
  match hdoc : s.getDocument k with
  | none => s
  | some doc =>
      { index := s.index.erase k
        sortedSet := s.sortedSet.erase doc
        keyed := by
          intro k' doc' h
          rw [SortedMap.get_erase] at h
          split at h
          · cases h
          · exact s.keyed k' doc' h
        agree := by
          intro a
          have hkey := getDocument_key hdoc
          have hdocmem := (getDocument_eq_some_iff.mp hdoc).1
          rw [SortedMap.toList_erase, SortedMap.get_erase]
          simp only [mem_erase s.sortedSet.sorted]
          constructor
          · rintro ⟨ha, hne⟩
            have hindex := (s.agree a).mp ha
            rw [if_neg, hindex]
            intro heq
            -- a document under the key is the one that is erased
            rw [LawfulEqCmp.eq_of_compare heq] at hindex
            rw [getDocument, hindex] at hdoc
            exact hne (Option.some.inj hdoc ▸ ReflCmp.compare_self)
          · intro h
            split at h
            · cases h
            · next hne =>
                refine ⟨(s.agree a).mpr h, fun heq => hne ?_⟩
                rw [DocumentComparator.key_eq heq, hkey]
                exact ReflCmp.compare_self }

theorem getDocument_erase (s : DocumentSet D cmp) (k k' : DocumentKey) :
    (s.erase k).getDocument k' = if k' = k then none else s.getDocument k' := by
  unfold DocumentSet.erase
  split
  · next h =>
      by_cases hk : k' = k
      · rw [if_pos hk, hk, h]
      · rw [if_neg hk]
  · exact SortedMap.get_erase_of_lawful s.index k k'

theorem erase_of_getDocument_eq_none {s : DocumentSet D cmp} {k : DocumentKey}
    (h : s.getDocument k = none) : s.erase k = s := by
  unfold DocumentSet.erase
  split
  · rfl
  · next hsome =>
      rw [h] at hsome
      cases hsome

variable [Ord D]

/-- What is put in after it was erased is in. -/
theorem get_index_erase_insert (s : DocumentSet D cmp) (doc : Document D) (k : DocumentKey) :
    ((s.erase doc.key).index.insert doc.key doc).get k
      = if k = doc.key then some doc else (s.erase doc.key).index.get k := by
  have hnone : (s.erase doc.key).getDocument doc.key = none := by
    rw [getDocument_erase, if_pos rfl]
  exact SortedMap.get_insert_of_get_eq_none hnone doc k

/-- `insert`: what was under the key of the document is erased first. -/
protected def insert (s : DocumentSet D cmp) (doc : Document D) : DocumentSet D cmp where
  index := (s.erase doc.key).index.insert doc.key doc
  sortedSet := (s.erase doc.key).sortedSet.insert doc ()
  keyed := by
    intro k' doc' h
    rw [get_index_erase_insert] at h
    split at h
    · next heq =>
        rw [← Option.some.inj h]
        exact heq.symm
    · exact (s.erase doc.key).keyed k' doc' h
  agree := by
    intro a
    have hnone : (s.erase doc.key).getDocument doc.key = none := by
      rw [getDocument_erase, if_pos rfl]
    have hget := get_sortedSet_eq_none hnone
    rw [SortedMap.mem_insert_of_get_eq_none hget, (s.erase doc.key).agree,
      get_index_erase_insert]
    by_cases hkey : a.key = doc.key
    · have hnone' : (s.erase doc.key).index.get a.key = none := by
        rw [hkey]
        exact hnone
      rw [if_pos hkey, hnone', Prod.mk.injEq, Option.some.injEq]
      simp [eq_comm]
    · have hne : a ≠ doc := fun h => hkey (h ▸ rfl)
      rw [if_neg hkey, Prod.mk.injEq]
      simp [hne]

theorem getDocument_insert (s : DocumentSet D cmp) (doc : Document D) (k : DocumentKey) :
    (s.insert doc).getDocument k = if k = doc.key then some doc else s.getDocument k := by
  rw [getDocument, DocumentSet.insert, get_index_erase_insert]
  by_cases hk : k = doc.key
  · rw [if_pos hk, if_pos hk]
  · have herase := getDocument_erase s doc.key k
    rw [if_neg hk, getDocument] at herase
    rw [if_neg hk, if_neg hk, herase]

/-- What is erased before an insertion is erased by it too. -/
theorem insert_erase (s : DocumentSet D cmp) (doc : Document D) :
    (s.erase doc.key).insert doc = s.insert doc := by
  have hgone : (s.erase doc.key).getDocument doc.key = none := by
    rw [getDocument_erase, if_pos rfl]
  unfold DocumentSet.insert
  simp only [erase_of_getDocument_eq_none hgone]

omit [DocumentComparator cmp] [Ord D] in
@[simp] theorem getDocument_empty (k : DocumentKey) :
    (DocumentSet.empty : DocumentSet D cmp).getDocument k = none := rfl

omit [DocumentComparator cmp] [Ord D] in
@[simp] theorem toList_empty : (DocumentSet.empty : DocumentSet D cmp).toList = [] := rfl

omit [DocumentComparator cmp] [Ord D] in
theorem containsKey_eq (s : DocumentSet D cmp) (k : DocumentKey) :
    s.containsKey k = (s.getDocument k).isSome := by
  rw [containsKey, getDocument, SortedMap.get, Option.isSome_map]

/-! ## 3. Keys and positions -/

omit [Ord D] in
/-- No two documents of a set have one key. -/
theorem nodup_keys (s : DocumentSet D cmp) : (s.toList.map Document.key).Nodup := by
  rw [List.Nodup, List.pairwise_map]
  refine s.pairwise_toList.imp_of_mem ?_
  intro a b ha hb hlt hkey
  -- documents of one key are the same document, which is not before itself
  have hab := mem_toList.mp ha
  rw [hkey, mem_toList.mp hb] at hab
  have hself : cmp b b = .eq := ReflCmp.compare_self
  rw [← Option.some.inj hab, hself] at hlt
  cases hlt

omit [Ord D] in
theorem nodup_toList (s : DocumentSet D cmp) : s.toList.Nodup := List.Nodup.of_map _ s.nodup_keys

omit [Ord D] in
/-- A set is known by what is found in it. -/
theorem toList_ext {s t : DocumentSet D cmp} (h : ∀ k, s.getDocument k = t.getDocument k) :
    s.toList = t.toList := by
  have hmem : ∀ doc, doc ∈ s.toList ↔ doc ∈ t.toList := by
    intro doc
    rw [mem_toList, mem_toList, h]
  have hperm : s.toList.Perm t.toList :=
    (List.perm_ext_iff_of_nodup s.nodup_toList t.nodup_toList).mpr hmem
  refine hperm.eq_of_pairwise ?_ s.pairwise_toList t.pairwise_toList
  intro a b _ _ hab hba
  rw [OrientedCmp.gt_of_lt hab] at hba
  cases hba

omit [Ord D] in
theorem indexOf_eq {s : DocumentSet D cmp} {k : DocumentKey} {doc : Document D}
    (h : s.getDocument k = some doc) :
    s.indexOf k = some (rank cmp doc s.sortedSet.toList) := by
  have hget : (s.sortedSet.get doc).isSome = true := by
    have hlevel := level_sortedSet (getDocument_eq_some_iff.mp h).1
    rw [SortedMap.get_eq, OrderedList.get, hlevel]
    rfl
  rw [indexOf, h, Option.bind_some, SortedMap.findIndex_eq, if_pos hget]

omit [Ord D] in
theorem sortedSet_erase {s : DocumentSet D cmp} {k : DocumentKey} {doc : Document D}
    (h : s.getDocument k = some doc) : (s.erase k).sortedSet = s.sortedSet.erase doc := by
  unfold DocumentSet.erase
  split
  · next hnone =>
      rw [h] at hnone
      cases hnone
  · next doc' hdoc =>
      rw [h] at hdoc
      rw [Option.some.inj hdoc]

omit [Ord D] in
/-- **A document is where its index says, and erasing it takes it from there.** -/
theorem erase_spec {s : DocumentSet D cmp} {k : DocumentKey} {doc : Document D}
    (h : s.getDocument k = some doc) :
    ∃ b a, s.toList = b ++ doc :: a ∧ s.indexOf k = some b.length
      ∧ (s.erase k).toList = b ++ a := by
  have hlevel := level_sortedSet (getDocument_eq_some_iff.mp h).1
  have hcuts := append_cuts (k := doc) s.sortedSet.sorted
  rw [level_eq_toList s.sortedSet.sorted, hlevel, Option.toList_some,
    List.singleton_append] at hcuts
  have hlist := congrArg (List.map Prod.fst) hcuts
  rw [List.map_append, List.map_cons] at hlist
  refine ⟨_, _, hlist.symm, ?_, ?_⟩
  · rw [indexOf_eq h, rank, List.length_map]
  · rw [toList, sortedSet_erase h, SortedMap.toList_erase, OrderedList.erase, List.map_append]

/-- **A document is inserted where its index will say.** -/
theorem insert_spec (s : DocumentSet D cmp) (doc : Document D) :
    ∃ b a, (s.erase doc.key).toList = b ++ a ∧ (s.insert doc).toList = b ++ doc :: a
      ∧ (s.insert doc).indexOf doc.key = some b.length := by
  have hnone : (s.erase doc.key).getDocument doc.key = none := by
    rw [getDocument_erase, if_pos rfl]
  have hget := get_sortedSet_eq_none hnone
  have hinsert := SortedMap.toList_insert_of_get_eq_none hget ()
  have hcuts := append_cuts (k := doc) (s.erase doc.key).sortedSet.sorted
  rw [SortedMap.get_eq, OrderedList.get, Option.map_eq_none_iff, List.head?_eq_none_iff] at hget
  rw [hget, List.nil_append] at hcuts
  have hfound : (s.insert doc).getDocument doc.key = some doc := by
    rw [getDocument_insert, if_pos rfl]
  have hsorted := (s.insert doc).sortedSet.sorted
  have hlist := congrArg (List.map Prod.fst) hcuts
  have hlist' := congrArg (List.map Prod.fst) hinsert
  rw [List.map_append] at hlist
  rw [List.map_append, List.map_cons] at hlist'
  refine ⟨_, _, hlist.symm, hlist', ?_⟩
  rw [indexOf_eq hfound, List.length_map]
  -- in the new list the documents before it are those before it in the old one
  change Sorted cmp ((s.erase doc.key).sortedSet.insert doc ()).toList at hsorted
  change some (rank cmp doc ((s.erase doc.key).sortedSet.insert doc ()).toList) = _
  rw [hinsert] at hsorted ⊢
  rw [rank_of_eq hsorted ReflCmp.compare_self]

omit [Ord D] in
theorem size_eq (s : DocumentSet D cmp) : s.size = s.toList.length := by
  have hvalues : (s.index.toList.map Prod.snd).Perm s.toList := by
    have hkeys : s.index.toList.Nodup := List.Nodup.of_map _ s.index.nodup_keys
    have hmem : ∀ e, e ∈ s.index.toList ↔ s.getDocument e.1 = some e.2 :=
      fun e => SortedMap.get_eq_some_iff_mem.symm
    have hnodup : (s.index.toList.map Prod.snd).Nodup := by
      refine List.Nodup.map_on ?_ hkeys
      intro a ha b hb hab
      -- an entry's key is the key of its document
      have hka := getDocument_key ((hmem a).mp ha)
      have hkb := getDocument_key ((hmem b).mp hb)
      exact Prod.ext (by rw [← hka, ← hkb, hab]) hab
    rw [List.perm_ext_iff_of_nodup hnodup s.nodup_toList]
    intro doc
    rw [List.mem_map, mem_toList]
    constructor
    · rintro ⟨e, he, rfl⟩
      have hfound := (hmem e).mp he
      rwa [getDocument_key hfound]
    · exact fun h => ⟨(doc.key, doc), (hmem _).mpr h, rfl⟩
  rw [size, SortedMap.size_eq, ← List.length_map Prod.snd, hvalues.length_eq]

omit [Ord D] in
theorem isEmpty_iff (s : DocumentSet D cmp) : s.isEmpty = true ↔ s.toList = [] := by
  have hsize := s.size_eq
  rw [size] at hsize
  rw [isEmpty, SortedMap.isEmpty, hsize, beq_iff_eq, List.length_eq_zero_iff]

omit [Ord D] in
/-- What is left is what has another key. -/
theorem toList_erase (s : DocumentSet D cmp) (k : DocumentKey) :
    (s.erase k).toList = s.toList.filter fun doc => doc.key ≠ k := by
  have hnodup : (s.toList.filter fun doc => doc.key ≠ k).Nodup := s.nodup_toList.filter _
  have hperm : (s.erase k).toList.Perm (s.toList.filter fun doc => doc.key ≠ k) := by
    rw [List.perm_ext_iff_of_nodup (s.erase k).nodup_toList hnodup]
    intro doc
    rw [mem_toList, getDocument_erase, List.mem_filter, mem_toList]
    by_cases hk : doc.key = k
    · simp [hk]
    · simp [hk]
  refine hperm.eq_of_pairwise ?_ (s.erase k).pairwise_toList (s.pairwise_toList.filter _)
  intro a b _ _ hab hba
  rw [OrientedCmp.gt_of_lt hab] at hba
  cases hba

omit [Ord D] in
/-- Erasing the last document leaves those before it. -/
theorem toList_erase_last {s : DocumentSet D cmp} {l : List (Document D)} {doc : Document D}
    (h : s.toList = l ++ [doc]) : (s.erase doc.key).toList = l := by
  have hkeys := s.nodup_keys
  rw [h, List.map_append, List.nodup_append] at hkeys
  rw [toList_erase, h, List.filter_append, List.filter_singleton, List.filter_eq_self.mpr]
  · simp
  · intro a ha
    have hne := hkeys.2.2 a.key (List.mem_map_of_mem ha) doc.key (List.mem_singleton_self _)
    simpa using hne

omit [Ord D] in
/-- Erasing the first document leaves those after it. -/
theorem toList_erase_first {s : DocumentSet D cmp} {l : List (Document D)} {doc : Document D}
    (h : s.toList = doc :: l) : (s.erase doc.key).toList = l := by
  have hkeys := s.nodup_keys
  rw [h, List.map_cons, List.nodup_cons, List.mem_map] at hkeys
  rw [toList_erase, h, List.filter_cons_of_neg (by simp), List.filter_eq_self.mpr]
  intro a ha
  have hne : a.key ≠ doc.key := fun heq => hkeys.1 ⟨a, ha, heq⟩
  simpa using hne

omit [DocumentComparator cmp] [Ord D] in
theorem getFirstDocument_eq (s : DocumentSet D cmp) : s.getFirstDocument = s.toList.head? := by
  rw [getFirstDocument, SortedMap.min?_eq, toList, List.head?_map]

omit [DocumentComparator cmp] [Ord D] in
theorem getLastDocument_eq (s : DocumentSet D cmp) : s.getLastDocument = s.toList.getLast? := by
  rw [getLastDocument, SortedMap.max?_eq, toList, List.getLast?_map]

end DocumentSet

end FreeFood.Firestore
