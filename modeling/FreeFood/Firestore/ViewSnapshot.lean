/-
`core/view_snapshot.h`: the changes of the documents in a view, and the snapshots that
tell a listener of them.

A `DocumentViewChangeSet` merges what happens to one document more than once. The merge
has combinations that it refuses with a `HARD_FAIL`. `Explains` says what a change means,
as a relation between the document before and the document after; a merge is then the
composition of two such relations, and where both hold no combination is refused.
-/
import FreeFood.Firestore.DocumentSet

set_option autoImplicit false

namespace FreeFood.Firestore

open Std

/-- `DocumentKeySet`. -/
abbrev DocumentKeySet := SortedMap DocumentKey Unit compareKeys

/-! ## 1. Changes -/

/-- `DocumentViewChange::Type`. -/
inductive DocumentViewChangeType where
  | removed
  | added
  | modified
  | metadata
deriving DecidableEq

structure DocumentViewChange (D : Type) where
  document : Document D
  type : DocumentViewChangeType

variable {D : Type}

/-- `DocumentViewChange::operator==`. -/
instance [Ord D] : BEq (DocumentViewChange D) where
  beq a b := a.document == b.document && a.type == b.type

/-- `DocumentViewChangeSet`: at most one change for each key. -/
structure DocumentViewChangeSet (D : Type) where
  changeMap : SortedMap DocumentKey (DocumentViewChange D) compareKeys

namespace DocumentViewChangeSet

protected def empty : DocumentViewChangeSet D := ⟨SortedMap.empty⟩

/-- The change of a key. -/
def get (s : DocumentViewChangeSet D) (k : DocumentKey) : Option (DocumentViewChange D) :=
  s.changeMap.get k

/-- `GetChanges`. -/
def getChanges (s : DocumentViewChangeSet D) : List (DocumentViewChange D) :=
  s.changeMap.toList.map Prod.snd

/-- `AddChange`, `none` where it fails hard. -/
def addChange [Ord D] (s : DocumentViewChangeSet D) (change : DocumentViewChange D) :
    Option (DocumentViewChangeSet D) :=
  let key := change.document.key
  match s.get key with
  | none => some ⟨s.changeMap.insert key change⟩
  | some old =>
      if change.type ≠ .added ∧ old.type = .metadata then
        some ⟨s.changeMap.insert key change⟩
      else if change.type = .metadata ∧ old.type ≠ .removed then
        some ⟨s.changeMap.insert key ⟨change.document, old.type⟩⟩
      else if change.type = .modified ∧ old.type = .modified then
        some ⟨s.changeMap.insert key ⟨change.document, .modified⟩⟩
      else if change.type = .modified ∧ old.type = .added then
        some ⟨s.changeMap.insert key ⟨change.document, .added⟩⟩
      else if change.type = .removed ∧ old.type = .added then
        some ⟨s.changeMap.erase key⟩
      else if change.type = .removed ∧ old.type = .modified then
        some ⟨s.changeMap.insert key ⟨old.document, .removed⟩⟩
      else if change.type = .added ∧ old.type = .removed then
        some ⟨s.changeMap.insert key ⟨change.document, .modified⟩⟩
      else none

end DocumentViewChangeSet

/-! ## 2. What a change means -/

section Explains

variable [Ord D]

/-- What a change tells of a document that was there before, or not, and is there after,
or not. A metadata change leaves data that compares the same. -/
inductive Explains :
    Option (Document D) → Option (Document D) → Option (DocumentViewChange D) → Prop
  | unchanged (o : Option (Document D)) : Explains o o none
  | added (n : Document D) : Explains none (some n) (some ⟨n, .added⟩)
  | removed {o d : Document D} (hkey : d.key = o.key) : Explains (some o) none (some ⟨d, .removed⟩)
  | modified {o n : Document D} (hkey : n.key = o.key) :
      Explains (some o) (some n) (some ⟨n, .modified⟩)
  | metadata {o n : Document D} (hkey : n.key = o.key) (hdata : compare o.data n.data = .eq) :
      Explains (some o) (some n) (some ⟨n, .metadata⟩)

variable [TransOrd D]

namespace DocumentViewChangeSet

omit [TransOrd D] in
theorem get_insert {m : SortedMap DocumentKey (DocumentViewChange D) compareKeys}
    {k : DocumentKey} {c : DocumentViewChange D}
    (hsame : ∀ old, m.get k = some old → (c == old) = true → old = c) (k' : DocumentKey) :
    (DocumentViewChangeSet.mk (m.insert k c)).get k' = if k' = k then some c else m.get k' :=
  SortedMap.get_insert_of_same hsame k'

omit [TransOrd D] in
theorem type_eq_of_beq {a b : DocumentViewChange D} (h : (a == b) = true) : a.type = b.type :=
  beq_iff_eq.mp (Bool.and_eq_true_iff.mp h).2

omit [TransOrd D] in
theorem document_of_beq {a b : DocumentViewChange D} (h : (a == b) = true) :
    (a.document == b.document) = true := (Bool.and_eq_true_iff.mp h).1

omit [Ord D] [TransOrd D] in
@[simp] theorem get_erase (m : SortedMap DocumentKey (DocumentViewChange D) compareKeys)
    (k k' : DocumentKey) :
    (DocumentViewChangeSet.mk (m.erase k)).get k' = if k' = k then none else m.get k' :=
  SortedMap.get_erase_of_lawful m k k'

/-- **Where a change follows on what the set tells of its key, it is merged and not
refused, and the merge tells of both.** A document that comes for one that is told of
already and is the same must be that one, since the map keeps what is the same. -/
theorem addChange_spec {s : DocumentViewChangeSet D} {c : DocumentViewChange D}
    {o m n : Option (Document D)} (ho : ∀ d ∈ o, d.key = c.document.key)
    (hold : Explains o m (s.get c.document.key)) (hnew : Explains m n (some c))
    (hexact : s.get c.document.key ≠ none → ∀ a ∈ m, ∀ b ∈ n, (b == a) = true → a = b) :
    ∃ s', s.addChange c = some s' ∧ Explains o n (s'.get c.document.key) ∧
      ∀ k, k ≠ c.document.key → s'.get k = s.get k := by
  have hins : ∀ c' : DocumentViewChange D, Explains o n (some c') →
      (∀ old, s.get c.document.key = some old → (c' == old) = true → old = c') →
      Explains o n ((DocumentViewChangeSet.mk
        (s.changeMap.insert c.document.key c')).get c.document.key) ∧
      ∀ k, k ≠ c.document.key → (DocumentViewChangeSet.mk
        (s.changeMap.insert c.document.key c')).get k = s.get k := by
    intro c' h hsame
    constructor
    · rw [get_insert hsame, if_pos rfl]
      exact h
    · intro k hk
      rw [get_insert hsame, if_neg hk, get]
  unfold addChange
  dsimp only
  generalize s.get c.document.key = got at hold hexact hins ⊢
  -- a change of another type is not the same
  have hother : ∀ {d : Document D} {t : DocumentViewChangeType} {c' : DocumentViewChange D},
      c'.type ≠ t → ∀ old, some (⟨d, t⟩ : DocumentViewChange D) = some old → (c' == old) = true →
        old = c' := by
    rintro d t c' hne _ ⟨⟩ hsame
    exact absurd (type_eq_of_beq hsame) hne
  -- a change of the same type is exact where its document is
  have hagain : ∀ {a b : Document D} {t : DocumentViewChangeType}, a ∈ m → b ∈ n →
      got ≠ none → ∀ old, some (⟨a, t⟩ : DocumentViewChange D) = some old →
        ((⟨b, t⟩ : DocumentViewChange D) == old) = true → old = ⟨b, t⟩ := by
    rintro a b t ha hb hne _ ⟨⟩ hsame
    rw [hexact hne a ha b hb (document_of_beq hsame)]
  have hsome : ∀ d : DocumentViewChange D, some d ≠ none := fun d h => nomatch h
  cases hold with
  | unchanged => exact ⟨_, rfl, hins c hnew fun _ hold => nomatch hold⟩
  | added =>
      cases hnew with
      | removed hkey =>
          refine ⟨_, rfl, ?_, ?_⟩
          · rw [get_erase, if_pos rfl]
            exact Explains.unchanged none
          · intro k hk
            rw [get_erase, if_neg hk, get]
      | modified hkey => exact ⟨_, rfl, hins _ (Explains.added _) (hagain rfl rfl (hsome _))⟩
      | metadata hkey hdata => exact ⟨_, rfl, hins _ (Explains.added _) (hagain rfl rfl (hsome _))⟩
  | removed hkey' =>
      cases hnew with
      | added =>
          exact ⟨_, rfl, hins _ (Explains.modified (ho _ rfl).symm) (hother fun h => nomatch h)⟩
  | modified hkey' =>
      cases hnew with
      | removed hkey => exact ⟨_, rfl, hins _ (Explains.removed hkey') (hother fun h => nomatch h)⟩
      | modified hkey =>
          exact ⟨_, rfl, hins _ (Explains.modified (hkey.trans hkey')) (hagain rfl rfl (hsome _))⟩
      | metadata hkey hdata =>
          exact ⟨_, rfl, hins _ (Explains.modified (hkey.trans hkey')) (hagain rfl rfl (hsome _))⟩
  | metadata hkey' hdata' =>
      cases hnew with
      | removed hkey =>
          exact ⟨_, rfl, hins _ (Explains.removed (hkey.trans hkey')) (hother fun h => nomatch h)⟩
      | modified hkey =>
          exact ⟨_, rfl, hins _ (Explains.modified (hkey.trans hkey')) (hother fun h => nomatch h)⟩
      | metadata hkey hdata =>
          exact ⟨_, rfl, hins _ (Explains.metadata (hkey.trans hkey')
            (TransCmp.eq_trans hdata' hdata)) (hagain rfl rfl (hsome _))⟩

omit [Ord D] [TransOrd D] in
theorem mem_getChanges {s : DocumentViewChangeSet D}
    (hkeyed : ∀ k c, s.get k = some c → c.document.key = k) {c : DocumentViewChange D} :
    c ∈ s.getChanges ↔ s.get c.document.key = some c := by
  rw [getChanges, List.mem_map]
  constructor
  · rintro ⟨e, he, rfl⟩
    have hfound : s.get e.1 = some e.2 := SortedMap.get_eq_some_iff_mem.mpr he
    rwa [hkeyed e.1 e.2 hfound]
  · exact fun h => ⟨_, SortedMap.get_eq_some_iff_mem.mp h, rfl⟩

omit [Ord D] [TransOrd D] in
/-- No key has two changes. -/
theorem nodup_getChanges {s : DocumentViewChangeSet D}
    (hkeyed : ∀ k c, s.get k = some c → c.document.key = k) :
    (s.getChanges.map fun c => c.document.key).Nodup := by
  have hmap : s.getChanges.map (fun c => c.document.key) = s.changeMap.toList.map Prod.fst := by
    rw [getChanges, List.map_map]
    refine List.map_congr_left ?_
    intro e he
    exact hkeyed _ _ (SortedMap.get_eq_some_iff_mem.mpr he)
  rw [hmap]
  exact s.changeMap.nodup_keys

end DocumentViewChangeSet

/-! ## 3. Snapshots -/

/-- The changes of a list, each of another key, tell how one set became another. -/
structure Accounts {cmp : Document D → Document D → Ordering} (old new : DocumentSet D cmp)
    (changes : List (DocumentViewChange D)) : Prop where
  nodup : (changes.map fun c => c.document.key).Nodup
  explains : ∀ k, Explains (old.getDocument k) (new.getDocument k)
    (changes.find? fun c => c.document.key = k)

omit [Ord D] in
theorem find?_key_eq_some_iff {changes : List (DocumentViewChange D)}
    (hnodup : (changes.map fun c => c.document.key).Nodup) {k : DocumentKey}
    {c : DocumentViewChange D} :
    (changes.find? fun c => c.document.key = k) = some c ↔ c ∈ changes ∧ c.document.key = k := by
  constructor
  · intro h
    exact ⟨List.mem_of_find?_eq_some h, by simpa using List.find?_some h⟩
  · rintro ⟨hmem, hkey⟩
    cases hfind : changes.find? fun c => c.document.key = k with
    | none =>
        have hno := List.find?_eq_none.mp hfind c hmem
        simp [hkey] at hno
    | some c' =>
        have hkey' : c'.document.key = k := by simpa using List.find?_some hfind
        rw [List.inj_on_of_nodup_map hnodup (List.mem_of_find?_eq_some hfind) hmem
          (hkey'.trans hkey.symm)]

omit [TransOrd D] in
/-- A set of changes that tells how documents came from others accounts for them in any
order. -/
theorem accounts_of_perm {cmp : Document D → Document D → Ordering} {old new : DocumentSet D cmp}
    {s : DocumentViewChangeSet D} {changes : List (DocumentViewChange D)}
    (h : ∀ k, Explains (old.getDocument k) (new.getDocument k) (s.get k))
    (hperm : changes.Perm s.getChanges) : Accounts old new changes := by
  have hkeyed : ∀ k c, s.get k = some c → c.document.key = k := by
    intro k c hc
    have hexplains := h k
    rw [hc] at hexplains
    generalize ho : old.getDocument k = o at hexplains
    generalize hn : new.getDocument k = n at hexplains
    cases hexplains with
    | added => exact DocumentSet.getDocument_key hn
    | removed hkey => exact hkey.trans (DocumentSet.getDocument_key ho)
    | modified => exact DocumentSet.getDocument_key hn
    | metadata => exact DocumentSet.getDocument_key hn
  have hnodup : (changes.map fun c => c.document.key).Nodup :=
    (hperm.map _).nodup_iff.mpr (DocumentViewChangeSet.nodup_getChanges hkeyed)
  refine ⟨hnodup, fun k => ?_⟩
  have hfind : (changes.find? fun c => c.document.key = k) = s.get k := by
    apply Option.ext
    intro c
    rw [find?_key_eq_some_iff hnodup, hperm.mem_iff, DocumentViewChangeSet.mem_getChanges hkeyed]
    constructor
    · rintro ⟨hget, rfl⟩
      exact hget
    · intro hget
      have hkey := hkeyed k c hget
      exact ⟨hkey ▸ hget, hkey⟩
  rw [hfind]
  exact h k

end Explains

/-- `ViewSnapshot`. -/
structure ViewSnapshot (D : Type) (cmp : Document D → Document D → Ordering) where
  documents : DocumentSet D cmp
  oldDocuments : DocumentSet D cmp
  documentChanges : List (DocumentViewChange D)
  mutatedKeys : DocumentKeySet
  fromCache : Bool
  syncStateChanged : Bool
  excludesMetadataChanges : Bool

namespace ViewSnapshot

variable {cmp : Document D → Document D → Ordering}

def hasPendingWrites (s : ViewSnapshot D cmp) : Bool := !s.mutatedKeys.isEmpty

/-- `FromInitialDocuments`. -/
def fromInitialDocuments (documents : DocumentSet D cmp) (mutatedKeys : DocumentKeySet)
    (fromCache excludesMetadataChanges : Bool) : ViewSnapshot D cmp where
  documents := documents
  oldDocuments := DocumentSet.empty
  documentChanges := documents.toList.map fun doc => ⟨doc, .added⟩
  mutatedKeys := mutatedKeys
  fromCache := fromCache
  syncStateChanged := true
  excludesMetadataChanges := excludesMetadataChanges

end ViewSnapshot

end FreeFood.Firestore
