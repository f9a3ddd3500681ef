/-
Collections of documents under distinct ids.

A collection is Mathlib's `AList`, so that two documents under one id cannot be
written down. What is added here is what a query does with it: `getDocuments`
keeps the documents a condition holds of, and `getDocuments_eq_lookup` says that
a condition which is in truth a condition on the id finds what looking the id up
finds. `IsOrdered` is what a listener is handed by an ordered query, which fixes
the order of documents only up to ties.
-/
import Mathlib.Data.List.AList
import Mathlib.Data.List.Nodup

set_option autoImplicit false

/-- Documents of type `β`, each under an id of its own. -/
abbrev Collection (β : Type*) := AList (fun _ : String => β)

namespace Collection

variable {β : Type*}

/-- Stores a document under an id, in the place of one that is there. -/
def setData (c : Collection β) (id : String) (doc : β) : Collection β := c.insert id doc

/-- The documents that a condition holds of, with their ids. -/
def getDocuments (c : Collection β) (p : β → Bool) : List ((_ : String) × β) :=
  c.entries.filter (fun e => p e.2)

@[simp] theorem lookup_setData_self (c : Collection β) (id : String) (doc : β) :
    (c.setData id doc).lookup id = some doc := AList.lookup_insert c

theorem lookup_setData_of_ne (c : Collection β) {id id' : String} (doc : β) (h : id' ≠ id) :
    (c.setData id doc).lookup id' = c.lookup id' := AList.lookup_insert_ne h

theorem lookup_setData (c : Collection β) (id id' : String) (doc : β) :
    (c.setData id doc).lookup id' = if id' = id then some doc else c.lookup id' := by
  by_cases h : id' = id
  · rw [if_pos h, h, lookup_setData_self]
  · rw [if_neg h, lookup_setData_of_ne c doc h]

theorem mem_setData {c : Collection β} {id id' : String} {doc : β} :
    id' ∈ c.setData id doc ↔ id' = id ∨ id' ∈ c := AList.mem_insert c

theorem mem_entries_iff {c : Collection β} {id : String} {doc : β} :
    ⟨id, doc⟩ ∈ c.entries ↔ c.lookup id = some doc :=
  (AList.mem_lookup_iff (s := c)).symm

/-- A document under an id not in use is put in front of the others. -/
theorem entries_setData_of_notMem {c : Collection β} {id : String} (doc : β) (h : id ∉ c) :
    (c.setData id doc).entries = ⟨id, doc⟩ :: c.entries := AList.entries_insert_of_notMem h

/-! ## Queries -/

/-- Entries with distinct keys, filtered by their key, are the entry of that key. -/
theorem filter_key_eq {l : List ((_ : String) × β)} (hl : l.NodupKeys) (id : String) :
    l.filter (fun e => e.1 = id) = ((l.dlookup id).map (fun doc => ⟨id, doc⟩)).toList := by
  induction l with
  | nil => rfl
  | cons e l ih =>
      obtain ⟨k, doc⟩ := e
      rw [List.nodupKeys_cons] at hl
      by_cases hk : k = id
      · subst hk
        -- the keys are distinct, so nothing behind this entry has its key
        have hnone : l.dlookup k = none := List.dlookup_eq_none.mpr hl.1
        rw [List.filter_cons_of_pos (by simp), ih hl.2, hnone, List.dlookup_cons_eq]
        rfl
      · rw [List.filter_cons_of_neg (by simpa using hk), ih hl.2,
          List.dlookup_cons_ne _ _ (fun h => hk h.symm)]

/-- A query whose condition says what the id is finds the document of that id, and
no other. -/
theorem getDocuments_eq_lookup {c : Collection β} {p : β → Bool} {id : String}
    (h : ∀ k doc, c.lookup k = some doc → (p doc = true ↔ k = id)) :
    c.getDocuments p = ((c.lookup id).map (fun doc => ⟨id, doc⟩)).toList := by
  rw [getDocuments, AList.lookup, ← filter_key_eq c.nodupKeys id]
  -- entry by entry, the condition on the document is the condition on the key
  refine List.filter_congr fun e he => ?_
  have hkey := h e.1 e.2 (mem_entries_iff.mp he)
  by_cases hid : e.1 = id
  · simp [hid, hkey.mpr hid]
  · have hp : p e.2 = false := by
      rw [Bool.eq_false_iff]
      exact fun hp => hid (hkey.mp hp)
    simp [hid, hp]

/-! ## Ordered queries -/

/-- `docs` is what a query ordered by `key`, the largest first, makes of the
collection: the documents that have the key, in an order of the keys. -/
def IsOrdered {κ : Type*} [LE κ] (key : β → Option κ) (c : Collection β)
    (docs : List ((_ : String) × β)) : Prop :=
  docs.Perm (c.entries.filter (fun e => (key e.2).isSome))
    ∧ docs.Pairwise (fun a b => ∀ x y, key a.2 = some x → key b.2 = some y → y ≤ x)

end Collection
