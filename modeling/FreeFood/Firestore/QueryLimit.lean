/-
The limit of a query: which documents a view with a limit shows.

A view with a limit does not look at the whole local store. It takes in what has changed,
drops what is beyond the limit, and asks for all documents again only if one of those it
shows went away or moved past the last one. The result is still the first documents of
the query in their order, or the last ones: a document that was left out is after all
that is shown, and as long as no document goes or moves past the end, so it stays.

The one thing in the way is a document that waits for an acknowledged write to come back:
it is shown, and sorted, by data that the local store does not have any more. The
statements here are about calls that make no document wait.
-/
import FreeFood.Firestore.SyncEngine
import FreeFood.Lib.Leading
import Mathlib.Data.List.Perm.Subperm

set_option autoImplicit false

namespace FreeFood.Firestore

open Std Transition Leading

variable {D V : Type} [Ord D] [Ord V] [ObjectData D V]

namespace QueryState

variable {q : Query D}

/-! ## 1. The end that the limit keeps -/

/-- The order in which a limited query takes documents in. -/
def towards (q : Query D) (a b : Document D) : Ordering :=
  if q.hasLimitToFirst then q.comparator a b else q.comparator b a

/-- Documents in that order. -/
def inward (q : Query D) (docs : List (Document D)) : List (Document D) :=
  if q.hasLimitToFirst then docs else docs.reverse

theorem length_inward (docs : List (Document D)) : (inward q docs).length = docs.length := by
  unfold inward
  split
  · rfl
  · exact List.length_reverse

theorem mem_inward {docs : List (Document D)} {doc : Document D} :
    doc ∈ inward q docs ↔ doc ∈ docs := by
  unfold inward
  split
  · rfl
  · exact List.mem_reverse

/-- A limit takes the first documents in that order. -/
theorem inward_limited (hlimit : q.limitType ≠ .none) (docs : List (Document D)) :
    inward q (View.limited q docs) = (inward q docs).take q.limit := by
  unfold inward View.limited
  rw [if_neg hlimit]
  by_cases hfirst : q.hasLimitToFirst = true
  · rw [if_pos hfirst, if_pos hfirst, if_pos hfirst]
  · rw [if_neg hfirst, if_neg hfirst, if_neg hfirst, List.reverse_drop, Nat.sub_sub_eq_min,
      Nat.min_comm, ← List.length_reverse, ← List.take_eq_take_min]

section Order

variable [TransOrd V]

instance (q : Query D) : TransCmp (towards q) := by
  by_cases hfirst : q.hasLimitToFirst = true
  · have heq : towards q = q.comparator := by
      funext a b
      rw [towards, if_pos hfirst]
    rw [heq]
    infer_instance
  · have heq : towards q = fun a b => q.comparator b a := by
      funext a b
      rw [towards, if_neg hfirst]
    rw [heq]
    infer_instance

omit [TransOrd V] in
theorem ascends_inward (s : DocumentSet D q.comparator) : Ascends (towards q) (inward q s.toList) := by
  have hsorted : Ascends q.comparator s.toList := s.pairwise_toList
  by_cases hfirst : q.hasLimitToFirst = true
  · have heq : towards q = q.comparator := by
      funext a b
      rw [towards, if_pos hfirst]
    rw [heq, inward, if_pos hfirst]
    exact hsorted
  · have heq : towards q = fun a b => q.comparator b a := by
      funext a b
      rw [towards, if_neg hfirst]
    rw [heq, inward, if_neg hfirst]
    exact hsorted.reverse

theorem towards_eq_eq_iff {a b : Document D} :
    towards q a b = .eq ↔ q.comparator a b = .eq := by
  unfold towards
  split
  · rfl
  · exact OrientedCmp.eq_comm

/-- Data that compares the same does not move a document. -/
theorem towards_eq_eq {a b : Document D} (hkey : a.key = b.key)
    (hdata : compare a.data b.data = .eq) : towards q a b = .eq :=
  towards_eq_eq_iff.mpr (q.comparator_eq_eq hkey hdata)

end Order

/-! ## 2. The document at the limit -/

/-- The last document that a full limit takes in. -/
def boundary (old : DocumentSet D q.comparator) : Option (Document D) :=
  if old.size = q.limit then (inward q old.toList).getLast? else none

/-- What it takes for a limit to be one: its type, and a number that is not `kNoLimit`. -/
def Limits (q : Query D) : Prop := q.limitType ≠ .none ∧ q.limit ≠ kNoLimit

theorem hasLimitToLast_of_limits (hq : Limits q) (hfirst : ¬ q.hasLimitToFirst = true) :
    q.hasLimitToLast = true := by
  have hno : (q.limit != kNoLimit) = true := bne_iff_ne.mpr hq.2
  rw [Query.hasLimitToFirst, hno, Bool.and_true, beq_iff_eq] at hfirst
  rw [Query.hasLimitToLast, hno, Bool.and_true, beq_iff_eq]
  cases htype : q.limitType with
  | none => exact absurd htype hq.1
  | first => exact absurd htype hfirst
  | last => rfl

theorem not_hasLimitToLast (hfirst : q.hasLimitToFirst = true) : q.hasLimitToLast = false := by
  rw [Query.hasLimitToFirst, Bool.and_eq_true, beq_iff_eq] at hfirst
  rw [Query.hasLimitToLast, hfirst.1]
  rfl

/-- The source keeps the document at the limit in one of two places. -/
theorem docInLimit_eq (hq : Limits q) (old : DocumentSet D q.comparator) :
    (View.lastDocInLimit old = if q.hasLimitToFirst then boundary old else none) ∧
      View.firstDocInLimit old = if q.hasLimitToFirst then none else boundary old := by
  unfold View.lastDocInLimit View.firstDocInLimit boundary inward
  by_cases hfirst : q.hasLimitToFirst = true
  · simp only [hfirst, not_hasLimitToLast hfirst, Bool.true_and, Bool.false_and, if_true,
      Bool.false_eq_true, if_false, beq_iff_eq, DocumentSet.getLastDocument_eq, and_self]
  · have hlast := hasLimitToLast_of_limits hq hfirst
    simp only [hfirst, hlast, Bool.true_and, Bool.false_and, Bool.false_eq_true, if_false,
      beq_iff_eq, DocumentSet.getFirstDocument_eq, List.getLast?_reverse, and_self]

/-- A document is outside the limit where it is past the one at the limit. -/
theorem outsideLimit_eq [TransOrd V] (hq : Limits q) (old : DocumentSet D q.comparator)
    (doc : Document D) :
    View.outsideLimit old doc = (boundary old).any fun last => towards q last doc == .lt := by
  obtain ⟨hlast, hfirst⟩ := docInLimit_eq hq old
  unfold View.outsideLimit
  rw [hlast, hfirst]
  by_cases hto : q.hasLimitToFirst = true
  · rw [if_pos hto, if_pos hto, Option.any_none, Bool.or_false]
    congr 1
    funext last
    have hswap : q.comparator doc last = (q.comparator last doc).swap := OrientedCmp.eq_swap
    rw [towards, if_pos hto, hswap]
    cases q.comparator last doc <;> rfl
  · rw [if_neg hto, if_neg hto, Option.any_none, Bool.false_or]
    congr 1
    funext last
    rw [towards, if_neg hto]

theorem docInLimit_isSome (hq : Limits q) (old : DocumentSet D q.comparator) :
    ((View.lastDocInLimit old).isSome || (View.firstDocInLimit old).isSome)
      = (boundary old).isSome := by
  obtain ⟨hlast, hfirst⟩ := docInLimit_eq hq old
  rw [hlast, hfirst]
  split
  · exact Bool.or_false _
  · exact Bool.false_or _

/-! ## 3. What a view with a limit shows -/

/-- The documents are the first of the local store's, each with its data: they are not
more than the limit, and what is left out comes after a full limit. -/
structure TopOf (cache : StoredDocuments D) (s : DocumentSet D q.comparator) : Prop where
  settled : ∀ k d, s.getDocument k = some d →
    ∃ n, cached q cache k = some n ∧ compare d.data n.data = .eq
  length_le : s.toList.length ≤ q.limit
  rest : ∀ k n, cached q cache k = some n → (s.getDocument k).isSome = true ∨
    (s.toList.length = q.limit ∧ ∀ d ∈ s.toList, towards q d n = .lt)

/-- No document that is shown waits for an acknowledged write after these changes. -/
def Unsuppressed (v : View q) (docChanges : MaybeDocumentMap D) : Prop :=
  ∀ k m n d, docChanges.get k = some m → View.matched q m = some n →
    v.documentSet.getDocument k = some d → shouldWaitForSyncedDocument n d = true →
    compare d.data n.data = .eq

section Limit

variable [TransOrd D] [TransOrd V] {cache : StoredDocuments D}
  {docChanges executed : MaybeDocumentMap D} {v : View q}

omit [TransOrd D] [TransOrd V] in
theorem key_of_cached (hcache : KeyedStore cache) {k : DocumentKey} {n : Document D}
    (h : cached q cache k = some n) : n.key = k := by
  obtain ⟨m, hm, hmatched⟩ := cached_eq_some h
  exact hcache k m hm n (View.matched_eq_some hmatched).1

omit [TransOrd D] in
/-- The limit of documents that have the first of the local store's. -/
theorem topOf_of_limited (hlimit : q.limitType ≠ .none) (hcache : KeyedStore cache)
    {s all : DocumentSet D q.comparator} (hs : s.toList = View.limited q all.toList)
    (hsettled : ∀ k d, all.getDocument k = some d →
      ∃ n, cached q cache k = some n ∧ compare d.data n.data = .eq)
    (hrest : ∀ k n, cached q cache k = some n → all.getDocument k = none →
      q.limit ≤ all.toList.length ∧
        ∀ d ∈ (inward q all.toList).take q.limit, towards q d n = .lt) :
    TopOf cache s := by
  have hinward : inward q s.toList = (inward q all.toList).take q.limit := by
    rw [hs, inward_limited hlimit]
  have hlength : s.toList.length = min q.limit all.toList.length := by
    rw [← length_inward s.toList, hinward, List.length_take, length_inward]
  refine ⟨fun k d hd => hsettled k d (getDocument_of_limited hs hd), ?_, fun k n hn => ?_⟩
  · rw [hlength]
    exact Nat.min_le_left _ _
  · cases hall : all.getDocument k with
    | none =>
        obtain ⟨hfull, hless⟩ := hrest k n hn hall
        refine Or.inr ⟨hlength.trans (Nat.min_eq_left hfull), fun d hd => hless d ?_⟩
        rw [← hinward]
        exact mem_inward.mpr hd
    | some p =>
        obtain ⟨hmem, hkey⟩ := DocumentSet.getDocument_eq_some_iff.mp hall
        have hp : p ∈ inward q all.toList := mem_inward.mpr hmem
        rw [← List.take_append_drop q.limit (inward q all.toList), List.mem_append] at hp
        rcases hp with htake | hdrop
        · left
          rw [← hinward] at htake
          have hshown := DocumentSet.getDocument_eq_some_iff.mpr ⟨mem_inward.mp htake, hkey⟩
          rw [hshown]
          rfl
        · right
          have hmore : q.limit < all.toList.length := by
            have hpos := List.length_pos_of_mem hdrop
            rw [List.length_drop, length_inward] at hpos
            omega
          refine ⟨hlength.trans (Nat.min_eq_left hmore.le), fun d hd => ?_⟩
          have hd' : d ∈ (inward q all.toList).take q.limit := by
            rw [← hinward]
            exact mem_inward.mpr hd
          obtain ⟨n', hn', hdata⟩ := hsettled k p hall
          rw [hn, Option.some.injEq] at hn'
          subst hn'
          -- the document left out sorts as the one in the local store
          have hsame : towards q p n = .eq :=
            towards_eq_eq (hkey.trans (key_of_cached hcache hn).symm) hdata
          exact TransCmp.lt_of_lt_of_eq ((ascends_inward all).lt_of_take_drop hd' hdrop) hsame

/-- Where a pass does not ask for a refill, the documents of a full limit stay, and none
of them moves past the last. -/
theorem not_gt_boundary (hq : Limits q) (hunsuppressed : Unsuppressed v docChanges)
    (hchanges : View.KeyedMap docChanges)
    (hasks : View.passAsksRefill v.documentSet docChanges = false) {last : Document D}
    (hlast : boundary v.documentSet = some last) {d : Document D}
    (hd : d ∈ v.documentSet.toList) :
    ∃ p, View.resolved q v.mutatedKeys v.documentSet docChanges d.key = some p ∧
      p.key = d.key ∧ towards q p last ≠ .gt := by
  have hget := DocumentSet.mem_toList.mp hd
  -- no document of a full limit is past the last
  have hold : towards q d last ≠ .gt := by
    rw [boundary] at hlast
    split at hlast
    · obtain ⟨before, hbefore⟩ := List.getLast?_eq_some_iff.mp hlast
      have hsorted := ascends_inward v.documentSet
      have hmem : d ∈ inward q v.documentSet.toList := mem_inward.mpr hd
      rw [hbefore] at hsorted hmem
      rcases List.mem_append.mp hmem with hin | hself
      · have hlt := (List.pairwise_append.mp hsorted).2.2 d hin last (List.mem_singleton_self _)
        rw [hlt]
        decide
      · have hsame : towards q last last = .eq := ReflCmp.compare_self
        rw [List.mem_singleton.mp hself, hsame]
        decide
    · cases hlast
  unfold View.resolved
  cases hchange : docChanges.get d.key with
  | none => exact ⟨d, hget, rfl, hold⟩
  | some m =>
      have hentry : View.asksRefill v.documentSet (v.documentSet.getDocument d.key) m = false := by
        have hno := List.any_eq_false.mp hasks (d.key, m)
          (SortedMap.get_eq_some_iff_mem.mp hchange)
        exact Bool.eq_false_iff.mpr hno
      dsimp only
      rw [hget] at hentry ⊢
      cases hmatched : View.matched q m with
      | none =>
          simp only [View.asksRefill, hmatched] at hentry
          rw [docInLimit_isSome hq, hlast] at hentry
          cases hentry
      | some n =>
          have hkey : n.key = d.key := key_of_get hchanges hchange (View.matched_eq_some hmatched).1
          simp only [View.asksRefill, hmatched, outsideLimit_eq hq, hlast, Option.any_some] at hentry
          unfold View.resolve
          rw [hmatched]
          dsimp only
          by_cases hdata : (compare d.data n.data != .eq) = true
          · have hwait : ¬ shouldWaitForSyncedDocument n d = true := by
              intro hwait
              have heq := hunsuppressed d.key m n d hchange hmatched hget hwait
              rw [heq] at hdata
              cases hdata
            rw [hdata, Bool.eq_false_iff.mpr hwait, Bool.not_false, Bool.true_and, Bool.true_and,
              beq_eq_false_iff_ne] at hentry
            rw [if_pos hdata, if_neg hwait]
            refine ⟨n, rfl, hkey, fun hgt => hentry ?_⟩
            exact OrientedCmp.lt_of_gt hgt
          · rw [if_neg hdata]
            have heq : compare d.data n.data = .eq := by simpa using hdata
            have hsame : towards q n d = .eq :=
              towards_eq_eq hkey (OrientedCmp.eq_symm heq)
            split
            · refine ⟨n, rfl, hkey, ?_⟩
              rwa [TransCmp.congr_left hsame]
            · exact ⟨d, rfl, rfl, hold⟩

/-- After a pass that does not ask for a refill, what is not among its documents comes
after a full limit of them. -/
theorem rest_of_first_pass (hq : Limits q) (htop : TopOf cache v.documentSet)
    (hchanges : View.KeyedMap docChanges) (hunsuppressed : Unsuppressed v docChanges)
    (hasks : View.passAsksRefill v.documentSet docChanges = false)
    {all : DocumentSet D q.comparator}
    (hall : ∀ k, all.getDocument k = View.resolved q v.mutatedKeys v.documentSet docChanges k)
    (hcomplete : ∀ k, (cached q (apply cache docChanges) k).isSome = true →
      ((docChanges.get k).isSome = true ∨ (v.documentSet.getDocument k).isSome = true) →
      (all.getDocument k).isSome = true)
    {k : DocumentKey} {n : Document D} (hn : cached q (apply cache docChanges) k = some n)
    (hnone : all.getDocument k = none) :
    q.limit ≤ all.toList.length ∧
      ∀ d ∈ (inward q all.toList).take q.limit, towards q d n = .lt := by
  have hnot : ¬ ((docChanges.get k).isSome = true ∨
      (v.documentSet.getDocument k).isSome = true) := by
    intro hor
    have hsome := hcomplete k (by rw [hn]; rfl) hor
    rw [hnone] at hsome
    cases hsome
  rw [not_or, Bool.not_eq_true, Bool.not_eq_true, Option.isSome_eq_false_iff,
    Option.isSome_eq_false_iff, Option.isNone_iff_eq_none, Option.isNone_iff_eq_none] at hnot
  have hold : cached q cache k = some n := by
    rw [cached_apply, hnot.1] at hn
    exact hn
  rcases htop.rest k n hold with hshown | ⟨hfull, hless⟩
  · rw [hnot.2] at hshown
    cases hshown
  · by_cases hzero : q.limit = 0
    · rw [hzero]
      exact ⟨Nat.zero_le _, fun d hd => absurd hd List.not_mem_nil⟩
    · -- the limit is full, and its last document is before the one left out
      obtain ⟨last, hlast, hmem⟩ : ∃ last, boundary v.documentSet = some last ∧
          last ∈ v.documentSet.toList := by
        have hne : inward q v.documentSet.toList ≠ [] := by
          intro hnil
          have hlength := length_inward (q := q) v.documentSet.toList
          rw [hnil, List.length_nil, hfull] at hlength
          exact hzero hlength.symm
        refine ⟨(inward q v.documentSet.toList).getLast hne, ?_,
          mem_inward.mp (List.getLast_mem hne)⟩
        rw [boundary, if_pos (v.documentSet.size_eq.trans hfull), List.getLast?_eq_some_getLast hne]
      have hcount : q.limit ≤ ((inward q all.toList).filter
          fun p => towards q p last != .gt).length := by
        have hsub : v.documentSet.toList.map Document.key ⊆
            ((inward q all.toList).filter fun p => towards q p last != .gt).map Document.key := by
          intro key hkey
          obtain ⟨d, hd, rfl⟩ := List.mem_map.mp hkey
          obtain ⟨p, hp, hpkey, hnotgt⟩ :=
            not_gt_boundary hq hunsuppressed hchanges hasks hlast hd
          rw [← hall] at hp
          refine List.mem_map.mpr ⟨p, List.mem_filter.mpr ⟨?_, bne_iff_ne.mpr hnotgt⟩, hpkey⟩
          exact mem_inward.mpr (DocumentSet.getDocument_eq_some_iff.mp hp).1
        have hle := (List.subperm_of_subset v.documentSet.nodup_keys hsub).length_le
        rwa [List.length_map, List.length_map, hfull] at hle
      refine ⟨?_, fun d hd => ?_⟩
      · have hle := hcount.trans (List.length_filter_le _ _)
        rwa [length_inward] at hle
      · have hnotgt := (ascends_inward all).not_gt_of_mem_take hcount hd
        exact TransCmp.lt_of_isLE_of_lt (Ordering.isLE_iff_ne_gt.mpr hnotgt) (hless last hmem)

/-- **The passes keep the first documents of the local store in a view with a limit.** -/
theorem topOf_computeWithRefill (hq : Limits q) (h : Follows cache v)
    (htop : TopOf cache v.documentSet) (hchanges : View.KeyedMap docChanges)
    (hfinds : Finds q (apply cache docChanges) executed)
    (hunsuppressed : Unsuppressed v docChanges) {changes : ViewDocumentChanges D q.comparator}
    (hcompute : computeWithRefill v docChanges executed = some changes) :
    TopOf (apply cache docChanges) changes.documentSet := by
  have hcache := keyed_apply h.keyed hchanges
  obtain ⟨first, hfirst, hsound, hasks, all, hlist, hall, hfrom, hcomplete, hrecorded⟩ :=
    exists_first_pass h hchanges
  -- nothing waits, so what is shown has the data of the local store
  have hsettled : ∀ k d, all.getDocument k = some d →
      ∃ n, cached q (apply cache docChanges) k = some n ∧ compare d.data n.data = .eq := by
    intro k d hd
    obtain ⟨n, hn, hreflects, hof⟩ := hfrom k d hd
    refine ⟨n, hn, ?_⟩
    rcases hof with rfl | hview
    · exact ReflCmp.compare_self
    · rw [cached_apply] at hn
      cases hget : docChanges.get k with
      | none =>
          rw [hget] at hn
          dsimp only at hn
          obtain ⟨n', hn', hdata⟩ := htop.settled k d hview
          rw [hn, Option.some.injEq] at hn'
          exact hn' ▸ hdata
      | some m =>
          rw [hget] at hn
          rcases hreflects.data with hdata | ⟨hlocal, hcommitted⟩
          · exact hdata
          · refine hunsuppressed k m n d hget hn hview ?_
            rw [shouldWaitForSyncedDocument, hlocal, hcommitted,
              hasLocalMutations_of_committed hcommitted]
            rfl
  unfold computeWithRefill at hcompute
  rw [hfirst, Option.bind_eq_bind, Option.bind_some] at hcompute
  by_cases hneeds : first.needsRefill = true
  · have hprevious : ∀ k d, first.documentSet.getDocument k = some d →
        all.getDocument k = some d := fun k d => getDocument_of_limited hlist
    obtain ⟨second, hsecond, -, -, all', hlist', hfrom', hcomplete'⟩ :=
      exists_refill hcache hfinds h.mutated hsound (fun k d hd => hfrom k d (hprevious k d hd))
        fun k hne d hd => cached_of_recorded hrecorded hne hd
    rw [if_pos hneeds, hsecond, Option.some.injEq] at hcompute
    subst hcompute
    refine topOf_of_limited hq.1 hcache hlist' (fun k d hd => ?_) fun k n hn hnone => ?_
    · obtain ⟨n, hn, -, hof⟩ := hfrom' k d hd
      refine ⟨n, hn, ?_⟩
      rcases hof with rfl | hbefore
      · exact ReflCmp.compare_self
      · obtain ⟨n', hn', hdata⟩ := hsettled k d (hprevious k d hbefore)
        rw [hn, Option.some.injEq] at hn'
        exact hn' ▸ hdata
    · -- a refill has all documents
      have hsome := hcomplete' k (by rw [hn]; rfl)
      rw [hnone] at hsome
      cases hsome
  · rw [if_neg hneeds, Option.some.injEq] at hcompute
    subst hcompute
    rw [hasks] at hneeds
    exact topOf_of_limited hq.1 hcache hlist hsettled fun k n hn hnone =>
      rest_of_first_pass hq htop hchanges hunsuppressed (Bool.eq_false_iff.mpr hneeds) hall
        hcomplete hn hnone

/-- All documents that a run of the query returns, in the order of the query. -/
def allDocuments (q : Query D) (executed : MaybeDocumentMap D) : DocumentSet D q.comparator :=
  executed.toList.foldl (fun s e =>
    match View.matched q e.2 with
    | some doc => s.insert doc
    | none => s) DocumentSet.empty

omit [TransOrd D] in
theorem getDocument_allDocuments (hkeyed : View.KeyedMap executed) (k : DocumentKey) :
    (allDocuments q executed).getDocument k = (executed.get k).bind (View.matched q) := by
  have hfold : ∀ (entries : List (DocumentKey × MaybeDocument D)) (s : DocumentSet D q.comparator),
      (∀ e ∈ entries, View.Keyed e) → (entries.map Prod.fst).Nodup →
      let s' := entries.foldl (fun s e =>
        match View.matched q e.2 with
        | some doc => s.insert doc
        | none => s) s
      (∀ e ∈ entries, s'.getDocument e.1 = (View.matched q e.2).or (s.getDocument e.1)) ∧
        ∀ k, k ∉ entries.map Prod.fst → s'.getDocument k = s.getDocument k := by
    intro entries
    induction entries with
    | nil => exact fun s _ _ => ⟨fun e he => absurd he List.not_mem_nil, fun _ _ => rfl⟩
    | cons entry entries ih =>
        intro s hkeyed hnodup
        rw [List.map_cons, List.nodup_cons] at hnodup
        have hfirst : ∀ k, (match View.matched q entry.2 with
            | some doc => s.insert doc
            | none => s).getDocument k
              = if k = entry.1 then (View.matched q entry.2).or (s.getDocument k)
                else s.getDocument k := by
          intro k
          cases hmatched : View.matched q entry.2 with
          | none =>
              rw [Option.none_or]
              exact (ite_self _).symm
          | some doc =>
              have hkey : doc.key = entry.1 := hkeyed entry List.mem_cons_self doc
                (View.matched_eq_some hmatched).1
              dsimp only
              rw [DocumentSet.getDocument_insert, hkey, Option.some_or]
        obtain ⟨hmem, hother⟩ := ih (match View.matched q entry.2 with
            | some doc => s.insert doc
            | none => s) (fun e he => hkeyed e (List.mem_cons_of_mem _ he)) hnodup.2
        constructor
        · intro e he
          rcases List.mem_cons.mp he with rfl | hin
          · exact (hother _ hnodup.1).trans ((hfirst _).trans (if_pos rfl))
          · have hne : e.1 ≠ entry.1 := fun heq => hnodup.1 (heq ▸ List.mem_map_of_mem hin)
            refine (hmem e hin).trans ?_
            rw [hfirst, if_neg hne]
        · intro k hk
          rw [List.map_cons, List.mem_cons, not_or] at hk
          exact (hother k hk.2).trans ((hfirst k).trans (if_neg hk.1))
  obtain ⟨hmem, hother⟩ := hfold executed.toList DocumentSet.empty hkeyed executed.nodup_keys
  cases hget : executed.get k with
  | some m =>
      have hfound := hmem (k, m) (SortedMap.get_eq_some_iff_mem.mp hget)
      rw [DocumentSet.getDocument_empty, Option.or_none] at hfound
      exact hfound
  | none =>
      refine hother k ?_
      rw [SortedMap.mem_keys_iff, hget]
      exact Bool.false_ne_true

omit [TransOrd D] in
/-- They are all that the local store has and the query matches. -/
theorem getDocument_allDocuments_of_finds (hcache : KeyedStore cache)
    (hfinds : Finds q cache executed) (k : DocumentKey) :
    (allDocuments q executed).getDocument k = cached q cache k := by
  rw [getDocument_allDocuments (keyed_executed hcache hfinds), cached]
  refine Option.ext fun doc => ?_
  rw [Option.bind_eq_some_iff, Option.bind_eq_some_iff]
  constructor
  · rintro ⟨m, hget, hmatched⟩
    exact ⟨m, ((hfinds k m).mp hget).1, hmatched⟩
  · rintro ⟨m, hget, hmatched⟩
    exact ⟨m, (hfinds k m).mpr ⟨hget, by rw [hmatched]; rfl⟩, hmatched⟩

/-- The calls after which no document waits. -/
def Settles (s : QueryState q) : QueryEvent D → Prop
  | .changes docChanges _ _ => Unsuppressed s.view docChanges
  | .onlineState _ => True

theorem topOf_step (hq : Limits q) {s s' : QueryState q} {e : QueryEvent D} (h : Good s)
    (htop : TopOf s.cache s.view.documentSet) (hexecutes : Executes s e) (hsettles : Settles s e)
    (hstep : step s e = some s') : TopOf s'.cache s'.view.documentSet := by
  rw [step, Option.map_eq_some_iff] at hstep
  obtain ⟨r, hemit, rfl⟩ := hstep
  have hfits := eventFits_of_emit hemit
  cases e with
  | changes docChanges targetChange executed =>
      simp only [emit, Option.bind_eq_bind, Option.bind_eq_some_iff] at hemit
      obtain ⟨changes, hcompute, ⟨v', viewChange⟩, happly, hr⟩ := hemit
      rw [Option.some.injEq] at hr
      subst hr
      dsimp only
      rw [View.documentSet_of_applyChanges happly]
      exact topOf_computeWithRefill hq h.follows htop hfits.1 hexecutes hsettles hcompute
  | onlineState state =>
      simp only [emit, Option.bind_eq_bind, Option.bind_eq_some_iff] at hemit
      obtain ⟨⟨v', viewChange⟩, happly, hr⟩ := hemit
      -- the documents of the view are what they were
      have hdocs : v'.documentSet = s.view.documentSet := by
        rw [View.applyOnlineStateChange] at happly
        split at happly
        · exact View.documentSet_of_applyChanges happly
        · rw [Option.some.injEq, Prod.mk.injEq] at happly
          rw [← happly.1]
      split at hr
      · rw [Option.some.injEq] at hr
        subst hr
        dsimp only
        rw [hdocs]
        exact htop
      · cases hr

theorem topOf_initializeView (hq : Limits q) {remoteKeys : DocumentKeySet}
    {synthesized : Option TargetChange} {s : QueryState q} {snapshot : ViewSnapshot D q.comparator}
    (hcache : KeyedStore cache) (hfinds : Finds q cache executed)
    (hinit : initializeView q cache executed remoteKeys synthesized = some (s, snapshot)) :
    TopOf s.cache s.view.documentSet := by
  have hfollows : Follows cache (View.create q remoteKeys) := by
    refine ⟨hcache, fun k => ?_, fun k d hd => ?_⟩
    · rw [SortedMap.contains_eq]
      rfl
    · cases hd
  obtain ⟨changes, hcompute, hsound, hasks, all, hlist, -, hfrom, hcomplete, -⟩ :=
    exists_first_pass hfollows (keyed_executed hcache hfinds)
  simp only [initializeView, hcompute, Option.bind_eq_bind, Option.bind_some,
    Option.bind_eq_some_iff] at hinit
  obtain ⟨⟨v', viewChange⟩, happly, sn, -, hs⟩ := hinit
  rw [Option.some.injEq, Prod.mk.injEq] at hs
  rw [← hs.1]
  dsimp only
  rw [View.documentSet_of_applyChanges happly]
  refine topOf_of_limited hq.1 hcache hlist (fun k d hd => ?_) fun k n hn hnone => ?_
  · obtain ⟨n, hn, -, hof⟩ := hfrom k d hd
    rw [cached_apply_executed hfinds] at hn
    refine ⟨n, hn, ?_⟩
    rcases hof with rfl | hview
    · exact ReflCmp.compare_self
    · cases hview
  · have hsome := hcomplete k (by rw [cached_apply_executed hfinds, hn]; rfl) (Or.inl (by
      obtain ⟨m, hm, hmatched⟩ := cached_eq_some hn
      have hget : executed.get k = some m := (hfinds k m).mpr ⟨hm, by rw [hmatched]; rfl⟩
      rw [hget]
      rfl))
    rw [hnone] at hsome
    cases hsome

/-- **A limited view shows the first documents of the whole local store.** In every run
whose calls make no document wait, the documents shown are, one by one and in order, the
first or the last ones of all that the query matches, as many as the limit says. What a run
of the query returns, in the run and after it, is what the store has and the query matches. -/
theorem limited_view_exact (hq : Limits q) {remoteKeys : DocumentKeySet}
    {synthesized : Option TargetChange} {s t : QueryState q}
    {snapshot : ViewSnapshot D q.comparator} {es : List (QueryEvent D)}
    (hcache : KeyedStore cache) (hfinds : Finds q cache executed)
    (hinit : initializeView q cache executed remoteKeys synthesized = some (s, snapshot))
    (hexecutes : AllSteps step Executes s es) (hsettles : AllSteps step Settles s es)
    (hrun : run step s es = some t) {executed' : MaybeDocumentMap D}
    (hfinds' : Finds q t.cache executed') :
    List.Forall₂ (fun d n => d.key = n.key ∧ compare d.data n.data = .eq)
      t.view.documentSet.toList (View.limited q (allDocuments q executed').toList) := by
  have hgood : Good s :=
    good_run hcache hfinds hinit (fun _ _ _ h => absurd h takes_nil) (run_nil s)
  have hboth : Good t ∧ TopOf t.cache t.view.documentSet := by
    refine run_invariant_of_allSteps
      (I := fun u : QueryState q => Good u ∧ TopOf u.cache u.view.documentSet)
      (C := fun u e => Executes u e ∧ Settles u e)
      (fun a e b ha hC hab => ⟨good_step ha.1 hC.1 hab, topOf_step hq ha.1 ha.2 hC.1 hC.2 hab⟩)
      ⟨hgood, topOf_initializeView hq hcache hfinds hinit⟩
      (fun a e b htakes => ⟨hexecutes a e b htakes, hsettles a e b htakes⟩) hrun
  obtain ⟨hgood', htop⟩ := hboth
  have hkeyed := hgood'.follows.keyed
  have hall := getDocument_allDocuments_of_finds hkeyed hfinds'
  have hsame : ∀ d ∈ t.view.documentSet.toList, ∀ n, cached q t.cache d.key = some n →
      towards q d n = .eq := by
    intro d hd n hn
    obtain ⟨n', hn', hdata⟩ := htop.settled d.key d (DocumentSet.mem_toList.mp hd)
    rw [hn, Option.some.injEq] at hn'
    subst hn'
    exact towards_eq_eq (key_of_cached hkeyed hn).symm hdata
  have hwindow : List.Forall₂ (fun d n => towards q d n = .eq)
      (inward q t.view.documentSet.toList)
      ((inward q (allDocuments q executed').toList).take q.limit) := by
    refine forall₂_take (ascends_inward _) (ascends_inward _) ?_ ?_ ?_
    · intro d hd
      obtain ⟨n, hn, -⟩ := htop.settled d.key d (DocumentSet.mem_toList.mp (mem_inward.mp hd))
      refine ⟨n, mem_inward.mpr ?_, hsame d (mem_inward.mp hd) n hn⟩
      exact (DocumentSet.getDocument_eq_some_iff.mp ((hall d.key).trans hn)).1
    · rw [length_inward]
      exact htop.length_le
    · intro n hn
      have hget := (hall n.key).symm.trans (DocumentSet.mem_toList.mp (mem_inward.mp hn))
      rcases htop.rest n.key n hget with hshown | ⟨hfull, hless⟩
      · obtain ⟨d, hd⟩ := Option.isSome_iff_exists.mp hshown
        obtain ⟨hmem, hkey⟩ := DocumentSet.getDocument_eq_some_iff.mp hd
        exact Or.inl ⟨d, mem_inward.mpr hmem, hsame d hmem n (hkey ▸ hget)⟩
      · refine Or.inr ⟨(length_inward _).trans hfull, fun d hd => hless d (mem_inward.mp hd)⟩
  rw [← inward_limited hq.1] at hwindow
  have hdocs : List.Forall₂ (fun d n => towards q d n = .eq) t.view.documentSet.toList
      (View.limited q (allDocuments q executed').toList) := by
    unfold inward at hwindow
    by_cases hfirst : q.hasLimitToFirst = true
    · rwa [if_pos hfirst, if_pos hfirst] at hwindow
    · rw [if_neg hfirst, if_neg hfirst] at hwindow
      exact List.forall₂_reverse_iff.mp hwindow
  -- documents that compare the same have one key, and the local store has one for it
  rw [List.forall₂_iff_zip] at hdocs ⊢
  refine ⟨hdocs.1, fun {d n} hzip => ?_⟩
  obtain ⟨hd, hn⟩ := List.of_mem_zip hzip
  have hkey : d.key = n.key := DocumentComparator.key_eq (towards_eq_eq_iff.mp (hdocs.2 hzip))
  have hget := (hall n.key).symm.trans (DocumentSet.mem_toList.mp (mem_of_mem_limited hn))
  obtain ⟨n', hn', hdata⟩ := htop.settled d.key d (DocumentSet.mem_toList.mp hd)
  rw [hkey, hget, Option.some.injEq] at hn'
  exact ⟨hkey, hn' ▸ hdata⟩

/-- The latest submission only. -/
def latestQuery : Query ObjectValue := { feedQuery with limit := 1, limitType := .first }

/-- The backend sends a submission that is later than the one shown. -/
theorem limited_view_exact_later :
    ∃ (s t : QueryState latestQuery) (snapshot : ViewSnapshot ObjectValue latestQuery.comparator),
      initializeView latestQuery (storeOf twoSubmissions).get (foundIn latestQuery twoSubmissions)
        SortedMap.empty none = some (s, snapshot) ∧
      run step s [.changes (storeOf [submission "curry" 8 .synced]) none
        (foundIn latestQuery ([submission "curry" 8 .synced] ++ twoSubmissions))] = some t ∧
      List.Forall₂ (fun d n => d.key = n.key ∧ compare d.data n.data = .eq)
        t.view.documentSet.toList (View.limited latestQuery (allDocuments latestQuery
          (foundIn latestQuery ([submission "curry" 8 .synced] ++ twoSubmissions))).toList) := by
  have hnodup : (([submission "curry" 8 .synced] ++ twoSubmissions).map
      Document.key).Nodup := by decide +kernel
  have hold : (twoSubmissions.map Document.key).Nodup := (List.nodup_cons.mp hnodup).2
  have hcache := keyedStore_storeOf hold
  have hfinds := finds_foundIn latestQuery hold
  have hlater : View.KeyedMap (storeOf [submission "curry" 8 .synced]) := by decide +kernel
  have hfits : View.Fits (View.create latestQuery SortedMap.empty) none := fun _ h => nomatch h
  obtain ⟨s, snapshot, hinit, hgood, hstore, -⟩ :=
    initializeView_spec hcache hfinds SortedMap.empty hfits
  have hafter : Finds latestQuery (apply s.cache (storeOf [submission "curry" 8 .synced]))
      (foundIn latestQuery ([submission "curry" 8 .synced] ++ twoSubmissions)) := by
    rw [hstore, apply_storeOf hnodup]
    exact finds_foundIn latestQuery hnodup
  obtain ⟨t, sn, hemit, -⟩ := emit_spec hgood (e := .changes _ none _)
    ⟨hlater, fun _ h => nomatch h⟩ hafter
  have hstep : step s (.changes (storeOf [submission "curry" 8 .synced]) none
      (foundIn latestQuery ([submission "curry" 8 .synced] ++ twoSubmissions))) = some t := by
    rw [step, hemit, Option.map_some]
  have hrun : run step s [.changes (storeOf [submission "curry" 8 .synced]) none
      (foundIn latestQuery ([submission "curry" 8 .synced] ++ twoSubmissions))] = some t := by
    rw [run_cons, hstep, Option.bind_some, run_nil]
  have hexecutes : AllSteps step Executes s [.changes (storeOf [submission "curry" 8 .synced]) none
      (foundIn latestQuery ([submission "curry" 8 .synced] ++ twoSubmissions))] := by
    intro u e u' htakes
    rcases (takes_cons hstep).mp htakes with ⟨rfl, rfl, -⟩ | hrest
    · exact hafter
    · exact absurd hrest takes_nil
  -- what the backend sends is no write that was just acknowledged
  have hsynced : ∀ e ∈ (storeOf [submission "curry" 8 .synced]).toList,
      ∀ n ∈ e.2.document?, n.hasCommittedMutations = false := by decide +kernel
  have hsettles : AllSteps step Settles s [.changes (storeOf [submission "curry" 8 .synced]) none
      (foundIn latestQuery ([submission "curry" 8 .synced] ++ twoSubmissions))] := by
    intro u e u' htakes
    rcases (takes_cons hstep).mp htakes with ⟨-, rfl, -⟩ | hrest
    · intro k m n d hget hmatched hshown hwait
      have hmem := SortedMap.get_eq_some_iff_mem.mp hget
      have hn := hsynced (k, m) hmem n (View.matched_eq_some hmatched).1
      rw [shouldWaitForSyncedDocument, hn, Bool.and_false, Bool.false_and] at hwait
      cases hwait
    · exact absurd hrest takes_nil
  -- the store does not change any more
  have hstored : Finds latestQuery t.cache
      (foundIn latestQuery ([submission "curry" 8 .synced] ++ twoSubmissions)) := by
    rw [cache_of_changes hemit]
    exact hafter
  exact ⟨s, t, snapshot, hinit, hrun,
    limited_view_exact ⟨by decide, by decide⟩ hcache hfinds hinit hexecutes hsettles hrun hstored⟩

end Limit

end QueryState

end FreeFood.Firestore
