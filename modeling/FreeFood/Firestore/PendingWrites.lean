/-
What a user sees of a write: at once when it is made, as long as it is in the queue, and
then after the backend has taken it.

Two things could take a write back from the user before the backend has refused it. Something
that the backend sends could be shown in its place: `pending_write_shown` says that nothing
is. And the document could change back for a moment when the write leaves the queue and its
result comes to the cache: `acknowledge_keeps_data` says that it does not.
-/
import FreeFood.Firestore.LocalQuery

set_option autoImplicit false

namespace FreeFood.Firestore

open Std Overlay Transition LocalStore

/-! ## 1. Until it is answered -/

namespace MutationBatch

variable {b : MutationBatch} {k : DocumentKey}

/-- The last mutation of a document decides, if it is a set. -/
theorem applyToLocalDocument_set {before after : List Mutation} {value : ObjectValue}
    (hmutations : b.mutations = before ++ .set k value .none :: after)
    (hafter : ∀ m ∈ after, m.key ≠ k) (d : Option AnyDocument) :
    ∃ version, b.applyToLocalDocument k d
      = some (.document ⟨k, version, value, .localMutations⟩) := by
  have hkey : (Mutation.set k value .none).key = k := rfl
  rw [applyToLocalDocument, hmutations, applyMutations_eq_read, read_append, read_cons,
    if_pos hkey, ← applyMutations_eq_read, applyMutations_of_untouched hafter]
  exact ⟨_, rfl⟩

end MutationBatch

namespace LocalStore

variable {s t : LocalStore} {k : DocumentKey}

/-- **A write is shown until it is answered.** In every state of a run in which the batch of a
set is in the queue and no later mutation of the document is, in that batch or another, the
user sees what was set, whatever the backend has sent in the meantime. -/
theorem pending_write_shown {calls : List StoreTransaction} (h : s.Good)
    (hcalls : AllSteps step (fun s c => s.Keeps c.call) s calls) (hrun : run step s calls = some t)
    {earlier later : List MutationBatch} {batch : MutationBatch}
    (hqueue : t.mutationQueue.queue = earlier ++ batch :: later)
    (hlater : ∀ b ∈ later, b.mutates k = false) {before after : List Mutation}
    {value : ObjectValue} (hmutations : batch.mutations = before ++ .set k value .none :: after)
    (hafter : ∀ m ∈ after, m.key ≠ k) :
    ∃ version, t.localView k = .document ⟨k, version, value, .localMutations⟩ := by
  have hgood : t.Good := good_run h hcalls hrun
  have hlast : ∃ version, read MutationBatch.applyToLocalDocument t.mutationQueue.queue k
      (t.remoteDocuments.document k) = some (.document ⟨k, version, value, .localMutations⟩) := by
    rw [hqueue]
    exact read_of_last MutationBatch.local_applyToLocalDocument
      (I := fun d => ∃ version, d = some (.document ⟨k, version, value, .localMutations⟩))
      (MutationBatch.applyToLocalDocument_set hmutations hafter) hlater _
  obtain ⟨version, hset⟩ := hlast
  refine ⟨version, ?_⟩
  rw [localView_eq hgood.queue, viewOver, hset]
  rfl

/-- A submission is shown with its time before the backend has heard of it. -/
theorem pending_write_shown_submission :
    ∃ t version, run step LocalStore.empty [submissionWrite] = some t
      ∧ t.localView (submission "curry" 8 .synced).key
        = .document ⟨(submission "curry" 8 .synced).key, version,
            (submission "curry" 8 .synced).data, .localMutations⟩ := by
  obtain ⟨r, hcall⟩ : ∃ r, LocalStore.empty.emit submissionWrite.call = some r := ⟨_, rfl⟩
  obtain ⟨t, hstep, hstate⟩ : ∃ t, step LocalStore.empty submissionWrite = some t
      ∧ t.mutationQueue = r.1.mutationQueue := by
    rw [step, hcall]
    exact ⟨_, rfl, rfl⟩
  have hrun : run step LocalStore.empty [submissionWrite] = some t := by
    rw [run_cons, hstep]
    rfl
  have hcalls : AllSteps step (fun s c => s.Keeps c.call) LocalStore.empty [submissionWrite] := by
    intro a c a' htakes
    rw [takes_cons hstep] at htakes
    rcases htakes with ⟨rfl, rfl, -⟩ | hnil
    · trivial
    · exact absurd hnil takes_nil
  obtain ⟨hne, q', hwritten, -, hqueue, -⟩ := writeLocally_cases good_empty hcall
  have hqueue' : t.mutationQueue.queue
      = [] ++ LocalStore.empty.newBatch ⟨8, 0⟩ submissionMutations hne :: [] := by
    rw [hstate, hwritten, mutationQueue_withQueue, hqueue]
    rfl
  have hset : (LocalStore.empty.newBatch ⟨8, 0⟩ submissionMutations hne).mutations
      = [] ++ .set (submission "curry" 8 .synced).key (submission "curry" 8 .synced).data .none
        :: [] := rfl
  obtain ⟨version, hshown⟩ := pending_write_shown good_empty hcalls hrun hqueue'
    (fun _ hb => absurd hb List.not_mem_nil) hset fun _ hm => absurd hm List.not_mem_nil
  exact ⟨t, version, hrun, hshown⟩

end LocalStore

/-! ## 2. When it is answered -/

namespace Mutation

variable {m : Mutation} {k : DocumentKey} {t : Timestamp} {a y base base' : Option AnyDocument}

/-- A mutation that the backend makes to a document as the client does. -/
def Lasting (m : Mutation) : Prop := m.Plain ∧ m.precondition ≠ .existing false

/-- A plain mutation makes the same of the same document. -/
theorem sameDocument_applyToLocalView (hplain : m.Plain)
    (h : SameDocument (Firestore.document? a) y) :
    SameDocument (Firestore.document? (m.applyToLocalView a base t))
      (m.applyToLocalView y base' t) := by
  have hleft : SameDocument (scanned m t (Firestore.document? a)) (m.applyToLocalView a base t) :=
    sameDocument_step hplain (sameDocument_document? a)
  have hright : SameDocument (scanned m t (Firestore.document? a)) (m.applyToLocalView y base' t) :=
    sameDocument_step hplain h
  exact Eq.trans (Eq.symm hleft) hright

/-- **What the backend makes of a document is what the client did.** -/
theorem sameDocument_applyToRemoteDocument (hlasting : m.Lasting)
    (h : SameDocument (Firestore.document? a) y) {result : MutationResult} {d : AnyDocument}
    (hremote : m.applyToRemoteDocument a result = some d) :
    SameDocument (Firestore.document? (some d)) (m.applyToLocalView y base t) := by
  obtain ⟨hplain, hexisting⟩ := hlasting
  unfold applyToRemoteDocument at hremote
  cases m with
  | set key value precondition =>
      have hnone : precondition = .none := hplain
      subst hnone
      cases hresults : result.transformResults with
      | none =>
          rw [hresults] at hremote
          rw [← Option.some.inj hremote]
          rfl
      | some results =>
          rw [hresults] at hremote
          cases hremote
  | patch key value mask precondition =>
      cases hresults : result.transformResults with
      | none =>
          rw [hresults] at hremote
          dsimp only at hremote
          have hvalid : precondition.isValidFor a
              = (patch key value mask precondition).precondition.isValidFor y :=
            isValidFor_of_sameDocument h hplain
          unfold applyToLocalView
          rw [← hvalid]
          split at hremote
          · next hv =>
              rw [← Option.some.inj hremote, if_pos hv, patchDocument_of_sameDocument h]
              rfl
          · next hv =>
              -- it is not there for the client either
              have hnone : Firestore.document? y = none := by
                rw [hvalid] at hv
                cases precondition with
                | none => exact absurd rfl hv
                | existing exist =>
                    cases exist with
                    | false => exact absurd rfl hexisting
                    | true =>
                        simpa [Mutation.precondition, Precondition.isValidFor] using hv
                | updateTime version => exact absurd rfl (hplain version)
              rw [← Option.some.inj hremote, if_neg hv, SameDocument, hnone]
              rfl
      | some results =>
          rw [hresults] at hremote
          cases hremote
  | transform key fieldTransforms => exact hplain.elim
  | delete key precondition =>
      have hnone : precondition = .none := hplain
      subst hnone
      cases hresults : result.transformResults with
      | none =>
          rw [hresults] at hremote
          rw [← Option.some.inj hremote]
          rfl
      | some results =>
          rw [hresults] at hremote
          cases hremote

end Mutation

namespace MutationBatch

variable {k : DocumentKey} {t : Timestamp} {a d y : Option AnyDocument}

theorem sameDocument_applyMutations {ms : List Mutation}
    (hplain : ∀ m ∈ ms, m.key = k → m.Plain) (h : SameDocument (Firestore.document? a) y)
    (baseDoc baseDoc' : Option AnyDocument → Option AnyDocument) :
    SameDocument (Firestore.document? (applyMutations ms t k baseDoc a))
      (applyMutations ms t k baseDoc' y) := by
  induction ms generalizing a y with
  | nil => exact h
  | cons m ms ih =>
      refine ih (fun m hm => hplain m (List.mem_cons_of_mem _ hm)) ?_
      dsimp only
      split
      · next hkey =>
          exact Mutation.sameDocument_applyToLocalView (hplain m List.mem_cons_self hkey) h
      · exact h

/-- The mutations of an answered batch, one after the other. -/
theorem sameDocument_answered {ms : List Mutation} {results : List MutationResult}
    (hlasting : ∀ m ∈ ms, m.key = k → m.Lasting) (hsizes : ms.length = results.length)
    (h : SameDocument (Firestore.document? a) y)
    (hremote : (ms.zip results).foldlM (fun doc (m, result) =>
      if m.key = k then (m.applyToRemoteDocument doc result).map some else some doc) a = some d)
    (baseDoc : Option AnyDocument → Option AnyDocument) :
    SameDocument (Firestore.document? d) (applyMutations ms t k baseDoc y) := by
  induction ms generalizing a y results with
  | nil =>
      rw [List.zip_nil_left] at hremote
      rw [← Option.some.inj hremote]
      exact h
  | cons m ms ih =>
      cases results with
      | nil => cases hsizes
      | cons result results =>
          rw [List.zip_cons_cons, List.foldlM_cons, Option.bind_eq_bind,
            Option.bind_eq_some_iff] at hremote
          obtain ⟨next, hfirst, hrest⟩ := hremote
          refine ih (fun m hm => hlasting m (List.mem_cons_of_mem _ hm)) (Nat.succ.inj hsizes) ?_
            hrest
          dsimp only at hfirst ⊢
          split at hfirst
          · next hkey =>
              obtain ⟨doc, hdoc, rfl⟩ := Option.map_eq_some_iff.mp hfirst
              rw [if_pos hkey]
              exact Mutation.sameDocument_applyToRemoteDocument
                (hlasting m List.mem_cons_self hkey) h hdoc
          · next hkey =>
              rw [if_neg hkey, ← Option.some.inj hfirst]
              exact h

end MutationBatch

namespace LocalStore

variable {s s' : LocalStore} {k : DocumentKey} {r : MutationBatchResult}

/-- Batches with lasting mutations of a document only, all of them made without a base. -/
def LastingFor (k : DocumentKey) (b : MutationBatch) : Prop :=
  (∀ m ∈ b.mutations, m.key = k → m.Lasting) ∧ ∀ m ∈ b.baseMutations, m.key ≠ k

theorem applyToLocalDocument_of_lasting {b : MutationBatch} (hb : LastingFor k b)
    (d : Option AnyDocument) :
    b.applyToLocalDocument k d
      = MutationBatch.applyMutations b.mutations b.localWriteTime k (fun _ => d) d := by
  rw [MutationBatch.applyToLocalDocument, MutationBatch.applyMutations_of_untouched hb.2]

/-- Batches over the same document leave the same document. -/
theorem sameDocument_read {batches : List MutationBatch} {a y : Option AnyDocument}
    (hlasting : ∀ b ∈ batches, LastingFor k b) (h : SameDocument (Firestore.document? a) y) :
    SameDocument (Firestore.document? (read MutationBatch.applyToLocalDocument batches k a))
      (read MutationBatch.applyToLocalDocument batches k y) := by
  refine read_related (R := fun a y => SameDocument (Firestore.document? a) y)
    (fun b hb a y hay => ?_) h
  rw [applyToLocalDocument_of_lasting (hlasting b hb),
    applyToLocalDocument_of_lasting (hlasting b hb)]
  exact MutationBatch.sameDocument_applyMutations (fun m hm hkey => ((hlasting b hb).1 m hm hkey).1)
    hay _ _

/-- What the answer leaves in the cache under a key of the batch. -/
theorem document_of_answered (h : Good s) {cache : RemoteDocumentCache}
    (hcall : (r.batch.keys.toList.map Prod.fst).foldlM (applyDocumentResult r) s.remoteDocuments
      = some cache) (hk : r.batch.keys.contains k = true)
    (hnewer : ∀ doc ∈ s.remoteDocuments.document k, ∀ version ∈ r.docVersions.get k,
      doc.version < version) :
    r.batch.applyToRemoteDocument k r.mutationResults (s.remoteDocuments.document k)
      = some (cache.document k) := by
  have hmem : k ∈ r.batch.keys.toList.map Prod.fst := by
    rw [SortedMap.mem_keys_iff, ← SortedMap.contains_eq, hk]
  -- the documents before and after the key in the list leave the one under the key alone
  obtain ⟨before, after, hkeys⟩ := List.append_of_mem hmem
  have hnodup := r.batch.keys.nodup_keys
  rw [hkeys] at hcall hnodup
  rw [List.nodup_append, List.nodup_cons] at hnodup
  obtain ⟨-, ⟨hafter, -⟩, hbefore⟩ := hnodup
  rw [List.foldlM_append, Option.bind_eq_bind, Option.bind_eq_some_iff] at hcall
  obtain ⟨cache₁, hfirst, hcall⟩ := hcall
  rw [List.foldlM_cons, Option.bind_eq_bind, Option.bind_eq_some_iff] at hcall
  obtain ⟨cache₂, hresult, hlast⟩ := hcall
  obtain ⟨hkeyed₁, hother₁⟩ := applyBatchResult_spec h.keyed hfirst
  have hkeyed₂ := (applyDocumentResult_spec hkeyed₁ hresult).1
  have hdoc₁ : cache₁.document k = s.remoteDocuments.document k :=
    hother₁ k fun hk => hbefore k hk k List.mem_cons_self rfl
  have hdoc : cache.document k = cache₂.document k :=
    (applyBatchResult_spec hkeyed₂ hlast).2 k hafter
  rw [applyDocumentResult, Option.bind_eq_bind, Option.bind_eq_some_iff] at hresult
  obtain ⟨version, hversion, hresult⟩ := hresult
  rw [hdoc₁] at hresult
  -- the cached document is older, so the result replaces it
  have hall : ((s.remoteDocuments.document k).all fun doc =>
      decide (doc.version < version)) = true := by
    rw [Option.all_eq_true]
    exact fun doc hd => decide_eq_true (hnewer doc hd version hversion)
  rw [if_pos hall, Option.bind_eq_bind, Option.bind_eq_some_iff] at hresult
  obtain ⟨doc, happly, hresult⟩ := hresult
  rw [happly, hdoc]
  cases doc with
  | some doc =>
      have hkey : doc.key = k :=
        MutationBatch.key_applyToRemoteDocument (h.keyed k) happly doc rfl
      have hnew : ∀ old ∈ cache₁.document doc.key, (doc == old) = false := by
        intro old hold
        rw [hkey, hdoc₁] at hold
        obtain ⟨_, hsome, hdocVersion⟩ := MutationBatch.version_applyToRemoteDocument happly hversion
        cases hsome
        rw [Bool.eq_false_iff]
        intro heq
        have hlt := hnewer old hold version hversion
        rw [← (MaybeDocument.labels_of_beq heq).2.1, hdocVersion] at hlt
        exact Int.lt_irrefl _ hlt
      rw [← Option.some.inj hresult, document_addDocument hnew, if_pos hkey.symm]
  | none =>
      dsimp only at hresult
      split at hresult
      · next hnone =>
          rw [← Option.some.inj hresult, hdoc₁, Option.isNone_iff_eq_none.mp hnone]
      · cases hresult

/-- **A document does not change back when its write is answered.** In every state of a run,
an answer to the first batch of the queue leaves the user with the data that was shown, if
the cache has no document that is newer than the answer, and a target or a view still refers
to the document at the end of the transaction. -/
theorem acknowledge_keeps_data {s₀ : LocalStore} {calls : List StoreTransaction} (h : s₀.Good)
    (hcalls : AllSteps step (fun s c => s.Keeps c.call) s₀ calls) (hrun : run step s₀ calls = some s)
    (hmem : r.batch ∈ s.mutationQueue.queue) {released : List DocumentKey}
    {referenced : DocumentKey → Bool}
    (hstep : step s ⟨.acknowledge r, released, referenced⟩ = some s')
    (hreferenced : referenced k = true)
    (hlasting : ∀ b ∈ s.mutationQueue.queue, LastingFor k b)
    (hnewer : ∀ doc ∈ s.remoteDocuments.document k, ∀ version ∈ r.docVersions.get k,
      doc.version < version) :
    (s'.localView k).document?.map Document.data = (s.localView k).document?.map Document.data := by
  have hgood : s.Good := good_run h hcalls hrun
  obtain ⟨⟨s₁, changes⟩, hcall, rfl⟩ := Option.map_eq_some_iff.mp hstep
  have hgood' : s₁.Good := (acknowledgeBatch_spec hgood hmem hcall).1
  rw [localView_committed hgood' fun _ => hreferenced]
  obtain ⟨cache, q', hresults, rfl, -, hqueue, -⟩ := acknowledgeBatch_cases hgood hmem hcall
  by_cases hk : r.batch.keys.contains k = true
  · have hbatch : LastingFor k r.batch := hlasting _ hmem
    have hrest : ∀ b ∈ q'.queue, LastingFor k b := by
      intro b hb
      refine hlasting b ?_
      rw [hqueue]
      exact List.mem_cons_of_mem _ hb
    -- the result in the cache, and the batch over what was in the cache
    have hfirst : SameDocument (Firestore.document? (cache.document k))
        (r.batch.applyToLocalDocument k (s.remoteDocuments.document k)) := by
      rw [applyToLocalDocument_of_lasting hbatch]
      exact MutationBatch.sameDocument_answered hbatch.1 r.sizes (sameDocument_document? _)
        (document_of_answered hgood hresults hk hnewer) _
    have hsame := Mutation.data_eq_of_sameDocument (sameDocument_read hrest hfirst)
    rw [localView_eq hgood'.queue, localView_eq hgood.queue, viewOver, viewOver, hqueue, read_cons,
      mutationQueue_withQueue, document?_shown, document?_shown]
    exact hsame
  · have hother : cache.document k = s.remoteDocuments.document k := by
      refine (applyBatchResult_spec hgood.keyed hresults).2 k ?_
      rw [SortedMap.mem_keys_iff, ← SortedMap.contains_eq]
      exact hk
    rw [← mutationQueue_withQueue { s with remoteDocuments := cache } q'] at hqueue
    rw [localView_eq_of_removed hgood hgood' hqueue hother (Bool.eq_false_iff.mpr hk)]

/-- The answer to the first write of a client, at the third version. -/
def submissionAnswer : MutationBatchResult :=
  ⟨LocalStore.empty.newBatch ⟨8, 0⟩ submissionMutations (List.cons_ne_nil _ _), 3, [⟨3, none⟩], rfl⟩

/-- A submission is answered while the feed is listened to, and nothing changes for the user. -/
theorem acknowledge_keeps_data_submission :
    ∃ s s', run step LocalStore.empty [submissionWrite] = some s
      ∧ step s ⟨.acknowledge submissionAnswer, [], fun _ => true⟩ = some s'
      ∧ (s'.localView (submission "curry" 8 .synced).key).document?.map Document.data
        = (s.localView (submission "curry" 8 .synced).key).document?.map Document.data := by
  have hanswered : ((step LocalStore.empty submissionWrite).bind fun s =>
      step s ⟨.acknowledge submissionAnswer, [], fun _ => true⟩).isSome = true := by
    decide +kernel
  obtain ⟨s', hanswered⟩ := Option.isSome_iff_exists.mp hanswered
  obtain ⟨s, hwrite, hanswer⟩ := Option.bind_eq_some_iff.mp hanswered
  have hrun : run step LocalStore.empty [submissionWrite] = some s := by
    rw [run_cons, hwrite]
    rfl
  have hcalls : AllSteps step (fun s c => s.Keeps c.call) LocalStore.empty [submissionWrite] := by
    intro a c a' htakes
    rw [takes_cons hwrite] at htakes
    rcases htakes with ⟨rfl, rfl, -⟩ | hnil
    · trivial
    · exact absurd hnil takes_nil
  have hqueue : s.mutationQueue.queue = [submissionAnswer.batch] := by
    obtain ⟨⟨s₁, changes₁⟩, hcall, rfl⟩ := Option.map_eq_some_iff.mp hwrite
    obtain ⟨hne, q', rfl, -, hqueue, -⟩ := writeLocally_cases good_empty hcall
    exact hqueue
  have hcache : s.remoteDocuments.document (submission "curry" 8 .synced).key = none := by
    obtain ⟨⟨s₁, changes₁⟩, hcall, rfl⟩ := Option.map_eq_some_iff.mp hwrite
    obtain ⟨hne, q', rfl, -, -, -⟩ := writeLocally_cases good_empty hcall
    rfl
  have hmem : submissionAnswer.batch ∈ s.mutationQueue.queue := by
    rw [hqueue]
    exact List.mem_singleton_self _
  have hlasting : ∀ b ∈ s.mutationQueue.queue, LastingFor (submission "curry" 8 .synced).key b := by
    intro b hb
    rw [hqueue, List.mem_singleton] at hb
    rw [hb]
    refine ⟨fun m hm _ => ?_, fun m hm => absurd hm List.not_mem_nil⟩
    rw [List.mem_singleton.mp hm]
    exact ⟨rfl, fun h => nomatch h⟩
  have hkeeps := acknowledge_keeps_data good_empty hcalls hrun hmem hanswer rfl hlasting (by
    rw [hcache]
    exact fun _ hdoc => absurd hdoc (Option.not_mem_none _))
  exact ⟨s, s', hrun, hanswer, hkeeps⟩

end LocalStore

end FreeFood.Firestore
