/-
Requests answered at most once.

A system numbers its requests by a counter, keeps those not yet answered, and may
drop some of them. A log, which no step reads, records for each number when it was
issued and when it was answered. `Accounted` is what the counter, the pending numbers
and the log have to do with one another. There is one lemma for each thing that such
a system does, and what they are for is `answered_le_one`: whatever the order of the
answers, no number is answered twice, and none that was not issued.
-/
import Mathlib.Data.List.Count
import Mathlib.Tactic.SplitIfs

set_option autoImplicit false

namespace Tickets

variable {ω : Type*} {issues answers : ℕ → ω → Bool}

/-- The numbers below `next` were issued at most once each, and each number issued is
pending or answered at most once in all. -/
structure Accounted (issues answers : ℕ → ω → Bool) (next : ℕ) (pending : List ℕ)
    (log : List ω) : Prop where
  issued_lt : ∀ t, ∀ o ∈ log, issues t o = true → t < next
  issued_le_one : ∀ t, log.countP (issues t) ≤ 1
  answered_le : ∀ t, log.countP (answers t) + pending.count t ≤ log.countP (issues t)

namespace Accounted

variable {next : ℕ} {pending : List ℕ} {log : List ω}

theorem nil : Accounted issues answers next [] [] where
  issued_lt := by simp
  issued_le_one := by simp
  answered_le := by simp

/-- A number not issued so far is neither issued nor answered in the log. -/
theorem countP_issues_of_le (h : Accounted issues answers next pending log) {t : ℕ}
    (ht : next ≤ t) : log.countP (issues t) = 0 := by
  rw [List.countP_eq_zero]
  intro o ho hissues
  have hlt := h.issued_lt t o ho hissues
  omega

/-- Some requests are dropped. -/
theorem drop (h : Accounted issues answers next pending log) {pending' : List ℕ}
    (hsub : pending'.Sublist pending) : Accounted issues answers next pending' log where
  issued_lt := h.issued_lt
  issued_le_one := h.issued_le_one
  answered_le := by
    intro t
    have hle := h.answered_le t
    have hcount := hsub.count_le t
    omega

/-- The log records something else. -/
theorem skip (h : Accounted issues answers next pending log) {o : ω}
    (ho : ∀ t, issues t o = false ∧ answers t o = false) :
    Accounted issues answers next pending (log ++ [o]) where
  issued_lt := by
    intro t o' ho' hissues
    rcases List.mem_append.mp ho' with hlog | hnew
    · exact h.issued_lt t o' hlog hissues
    · rw [List.mem_singleton.mp hnew, (ho t).1] at hissues
      exact absurd hissues (by simp)
  issued_le_one := by
    intro t
    have hle := h.issued_le_one t
    simp only [List.countP_append, List.countP_singleton, (ho t).1]
    simpa using hle
  answered_le := by
    intro t
    have hle := h.answered_le t
    simp only [List.countP_append, List.countP_singleton, (ho t).1, (ho t).2]
    simpa using hle

/-- The next number is issued. The request becomes pending, or is dropped at once. -/
theorem issue (h : Accounted issues answers next pending log) {o : ω}
    (ho : ∀ t, issues t o = (next == t) ∧ answers t o = false) {new : List ℕ}
    (hnew : new.Sublist [next]) :
    Accounted issues answers (next + 1) (pending ++ new) (log ++ [o]) where
  issued_lt := by
    intro t o' ho' hissues
    rcases List.mem_append.mp ho' with hlog | hlast
    · have hlt := h.issued_lt t o' hlog hissues
      omega
    · rw [List.mem_singleton.mp hlast, (ho t).1, beq_iff_eq] at hissues
      omega
  issued_le_one := by
    intro t
    have hle := h.issued_le_one t
    rw [List.countP_append, List.countP_singleton, (ho t).1]
    by_cases ht : next = t
    · -- the number issued now was never issued before
      have hzero := h.countP_issues_of_le (Nat.le_of_eq ht)
      rw [hzero]
      split_ifs <;> omega
    · rw [beq_eq_false_iff_ne.mpr ht, if_neg Bool.false_ne_true]
      omega
  answered_le := by
    intro t
    have hle := h.answered_le t
    have hcount := hnew.count_le t
    rw [List.countP_append, List.countP_append, List.countP_singleton, List.countP_singleton,
      List.count_append, (ho t).1, (ho t).2, if_neg Bool.false_ne_true]
    rw [List.count_singleton] at hcount
    omega

/-- A pending request is answered. -/
theorem answer (h : Accounted issues answers next pending log) {o : ω} {t : ℕ}
    (ht : t ∈ pending) (ho : ∀ u, issues u o = false ∧ answers u o = (t == u)) :
    Accounted issues answers next (pending.filter (fun u => !(u == t))) (log ++ [o]) where
  issued_lt := by
    intro u o' ho' hissues
    rcases List.mem_append.mp ho' with hlog | hlast
    · exact h.issued_lt u o' hlog hissues
    · rw [List.mem_singleton.mp hlast, (ho u).1] at hissues
      exact absurd hissues (by simp)
  issued_le_one := by
    intro u
    have hle := h.issued_le_one u
    rw [List.countP_append, List.countP_singleton, (ho u).1, if_neg Bool.false_ne_true]
    exact hle
  answered_le := by
    intro u
    have hle := h.answered_le u
    rw [List.countP_append, List.countP_append, List.countP_singleton, List.countP_singleton,
      (ho u).1, (ho u).2, if_neg Bool.false_ne_true]
    by_cases hu : t = u
    · -- the pending request is the one that the answer takes away
      subst hu
      have hpos : 0 < pending.count t := List.count_pos_iff.mpr ht
      have hzero : (pending.filter (fun u => !(u == t))).count t = 0 := by
        rw [List.count_eq_zero]
        simp
      rw [hzero, if_pos (beq_self_eq_true t)]
      omega
    · have hcount := (List.filter_sublist (p := fun u => !(u == t)) (l := pending)).count_le u
      rw [beq_eq_false_iff_ne.mpr hu, if_neg Bool.false_ne_true]
      omega

/-- **No number is answered twice.** -/
theorem answered_le_one (h : Accounted issues answers next pending log) (t : ℕ) :
    log.countP (answers t) ≤ 1 := by
  have hanswered := h.answered_le t
  have hissued := h.issued_le_one t
  omega

end Accounted

/-- Two entries of a list that satisfy a condition which at most one does are one. -/
theorem eq_of_countP_le_one {p : ω → Bool} {log : List ω} (h : log.countP p ≤ 1) {a b : ω}
    (ha : a ∈ log) (hb : b ∈ log) (hpa : p a = true) (hpb : p b = true) : a = b := by
  rw [List.countP_eq_length_filter] at h
  have ha' : a ∈ log.filter p := List.mem_filter.mpr ⟨ha, hpa⟩
  have hb' : b ∈ log.filter p := List.mem_filter.mpr ⟨hb, hpb⟩
  obtain ⟨c, hc⟩ : ∃ c, log.filter p = [c] := by
    rw [← List.length_eq_one_iff]
    have hpos := List.length_pos_of_mem ha'
    omega
  rw [hc, List.mem_singleton] at ha' hb'
  rw [ha', hb']

/-- What was issued under a number is one entry of the log. -/
theorem Accounted.issued_unique {next : ℕ} {pending : List ℕ} {log : List ω}
    (h : Accounted issues answers next pending log) {t : ℕ} {o o' : ω} (ho : o ∈ log)
    (ho' : o' ∈ log) (hissues : issues t o = true) (hissues' : issues t o' = true) : o = o' :=
  eq_of_countP_le_one (h.issued_le_one t) ho ho' hissues hissues'

/-- What was answered under a number is one entry of the log. -/
theorem Accounted.answered_unique {next : ℕ} {pending : List ℕ} {log : List ω}
    (h : Accounted issues answers next pending log) {t : ℕ} {o o' : ω} (ho : o ∈ log)
    (ho' : o' ∈ log) (hanswers : answers t o = true) (hanswers' : answers t o' = true) : o = o' :=
  eq_of_countP_le_one (h.answered_le_one t) ho ho' hanswers hanswers'

end Tickets
