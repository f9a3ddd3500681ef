/-
Guarded transition functions and their runs.

A system is a function `step : σ → ε → Option σ`, with `none` where the event is
not enabled. The function is the whole system: a run of a list of events is the
monadic fold of it, so a concrete run is evaluated by the same definition the
invariants are proved about.

Five kinds of statement are made about runs below, and each has its rule:

| statement | rule |
|---|---|
| a property of every state a run ends in | `run_invariant`, `run_induction` |
| what a run leaves in a variable | `run_frame`, `run_last_writer` |
| a property of every transition, exactly when a condition on the steps holds | `forall_takes_iff_allSteps` |
| a run of one system read as a run of another | `run_simulation`, `run_flatMap` |
| two states that no list of events tells apart | `run_related` |

`observed` adds a log to a system without letting the system read it, which is
how a property of the *history* of a run is made a property of a state.
-/
import Mathlib.Data.List.Infix

set_option autoImplicit false

namespace Transition

section Runs

variable {σ ε : Type*} (step : σ → ε → Option σ)

/-- The state that the events `es` lead to from `s`, if all of them are enabled. -/
def run (s : σ) (es : List ε) : Option σ := es.foldlM step s

variable {step}

@[simp] theorem run_nil (s : σ) : run step s [] = some s := rfl

@[simp] theorem run_cons (s : σ) (e : ε) (es : List ε) :
    run step s (e :: es) = (step s e).bind (fun t => run step t es) := rfl

/-- A run of two lists of events is the run of one from where the other ends. -/
theorem run_append (s : σ) (es fs : List ε) :
    run step s (es ++ fs) = (run step s es).bind (fun t => run step t fs) := by
  simp only [run, List.foldlM_append]
  rfl

theorem run_concat (s : σ) (es : List ε) (e : ε) :
    run step s (es ++ [e]) = (run step s es).bind (fun t => step t e) := by
  rw [run_append]
  congr 1
  funext t
  exact Option.bind_fun_some (step t e)

/-- The rule of invariants, with the events at hand: a property that every event
of the list preserves holds where the run ends. -/
theorem run_invariant_of_mem {I : σ → Prop} {es : List ε}
    (hstep : ∀ s e s', e ∈ es → I s → step s e = some s' → I s') {s t : σ}
    (hs : I s) (h : run step s es = some t) : I t := by
  induction es generalizing s with
  | nil =>
      rw [run_nil, Option.some.injEq] at h
      exact h ▸ hs
  | cons e es ih =>
      rw [run_cons, Option.bind_eq_some_iff] at h
      obtain ⟨s', hse, hrun⟩ := h
      exact ih (fun a f a' hf => hstep a f a' (List.mem_cons_of_mem _ hf))
        (hstep s e s' (List.mem_cons_self ..) hs hse) hrun

/-- **The rule of invariants.** -/
theorem run_invariant {I : σ → Prop} (hstep : ∀ s e s', I s → step s e = some s' → I s')
    {s t : σ} {es : List ε} (hs : I s) (h : run step s es = some t) : I t :=
  run_invariant_of_mem (fun a e a' _ => hstep a e a') hs h

/-- What the events of a list all leave alone, a run of them leaves alone. -/
theorem run_frame {α : Type*} {f : σ → α} {es : List ε}
    (hstep : ∀ s e s', e ∈ es → step s e = some s' → f s' = f s) {s t : σ}
    (h : run step s es = some t) : f t = f s := by
  have hinv : ∀ a e b, e ∈ es → f a = f s → step a e = some b → f b = f s := by
    intro a e b he ha hab
    rw [hstep a e b he hab]
    exact ha
  exact run_invariant_of_mem (I := fun a => f a = f s) hinv rfl h

/-- **The rule of the last writer.** Where only the events that `W` holds of write
`f`, a run either has none of them and leaves `f` as it was, or has a last one and
leaves `f` as that one did. -/
theorem run_last_writer {α : Type*} {f : σ → α} {W : ε → Prop}
    (hstep : ∀ s e s', ¬ W e → step s e = some s' → f s' = f s) {s t : σ} {es : List ε}
    (h : run step s es = some t) :
    ((∀ e ∈ es, ¬ W e) ∧ f t = f s)
      ∨ ∃ pre e post a b, es = pre ++ e :: post ∧ W e ∧ (∀ e ∈ post, ¬ W e)
          ∧ run step s pre = some a ∧ step a e = some b ∧ run step b post = some t
          ∧ f t = f b := by
  induction es generalizing s with
  | nil =>
      rw [run_nil, Option.some.injEq] at h
      exact Or.inl ⟨by simp, by rw [h]⟩
  | cons e es ih =>
      rw [run_cons, Option.bind_eq_some_iff] at h
      obtain ⟨s', hse, hrun⟩ := h
      rcases ih hrun with ⟨hnone, hft⟩ | ⟨pre, g, post, a, b, rfl, hg, hpost, hpre, hab, hbt, hft⟩
      · by_cases he : W e
        · -- the first event is the last writer
          exact Or.inr ⟨[], e, es, s, s', rfl, he, hnone, run_nil s, hse, hrun, hft⟩
        · refine Or.inl ⟨?_, hft.trans (hstep s e s' he hse)⟩
          exact List.forall_mem_cons.mpr ⟨he, hnone⟩
      · -- the last writer of the rest is the last writer of all
        refine Or.inr ⟨e :: pre, g, post, a, b, rfl, hg, hpost, ?_, hab, hbt, hft⟩
        rw [run_cons, hse, Option.bind_some]
        exact hpre

/-- Induction over a run from its first state, one event added at the end at a
time. The motive sees the events already taken, so it can speak of the last one
of a kind. -/
theorem run_induction {motive : List ε → σ → Prop} {s : σ} (init : motive [] s)
    (next : ∀ es a e b, run step s es = some a → motive es a → step a e = some b →
      motive (es ++ [e]) b) :
    ∀ es t, run step s es = some t → motive es t := by
  intro es
  -- the list is taken apart from the right, so that the motive has the events before the last
  induction es using List.reverseRecOn with
  | nil =>
      intro t h
      rw [run_nil, Option.some.injEq] at h
      exact h ▸ init
  | append_singleton es e ih =>
      intro t h
      rw [run_concat, Option.bind_eq_some_iff] at h
      obtain ⟨a, ha, hat⟩ := h
      exact next es a e t ha (ih a ha) hat

/-! ## What a run passes through -/

variable (step)

/-- The run of `es` from `s` is in state `t` at some moment. -/
def Visits (s : σ) (es : List ε) (t : σ) : Prop :=
  ∃ pre, pre <+: es ∧ run step s pre = some t

/-- The run of `es` from `s` makes the transition from `t` to `t'` by `e`. -/
def Takes (s : σ) (es : List ε) (t : σ) (e : ε) (t' : σ) : Prop :=
  ∃ pre, pre ++ [e] <+: es ∧ run step s pre = some t ∧ step t e = some t'

/-- Every step of the run of `es` from `s` is taken in a state and by an event
that meet `C`. -/
def AllSteps (C : σ → ε → Prop) (s : σ) (es : List ε) : Prop :=
  ∀ t e t', Takes step s es t e t' → C t e

variable {step}

theorem visits_self (s : σ) (es : List ε) : Visits step s es s :=
  ⟨[], List.nil_prefix, run_nil s⟩

theorem takes_nil {s t t' : σ} {e : ε} : ¬ Takes step s [] t e t' := by
  rintro ⟨pre, hpre, -⟩
  have := List.prefix_nil.mp hpre
  simp at this

/-- The transitions of a run are its first one and those of the rest. -/
theorem takes_cons {s s' t t' : σ} {e f : ε} {es : List ε} (h : step s e = some s') :
    Takes step s (e :: es) t f t'
      ↔ (t = s ∧ f = e ∧ t' = s') ∨ Takes step s' es t f t' := by
  constructor
  · rintro ⟨pre, hpre, hrun, hstep⟩
    -- the events before the transition are none, or begin with the first of the run
    cases pre with
    | nil =>
        left
        rw [run_nil, Option.some.injEq] at hrun
        obtain rfl : f = e := (List.cons_prefix_cons.mp hpre).1
        subst hrun
        exact ⟨rfl, rfl, Option.some.inj (hstep.symm.trans h)⟩
    | cons g pre =>
        right
        rw [List.cons_append] at hpre
        obtain ⟨rfl, hrest⟩ := List.cons_prefix_cons.mp hpre
        rw [run_cons, h, Option.bind_some] at hrun
        exact ⟨pre, hrest, hrun, hstep⟩
  · rintro (⟨rfl, rfl, rfl⟩ | ⟨pre, hpre, hrun, hstep⟩)
    · exact ⟨[], by simp, run_nil _, h⟩
    · refine ⟨e :: pre, ?_, ?_, hstep⟩
      · exact List.cons_prefix_cons.mpr ⟨rfl, hpre⟩
      · rw [run_cons, h, Option.bind_some]
        exact hrun

/-- A state a run is in is its first one or the end of one of its transitions. -/
theorem visits_iff {s t u : σ} {es : List ε} (h : run step s es = some u) :
    Visits step s es t ↔ t = s ∨ ∃ a e, Takes step s es a e t := by
  constructor
  · rintro ⟨pre, hpre, hrun⟩
    -- only the last event of the prefix matters: it makes the transition that ends there
    induction pre using List.reverseRecOn with
    | nil =>
        rw [run_nil, Option.some.injEq] at hrun
        exact Or.inl hrun.symm
    | append_singleton pre e _ =>
        rw [run_concat, Option.bind_eq_some_iff] at hrun
        obtain ⟨a, ha, hat⟩ := hrun
        exact Or.inr ⟨a, e, pre, hpre, ha, hat⟩
  · rintro (rfl | ⟨a, e, pre, hpre, ha, hat⟩)
    · exact visits_self _ _
    · refine ⟨pre ++ [e], hpre, ?_⟩
      rw [run_concat, ha, Option.bind_some]
      exact hat

/-- The rule of invariants for the runs whose steps all meet a condition. -/
theorem run_invariant_of_allSteps {I : σ → Prop} {C : σ → ε → Prop}
    (hstep : ∀ s e s', I s → C s e → step s e = some s' → I s') {s t : σ} {es : List ε}
    (hs : I s) (hC : AllSteps step C s es) (h : run step s es = some t) : I t := by
  induction es generalizing s with
  | nil =>
      rw [run_nil, Option.some.injEq] at h
      exact h ▸ hs
  | cons e es ih =>
      rw [run_cons, Option.bind_eq_some_iff] at h
      obtain ⟨s', hse, hrun⟩ := h
      have hfirst : C s e := hC s e s' ((takes_cons hse).mpr (Or.inl ⟨rfl, rfl, rfl⟩))
      have hrest : AllSteps step C s' es :=
        fun a f b hab => hC a f b ((takes_cons hse).mpr (Or.inr hab))
      exact ih (hstep s e s' hs hfirst hse) hrest hrun

/-- **The rule of exact conditions.** Where a good state and an enabled event make
the transition right exactly when they meet `C`, and a right transition leads to
a good state, a run is right throughout exactly when each of its steps meets `C`. -/
theorem forall_takes_iff_allSteps {G : σ → Prop} {Q : σ → ε → σ → Prop} {C : σ → ε → Prop}
    (hQC : ∀ s e s', G s → step s e = some s' → (Q s e s' ↔ C s e))
    (hG : ∀ s e s', G s → step s e = some s' → Q s e s' → G s')
    {s t : σ} {es : List ε} (hs : G s) (h : run step s es = some t) :
    (∀ a e b, Takes step s es a e b → Q a e b) ↔ AllSteps step C s es := by
  induction es generalizing s with
  | nil =>
      constructor
      · exact fun _ a e b hab => absurd hab takes_nil
      · exact fun _ a e b hab => absurd hab takes_nil
  | cons f es ih =>
      rw [run_cons, Option.bind_eq_some_iff] at h
      obtain ⟨s', hsf, hrun⟩ := h
      have hfirst := hQC s f s' hs hsf
      constructor
      · intro hall a e b hab
        -- the first transition is right, so the rest of the run starts in a good state too
        have hQ : Q s f s' := hall s f s' ((takes_cons hsf).mpr (Or.inl ⟨rfl, rfl, rfl⟩))
        rcases (takes_cons hsf).mp hab with ⟨rfl, rfl, rfl⟩ | hrest
        · exact hfirst.mp hQ
        · have hrestQ : ∀ a e b, Takes step s' es a e b → Q a e b :=
            fun a e b hab => hall a e b ((takes_cons hsf).mpr (Or.inr hab))
          exact (ih (hG s f s' hs hsf hQ) hrun).mp hrestQ a e b hrest
      · intro hall a e b hab
        have hC : C s f := hall s f s' ((takes_cons hsf).mpr (Or.inl ⟨rfl, rfl, rfl⟩))
        have hQ : Q s f s' := hfirst.mpr hC
        rcases (takes_cons hsf).mp hab with ⟨rfl, rfl, rfl⟩ | hrest
        · exact hQ
        · have hrestC : AllSteps step C s' es :=
            fun a e b hab => hall a e b ((takes_cons hsf).mpr (Or.inr hab))
          exact (ih (hG s f s' hs hsf hQ) hrun).mpr hrestC a e b hrest

end Runs

/-! ## A run of one system read as a run of another -/

section Simulation

variable {σ ε τ φ : Type*} {step : σ → ε → Option σ} {step' : τ → φ → Option τ}

/-- **The rule of simulations.** If every transition of `step` is a run of `step'`
between the abstractions of its two states, so is every run of `step`. -/
theorem run_simulation (abs : σ → τ) (events : σ → ε → List φ)
    (hsim : ∀ s e s', step s e = some s' → run step' (abs s) (events s e) = some (abs s'))
    {s t : σ} {es : List ε} (h : run step s es = some t) :
    ∃ fs, run step' (abs s) fs = some (abs t) := by
  induction es generalizing s with
  | nil =>
      rw [run_nil, Option.some.injEq] at h
      exact ⟨[], by rw [run_nil, h]⟩
  | cons e es ih =>
      rw [run_cons, Option.bind_eq_some_iff] at h
      obtain ⟨s', hse, hrun⟩ := h
      obtain ⟨fs, hfs⟩ := ih hrun
      refine ⟨events s e ++ fs, ?_⟩
      rw [run_append, hsim s e s' hse, Option.bind_some]
      exact hfs

/-- The rule where what an event stands for does not depend on the state: then the
list of events alone says which run it is. -/
theorem run_flatMap (abs : σ → τ) (events : ε → List φ)
    (hsim : ∀ s e s', step s e = some s' → run step' (abs s) (events e) = some (abs s'))
    {s t : σ} {es : List ε} (h : run step s es = some t) :
    run step' (abs s) (es.flatMap events) = some (abs t) := by
  induction es generalizing s with
  | nil =>
      rw [run_nil, Option.some.injEq] at h
      rw [List.flatMap_nil, run_nil, h]
  | cons e es ih =>
      rw [run_cons, Option.bind_eq_some_iff] at h
      obtain ⟨s', hse, hrun⟩ := h
      rw [List.flatMap_cons, run_append, hsim s e s' hse, Option.bind_some]
      exact ih hrun

/-- Related steps are followed by related ones. -/
theorem rel_bind {α β γ δ : Type*} {R : α → β → Prop} {S : γ → δ → Prop} {a : Option α}
    {b : Option β} {f : α → Option γ} {g : β → Option δ} (h : Option.Rel R a b)
    (hfg : ∀ x y, R x y → Option.Rel S (f x) (g y)) : Option.Rel S (a.bind f) (b.bind g) := by
  cases h with
  | none => exact Option.Rel.none
  | some hxy => exact hfg _ _ hxy

/-- **The rule of bisimulations.** If related states refuse the same events and go to
related states by the others, they do so with lists of events. -/
theorem run_related {R : σ → τ → Prop} {step : σ → ε → Option σ} {step' : τ → ε → Option τ}
    (hstep : ∀ s t e, R s t → Option.Rel R (step s e) (step' t e)) {s : σ} {t : τ} (h : R s t)
    (es : List ε) : Option.Rel R (run step s es) (run step' t es) := by
  induction es generalizing s t with
  | nil => exact Option.Rel.some h
  | cons e es ih =>
      rw [run_cons, run_cons]
      exact rel_bind (hstep s t e h) fun _ _ hrel => ih hrel

end Simulation

/-! ## Observing a run -/

section Observation

variable {σ ε ω : Type*} (step : σ → ε → Option σ) (obs : σ → ε → List ω)

/-- The system that makes the same steps and keeps a log of what `obs` sees of
each. The log is written and never read. -/
def observed (s : σ × List ω) (e : ε) : Option (σ × List ω) :=
  (step s.1 e).map (fun t => (t, s.2 ++ obs s.1 e))

variable {step obs}

theorem observed_eq_some {s t : σ × List ω} {e : ε} :
    observed step obs s e = some t ↔ step s.1 e = some t.1 ∧ t.2 = s.2 ++ obs s.1 e := by
  rw [observed, Option.map_eq_some_iff]
  constructor
  · rintro ⟨a, ha, rfl⟩
    exact ⟨ha, rfl⟩
  · rintro ⟨ha, hlog⟩
    exact ⟨t.1, ha, by rw [← hlog]⟩

/-- Forgetting the log of an observed run leaves the run. -/
theorem run_of_observed {s t : σ × List ω} {es : List ε}
    (h : run (observed step obs) s es = some t) : run step s.1 es = some t.1 := by
  induction es generalizing s with
  | nil =>
      rw [run_nil, Option.some.injEq] at h
      rw [run_nil, h]
  | cons e es ih =>
      rw [run_cons, Option.bind_eq_some_iff] at h
      obtain ⟨s', hse, hrun⟩ := h
      rw [run_cons, (observed_eq_some.mp hse).1, Option.bind_some]
      exact ih hrun

/-- What a log has, it keeps. -/
theorem log_subset {s t : σ × List ω} {es : List ε}
    (h : run (observed step obs) s es = some t) : s.2 ⊆ t.2 := by
  refine run_invariant (I := fun a : σ × List ω => s.2 ⊆ a.2) ?_ (List.Subset.refl _) h
  intro a e b ha hab
  rw [(observed_eq_some.mp hab).2]
  exact List.subset_append_of_subset_left _ ha

/-- What is seen of a transition of the run is in the log. -/
theorem mem_log_of_takes {s t : σ × List ω} {es : List ε}
    (h : run (observed step obs) s es = some t) {a b : σ} {e : ε} (hab : Takes step s.1 es a e b)
    {o : ω} (ho : o ∈ obs a e) : o ∈ t.2 := by
  obtain ⟨pre, ⟨post, rfl⟩, hpre, hstep⟩ := hab
  rw [run_append, Option.bind_eq_some_iff] at h
  obtain ⟨c, hc, hpost⟩ := h
  rw [run_concat, Option.bind_eq_some_iff] at hc
  obtain ⟨d, hd, hdc⟩ := hc
  -- the observed run was in the same state before the transition
  have hda : d.1 = a := Option.some.inj ((run_of_observed hd).symm.trans hpre)
  have hlog := (observed_eq_some.mp hdc).2
  rw [hda] at hlog
  apply log_subset hpost
  rw [hlog]
  exact List.mem_append_right _ ho

/-- Every run can be observed, whatever the log starts with. -/
theorem exists_observed {s t : σ} {es : List ε} (h : run step s es = some t) (log : List ω) :
    ∃ log', run (observed step obs) (s, log) es = some (t, log') := by
  induction es generalizing s log with
  | nil =>
      rw [run_nil, Option.some.injEq] at h
      exact ⟨log, by rw [run_nil, h]⟩
  | cons e es ih =>
      rw [run_cons, Option.bind_eq_some_iff] at h
      obtain ⟨s', hse, hrun⟩ := h
      -- the induction is over every log, since the rest of the run starts with a longer one
      obtain ⟨log', hlog'⟩ := ih hrun (log ++ obs s e)
      refine ⟨log', ?_⟩
      have hobs : observed step obs (s, log) e = some (s', log ++ obs s e) :=
        observed_eq_some.mpr ⟨hse, rfl⟩
      rw [run_cons, hobs, Option.bind_some]
      exact hlog'

end Observation

end Transition
