/-
A value that listeners are told of.

A channel holds a value and any number of listeners, each with a queue of its own. A
new listener is told the value there is; every later one is put into the queue of each
listener there is then. What is in the queues is delivered in the order of each queue
and otherwise in any order, and a listener that is closed loses what is in its own.
Nothing but `close` takes a listener away, which is the whole of `length_listeners`.

The log says of each change how many listeners there were. What `Conserved` adds up is
that a change is then delivered to that many, less those it is still on the way to and
those that were closed before.
-/
import FreeFood.Lib.Transition
import Mathlib.Data.List.Count
import Mathlib.Data.List.Perm.Basic

set_option autoImplicit false

namespace Broadcast

open Transition

variable {β : Type*}

/-- A value on its way to a listener, with the number of the change that sent it. The
first one of a listener was sent by none. -/
structure Message (β : Type*) where
  cause : Option ℕ
  body : β

structure Channel (β : Type*) where
  current : β
  /-- the number of changes so far -/
  changes : ℕ := 0
  listeners : List (List (Message β)) := []

/-- What happens to a channel; `deliver` and `close` name the listener. -/
inductive Event (β : Type*) where
  | listen
  | change (b : β)
  | deliver (i : ℕ)
  | close (i : ℕ)

namespace Channel

/-- Everything that is on its way. -/
def messages (c : Channel β) : List (Message β) := c.listeners.flatten

def listen (c : Channel β) : Channel β :=
  { c with listeners := c.listeners ++ [[⟨none, c.current⟩]] }

def change (c : Channel β) (b : β) : Channel β where
  current := b
  changes := c.changes + 1
  listeners := c.listeners.map fun queue => queue ++ [⟨some c.changes, b⟩]

/-- The next message of a listener, and the channel after its delivery. -/
def deliver (c : Channel β) (i : ℕ) : Option (Message β × Channel β) :=
  match c.listeners[i]? with
  | some (m :: queue) => some (m, { c with listeners := c.listeners.set i queue })
  | _ => none

/-- What a listener has not been told, and the channel without it. -/
def close (c : Channel β) (i : ℕ) : Option (List (Message β) × Channel β) :=
  c.listeners[i]?.map fun queue => (queue, { c with listeners := c.listeners.eraseIdx i })

end Channel

def step (c : Channel β) : Event β → Option (Channel β)
  | .listen => some c.listen
  | .change b => some (c.change b)
  | .deliver i => (c.deliver i).map Prod.snd
  | .close i => (c.close i).map Prod.snd

/-- What is seen of a step. -/
inductive Obs (β : Type*) where
  | changed (number listeners : ℕ) (body : β)
  | delivered (m : Message β)
  | lost (m : Message β)

def obs (c : Channel β) : Event β → List (Obs β)
  | .listen => []
  | .change b => [.changed c.changes c.listeners.length b]
  | .deliver i => ((c.deliver i).map fun r => [.delivered r.1]).getD []
  | .close i => ((c.close i).map fun r => r.1.map .lost).getD []

/-! ## What one step does -/

/-- A listener's queue taken out of the others. -/
theorem flatten_perm {l : List (List (Message β))} {i : ℕ} {queue : List (Message β)}
    (h : l[i]? = some queue) : l.flatten.Perm (queue ++ (l.eraseIdx i).flatten) := by
  obtain ⟨hi, rfl⟩ := List.getElem?_eq_some_iff.mp h
  exact (List.getElem_cons_eraseIdx_perm hi).symm.flatten

theorem deliver_eq_some {c c' : Channel β} {i : ℕ} {m : Message β}
    (h : c.deliver i = some (m, c')) :
    c'.changes = c.changes ∧ c'.listeners.length = c.listeners.length
      ∧ c.messages.Perm (m :: c'.messages) := by
  unfold Channel.deliver at h
  split at h
  · rename_i head queue hqueue
    obtain ⟨rfl, rfl⟩ := Prod.mk.inj (Option.some.inj h)
    refine ⟨rfl, List.length_set, ?_⟩
    obtain ⟨hi, -⟩ := List.getElem?_eq_some_iff.mp hqueue
    -- the two lists are that listener's queue and those of the others
    have hset : (c.listeners.set i queue).flatten.Perm (queue ++ (c.listeners.eraseIdx i).flatten) :=
      (List.set_perm_cons_eraseIdx hi queue).flatten
    exact (flatten_perm hqueue).trans (hset.symm.cons head)
  · exact absurd h (by simp)

theorem close_eq_some {c c' : Channel β} {i : ℕ} {queue : List (Message β)}
    (h : c.close i = some (queue, c')) :
    c'.changes = c.changes ∧ c'.listeners.length + 1 = c.listeners.length
      ∧ c.messages.Perm (queue ++ c'.messages) := by
  obtain ⟨q, hq, heq⟩ := Option.map_eq_some_iff.mp h
  obtain ⟨rfl, rfl⟩ := Prod.mk.inj heq
  obtain ⟨hi, -⟩ := List.getElem?_eq_some_iff.mp hq
  refine ⟨rfl, ?_, flatten_perm hq⟩
  show (c.listeners.eraseIdx i).length + 1 = c.listeners.length
  rw [List.length_eraseIdx_of_lt hi]
  omega

def Event.isListen : Event β → Bool
  | .listen => true
  | _ => false

def Event.isClose : Event β → Bool
  | .close _ => true
  | _ => false

theorem step_listeners {c c' : Channel β} {e : Event β} (h : step c e = some c') :
    c'.listeners.length + (if e.isClose then 1 else 0)
      = c.listeners.length + (if e.isListen then 1 else 0) := by
  rcases e with _ | b | i | i
  · obtain rfl := Option.some.inj h
    exact List.length_append
  · obtain rfl := Option.some.inj h
    exact List.length_map _
  · obtain ⟨⟨m, a⟩, ha, rfl⟩ := Option.map_eq_some_iff.mp h
    exact (deliver_eq_some ha).2.1
  · obtain ⟨⟨queue, a⟩, ha, rfl⟩ := Option.map_eq_some_iff.mp h
    exact (close_eq_some ha).2.1

/-- **Listeners stay.** There are as many as have listened and were not closed. -/
theorem length_listeners {c c' : Channel β} {es : List (Event β)} (h : run step c es = some c') :
    c'.listeners.length + es.countP Event.isClose
      = c.listeners.length + es.countP Event.isListen := by
  induction es generalizing c with
  | nil =>
      rw [run_nil, Option.some.injEq] at h
      rw [h]
      rfl
  | cons e es ih =>
      rw [run_cons, Option.bind_eq_some_iff] at h
      obtain ⟨a, ha, hrun⟩ := h
      have hfirst := step_listeners ha
      have hrest := ih hrun
      rw [List.countP_cons, List.countP_cons]
      omega

/-! ## What becomes of a change -/

/-- The message was sent by the change. -/
def Message.isOf (k : ℕ) (m : Message β) : Bool := m.cause = some k

/-- It is delivered. -/
def Obs.delivers (k : ℕ) : Obs β → Bool
  | .delivered m => m.isOf k
  | _ => false

/-- It is lost. -/
def Obs.loses (k : ℕ) : Obs β → Bool
  | .lost m => m.isOf k
  | _ => false

theorem messages_listen (c : Channel β) :
    c.listen.messages = c.messages ++ [⟨none, c.current⟩] := by
  unfold Channel.messages Channel.listen
  rw [List.flatten_append]
  rfl

/-- A change puts one message into each queue. -/
theorem messages_change (c : Channel β) (b : β) :
    (c.change b).messages.Perm
      (c.messages ++ List.replicate c.listeners.length ⟨some c.changes, b⟩) := by
  unfold Channel.messages Channel.change
  dsimp only
  induction c.listeners with
  | nil => exact List.Perm.refl _
  | cons queue queues ih =>
      rw [List.map_cons, List.flatten_cons, List.flatten_cons, List.length_cons,
        List.replicate_succ, List.append_assoc, List.append_assoc]
      -- the one for the first queue stands behind the others
      exact ((ih.cons _).trans List.perm_middle.symm).append_left queue

/-- The messages of a change that were delivered, were lost or are on their way. -/
def account (c : Channel β) (log : List (Obs β)) (k : ℕ) : ℕ :=
  log.countP (Obs.delivers k) + log.countP (Obs.loses k) + c.messages.countP (Message.isOf k)

theorem account_listen (c : Channel β) (log : List (Obs β)) (k : ℕ) :
    account c.listen log k = account c log k := by
  unfold account
  rw [messages_listen, List.countP_append, List.countP_singleton, if_neg (by simp [Message.isOf])]
  rfl

/-- A change adds as many messages of its own as there are listeners. -/
theorem account_change (c : Channel β) (log : List (Obs β)) (b : β) (k : ℕ) :
    account (c.change b) (log ++ [.changed c.changes c.listeners.length b]) k
      = account c log k + if k = c.changes then c.listeners.length else 0 := by
  have hdelivers : ([.changed c.changes c.listeners.length b] : List (Obs β)).countP
      (Obs.delivers k) = 0 := rfl
  have hloses : ([.changed c.changes c.listeners.length b] : List (Obs β)).countP
      (Obs.loses k) = 0 := rfl
  unfold account
  rw [List.countP_append, List.countP_append, hdelivers, hloses,
    (messages_change c b).countP_eq, List.countP_append, List.countP_replicate]
  by_cases hk : k = c.changes
  · rw [if_pos hk, if_pos (by simp [Message.isOf, hk])]
    omega
  · rw [if_neg hk, if_neg (by simp [Message.isOf, Ne.symm hk])]
    omega

/-- To deliver messages or to lose them changes no account. -/
theorem account_take {c c' : Channel β} {taken : List (Message β)}
    (htaken : c.messages.Perm (taken ++ c'.messages)) {seen : Message β → Obs β}
    (hseen : seen = .delivered ∨ seen = .lost) (log : List (Obs β)) (k : ℕ) :
    account c' (log ++ taken.map seen) k = account c log k := by
  have hsum : (taken.map seen).countP (Obs.delivers k) + (taken.map seen).countP (Obs.loses k)
      = taken.countP (Message.isOf k) := by
    rw [List.countP_map, List.countP_map]
    rcases hseen with rfl | rfl
    · have hnone : taken.countP (Obs.loses k ∘ Obs.delivered) = 0 :=
        List.countP_eq_zero.mpr fun m _ => by simp [Obs.loses]
      rw [hnone]
      rfl
    · have hnone : taken.countP (Obs.delivers k ∘ Obs.lost) = 0 :=
        List.countP_eq_zero.mpr fun m _ => by simp [Obs.delivers]
      rw [hnone, Nat.zero_add]
      rfl
  have hcount := htaken.countP_eq (Message.isOf k)
  rw [List.countP_append] at hcount
  unfold account
  rw [List.countP_append, List.countP_append]
  omega

/-- Each change went to every listener there was, as it was, and to no other. -/
structure Conserved (c : Channel β) (log : List (Obs β)) : Prop where
  changed_lt : ∀ k n b, .changed k n b ∈ log → k < c.changes
  account_eq : ∀ k n b, .changed k n b ∈ log → account c log k = n
  account_fresh : ∀ k, c.changes ≤ k → account c log k = 0
  body_eq : ∀ k n b, .changed k n b ∈ log → ∀ m : Message β, m.cause = some k →
    (m ∈ c.messages ∨ .delivered m ∈ log) → m.body = b

namespace Conserved

variable {c : Channel β} {log : List (Obs β)}

/-- There is no message of a change before it is made. -/
theorem cause_ne (h : Conserved c log) {m : Message β}
    (hm : m ∈ c.messages ∨ .delivered m ∈ log) : m.cause ≠ some c.changes := by
  intro hcause
  have hzero := h.account_fresh _ (Nat.le_refl _)
  unfold account at hzero
  rcases hm with hm | hm
  · have hof : m.isOf c.changes = true := decide_eq_true hcause
    have hpos := List.countP_pos_iff.mpr ⟨m, hm, hof⟩
    omega
  · have hof : (Obs.delivered m).delivers c.changes = true := decide_eq_true hcause
    have hpos := List.countP_pos_iff.mpr ⟨_, hm, hof⟩
    omega

theorem listen (h : Conserved c log) : Conserved c.listen log := by
  constructor
  case changed_lt => exact h.changed_lt
  case account_eq =>
    intro k n b hlog
    rw [account_listen]
    exact h.account_eq k n b hlog
  case account_fresh =>
    intro k hk
    rw [account_listen]
    exact h.account_fresh k hk
  case body_eq =>
    intro k n b hlog m hm hmem
    rw [messages_listen, List.mem_append, List.mem_singleton] at hmem
    rcases hmem with (hmem | rfl) | hmem
    · exact h.body_eq k n b hlog m hm (Or.inl hmem)
    · exact absurd hm (by simp)
    · exact h.body_eq k n b hlog m hm (Or.inr hmem)

/-- After a change a message is an old one, or the one the change has sent. -/
theorem change_mem {b : β} {m : Message β}
    (hm : m ∈ (c.change b).messages
      ∨ .delivered m ∈ log ++ [.changed c.changes c.listeners.length b]) :
    (m ∈ c.messages ∨ .delivered m ∈ log) ∨ m = ⟨some c.changes, b⟩ := by
  rcases hm with hm | hm
  · have hsent := (messages_change c b).subset hm
    rw [List.mem_append, List.mem_replicate] at hsent
    rcases hsent with hold | ⟨-, hnew⟩
    · exact Or.inl (Or.inl hold)
    · exact Or.inr hnew
  · rw [List.mem_append, List.mem_singleton] at hm
    rcases hm with hold | hnew
    · exact Or.inl (Or.inr hold)
    · exact absurd hnew (by simp)

theorem change (h : Conserved c log) (b : β) :
    Conserved (c.change b) (log ++ [.changed c.changes c.listeners.length b]) := by
  have hlog : ∀ k n d, .changed k n d ∈ log ++ [.changed c.changes c.listeners.length b] →
      .changed k n d ∈ log ∨ (k = c.changes ∧ n = c.listeners.length ∧ d = b) := by
    intro k n d hmem
    rw [List.mem_append, List.mem_singleton] at hmem
    exact hmem.imp id Obs.changed.inj
  constructor
  case changed_lt =>
    intro k n d hmem
    show k < c.changes + 1
    rcases hlog k n d hmem with hold | ⟨rfl, -, -⟩
    · have hlt := h.changed_lt k n d hold
      omega
    · exact Nat.lt_succ_self _
  case account_eq =>
    intro k n d hmem
    rw [account_change]
    rcases hlog k n d hmem with hold | ⟨rfl, rfl, -⟩
    · have hlt := h.changed_lt k n d hold
      rw [if_neg (by omega)]
      exact h.account_eq k n d hold
    · rw [if_pos rfl, h.account_fresh _ (Nat.le_refl _), Nat.zero_add]
  case account_fresh =>
    intro k hk
    have hle : c.changes + 1 ≤ k := hk
    rw [account_change, if_neg (by omega)]
    exact h.account_fresh k (by omega)
  case body_eq =>
    intro k n d hmem m hm hwhere
    rcases hlog k n d hmem with hold | ⟨rfl, -, rfl⟩
    · rcases change_mem hwhere with hbefore | rfl
      · exact h.body_eq k n d hold m hm hbefore
      · have hlt := h.changed_lt k n d hold
        obtain rfl : c.changes = k := Option.some.inj hm
        omega
    · rcases change_mem hwhere with hbefore | rfl
      · exact absurd hm (h.cause_ne hbefore)
      · rfl

/-- Messages are taken out of the channel, to be delivered or to be lost. -/
theorem take (h : Conserved c log) {c' : Channel β} {taken : List (Message β)}
    (hchanges : c'.changes = c.changes) (htaken : c.messages.Perm (taken ++ c'.messages))
    {seen : Message β → Obs β} (hseen : seen = .delivered ∨ seen = .lost) :
    Conserved c' (log ++ taken.map seen) := by
  have hlog : ∀ k n b, .changed k n b ∈ log ++ taken.map seen → .changed k n b ∈ log := by
    intro k n b hmem
    rw [List.mem_append] at hmem
    rcases hmem with hmem | hmem
    · exact hmem
    · obtain ⟨m, -, hm⟩ := List.mem_map.mp hmem
      rcases hseen with rfl | rfl
      · exact absurd hm (by simp)
      · exact absurd hm (by simp)
  constructor
  case changed_lt =>
    intro k n b hmem
    rw [hchanges]
    exact h.changed_lt k n b (hlog k n b hmem)
  case account_eq =>
    intro k n b hmem
    rw [account_take htaken hseen]
    exact h.account_eq k n b (hlog k n b hmem)
  case account_fresh =>
    intro k hk
    rw [account_take htaken hseen]
    exact h.account_fresh k (by rwa [hchanges] at hk)
  case body_eq =>
    intro k n b hmem m hm hwhere
    refine h.body_eq k n b (hlog k n b hmem) m hm ?_
    -- it was on its way before, or was delivered before
    rcases hwhere with hwhere | hwhere
    · exact Or.inl (htaken.symm.subset (List.mem_append_right _ hwhere))
    · rw [List.mem_append] at hwhere
      rcases hwhere with hwhere | hwhere
      · exact Or.inr hwhere
      · obtain ⟨m', hm', heq⟩ := List.mem_map.mp hwhere
        rcases hseen with rfl | rfl
        · obtain rfl := Obs.delivered.inj heq
          exact Or.inl (htaken.symm.subset (List.mem_append_left _ hm'))
        · exact absurd heq (by simp)

/-- What happens to a channel conserves. -/
theorem step {c' : Channel β} {e : Event β} (h : Conserved c log)
    (hstep : Broadcast.step c e = some c') : Conserved c' (log ++ obs c e) := by
  rcases e with _ | b | i | i
  · obtain rfl := Option.some.inj hstep
    rw [obs, List.append_nil]
    exact h.listen
  · obtain rfl := Option.some.inj hstep
    exact h.change b
  · obtain ⟨⟨m, a⟩, ha, rfl⟩ := Option.map_eq_some_iff.mp hstep
    obtain ⟨hchanges, -, hmessages⟩ := deliver_eq_some ha
    have hobs : obs c (.deliver i) = [m].map .delivered := by
      rw [obs, ha]
      rfl
    rw [hobs]
    exact h.take hchanges hmessages (Or.inl rfl)
  · obtain ⟨⟨queue, a⟩, ha, rfl⟩ := Option.map_eq_some_iff.mp hstep
    obtain ⟨hchanges, -, hmessages⟩ := close_eq_some ha
    have hobs : obs c (.close i) = queue.map .lost := by
      rw [obs, ha]
      rfl
    rw [hobs]
    exact h.take hchanges hmessages (Or.inr rfl)

end Conserved

/-- **Each change is told to each listener once.** In every run of a channel without
listeners, a change is delivered, lost or on its way to as many as there were listeners
when it was made, and always as it was. -/
theorem conserved {c c' : Channel β} {log : List (Obs β)} {es : List (Event β)}
    (hc : c.listeners = []) (h : run (observed step obs) (c, []) es = some (c', log)) :
    Conserved c' log := by
  have hstart : Conserved c [] := by
    constructor
    case account_fresh =>
      intro k _
      unfold account Channel.messages
      rw [hc]
      rfl
    all_goals
      intro k n b hlog
      exact absurd hlog (by simp)
  refine run_invariant (I := fun a : Channel β × List (Obs β) => Conserved a.1 a.2) ?_ hstart h
  intro a e b ha hab
  obtain ⟨hstep, hlog⟩ := observed_eq_some.mp hab
  rw [hlog]
  exact ha.step hstep

end Broadcast
