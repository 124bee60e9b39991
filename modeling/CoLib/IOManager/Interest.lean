/-
# `CoLib.IOManager.Interest` — the events of a context and the kernel's

Five functions choose an `EPOLL_CTL` operation from the events of an object and
change these when the call returns 0.  The choice is right as long as the kernel
has the object's descriptor with just the object's events; `ctl` and
`dispatchCtl` are the operations they ask for.

A resize that cuts the table drops an object that may have events: the kernel
keeps the descriptor, and the table gets a new object for it, without events.

**Proved here.**  `critical_cases` and `dispatch_cases`: a call either leaves the
manager as it is or asked for its operation and got it.  `interest_agree`: as
long as no resize cuts the table, the two sides agree on every descriptor, every
operation is the right one, and a call that the kernel fails changes nothing.
-/
import CoLib.IOManager.Table
import CoLib.IOManager.Counter

namespace CoLib

open Lib

variable {S F C T : Type}

namespace FdContext

@[simp] theorem fd_setContext (c : FdContext S F C) (event : Event) (ctx : EventContext S F C) :
    (c.setContext event ctx).fd = c.fd := by
  cases event <;> rfl

end FdContext

/-- The operation a call asks the kernel for; none when it returns before. -/
def EventCall.ctl (c : FdContext S F C) : EventCall S F C → Option CtlOp
  | .addEvent _ event _ =>
      if c.events.has event then none
      else some (if c.events = .none then .ADD else .MOD)
  | .delEvent _ event | .cancelEvent _ event =>
      if c.events.has event then some (if c.events.erase event = .none then .DEL else .MOD)
      else none
  | .cancelAll _ => if c.events = .none then none else some .DEL

namespace IOManager

/-- The operation that `idle` asks the kernel for. -/
def dispatchCtl (c : FdContext S F C) (mask : Mask) : Option CtlOp :=
  if c.events.inter (realEvents mask) = .none then none
  else some (if c.events.diff (realEvents mask) = .none then .DEL else .MOD)

variable {m m' : IOManager S F C} {p : FdContextPtr} {c c' : FdContext S F C}

/-- The operation is the right one for the interest set: it adds what is absent, or
changes or removes what is present. -/
def Accepts (m : IOManager S F C) (op : CtlOp) (fd : Nat) : Prop :=
  match op with
  | .ADD => m.epoll fd = none
  | .MOD | .DEL => m.epoll fd ≠ none

/-- What the kernel has to have for an object. -/
def interest (p : FdContextPtr) (c : FdContext S F C) : Option (Events × FdContextPtr) :=
  if c.events = .none then none else some (c.events, p)

/-- The kernel has every descriptor with just the events of its object in the table, and
none without an object. -/
def Agree (m : IOManager S F C) : Prop :=
  ∀ fd, m.epoll fd = m.fdContexts[fd]?.bind fun p => m.heap[p]?.bind (interest p)

/-! ## What a call can do -/

/-- `epoll_ctl` returns 0 exactly for a right operation that the environment lets
pass. -/
theorem epollCtl_eq_some {op : CtlOp} {fd : Nat} {events : Events} {ok : Bool}
    {epoll : Nat → Option (Events × FdContextPtr)}
    (h : m.epollCtl op fd events p ok = some epoll) :
    (ok = true ∧ m.Accepts op fd) ∧
      epoll = Function.update m.epoll fd (if op = .DEL then none else some (events, p)) := by
  unfold epollCtl at h
  cases ok with
  | false => exact absurd h nofun
  | true =>
      rw [if_pos rfl] at h
      cases hfd : m.epoll fd with
      | none =>
          rw [hfd] at h
          cases op with
          | ADD => exact ⟨⟨rfl, hfd⟩, (Option.some.inj h).symm⟩
          | MOD | DEL => exact absurd h nofun
      | some i =>
          have hne : m.epoll fd ≠ none := by
            rw [hfd]
            exact nofun
          rw [hfd] at h
          cases op with
          | ADD => exact absurd h nofun
          | MOD | DEL => exact ⟨⟨rfl, hne⟩, (Option.some.inj h).symm⟩

/-- The object and the kernel's entry are replaced together. -/
structure Updated (m : IOManager S F C) (fd : Nat) (p : FdContextPtr) (c : FdContext S F C)
    (m' : IOManager S F C) : Prop where
  object : ∃ c', m'.heap = m.heap.set p c' ∧ c'.fd = c.fd ∧
    m'.epoll = Function.update m.epoll fd (interest p c')
  table : m'.fdContexts = m.fdContexts

/-- What a trigger does to the manager. -/
theorem trigger_set {event : Event} {remover : Remover} (hc : m.heap[p]? = some c)
    (h : m.trigger p event remover = .ok m') :
    ∃ c', m'.heap = m.heap.set p c' ∧ c'.fd = c.fd ∧ c'.events = c.events.erase event ∧
      m'.epoll = m.epoll ∧ m'.fdContexts = m.fdContexts := by
  obtain ⟨c₀, hc₀, h⟩ := bind_ok h
  obtain rfl : c = c₀ := Option.some.inj (hc.symm.trans (deref_ok.mp hc₀))
  obtain ⟨⟨c', entries⟩, ht, h⟩ := bind_ok h
  obtain rfl := Except.ok.inj h
  obtain ⟨-, ctx, s, -, -, rfl, -⟩ := FdContext.triggerEvent_ok ht
  exact ⟨_, rfl, FdContext.fd_setContext .., FdContext.events_setContext .., rfl, rfl⟩

theorem triggerIf_set {mask : Bool} {event : Event} {remover : Remover}
    (hc : m.heap[p]? = some c) (h : m.triggerIf mask p event remover = .ok m') :
    ∃ c', m'.heap = m.heap.set p c' ∧ c'.fd = c.fd ∧
      c'.events = (if mask then c.events.erase event else c.events) ∧
      m'.epoll = m.epoll ∧ m'.fdContexts = m.fdContexts := by
  cases mask with
  | true => exact trigger_set hc h
  | false =>
      obtain rfl := Except.ok.inj h
      obtain ⟨hlt, hget⟩ := List.getElem?_eq_some_iff.mp hc
      refine ⟨c, ?_, rfl, rfl, rfl, rfl⟩
      rw [← hget, List.set_getElem_self]

/-- Two triggers in a row, as in `cancelAll` and in `idle`. -/
theorem triggerBoth_set {read write : Bool} {remover : Remover} {m₁ : IOManager S F C}
    (hc : m.heap[p]? = some c) (h₁ : m.triggerIf read p .READ remover = .ok m₁)
    (h₂ : m₁.triggerIf write p .WRITE remover = .ok m') :
    ∃ c', m'.heap = m.heap.set p c' ∧ c'.fd = c.fd ∧
      c'.events = ⟨c.events.read && !read, c.events.write && !write⟩ ∧
      m'.epoll = m.epoll ∧ m'.fdContexts = m.fdContexts := by
  obtain ⟨c₁, hheap₁, hfd₁, hev₁, hepoll₁, htable₁⟩ := triggerIf_set hc h₁
  have hlt := (List.getElem?_eq_some_iff.mp hc).1
  have hc₁ : m₁.heap[p]? = some c₁ := by
    rw [hheap₁]
    exact List.getElem?_set_self hlt
  obtain ⟨c₂, hheap₂, hfd₂, hev₂, hepoll₂, htable₂⟩ := triggerIf_set hc₁ h₂
  refine ⟨c₂, ?_, hfd₂.trans hfd₁, ?_, hepoll₂.trans hepoll₁, htable₂.trans htable₁⟩
  · rw [hheap₂, hheap₁, List.set_set]
  · rw [hev₂, hev₁]
    cases read <;> cases write <;> simp [Events.erase]

theorem addEvent_cases {fd : Nat} {event : Event} {args : AddArgs S F C} {ok : Bool} {rt : Int}
    (h : m.addEvent fd p event args ok = .ok (m', rt)) :
    m' = m ∨ ∃ c op, m.heap[p]? = some c ∧ (EventCall.addEvent fd event args).ctl c = some op ∧
      (ok = true ∧ m.Accepts op fd) ∧ Updated m fd p c m' := by
  obtain ⟨c, hc, h⟩ := bind_ok h
  have hc := deref_ok.mp hc
  split at h
  · exact absurd h (by simp)
  · rename_i hhas
    dsimp only at h
    split at h
    · exact .inl (Prod.mk.inj (Except.ok.inj h)).1.symm
    · rename_i epoll hctl
      obtain ⟨hok, hepoll⟩ := epollCtl_eq_some hctl
      obtain ⟨ctx, hctx, h⟩ := bind_ok h
      have hnone : c.events.insert event ≠ .none := by
        cases event with
        | NONE => cases hctx
        | READ => simp [Events.insert, Events.none]
        | WRITE => simp [Events.insert, Events.none]
      have hop : (if c.events = Events.none then CtlOp.ADD else CtlOp.MOD) ≠ .DEL := by
        split <;> (intro hdel; cases hdel)
      rw [if_neg hop] at hepoll
      have hupdated : ∀ (ctx' : EventContext S F C) (n k : Nat) (log : List (Entry S F C)),
          Updated m fd p c
            { m with
                heap := m.heap.set p
                  (({ c with events := c.events.insert event } : FdContext S F C).setContext
                    event ctx')
                pendingEventCount := n
                epoll
                nextReg := k
                log } := by
        intro ctx' n k log
        refine ⟨⟨_, rfl, FdContext.fd_setContext .., ?_⟩, rfl⟩
        rw [hepoll, interest, FdContext.events_setContext, if_neg hnone]
      refine .inr ⟨c, _, hc, if_neg hhas, hok, ?_⟩
      split at h
      · exact absurd h (by simp)
      · split at h
        · obtain ⟨rfl, -⟩ := Prod.mk.inj (Except.ok.inj h)
          exact hupdated ..
        · split at h
          · obtain ⟨rfl, -⟩ := Prod.mk.inj (Except.ok.inj h)
            exact hupdated ..
          · exact absurd h (by simp)

/-- The kernel's entry after an event is taken away. -/
theorem interest_left {left : Events} (hc' : c'.events = left) :
    (if (if left = .none then CtlOp.DEL else CtlOp.MOD) = .DEL then none else some (left, p)) =
      interest p c' := by
  rw [interest, hc']
  by_cases hleft : left = .none
  · simp [hleft]
  · simp [hleft]

theorem delEvent_cases {fd : Nat} {event : Event} {ok rt : Bool}
    (h : m.delEvent fd p event ok = .ok (m', rt)) :
    m' = m ∨ ∃ c op, m.heap[p]? = some c ∧
      (EventCall.delEvent fd event : EventCall S F C).ctl c = some op ∧
      (ok = true ∧ m.Accepts op fd) ∧ Updated m fd p c m' := by
  obtain ⟨c, hc, h⟩ := bind_ok h
  have hc := deref_ok.mp hc
  split at h
  · rename_i hhas
    dsimp only at h
    split at h
    · exact .inl (Prod.mk.inj (Except.ok.inj h)).1.symm
    · rename_i epoll hctl
      obtain ⟨hok, hepoll⟩ := epollCtl_eq_some hctl
      obtain ⟨ctx, -, h⟩ := bind_ok h
      obtain ⟨rfl, -⟩ := Prod.mk.inj (Except.ok.inj h)
      refine .inr ⟨c, _, hc, if_pos hhas, hok, ⟨_, rfl, FdContext.fd_setContext .., ?_⟩, rfl⟩
      exact hepoll.trans (congrArg _ (interest_left (FdContext.events_setContext ..)))
  · exact .inl (Prod.mk.inj (Except.ok.inj h)).1.symm

theorem cancelEvent_cases {fd : Nat} {event : Event} {ok rt : Bool}
    (h : m.cancelEvent fd p event ok = .ok (m', rt)) :
    m' = m ∨ ∃ c op, m.heap[p]? = some c ∧
      (EventCall.cancelEvent fd event : EventCall S F C).ctl c = some op ∧
      (ok = true ∧ m.Accepts op fd) ∧ Updated m fd p c m' := by
  obtain ⟨c, hc, h⟩ := bind_ok h
  have hc := deref_ok.mp hc
  split at h
  · rename_i hhas
    dsimp only at h
    split at h
    · exact .inl (Prod.mk.inj (Except.ok.inj h)).1.symm
    · rename_i epoll hctl
      obtain ⟨hok, hepoll⟩ := epollCtl_eq_some hctl
      obtain ⟨m₁, ht, h⟩ := bind_ok h
      obtain ⟨rfl, -⟩ := Prod.mk.inj (Except.ok.inj h)
      obtain ⟨c', hheap, hfd, hev, hepoll', htable⟩ := trigger_set (m := { m with epoll }) hc ht
      refine .inr ⟨c, _, hc, if_pos hhas, hok, ⟨c', hheap, hfd, ?_⟩, htable⟩
      rw [hepoll', hepoll, interest_left hev]
  · exact .inl (Prod.mk.inj (Except.ok.inj h)).1.symm

theorem cancelAll_cases {fd : Nat} {ok rt : Bool}
    (h : m.cancelAll fd p ok = .ok (m', rt)) :
    m' = m ∨ ∃ c op, m.heap[p]? = some c ∧
      (EventCall.cancelAll fd : EventCall S F C).ctl c = some op ∧
      (ok = true ∧ m.Accepts op fd) ∧ Updated m fd p c m' := by
  obtain ⟨c, hc, h⟩ := bind_ok h
  have hc := deref_ok.mp hc
  split at h
  · exact .inl (Prod.mk.inj (Except.ok.inj h)).1.symm
  · rename_i hne
    split at h
    · exact .inl (Prod.mk.inj (Except.ok.inj h)).1.symm
    · rename_i epoll hctl
      obtain ⟨hok, hepoll⟩ := epollCtl_eq_some hctl
      obtain ⟨m₁, h₁, h⟩ := bind_ok h
      obtain ⟨c₁, hc₁, h⟩ := bind_ok h
      obtain ⟨m₂, h₂, h⟩ := bind_ok h
      obtain ⟨c₂, hc₂, h⟩ := bind_ok h
      split at h
      · rename_i hnone
        obtain ⟨rfl, -⟩ := Prod.mk.inj (Except.ok.inj h)
        obtain ⟨c', hheap, hfd, -, hepoll', htable⟩ :=
          triggerBoth_set (m := { m with epoll }) hc h₁ h₂
        have hc' : c' = c₂ := by
          have hlt := (List.getElem?_eq_some_iff.mp hc).1
          have hget := deref_ok.mp hc₂
          rw [hheap] at hget
          exact Option.some.inj ((List.getElem?_set_self hlt).symm.trans hget)
        refine .inr ⟨c, _, hc, if_neg hne, hok, ⟨c', hheap, hfd, ?_⟩, htable⟩
        rw [hepoll', hepoll, if_pos rfl, interest, hc', if_pos hnone]
      · exact absurd h (by simp)

theorem dispatch_cases {mask : Mask} {ok : Bool} (h : m.dispatch p mask ok = .ok m') :
    m' = m ∨ ∃ c op, m.heap[p]? = some c ∧ dispatchCtl c mask = some op ∧
      (ok = true ∧ m.Accepts op c.fd) ∧ Updated m c.fd p c m' := by
  obtain ⟨c, hc, h⟩ := bind_ok h
  have hc := deref_ok.mp hc
  dsimp only at h
  split at h
  · exact .inl (Except.ok.inj h).symm
  · rename_i hne
    split at h
    · exact .inl (Except.ok.inj h).symm
    · rename_i epoll hctl
      obtain ⟨hok, hepoll⟩ := epollCtl_eq_some hctl
      obtain ⟨m₁, h₁, h₂⟩ := bind_ok h
      obtain ⟨c', hheap, hfd, hev, hepoll', htable⟩ :=
        triggerBoth_set (m := { m with epoll }) hc h₁ h₂
      refine .inr ⟨c, _, hc, if_neg hne, hok, ⟨c', hheap, hfd, ?_⟩, htable⟩
      exact hepoll'.trans (hepoll.trans (congrArg _ (interest_left hev)))

/-! ## The table and the kernel -/

/-- The table holds every object at the position of its descriptor, and the kernel has
what it has to have for each of them. -/
structure Tied (m : IOManager S F C) : Prop where
  table : m.fdContexts = List.range m.heap.length
  fd : ∀ (p : FdContextPtr) (c : FdContext S F C), m.heap[p]? = some c → c.fd = p
  epoll : ∀ fd, m.epoll fd = m.heap[fd]?.bind (interest fd)

theorem Tied.agree (h : m.Tied) : m.Agree := by
  intro fd
  rw [h.epoll, h.table]
  by_cases hlt : fd < m.heap.length
  · rw [List.getElem?_range hlt, Option.bind_some]
  · have hge := Nat.le_of_not_lt hlt
    rw [List.getElem?_eq_none hge, List.getElem?_eq_none (by rw [List.length_range]; exact hge)]
    rfl

/-- What a call does keeps the two sides together. -/
theorem Tied.updated (h : m.Tied) (hc : m.heap[p]? = some c) (hu : Updated m p p c m') :
    m'.Tied := by
  obtain ⟨⟨c', hheap, hfd, hepoll⟩, htable⟩ := hu
  have hlt := (List.getElem?_eq_some_iff.mp hc).1
  constructor
  · rw [htable, hheap, List.length_set]
    exact h.table
  · intro q d hd
    rw [hheap] at hd
    by_cases hq : q = p
    · subst hq
      rw [List.getElem?_set_self hlt] at hd
      rw [← Option.some.inj hd, hfd]
      exact h.fd q c hc
    · rw [List.getElem?_set_ne (Ne.symm hq)] at hd
      exact h.fd q d hd
  · intro q
    rw [hepoll, hheap]
    by_cases hq : q = p
    · subst hq
      rw [Function.update_self, List.getElem?_set_self hlt, Option.bind_some]
    · rw [Function.update_of_ne hq, List.getElem?_set_ne (Ne.symm hq)]
      exact h.epoll q

/-- Growing the table adds objects without events. -/
theorem Tied.resize (h : m.Tied) {size : Nat} (hsize : m.fdContexts.length ≤ size) :
    (m.contextResize size).Tied := by
  have hlen : m.fdContexts.length = m.heap.length := by
    rw [h.table, List.length_range]
  have hnew : ∀ q d, m.heap.length ≤ q →
      (m.contextResize size).heap[q]? = some d → d = .new q := by
    intro q d hq hd
    simp only [contextResize, hlen] at hd
    rw [List.getElem?_append_right hq, List.getElem?_map] at hd
    obtain ⟨i, hi, rfl⟩ := Option.map_eq_some_iff.mp hd
    obtain ⟨_, hget⟩ := List.getElem?_eq_some_iff.mp hi
    have hi : q - m.heap.length = i := by simpa using hget
    rw [← hi, Nat.add_sub_cancel' hq]
  have hold : ∀ q, q < m.heap.length → (m.contextResize size).heap[q]? = m.heap[q]? :=
    fun q hq => List.getElem?_append_left hq
  constructor
  · simp only [contextResize, List.take_of_length_le hsize, List.length_append, List.length_map,
      List.length_range]
    rw [h.table, List.length_range, List.range_add]
  · intro q d hd
    by_cases hq : q < m.heap.length
    · rw [hold q hq] at hd
      exact h.fd q d hd
    · rw [hnew q d (Nat.le_of_not_lt hq) hd]
      rfl
  · intro q
    show m.epoll q = _
    by_cases hq : q < m.heap.length
    · rw [hold q hq]
      exact h.epoll q
    · have hge := Nat.le_of_not_lt hq
      rw [h.epoll, List.getElem?_eq_none hge]
      cases hd : (m.contextResize size).heap[q]? with
      | none => rfl
      | some d =>
          rw [hnew q d hge hd]
          rfl

theorem tied_create : (create : IOManager S F C).Tied := by
  refine Tied.resize ⟨rfl, fun p c hp => ?_, fun fd => ?_⟩ (Nat.zero_le _)
  · exact absurd hp (by simp)
  · rfl

/-- An operation that a call asks for is the right one. -/
theorem Tied.accepts (h : m.Tied) (hc : m.heap[p]? = some c) :
    (c.events = .none → m.Accepts .ADD p) ∧
      (c.events ≠ .none → m.Accepts .MOD p ∧ m.Accepts .DEL p) := by
  have hepoll := h.epoll p
  rw [hc, Option.bind_some, interest] at hepoll
  constructor
  · intro hnone
    rw [if_pos hnone] at hepoll
    exact hepoll
  · intro hne
    rw [if_neg hne] at hepoll
    have hpresent : m.epoll p ≠ none := by
      rw [hepoll]
      exact nofun
    exact ⟨hpresent, hpresent⟩

theorem has_ne_none {es : Events} {event : Event} (h : es.has event = true) : es ≠ .none := by
  rintro rfl
  cases event <;> cases h

theorem Tied.ctl (h : m.Tied) (hc : m.heap[p]? = some c) {call : EventCall S F C} {op : CtlOp}
    (hop : call.ctl c = some op) : m.Accepts op p := by
  obtain ⟨hadd, hmod⟩ := h.accepts hc
  cases call with
  | addEvent fd event args =>
      simp only [EventCall.ctl] at hop
      split at hop
      · cases hop
      · split at hop
        · rename_i hnone
          obtain rfl := Option.some.inj hop
          exact hadd hnone
        · rename_i hne
          obtain rfl := Option.some.inj hop
          exact (hmod hne).1
  | delEvent fd event | cancelEvent fd event =>
      simp only [EventCall.ctl] at hop
      split at hop
      · rename_i hhas
        obtain ⟨hm, hd⟩ := hmod (has_ne_none hhas)
        split at hop
        · obtain rfl := Option.some.inj hop
          exact hd
        · obtain rfl := Option.some.inj hop
          exact hm
      · cases hop
  | cancelAll fd =>
      simp only [EventCall.ctl] at hop
      split at hop
      · cases hop
      · rename_i hne
        obtain rfl := Option.some.inj hop
        exact (hmod hne).2

theorem Tied.dispatchCtl (h : m.Tied) (hc : m.heap[p]? = some c) {mask : Mask} {op : CtlOp}
    (hop : dispatchCtl c mask = some op) : m.Accepts op c.fd := by
  obtain ⟨-, hmod⟩ := h.accepts hc
  rw [h.fd p c hc]
  rw [IOManager.dispatchCtl] at hop
  split at hop
  · cases hop
  · rename_i hne
    have hevents : c.events ≠ .none := by
      intro hnone
      rw [hnone] at hne
      exact hne rfl
    obtain ⟨hm, hd⟩ := hmod hevents
    split at hop
    · obtain rfl := Option.some.inj hop
      exact hd
    · obtain rfl := Option.some.inj hop
      exact hm

end IOManager

namespace EventSys

open IOManager

variable [DecidableEq T] {s s' : EventSys S F C T}

/-- The call of a step, when it is made, fails: the environment says so, or the operation
is not the right one. -/
def failed (s : EventSys S F C T) : EventAct S F C T → Prop
  | .enter t ok => ∃ call p c op, s.phase t = .locked call p ∧ s.mgr.heap[p]? = some c ∧
      call.ctl c = some op ∧ (ok = false ∨ ¬s.mgr.Accepts op call.fd)
  | .dispatch t ok => ∃ p mask events c op, s.phase t = .dispatch ((p, mask) :: events) ∧
      s.mgr.heap[p]? = some c ∧ dispatchCtl c mask = some op ∧
      (ok = false ∨ ¬s.mgr.Accepts op c.fd)
  | _ => False

/-- A descriptor is closed when `cancelAll` has taken it from the kernel. -/
def cancelled (s : EventSys S F C T) : EventAct S F C T → Bool
  | .close fd => (s.mgr.epoll fd).isNone
  | _ => true

/-- Besides, no resize cuts the table. -/
def orderly (s : EventSys S F C T) (a : EventAct S F C T) : Bool :=
  s.roomy a && s.cancelled a

theorem critical_cases {m m' : IOManager S F C} {p : FdContextPtr} {ok : Bool}
    {call : EventCall S F C} (h : critical m p ok call = .ok m') :
    m' = m ∨ ∃ c op, m.heap[p]? = some c ∧ call.ctl c = some op ∧
      (ok = true ∧ m.Accepts op call.fd) ∧ Updated m call.fd p c m' := by
  cases call with
  | addEvent fd event args =>
      obtain ⟨rt, h⟩ := map_fst_ok h
      exact addEvent_cases h
  | delEvent fd event =>
      obtain ⟨rt, h⟩ := map_fst_ok h
      exact delEvent_cases h
  | cancelEvent fd event =>
      obtain ⟨rt, h⟩ := map_fst_ok h
      exact cancelEvent_cases h
  | cancelAll fd =>
      obtain ⟨rt, h⟩ := map_fst_ok h
      exact cancelAll_cases h

/-- What a step does to the manager: nothing, or a thread's call or its dispatch, or it
resizes the table, or a descriptor is closed. -/
theorem step_mgr {a : EventAct S F C T} (h : s.step a = some (.ok s')) :
    s'.mgr = s.mgr ∨
    (∃ t ok call p, a = .enter t ok ∧ s.phase t = .locked call p ∧
      critical s.mgr p ok call = .ok s'.mgr) ∨
    (∃ t ok p mask events, a = .dispatch t ok ∧ s.phase t = .dispatch ((p, mask) :: events) ∧
      s.mgr.dispatch p mask ok = .ok s'.mgr) ∨
    (∃ t call, a = .grow t ∧ s.phase t = .grow call ∧
      s'.mgr = s.mgr.contextResize (call.fd * 3 / 2)) ∨
    ∃ fd, a = .close fd ∧
      s'.mgr = { s.mgr with epoll := Function.update s.mgr.epoll fd none } := by
  cases step_does h with
  | grow t call p hph hp => exact .inr (.inr (.inr (.inl ⟨t, call, rfl, hph, rfl⟩)))
  | enter t ok call p m hph hm => exact .inr (.inl ⟨t, ok, call, p, rfl, hph, hm⟩)
  | dispatch t ok p mask events m hph hm =>
      exact .inr (.inr (.inl ⟨t, ok, p, mask, events, rfl, hph, hm⟩))
  | close fd => exact .inr (.inr (.inr (.inr ⟨fd, rfl, rfl⟩)))
  | _ => exact .inl rfl

/-- A call that the kernel fails changes nothing. -/
theorem failed_keeps {a : EventAct S F C T} (h : s.step a = some (.ok s')) (ha : s.failed a) :
    s'.mgr = s.mgr := by
  rcases step_mgr h with hmgr | ⟨t, ok, call, p, rfl, hph, hm⟩ |
    ⟨t, ok, p, mask, events, rfl, hph, hm⟩ | ⟨t, call, rfl, -, -⟩ | ⟨fd, rfl, -⟩
  · exact hmgr
  · obtain ⟨call', p', c, op, hph', hc, hop, hfail⟩ := ha
    obtain ⟨rfl, rfl⟩ := EventPhase.locked.inj (hph.symm.trans hph')
    rcases critical_cases hm with hm | ⟨c', op', hc', hop', ⟨hok, hacc⟩, -⟩
    · exact hm
    · obtain rfl : c = c' := Option.some.inj (hc.symm.trans hc')
      obtain rfl : op = op' := Option.some.inj (hop.symm.trans hop')
      rcases hfail with rfl | hfail
      · cases hok
      · exact absurd hacc hfail
  · obtain ⟨p', mask', events', c, op, hph', hc, hop, hfail⟩ := ha
    obtain ⟨heq, -⟩ := List.cons.inj (EventPhase.dispatch.inj (hph.symm.trans hph'))
    obtain ⟨rfl, rfl⟩ := Prod.mk.inj heq
    rcases dispatch_cases hm with hm | ⟨c', op', hc', hop', ⟨hok, hacc⟩, -⟩
    · exact hm
    · obtain rfl : c = c' := Option.some.inj (hc.symm.trans hc')
      obtain rfl : op = op' := Option.some.inj (hop.symm.trans hop')
      rcases hfail with rfl | hfail
      · cases hok
      · exact absurd hacc hfail
  · exact absurd ha id
  · exact absurd ha id

omit [DecidableEq T] in
/-- A thread that works on an object works on its own descriptor's. -/
theorem held_fd (hs : s.Held) (hm : s.mgr.Tied) {t : T} {call : EventCall S F C}
    {p : FdContextPtr} (hph : s.phase t = .locked call p) : p = call.fd := by
  have hp := hs t call p hph
  rw [hm.table] at hp
  obtain ⟨_, hget⟩ := List.getElem?_eq_some_iff.mp hp
  rw [List.getElem_range] at hget
  exact hget.symm

theorem tied_step {a : EventAct S F C T} (hs : s.Held) (hm : s.mgr.Tied)
    (ha : s.orderly a = true) (h : s.step a = some (.ok s')) : s'.mgr.Tied := by
  rw [orderly, Bool.and_eq_true] at ha
  rcases step_mgr h with hmgr | ⟨t, ok, call, p, rfl, hph, hmgr⟩ |
    ⟨t, ok, p, mask, events, rfl, hph, hmgr⟩ | ⟨t, call, rfl, hph, hmgr⟩ | ⟨fd, rfl, hmgr⟩
  · rw [hmgr]
    exact hm
  · rcases critical_cases hmgr with hmgr | ⟨c, op, hc, -, -, hu⟩
    · rw [hmgr]
      exact hm
    · rw [← held_fd hs hm hph] at hu
      exact hm.updated hc hu
  · rcases dispatch_cases hmgr with hmgr | ⟨c, op, hc, -, -, hu⟩
    · rw [hmgr]
      exact hm
    · rw [hm.fd p c hc] at hu
      exact hm.updated hc hu
  · rw [hmgr]
    refine hm.resize ?_
    have hroomy := ha.1
    rw [roomy, hph] at hroomy
    exact of_decide_eq_true hroomy
  · have hnone : s.mgr.epoll fd = none := Option.isNone_iff_eq_none.mp ha.2
    have hsame : Function.update s.mgr.epoll fd none = s.mgr.epoll := by
      rw [← hnone, Function.update_eq_self]
    rw [hmgr, hsame]
    exact hm

theorem reach_tied
    (h : Reach (proceed step) (fun s a => s.orderly a = true) (init : EventSys S F C T) s) :
    s.mgr.Tied ∧ s.Held := by
  refine h.invariant (I := fun s => s.mgr.Tied ∧ s.Held) ?_ ?_
  · exact ⟨tied_create, fun t call p hp => absurd hp nofun⟩
  · rintro u a u' ⟨hm, hs⟩ ha hstep
    have hstep := proceed_eq_some.mp hstep
    exact ⟨tied_step hs hm ha hstep, held_step hs (Bool.and_eq_true_iff.mp ha).1 hstep⟩

/-- **The two sides agree.**  In every run without a resize that cuts the table, the
kernel has every descriptor with the events of its object, and every operation that a call
or `idle` asks for is the right one.  A call that the kernel fails changes nothing. -/
theorem interest_agree
    (h : Reach (proceed step) (fun s a => s.orderly a = true) (init : EventSys S F C T) s) :
    s.mgr.Agree ∧
    (∀ t call p c op, s.phase t = .locked call p → s.mgr.heap[p]? = some c →
      call.ctl c = some op → s.mgr.Accepts op call.fd) ∧
    (∀ (p : FdContextPtr) (c : FdContext S F C) (mask : Mask) (op : CtlOp),
      s.mgr.heap[p]? = some c → dispatchCtl c mask = some op → s.mgr.Accepts op c.fd) ∧
    ∀ (u u' : EventSys S F C T) a, u.step a = some (.ok u') → u.failed a → u'.mgr = u.mgr := by
  obtain ⟨hm, hs⟩ := reach_tied h
  refine ⟨hm.agree, ?_, ?_, fun u u' a => failed_keeps⟩
  · intro t call p c op hph hc hop
    rw [← held_fd hs hm hph]
    exact hm.ctl hc hop
  · intro p c mask op hc hop
    exact hm.dispatchCtl hc hop

/-- The same two threads, the second growing the table after the first. -/
theorem interest_agree_inOrder :
    ∃ s, run (guarded (proceed step) fun s a => s.orderly a = true) init
        (growTwice.1.take 4 ++ [.grow false, .grow true, .enter true true]) = some s ∧
      s.mgr.Agree := by
  obtain ⟨s, hrun⟩ : ∃ s, run (guarded (proceed step) fun s a => s.orderly a = true) init
      (growTwice.1.take 4 ++ [.grow false, .grow true, .enter true true]) = some s := ⟨_, rfl⟩
  exact ⟨s, hrun, (interest_agree (run_reach _ hrun)).1⟩

/-- A resize cuts the table while a descriptor is registered: the kernel has it, the table
does not. -/
theorem agree_cut :
    ¬∀ s : EventSys Unit Unit Unit Bool,
      Reach (proceed step) (fun s a => s.cancelled a = true) init s → s.mgr.Agree := by
  intro h
  obtain ⟨s, hrun, hepoll, htable⟩ : ∃ s,
      run (guarded (proceed step) fun s a => s.cancelled a = true) init
        (growTwice.1 ++ [growTwice.2]) = some s ∧
      (s.mgr.epoll 70).isSome = true ∧ s.mgr.fdContexts[70]? = none := ⟨_, rfl, rfl, rfl⟩
  have hagree := h s (run_reach _ hrun) 70
  rw [htable, Option.bind_none] at hagree
  rw [hagree] at hepoll
  cases hepoll

end EventSys

end CoLib
