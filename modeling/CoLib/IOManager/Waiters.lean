/-
# `CoLib.IOManager.Waiters` — every waiter is handed over at most once

A registration is in one of three places: stored in the context of a set bit,
handed to a scheduler, or deleted.  `Accounted` says so by counting: for every
registration number, the contexts that hold it and the log entries that remove
it are together one, and the hand-overs are the removals by a trigger.  A set
bit has a full context and a clear bit an empty one, so storing never finds a
waiter in the way.

`addEvent` stores the scheduler of the thread it is called on, and a thread that
belongs to no scheduler has none.  The results are about calls from threads that
have one.
-/
import CoLib.IOManager.Counter

namespace CoLib

open Lib

variable {S F C T : Type}

namespace Entry

/-- The entry stores registration `r`. -/
def stores (r : Nat) : Entry S F C → Bool
  | .stored q _ _ => q == r
  | _ => false

/-- The entry hands over the waiter of registration `r`. -/
def hands (r : Nat) : Entry S F C → Bool
  | .handed q _ _ => q == r
  | _ => false

/-- The entry removes registration `r`. -/
def removes (r : Nat) : Entry S F C → Bool
  | .removed q _ => q == r
  | _ => false

/-- The entry removes registration `r`, by `idle`, `cancelEvent` or `cancelAll`. -/
def triggers (r : Nat) : Entry S F C → Bool
  | .removed q by_ => q == r && by_ != .delEvent
  | _ => false

end Entry

namespace Events

theorem has_erase_self (es : Events) (event : Event) : (es.erase event).has event = false := by
  cases event <;> rfl

theorem has_erase_ne (es : Events) {event other : Event} (h : other ≠ event) :
    (es.erase event).has other = es.has other := by
  cases event <;> cases other <;> first | rfl | exact absurd rfl h

theorem has_insert_self (es : Events) {event : Event} (h : event ≠ .NONE) :
    (es.insert event).has event = true := by
  cases event <;> first | rfl | exact absurd rfl h

theorem has_insert_ne (es : Events) {event other : Event} (h : other ≠ event) :
    (es.insert event).has other = es.has other := by
  cases event <;> cases other <;> first | rfl | exact absurd rfl h

end Events

namespace EventContext

/-- A full context for a set bit, an empty one for a clear bit. -/
def Matches (bit : Bool) (ctx : EventContext S F C) : Prop :=
  if bit then ctx.scheduler.isSome ∧ ctx.fiber.isSome = !ctx.cb.isSome else ctx = .empty

@[simp] theorem regs_empty : (EventContext.empty : EventContext S F C).regs = [] := rfl

/-- The waiters stored were stored by the log's entries. -/
def Recorded (log : List (Entry S F C)) (ctx : EventContext S F C) : Prop :=
  (∀ w, ctx.fiber = some w → .stored w.reg ctx.scheduler (.inl w.val) ∈ log) ∧
  ∀ w, ctx.cb = some w → .stored w.reg ctx.scheduler (.inr w.val) ∈ log

end EventContext

namespace FdContext

/-- How many contexts of the object hold registration `r`. -/
def holds (r : Nat) (c : FdContext S F C) : Nat :=
  c.read.regs.count r + c.write.regs.count r

theorem holds_assign {c : FdContext S F C} {event : Event} {ctx : EventContext S F C}
    (events : Events) (ctx' : EventContext S F C) (h : c.getContext event = .ok ctx) (r : Nat) :
    (({ c with events } : FdContext S F C).setContext event ctx').holds r + ctx.regs.count r
      = c.holds r + ctx'.regs.count r := by
  cases event with
  | NONE => exact absurd h (by simp [getContext])
  | READ =>
      obtain rfl := Except.ok.inj h
      simp only [holds, setContext]
      omega
  | WRITE =>
      obtain rfl := Except.ok.inj h
      simp only [holds, setContext]
      omega

theorem getContext_setContext {c : FdContext S F C} {event other : Event}
    {ctx ctx' : EventContext S F C} (h : (c.setContext event ctx).getContext other = .ok ctx') :
    (other = event ∧ ctx' = ctx) ∨ (other ≠ event ∧ c.getContext other = .ok ctx') := by
  cases event <;> cases other <;>
    first
      | exact .inl ⟨rfl, (Except.ok.inj h).symm⟩
      | exact .inr ⟨by decide, h⟩
      | exact absurd h (by simp [getContext])

theorem ne_none_of_getContext {c : FdContext S F C} {event : Event} {ctx : EventContext S F C}
    (h : c.getContext event = .ok ctx) : event ≠ .NONE := by
  rintro rfl
  exact absurd h (by simp [getContext])

/-- Every context matches its bit and is recorded. -/
def Ok (log : List (Entry S F C)) (c : FdContext S F C) : Prop :=
  ∀ event ctx, c.getContext event = .ok ctx →
    ctx.Matches (c.events.has event) ∧ ctx.Recorded log

theorem Ok.mono {log log' : List (Entry S F C)} {c : FdContext S F C} (h : c.Ok log)
    (hlog : ∀ e ∈ log, e ∈ log') : c.Ok log' := fun event ctx hget =>
  ⟨(h event ctx hget).1, fun w hw => hlog _ ((h event ctx hget).2.1 w hw),
    fun w hw => hlog _ ((h event ctx hget).2.2 w hw)⟩

/-- One bit is assigned with its context. -/
theorem Ok.assign {log log' : List (Entry S F C)} {c : FdContext S F C} {events : Events}
    {event : Event} {ctx : EventContext S F C} (h : c.Ok log) (hlog : ∀ e ∈ log, e ∈ log')
    (hother : ∀ other, other ≠ event → events.has other = c.events.has other)
    (hctx : ctx.Matches (events.has event) ∧ ctx.Recorded log') :
    (({ c with events } : FdContext S F C).setContext event ctx).Ok log' := by
  intro other ctx' hget
  rw [events_setContext]
  rcases getContext_setContext hget with ⟨rfl, rfl⟩ | ⟨hne, hget⟩
  · exact hctx
  · have hget : c.getContext other = .ok ctx' := by
      cases other <;> exact hget
    have := h.mono hlog other ctx' hget
    rwa [← hother other hne] at this

theorem matches_empty : (EventContext.empty : EventContext S F C).Matches false := by
  simp [EventContext.Matches]

theorem recorded_empty (log : List (Entry S F C)) :
    (EventContext.empty : EventContext S F C).Recorded log :=
  ⟨fun _ hw => absurd hw (by simp [EventContext.empty]),
    fun _ hw => absurd hw (by simp [EventContext.empty])⟩

/-- A full context holds one waiter; handing it over empties the context and
makes one entry. -/
theorem handOver_full {log : List (Entry S F C)} {ctx : EventContext S F C} {s : S}
    (hm : ctx.Matches true) (hrec : ctx.Recorded log) (hs : ctx.scheduler = some s) :
    ∃ r w, ctx.regs = [r] ∧ handOver ctx s = ({ ctx with fiber := none, cb := none },
      [.handed r s w]) ∧ .stored r (some s) w ∈ log := by
  obtain ⟨scheduler, fiber, cb⟩ := ctx
  obtain rfl : scheduler = some s := hs
  simp only [EventContext.Matches, if_true] at hm
  cases cb with
  | some w =>
      obtain rfl : fiber = none := by simpa using hm.2
      exact ⟨w.reg, .inr w.val, rfl, rfl, hrec.2 w rfl⟩
  | none =>
      obtain ⟨w, rfl⟩ := Option.isSome_iff_exists.mp (by simpa using hm.2 : fiber.isSome = true)
      exact ⟨w.reg, .inl w.val, rfl, rfl, hrec.1 w rfl⟩

end FdContext

namespace IOManager

variable {m m' : IOManager S F C}

/-- See the module comment. -/
structure Accounted (m : IOManager S F C) : Prop where
  contexts : ∀ c ∈ m.heap, c.Ok m.log
  kept : ∀ r, tally (FdContext.holds r) m.heap + m.log.countP (·.removes r)
    = if r < m.nextReg then 1 else 0
  stored : ∀ r, m.log.countP (·.stores r) = if r < m.nextReg then 1 else 0
  handed : ∀ r, m.log.countP (·.hands r) = m.log.countP (·.triggers r)
  same : ∀ r s w, .handed r s w ∈ m.log → .stored r (some s) w ∈ m.log

theorem new_ok (log : List (Entry S F C)) (fd : Nat) : (FdContext.new fd).Ok log := by
  intro event ctx hget
  cases event with
  | NONE => exact absurd hget (by simp [FdContext.getContext])
  | READ =>
      obtain rfl := Except.ok.inj hget
      exact ⟨FdContext.matches_empty, FdContext.recorded_empty log⟩
  | WRITE =>
      obtain rfl := Except.ok.inj hget
      exact ⟨FdContext.matches_empty, FdContext.recorded_empty log⟩

theorem tally_new (n : Nat) (k : Nat) (r : Nat) :
    tally (FdContext.holds r) ((List.range k).map fun i => (.new (n + i) : FdContext S F C)) =
      0 := by
  refine tally_eq_zero ?_
  intro c hc
  obtain ⟨i, -, rfl⟩ := List.mem_map.mp hc
  rfl

theorem accounted_resize (h : m.Accounted) (size : Nat) : (m.contextResize size).Accounted where
  contexts := by
    intro c hc
    rcases List.mem_append.mp hc with hc | hc
    · exact h.contexts c hc
    · obtain ⟨i, -, rfl⟩ := List.mem_map.mp hc
      exact new_ok m.log _
  kept := fun r => by
    simp only [contextResize, tally_append, tally_new, Nat.add_zero]
    exact h.kept r
  stored := h.stored
  handed := h.handed
  same := h.same

theorem accounted_create : (create : IOManager S F C).Accounted :=
  accounted_resize
    { contexts := fun _ hc => absurd hc List.not_mem_nil
      kept := fun r => by simp
      stored := fun r => by simp
      handed := fun r => rfl
      same := fun _ _ _ hw => absurd hw List.not_mem_nil } 32

/-- An object is assigned and entries are appended. -/
theorem Accounted.contexts_set {c' : FdContext S F C} {p : FdContextPtr}
    {entries : List (Entry S F C)} (h : m.Accounted) (hc' : c'.Ok (m.log ++ entries)) :
    ∀ c ∈ m.heap.set p c', c.Ok (m.log ++ entries) := by
  intro c hc
  rcases List.mem_or_eq_of_mem_set hc with hc | rfl
  · exact (h.contexts c hc).mono fun e he => List.mem_append_left _ he
  · exact hc'

theorem accounted_register {p : FdContextPtr} {c : FdContext S F C} {event : Event}
    {ctx : EventContext S F C} {scheduler : Option S} {waiter : F ⊕ C} (h : m.Accounted)
    (hc : m.heap[p]? = some c) (hget : c.getContext event = .ok .empty)
    (hG : scheduler.isSome = true)
    (hctx : ctx = { scheduler
                    fiber := waiter.getLeft?.map (⟨m.nextReg, ·⟩)
                    cb := waiter.getRight?.map (⟨m.nextReg, ·⟩) }) :
    Accounted { m with
      heap := m.heap.set p ({ c with events := c.events.insert event }.setContext event ctx)
      pendingEventCount := m.pendingEventCount + 1
      nextReg := m.nextReg + 1
      log := m.log ++ [.stored m.nextReg scheduler waiter] } where
  contexts := by
    refine h.contexts_set ((h.contexts c (List.mem_of_getElem? hc)).assign
      (fun e he => List.mem_append_left _ he) (fun other hne => Events.has_insert_ne _ hne) ?_)
    rw [Events.has_insert_self _ (FdContext.ne_none_of_getContext hget)]
    subst hctx
    cases waiter with
    | inl f =>
        refine ⟨⟨hG, rfl⟩, fun w hw => ?_, fun w hw => absurd hw (by simp)⟩
        obtain rfl : _ = w := Option.some.inj hw
        exact List.mem_append_right _ (List.mem_singleton_self _)
    | inr cb =>
        refine ⟨⟨hG, rfl⟩, fun w hw => absurd hw (by simp), fun w hw => ?_⟩
        obtain rfl : _ = w := Option.some.inj hw
        exact List.mem_append_right _ (List.mem_singleton_self _)
  kept := by
    intro r
    have hset := tally_set (f := FdContext.holds r)
      (({ c with events := c.events.insert event } : FdContext S F C).setContext event ctx) hc
    have hholds := FdContext.holds_assign (c.events.insert event) ctx hget r
    have hregs : ctx.regs = [m.nextReg] := by
      subst hctx
      cases waiter <;> rfl
    have hone : ([m.nextReg] : List Nat).count r = if r = m.nextReg then 1 else 0 := by
      rw [List.count_singleton]
      by_cases hr : r = m.nextReg
      · simp [hr]
      · simp [hr, Ne.symm hr]
    have hold := h.kept r
    have hlog : (m.log ++ [Entry.stored m.nextReg scheduler waiter]).countP (·.removes r)
        = m.log.countP (·.removes r) := by
      rw [List.countP_append]
      rfl
    rw [hregs, hone, EventContext.regs_empty, List.count_nil] at hholds
    simp only [hlog]
    by_cases hr : r = m.nextReg
    · subst hr
      simp only [Nat.lt_irrefl, if_false, if_true, Nat.lt_succ_self] at hold hholds ⊢
      omega
    · have hlt : r < m.nextReg + 1 ↔ r < m.nextReg := by omega
      simp only [hlt, hr, if_false] at hold hholds ⊢
      omega
  stored := by
    intro r
    rw [List.countP_append, h.stored r]
    by_cases hr : r = m.nextReg
    · subst hr
      simp [Entry.stores]
    · have hlt : r < m.nextReg + 1 ↔ r < m.nextReg := by omega
      simp [Entry.stores, hlt, Ne.symm hr]
  handed := by
    intro r
    rw [List.countP_append, List.countP_append, h.handed r]
    rfl
  same := by
    intro r s w hmem
    rcases List.mem_append.mp hmem with hmem | hmem
    · exact List.mem_append_left _ (h.same r s w hmem)
    · exact absurd (List.mem_singleton.mp hmem) (by simp)

/-- A set bit is cleared, its context emptied, and its registration recorded as
removed, with or without a hand-over. -/
theorem accounted_remove {p : FdContextPtr} {c : FdContext S F C} {event : Event}
    {ctx : EventContext S F C} {entries : List (Entry S F C)} (h : m.Accounted)
    (hc : m.heap[p]? = some c) (hget : c.getContext event = .ok ctx)
    (hremoves : ∀ r, entries.countP (·.removes r) = ctx.regs.count r)
    (hstores : ∀ r, entries.countP (·.stores r) = 0)
    (hhands : ∀ r, entries.countP (·.hands r) = entries.countP (·.triggers r))
    (hsame : ∀ r s w, .handed r s w ∈ entries → .stored r (some s) w ∈ m.log) :
    Accounted { m with
      heap := m.heap.set p ({ c with events := c.events.erase event }.setContext event .empty)
      pendingEventCount := decrement m.pendingEventCount
      log := m.log ++ entries } where
  contexts := by
    refine h.contexts_set ((h.contexts c (List.mem_of_getElem? hc)).assign
      (fun e he => List.mem_append_left _ he) (fun other hne => Events.has_erase_ne _ hne) ?_)
    rw [Events.has_erase_self]
    exact ⟨FdContext.matches_empty, FdContext.recorded_empty _⟩
  kept := by
    intro r
    have hset := tally_set (f := FdContext.holds r)
      (({ c with events := c.events.erase event } : FdContext S F C).setContext event .empty) hc
    have hholds := FdContext.holds_assign (c.events.erase event) .empty hget r
    have hold := h.kept r
    rw [EventContext.regs_empty, List.count_nil] at hholds
    rw [List.countP_append, hremoves]
    dsimp only
    omega
  stored := by
    intro r
    rw [List.countP_append, hstores, h.stored r]
    rfl
  handed := by
    intro r
    rw [List.countP_append, List.countP_append, h.handed r, hhands]
  same := by
    intro r s w hmem
    rcases List.mem_append.mp hmem with hmem | hmem
    · exact List.mem_append_left _ (h.same r s w hmem)
    · exact List.mem_append_left _ (hsame r s w hmem)

theorem countP_removes_map (regs : List Nat) (by_ : Remover) (r : Nat) :
    (regs.map fun q => (.removed q by_ : Entry S F C)).countP (·.removes r) = regs.count r := by
  rw [List.countP_map]
  rfl

theorem accounted_move (h : m.Accounted)
    (hm : Move (fun scheduler => scheduler.isSome = true) m m') : m'.Accounted := by
  cases hm with
  | epoll e => exact ⟨h.contexts, h.kept, h.stored, h.handed, h.same⟩
  | register scheduler waiter hc hhas hget hG hctx => exact accounted_register h hc hget hG hctx
  | @remove p c event ctx hc hhas hget =>
      refine accounted_remove h hc hget (fun r => countP_removes_map ctx.regs .delEvent r) ?_ ?_ ?_
      · intro r
        rw [List.countP_map]
        exact List.countP_eq_zero.mpr fun _ _ => Bool.false_ne_true
      · intro r
        rw [List.countP_map, List.countP_map]
        exact (List.countP_eq_zero.mpr fun _ _ => Bool.false_ne_true).trans
          (List.countP_eq_zero.mpr fun q _ => by simp [Entry.triggers]).symm
      · intro r s w hmem
        obtain ⟨q, -, hq⟩ := List.mem_map.mp hmem
        exact absurd hq (by simp)
  | @trigger p c c' event remover entries hr hc ht =>
      obtain ⟨hhas, ctx, s, hget, hs, rfl, rfl⟩ := FdContext.triggerEvent_ok ht
      obtain ⟨hmatch, hrec⟩ := h.contexts c (List.mem_of_getElem? hc) event ctx hget
      rw [hhas] at hmatch
      obtain ⟨r₀, w₀, hregs, hhand, hstored⟩ := FdContext.handOver_full hmatch hrec hs
      rw [hhand, hregs]
      refine accounted_remove h hc hget ?_ ?_ ?_ ?_
      · intro r
        simp [hregs, Entry.removes, List.count_singleton, List.countP_cons]
      · intro r
        simp [Entry.stores]
      · intro r
        simp [Entry.hands, Entry.triggers, hr, List.countP_cons]
      · intro r s' w hmem
        simp only [List.map_cons, List.map_nil, List.cons_append, List.nil_append, List.mem_cons,
          reduceCtorEq, false_or, List.not_mem_nil, or_false, Entry.handed.injEq] at hmem
        obtain ⟨rfl, rfl, rfl⟩ := hmem
        exact hstored
  | resize size => exact accounted_resize h size

/-! ## The assertion of `addEvent` -/

/-- The assertions of `addEvent`. -/
def ofAddEvent : Failure → Bool
  | .addEventTwice => true
  | .addEventContext => true
  | .addEventFiberState => true
  | _ => false

theorem getContext_failure {c : FdContext S F C} {event : Event} {e : Failure}
    (h : c.getContext event = .error e) : ofAddEvent e = false := by
  cases event with
  | NONE =>
      obtain rfl := Except.error.inj h
      rfl
  | READ => exact absurd h (by simp [FdContext.getContext])
  | WRITE => exact absurd h (by simp [FdContext.getContext])

theorem deref_failure {p : FdContextPtr} {e : Failure} (h : m.deref p = .error e) :
    ofAddEvent e = false := by
  rw [deref_error h]
  rfl

theorem triggerIf_failure {mask : Bool} {p : FdContextPtr} {event : Event} {remover : Remover}
    {e : Failure} (h : m.triggerIf mask p event remover = .error e) : ofAddEvent e = false := by
  cases mask with
  | false => exact absurd h (by simp [triggerIf])
  | true =>
      rcases bind_error h with h | ⟨c, -, h⟩
      · exact deref_failure h
      · rcases bind_error h with h | ⟨_, -, h⟩
        · rw [FdContext.triggerEvent] at h
          split at h
          · rcases bind_error h with h | ⟨ctx, -, h⟩
            · exact getContext_failure h
            · split at h
              · obtain rfl := Except.error.inj h
                rfl
              · exact absurd h (by simp)
          · obtain rfl := Except.error.inj h
            rfl
        · exact absurd h (by simp)

theorem delEvent_failure {fd : Nat} {p : FdContextPtr} {event : Event} {ok : Bool} {e : Failure}
    (h : m.delEvent fd p event ok = .error e) : ofAddEvent e = false := by
  rcases bind_error h with h | ⟨c, -, h⟩
  · exact deref_failure h
  · split at h
    · dsimp only at h
      split at h
      · exact absurd h (by simp)
      · rcases bind_error h with h | ⟨ctx, -, h⟩
        · exact getContext_failure h
        · exact absurd h (by simp)
    · exact absurd h (by simp)

theorem cancelEvent_failure {fd : Nat} {p : FdContextPtr} {event : Event} {ok : Bool}
    {e : Failure} (h : m.cancelEvent fd p event ok = .error e) : ofAddEvent e = false := by
  rcases bind_error h with h | ⟨c, -, h⟩
  · exact deref_failure h
  · split at h
    · dsimp only at h
      split at h
      · exact absurd h (by simp)
      · rcases bind_error h with h | ⟨_, -, h⟩
        · have h : IOManager.triggerIf _ true p event .cancelEvent = .error e := h
          exact triggerIf_failure h
        · exact absurd h (by simp)
    · exact absurd h (by simp)

theorem cancelAll_failure {fd : Nat} {p : FdContextPtr} {ok : Bool} {e : Failure}
    (h : m.cancelAll fd p ok = .error e) : ofAddEvent e = false := by
  rcases bind_error h with h | ⟨c, -, h⟩
  · exact deref_failure h
  · split at h
    · exact absurd h (by simp)
    · split at h
      · exact absurd h (by simp)
      · rcases bind_error h with h | ⟨m₁, -, h⟩
        · exact triggerIf_failure h
        · rcases bind_error h with h | ⟨c₁, -, h⟩
          · exact deref_failure h
          · rcases bind_error h with h | ⟨m₂, -, h⟩
            · exact triggerIf_failure h
            · rcases bind_error h with h | ⟨c₂, -, h⟩
              · exact deref_failure h
              · split at h
                · exact absurd h (by simp)
                · obtain rfl := Except.error.inj h
                  rfl

theorem dispatch_failure {p : FdContextPtr} {mask : Mask} {ok : Bool} {e : Failure}
    (h : m.dispatch p mask ok = .error e) : ofAddEvent e = false := by
  rcases bind_error h with h | ⟨c, -, h⟩
  · exact deref_failure h
  · dsimp only at h
    split at h
    · exact absurd h (by simp)
    · split at h
      · exact absurd h (by simp)
      · rcases bind_error h with h | ⟨m₁, -, h⟩
        · exact triggerIf_failure h
        · exact triggerIf_failure h

/-- `addEvent` finds the context of a clear bit empty. -/
theorem addEvent_context {fd : Nat} {p : FdContextPtr} {event : Event} {args : AddArgs S F C}
    {ok : Bool} (h : m.Accounted) : m.addEvent fd p event args ok ≠ .error .addEventContext := by
  intro herr
  rcases bind_error herr with herr | ⟨c, hc, herr⟩
  · exact absurd (deref_error herr) (by decide)
  · have hc := deref_ok.mp hc
    split at herr
    · exact absurd herr (by simp)
    · rename_i hclear
      dsimp only at herr
      split at herr
      · exact absurd herr (by simp)
      · rcases bind_error herr with herr | ⟨ctx, hctx, herr⟩
        · cases event <;> exact absurd herr (by simp [FdContext.getContext])
        · have hget : c.getContext event = .ok ctx := by
            cases event <;> exact hctx
          obtain ⟨hmatch, -⟩ := h.contexts c (List.mem_of_getElem? hc) event ctx hget
          obtain rfl : ctx = .empty := by
            simpa [EventContext.Matches, Bool.eq_false_iff.mpr hclear] using hmatch
          simp only [EventContext.empty, Option.isSome_none, Bool.or_self, Bool.false_eq_true,
            if_false] at herr
          split at herr
          · exact absurd herr (by simp)
          · split at herr <;> exact absurd herr (by simp)

theorem Accounted.kept_or_removed {r : Nat} (h : m.Accounted) (hr : r < m.nextReg) :
    (∃ c ∈ m.heap, ∃ event ctx, c.getContext event = .ok ctx ∧ c.events.has event = true ∧
      r ∈ ctx.regs) ∨ m.log.any (·.removes r) = true := by
  by_cases hrem : m.log.countP (·.removes r) = 0
  · left
    have hkept := h.kept r
    rw [hrem, if_pos hr] at hkept
    obtain ⟨c, hc, hholds⟩ : ∃ c ∈ m.heap, c.holds r ≠ 0 := by
      by_contra hno
      have hzero : ∀ c ∈ m.heap, c.holds r = 0 := fun c hc =>
        Classical.byContradiction fun hne => hno ⟨c, hc, hne⟩
      have := tally_eq_zero hzero
      omega
    have hset : ∀ event ctx, c.getContext event = .ok ctx → r ∈ ctx.regs →
        c.events.has event = true := by
      intro event ctx hget hmem
      obtain ⟨hmatch, -⟩ := h.contexts c hc event ctx hget
      by_contra hclear
      rw [Bool.eq_false_iff.mpr hclear] at hmatch
      obtain rfl : ctx = .empty := by simpa [EventContext.Matches] using hmatch
      exact absurd hmem (by simp)
    by_cases hread : c.read.regs.count r = 0
    · have hwrite : r ∈ c.write.regs := by
        refine List.count_pos_iff.mp (Nat.pos_of_ne_zero fun hz => hholds ?_)
        rw [FdContext.holds, hread, hz]
      exact ⟨c, hc, .WRITE, c.write, rfl, hset .WRITE c.write rfl hwrite, hwrite⟩
    · have hread : r ∈ c.read.regs := List.count_pos_iff.mp (Nat.pos_of_ne_zero hread)
      exact ⟨c, hc, .READ, c.read, rfl, hset .READ c.read rfl hread, hread⟩
  · right
    obtain ⟨e, he, hre⟩ := List.countP_pos_iff.mp (Nat.pos_of_ne_zero hrem)
    exact List.any_eq_true.mpr ⟨e, he, hre⟩

theorem Accounted.removes_le_one (h : m.Accounted) (r : Nat) :
    m.log.countP (·.removes r) ≤ 1 := by
  have := h.kept r
  split at this <;> omega

end IOManager

namespace EventSys

open IOManager

/-- A call to `addEvent` is made on a thread that has a scheduler. -/
def onScheduler : EventAct S F C T → Bool
  | .call _ (.addEvent _ _ args) => args.scheduler.isSome
  | _ => true

variable [DecidableEq T] {s : EventSys S F C T}

theorem step_context {a : EventAct S F C T} (h : s.mgr.Accounted) :
    s.step a ≠ some (.error .addEventContext) := by
  intro herr
  rcases step_error_cases herr with he | ⟨t, ok, call, p, -, -, herr⟩ |
    ⟨t, ok, p, mask, events, -, -, herr⟩
  · exact absurd he (by decide)
  · cases call with
    | addEvent fd event args => exact addEvent_context h (map_fst_error herr)
    | delEvent fd event => exact absurd (delEvent_failure (map_fst_error herr)) (by decide)
    | cancelEvent fd event => exact absurd (cancelEvent_failure (map_fst_error herr)) (by decide)
    | cancelAll fd => exact absurd (cancelAll_failure (map_fst_error herr)) (by decide)
  · exact absurd (dispatch_failure herr) (by decide)

/-- **Every waiter is handed over at most once.**  In every run in which
`addEvent` is called on threads that have a scheduler: a registration is removed
at most once, it is handed over exactly as often as `idle`, `cancelEvent` or
`cancelAll` removed it, and what is handed over is what was stored, to the
scheduler it was stored with; a registration that was stored is still held by
the context of a set bit or has been removed; a set bit has a scheduler and
either a fiber or a callback and a clear bit has neither; and `addEvent` never
finds a waiter in the context of a clear bit. -/
theorem waiters_handed_once
    (h : Reach (proceed step) (fun _ a => onScheduler a = true) (init : EventSys S F C T) s) :
    (∀ r, s.mgr.log.countP (·.removes r) ≤ 1 ∧
      s.mgr.log.countP (·.hands r) = s.mgr.log.countP (·.triggers r)) ∧
    (∀ r w waiter, .handed r w waiter ∈ s.mgr.log → .stored r (some w) waiter ∈ s.mgr.log) ∧
    (∀ r w waiter, .stored r w waiter ∈ s.mgr.log →
      (∃ c ∈ s.mgr.heap, ∃ event ctx, c.getContext event = .ok ctx ∧
        c.events.has event = true ∧ r ∈ ctx.regs) ∨ s.mgr.log.any (·.removes r) = true) ∧
    (∀ c ∈ s.mgr.heap, ∀ event ctx, c.getContext event = .ok ctx →
      if c.events.has event then ctx.scheduler.isSome ∧ ctx.fiber.isSome = !ctx.cb.isSome
      else ctx = .empty) ∧
    ∀ a, s.step a ≠ some (.error .addEventContext) := by
  have hacc : s.mgr.Accounted := by
    refine reach_mgr (G := fun scheduler => scheduler.isSome = true) h ?_ accounted_create
      fun _ _ => accounted_move
    intro s a ha
    cases a with
    | call t call =>
        cases call with
        | addEvent fd event args => exact ha
        | _ => exact trivial
    | _ => exact trivial
  refine ⟨fun r => ⟨hacc.removes_le_one r, hacc.handed r⟩, hacc.same, ?_,
    fun c hc event ctx hget => (hacc.contexts c hc event ctx hget).1, fun a => step_context hacc⟩
  intro r w waiter hmem
  refine hacc.kept_or_removed ?_
  have hpos : 0 < s.mgr.log.countP (·.stores r) :=
    List.countP_pos_iff.mpr ⟨_, hmem, by simp [Entry.stores]⟩
  have := hacc.stored r
  by_contra hlt
  rw [if_neg hlt] at this
  omega

/-- One thread of a scheduler waits for both events of descriptor 5; reading is
cancelled, writing is deleted, and reading is registered again. -/
def cancelAndDelete : List (EventAct Unit Unit Unit Unit) :=
  let add event : List (EventAct Unit Unit Unit Unit) :=
    [.call () (.addEvent 5 event ⟨none, some (), (), true⟩), .lookup (), .enter () true]
  add .READ ++ add .WRITE ++
    [.call () (.cancelEvent 5 .READ), .lookup (), .enter () true,
      .call () (.delEvent 5 .WRITE), .lookup (), .enter () true] ++ add .READ

theorem waiters_handed_once_cancelAndDelete :
    ∃ s, run (guarded (proceed step) fun _ a => onScheduler a = true) init cancelAndDelete =
        some s ∧
      ∀ r, s.mgr.log.countP (·.removes r) ≤ 1 ∧
        s.mgr.log.countP (·.hands r) = s.mgr.log.countP (·.triggers r) := by
  obtain ⟨s, hrun⟩ : ∃ s, run (guarded (proceed step) fun _ a => onScheduler a = true) init
      cancelAndDelete = some s := ⟨_, rfl⟩
  exact ⟨s, hrun, (waiters_handed_once (run_reach _ hrun)).1⟩

/-- A thread that belongs to no scheduler registers an event. -/
def withoutScheduler : List (EventAct Unit Unit Unit Unit) :=
  [.call () (.addEvent 5 .READ ⟨some (), none, (), true⟩), .lookup (), .enter () true]

/-- Its bit is set and its context has no scheduler. -/
theorem addEvent_without_scheduler :
    ¬ ∀ s : EventSys Unit Unit Unit Unit, Reach (proceed step) (fun _ _ => True) init s →
      ∀ c ∈ s.mgr.heap, ∀ event ctx, c.getContext event = .ok ctx →
        (c.events.has event = true ↔
          ctx.scheduler.isSome = true ∧ ctx.fiber.isSome = !ctx.cb.isSome) := by
  intro h
  obtain ⟨s, hrun, hevents⟩ : ∃ s : EventSys Unit Unit Unit Unit,
      run (guarded (proceed step) fun _ _ => True) init withoutScheduler = some s ∧
      s.mgr.heap[5]?.map (fun c => (c.events.has .READ, c.read.scheduler)) = some (true, none) :=
    ⟨_, rfl, rfl⟩
  obtain ⟨c, hc, hpair⟩ := Option.map_eq_some_iff.mp hevents
  obtain ⟨hhas, hnone⟩ := Prod.mk.inj hpair
  have := (h s (run_reach _ hrun) c (List.mem_of_getElem? hc) .READ _ rfl).mp hhas
  rw [hnone] at this
  exact absurd this.1 (by simp)

end EventSys

end CoLib
