/-
# `CoLib.Hook.Registered` — a registration and its hand-over

A hooked call registers its fiber under a number of its own, and parks until the
number is handed over.  That is recorded in the log; whether the event is still in
the mask is read off the context.  Here the two are connected for one number,
whatever else happens to the manager: `Own` is kept by the five moves, so what has
been handed over waits nowhere any more.  Nothing is asked of the schedulers of
other registrations.
-/
import CoLib.Hook.TimedWait

namespace CoLib

open Lib Relation

variable {S F C T : Type}

namespace FdContext

/-- What is handed over, and what stays, was stored. -/
theorem handOver_regs (ctx : EventContext S F C) (s : S) (r : Nat) :
    (r ∈ (handOver ctx s).1.regs → r ∈ ctx.regs) ∧
      ((handOver ctx s).2.any (Entry.hands r) = true → r ∈ ctx.regs) := by
  obtain ⟨scheduler, fiber, cb⟩ := ctx
  cases cb with
  | some w =>
      refine ⟨fun h => List.mem_append_left _ (by simpa [handOver, EventContext.regs] using h), ?_⟩
      intro h
      have hw : w.reg = r := by simpa [handOver, Entry.hands] using h
      exact List.mem_append_right _ (by simp [hw])
  | none =>
      cases fiber with
      | none => exact ⟨fun h => absurd h (by simp [handOver, EventContext.regs]), fun h =>
          absurd h (by simp [handOver])⟩
      | some w =>
          refine ⟨fun h => absurd h (by simp [handOver, EventContext.regs]), ?_⟩
          intro h
          have hw : w.reg = r := by simpa [handOver, Entry.hands] using h
          simp [EventContext.regs, hw]

end FdContext

namespace IOManager

variable {G : Option S → Prop} {m m' : IOManager S F C} {p q : FdContextPtr} {event : Event}
  {r : Nat}

/-- The waiter of registration `r` is stored in a context of `*p`. -/
def Stored (m : IOManager S F C) (p : FdContextPtr) (event : Event) (r : Nat) : Prop :=
  ∃ c ctx, m.heap[p]? = some c ∧ c.getContext event = .ok ctx ∧ r ∈ ctx.regs

/-- The waiter of registration `r` has been handed to a scheduler. -/
def Handed (m : IOManager S F C) (r : Nat) : Prop :=
  m.log.any (Entry.hands r) = true

/-- What is removed is not thereby handed over. -/
theorem hands_removed (regs : List Nat) (remover : Remover) (r : Nat) :
    (regs.map fun r' => (.removed r' remover : Entry S F C)).any (Entry.hands r) = false := by
  rw [List.any_map, List.any_eq_false]
  exact fun _ _ => Bool.false_ne_true

/-- A fiber that waits is stored. -/
theorem stored_of_waiting (h : m.waiting p event = some r) : m.Stored p event r := by
  obtain ⟨c, hc, h⟩ := Option.bind_eq_some_iff.mp h
  rw [FdContext.waiting] at h
  split at h
  · rename_i ctx _ hget
    obtain ⟨w, hw, rfl⟩ := Option.map_eq_some_iff.mp h
    exact ⟨c, ctx, hc, hget, by simp [EventContext.regs, hw]⟩
  · cases h

/-- One bit is assigned with its context. -/
theorem stored_assign {c : FdContext S F C} {events : Events} {other : Event}
    {ctx : EventContext S F C} (hc : m.heap[q]? = some c)
    (hheap : m'.heap = m.heap.set q (({ c with events } : FdContext S F C).setContext other ctx))
    (h : m'.Stored p event r) : (p = q ∧ event = other ∧ r ∈ ctx.regs) ∨ m.Stored p event r := by
  obtain ⟨c', ctx', hc', hget, hr⟩ := h
  rw [hheap] at hc'
  by_cases hpq : p = q
  · subst hpq
    rw [List.getElem?_set_self (List.getElem?_eq_some_iff.mp hc).1] at hc'
    obtain rfl := Option.some.inj hc'
    rcases FdContext.getContext_setContext hget with ⟨rfl, rfl⟩ | ⟨-, hget⟩
    · exact .inl ⟨rfl, rfl, hr⟩
    · have hold : c.getContext event = .ok ctx' := by
        cases event <;> exact hget
      exact .inr ⟨c, ctx', hc, hold, hr⟩
  · rw [List.getElem?_set_ne (Ne.symm hpq)] at hc'
    exact .inr ⟨c', ctx', hc', hget, hr⟩

/-- A move stores no number but the next one, and hands over what was stored, in a
context whose bit it clears. -/
theorem move_number (h : Move G m m') (r : Nat) :
    m.nextReg ≤ m'.nextReg ∧
    (∀ p event, m'.Stored p event r →
      m.Stored p event r ∨ r = m.nextReg ∧ m.nextReg < m'.nextReg) ∧
    (m'.Handed r → m.Handed r ∨ ∃ p event, m.Stored p event r ∧ m'.waiting p event = none) := by
  cases h with
  | epoll e => exact ⟨le_rfl, fun _ _ h => .inl h, .inl⟩
  | @register q c other ctx scheduler waiter hc hhas hget hG hctx =>
      refine ⟨Nat.le_succ _, fun p event hst => ?_, fun hh => .inl ?_⟩
      · rcases stored_assign hc rfl hst with ⟨-, -, hr⟩ | hst
        · subst hctx
          refine .inr ⟨?_, Nat.lt_succ_self _⟩
          cases waiter with
          | inl f => simpa [EventContext.regs] using hr
          | inr cb => simpa [EventContext.regs] using hr
        · exact .inl hst
      · simpa [Handed, Entry.hands] using hh
  | @remove q c other ctx hc hhas hget =>
      refine ⟨le_rfl, fun p event hst => .inl ?_, fun hh => .inl ?_⟩
      · rcases stored_assign hc rfl hst with ⟨-, -, hr⟩ | hst
        · exact absurd hr (by simp)
        · exact hst
      · rw [Handed, List.any_append, hands_removed, Bool.or_false] at hh
        exact hh
  | @trigger q c c' other remover entries hr hc ht =>
      obtain ⟨hhas, ctx, s, hget, -, rfl, rfl⟩ := FdContext.triggerEvent_ok ht
      obtain ⟨hkeep, hhand⟩ := FdContext.handOver_regs ctx s r
      refine ⟨le_rfl, fun p event hst => .inl ?_, fun hh => ?_⟩
      · rcases stored_assign hc rfl hst with ⟨rfl, rfl, hr⟩ | hst
        · exact ⟨c, ctx, hc, hget, hkeep hr⟩
        · exact hst
      · rw [Handed, List.any_append, Bool.or_eq_true] at hh
        rcases hh with hh | hh
        · exact .inl hh
        · refine .inr ⟨q, other, ⟨c, ctx, hc, hget, hhand ?_⟩, ?_⟩
          · rw [List.any_append, hands_removed, Bool.false_or] at hh
            exact hh
          · rw [waiting_assign hc rfl fun ev hne => Events.has_erase_ne c.events hne]
            rw [if_pos ⟨rfl, rfl⟩, Events.has_erase_self, if_neg Bool.false_ne_true]
  | resize size =>
      refine ⟨le_rfl, fun p event hst => .inl ?_, .inl⟩
      obtain ⟨c, ctx, hc, hget, hr⟩ := hst
      simp only [contextResize] at hc
      rw [List.getElem?_append] at hc
      split at hc
      · exact ⟨c, ctx, hc, hget, hr⟩
      · obtain ⟨i, -, rfl⟩ := List.mem_map.mp (List.mem_of_getElem? hc)
        cases event with
        | NONE => cases hget
        | READ =>
            obtain rfl := Except.ok.inj hget
            exact absurd hr (by simp [FdContext.new])
        | WRITE =>
            obtain rfl := Except.ok.inj hget
            exact absurd hr (by simp [FdContext.new])

/-! ## Invariants -/

/-- Only numbers below the next one are stored or have been handed over. -/
structure Numbered (m : IOManager S F C) : Prop where
  stored : ∀ p event r, m.Stored p event r → r < m.nextReg
  handed : ∀ r, m.Handed r → r < m.nextReg

theorem numbered_move (hn : m.Numbered) (h : Move G m m') : m'.Numbered where
  stored := fun p event r hst => by
    obtain ⟨hle, hstored, -⟩ := move_number h r
    rcases hstored p event hst with hst | ⟨rfl, hlt⟩
    · exact (hn.stored p event r hst).trans_le hle
    · exact hlt
  handed := fun r hh => by
    obtain ⟨hle, -, hhanded⟩ := move_number h r
    rcases hhanded hh with hh | ⟨p, event, hst, -⟩
    · exact (hn.handed r hh).trans_le hle
    · exact (hn.stored p event r hst).trans_le hle

theorem numbered_moves (hn : m.Numbered) (h : ReflTransGen (Move G) m m') : m'.Numbered :=
  moves_keep (fun _ _ => numbered_move) h hn

theorem numbered_create : (create : IOManager S F C).Numbered := by
  refine numbered_move (G := fun _ => True) ⟨?_, ?_⟩ (.resize _ 32)
  · rintro p event r ⟨c, ctx, hc, -⟩
    exact absurd hc (by simp)
  · intro r hh
    exact absurd hh (by simp [Handed])

/-- Number `r` stands for a fiber that waits for `event` on `*p`, or did until it
was handed over. -/
structure Own (p : FdContextPtr) (event : Event) (r : Nat) (m : IOManager S F C) : Prop where
  known : r < m.nextReg
  place : ∀ q other, m.Stored q other r → q = p ∧ other = event
  gone : m.Handed r → m.waiting p event ≠ some r

theorem own_move (ho : m.Own p event r) (h : Move G m m') : m'.Own p event r := by
  obtain ⟨hle, hstored, hhanded⟩ := move_number h r
  refine ⟨ho.known.trans_le hle, fun q other hst => ?_, fun hh hw => ?_⟩
  · rcases hstored q other hst with hst | ⟨rfl, -⟩
    · exact ho.place q other hst
    · exact absurd ho.known (lt_irrefl _)
  · have hback : m.waiting p event = some r := (keeps_move h).2 r ho.known hw
    rcases hhanded hh with hh | ⟨q, other, hst, hnone⟩
    · exact ho.gone hh hback
    · obtain ⟨rfl, rfl⟩ := ho.place q other hst
      rw [hnone] at hw
      cases hw

theorem own_moves (ho : m.Own p event r) (h : ReflTransGen (Move G) m m') : m'.Own p event r :=
  moves_keep (I := fun m => m.Own p event r) (fun _ _ => own_move) h ho

/-- A number that has been handed over waits nowhere. -/
theorem Own.not_waiting (ho : m.Own p event r) (hh : m.Handed r) (q : FdContextPtr)
    (other : Event) : m.waiting q other ≠ some r := by
  intro hw
  obtain ⟨rfl, rfl⟩ := ho.place q other (stored_of_waiting hw)
  exact ho.gone hh hw

/-- Hand-overs stay in the log. -/
theorem handed_move (hh : m.Handed r) (h : Move G m m') : m'.Handed r := by
  have happend : ∀ es : List (Entry S F C), (m.log ++ es).any (Entry.hands r) = true := by
    intro es
    rw [List.any_append, show m.log.any (Entry.hands r) = true from hh, Bool.true_or]
  cases h with
  | epoll e => exact hh
  | register scheduler waiter hc hhas hget hG hctx => exact happend _
  | remove hc hhas hget => exact happend _
  | trigger hr hc ht => exact happend _
  | resize size => exact hh

theorem handed_moves (hh : m.Handed r) (h : ReflTransGen (Move G) m m') : m'.Handed r :=
  moves_keep (I := fun m => m.Handed r) (fun _ _ => handed_move) h hh

/-- `addEvent` leaves the manager as it is, or assigns a bit that is not set with its
context, which holds a fiber if it was given no callback, and makes one entry. -/
theorem addEvent_stores {fd : Nat} {args : AddArgs S F C} {ok : Bool} {rt : Int}
    (h : m.addEvent fd p event args ok = .ok (m', rt)) :
    m' = m ∧ rt = -1 ∨ ∃ c ctx waiter, m.heap[p]? = some c ∧ c.events.has event = false ∧
      m'.heap = m.heap.set p
        (({ c with events := c.events.insert event } : FdContext S F C).setContext event ctx) ∧
      m'.log = m.log ++ [.stored m.nextReg args.scheduler waiter] ∧
      (args.cb = none → ctx.fiber = some ⟨m.nextReg, args.fiber⟩ ∧ ctx.cb = none) ∧
      event ≠ .NONE ∧ ok = true := by
  obtain ⟨c, hc, h⟩ := bind_ok h
  have hc := deref_ok.mp hc
  split at h
  · cases h
  rename_i hhas
  dsimp only at h
  split at h
  · obtain ⟨rfl, rfl⟩ := Prod.mk.inj (Except.ok.inj h)
    exact .inl ⟨rfl, rfl⟩
  rename_i epoll hctl
  have hok : ok = true := by
    cases ok with
    | true => rfl
    | false => exact absurd hctl (by simp [epollCtl])
  obtain ⟨ctx, hctx, h⟩ := bind_ok h
  have hne : event ≠ .NONE := FdContext.ne_none_of_getContext hctx
  split at h
  · cases h
  rename_i hempty
  simp only [Bool.or_eq_true, not_or, Bool.not_eq_true, Option.isSome_eq_false_iff,
    Option.isNone_iff_eq_none] at hempty
  split at h
  · rename_i cb hcb
    obtain ⟨rfl, -⟩ := Prod.mk.inj (Except.ok.inj h)
    exact .inr ⟨c, _, _, hc, by simpa using hhas, rfl, rfl,
      fun hnone => absurd (hcb.symm.trans hnone) (by simp), hne, hok⟩
  · split at h
    · obtain ⟨rfl, -⟩ := Prod.mk.inj (Except.ok.inj h)
      exact .inr ⟨c, _, _, hc, by simpa using hhas, rfl, rfl, fun _ => ⟨rfl, hempty.2⟩, hne,
        hok⟩
    · cases h

/-- A registration that `addEvent` has made has the next number. -/
theorem addEvent_own {fd : Nat} {args : AddArgs S F C} {ok : Bool} (hn : m.Numbered)
    (h : m.addEvent fd p event args ok = .ok (m', 0)) :
    m'.Own p event m.nextReg ∧ ¬ m'.Handed m.nextReg := by
  have hnew := addEvent_nextReg h
  rcases addEvent_stores h with ⟨-, hrt⟩ | ⟨c, ctx, waiter, hc, -, hheap, hlog, -⟩
  · cases hrt
  have hfresh : ¬ m'.Handed m.nextReg := by
    intro hh
    rw [Handed, hlog, List.any_append, Bool.or_eq_true] at hh
    rcases hh with hh | hh
    · exact absurd (hn.handed _ hh) (lt_irrefl _)
    · exact absurd hh (by simp [Entry.hands])
  refine ⟨⟨hnew ▸ Nat.lt_succ_self _, fun q other hst => ?_, fun hh => absurd hh hfresh⟩, hfresh⟩
  rcases stored_assign hc hheap hst with ⟨rfl, rfl, -⟩ | hst
  · exact ⟨rfl, rfl⟩
  · exact absurd (hn.stored _ _ _ hst) (lt_irrefl _)

/-! ## Who hands a registration over -/

/-- Registration `r` is in the mask of `*p`: the bit of its event is set, and its waiter
is stored. -/
def registered (m : IOManager S F C) (p : FdContextPtr) (event : Event) (r : Nat) : Bool :=
  (m.heap[p]?).any fun c =>
    c.events.has event && (c.getContext event).toOption.any fun ctx => ctx.regs.contains r

theorem registered_iff : m.registered p event r = true ↔
    ∃ c ctx, m.heap[p]? = some c ∧ c.events.has event = true ∧ c.getContext event = .ok ctx ∧
      r ∈ ctx.regs := by
  rw [registered, Option.any_eq_true]
  constructor
  · rintro ⟨c, hc, h⟩
    rw [Bool.and_eq_true, Option.any_eq_true] at h
    obtain ⟨hhas, ctx, hctx, hr⟩ := h
    refine ⟨c, ctx, hc, hhas, ?_, List.contains_iff_mem.mp hr⟩
    cases hget : c.getContext event with
    | error e =>
        rw [hget] at hctx
        cases hctx
    | ok ctx' =>
        rw [hget] at hctx
        exact congrArg _ (Option.some.inj hctx)
  · rintro ⟨c, ctx, hc, hhas, hget, hr⟩
    refine ⟨c, hc, ?_⟩
    rw [hhas, hget, Bool.true_and, Option.any_eq_true]
    exact ⟨ctx, rfl, List.contains_iff_mem.mpr hr⟩

theorem stored_of_registered (h : m.registered p event r = true) : m.Stored p event r := by
  obtain ⟨c, ctx, hc, -, hget, hr⟩ := registered_iff.mp h
  exact ⟨c, ctx, hc, hget, hr⟩

/-- One bit is assigned with its context. -/
theorem registered_assign {c : FdContext S F C} {events : Events} {other : Event}
    {ctx : EventContext S F C} (hc : m.heap[q]? = some c)
    (hheap : m'.heap = m.heap.set q (({ c with events } : FdContext S F C).setContext other ctx))
    (hother : ∀ ev, ev ≠ other → events.has ev = c.events.has ev)
    (h : m'.registered p event r = true) :
    events.has other = true ∧ r ∈ ctx.regs ∨ m.registered p event r = true := by
  obtain ⟨c', ctx', hc', hhas, hget, hr⟩ := registered_iff.mp h
  rw [hheap] at hc'
  by_cases hpq : p = q
  · subst hpq
    rw [List.getElem?_set_self (List.getElem?_eq_some_iff.mp hc).1] at hc'
    obtain rfl := Option.some.inj hc'
    rw [FdContext.events_setContext] at hhas
    rcases FdContext.getContext_setContext hget with ⟨rfl, rfl⟩ | ⟨hne, hget⟩
    · exact .inl ⟨hhas, hr⟩
    · have hold : c.getContext event = .ok ctx' := by
        cases event <;> exact hget
      exact .inr (registered_iff.mpr ⟨c, ctx', hc, (hother event hne) ▸ hhas, hold, hr⟩)
  · rw [List.getElem?_set_ne (Ne.symm hpq)] at hc'
    exact .inr (registered_iff.mpr ⟨c', ctx', hc', hhas, hget, hr⟩)

/-- What is taken out of a mask is not put into another. -/
theorem registered_erase {c : FdContext S F C} {other : Event} {ctx : EventContext S F C}
    (hc : m.heap[q]? = some c)
    (hheap : m'.heap = m.heap.set q
      (({ c with events := c.events.erase other } : FdContext S F C).setContext other ctx))
    (h : m'.registered p event r = true) : m.registered p event r = true := by
  rcases registered_assign hc hheap (fun ev hne => Events.has_erase_ne c.events hne) h with
    ⟨hhas, -⟩ | hreg
  · rw [Events.has_erase_self] at hhas
    cases hhas
  · exact hreg

/-- A registration that has been made stays where it is, or is removed. -/
theorem registered_move (hr : r < m.nextReg) (h : Move G m m')
    (hreg : m'.registered p event r = true) : m.registered p event r = true := by
  cases h with
  | epoll e => exact hreg
  | @register q c other ctx scheduler waiter hc hhas hget hG hctx =>
      rcases registered_assign hc rfl (fun ev hne => Events.has_insert_ne c.events hne) hreg with
        ⟨-, hmem⟩ | hreg
      · -- the new registration has the next number
        obtain rfl : r = m.nextReg := by
          subst hctx
          cases waiter with
          | inl f => simpa [EventContext.regs] using hmem
          | inr cb => simpa [EventContext.regs] using hmem
        exact absurd hr (lt_irrefl _)
      · exact hreg
  | remove hc hhas hget => exact registered_erase hc rfl hreg
  | trigger hr hc ht =>
      obtain ⟨-, ctx, s, -, -, rfl, -⟩ := FdContext.triggerEvent_ok ht
      exact registered_erase hc rfl hreg
  | resize size =>
      obtain ⟨c, ctx, hc, hhas, hget, hmem⟩ := registered_iff.mp hreg
      simp only [contextResize] at hc
      rw [List.getElem?_append] at hc
      split at hc
      · exact registered_iff.mpr ⟨c, ctx, hc, hhas, hget, hmem⟩
      · obtain ⟨i, -, rfl⟩ := List.mem_map.mp (List.mem_of_getElem? hc)
        cases event <;> cases hhas

theorem nextReg_moves (h : ReflTransGen (Move G) m m') : m.nextReg ≤ m'.nextReg :=
  moves_keep (I := fun m' => m.nextReg ≤ m'.nextReg)
    (fun _ _ hle hmove => hle.trans (move_number hmove 0).1) h le_rfl

theorem registered_moves (hr : r < m.nextReg) (h : ReflTransGen (Move G) m m')
    (hreg : m'.registered p event r = true) : m.registered p event r = true := by
  induction h with
  | refl => exact hreg
  | tail hmoves hmove ih =>
      exact ih (registered_move (hr.trans_le (nextReg_moves hmoves)) hmove hreg)

/-- `triggerEvent` hands over what is in the mask, and puts nothing into it. -/
theorem trigger_hands {remover : Remover} (h : m.trigger p event remover = .ok m') :
    (m'.Handed r → m.Handed r ∨ m.registered p event r = true) ∧
      ∀ q other, m'.registered q other r = true → m.registered q other r = true := by
  obtain ⟨c, hc, h⟩ := bind_ok h
  have hc := deref_ok.mp hc
  obtain ⟨⟨c', entries⟩, htrig, h⟩ := bind_ok h
  obtain rfl := Except.ok.inj h
  obtain ⟨hhas, ctx, s, hget, -, rfl, rfl⟩ := FdContext.triggerEvent_ok htrig
  obtain ⟨-, hhand⟩ := FdContext.handOver_regs ctx s r
  refine ⟨fun hh => ?_, fun q other => registered_erase hc rfl⟩
  rw [Handed, List.any_append, Bool.or_eq_true] at hh
  refine hh.imp_right fun hnew => registered_iff.mpr ⟨c, ctx, hc, hhas, hget, hhand ?_⟩
  rw [List.any_append, hands_removed, Bool.false_or] at hnew
  exact hnew

theorem triggerIf_hands {mask : Bool} {remover : Remover}
    (h : m.triggerIf mask p event remover = .ok m') :
    (m'.Handed r → m.Handed r ∨ mask = true ∧ m.registered p event r = true) ∧
      ∀ q other, m'.registered q other r = true → m.registered q other r = true := by
  cases mask with
  | true => exact (trigger_hands h).imp_left fun hh hnew => (hh hnew).imp_right (⟨rfl, ·⟩)
  | false =>
      obtain rfl := Except.ok.inj h
      exact ⟨.inl, fun _ _ => id⟩

/-- The kernel takes an `epoll_ctl` that modifies or removes an entry only if there is
one. -/
theorem epollCtl_some {op : CtlOp} {fd : Nat} {events : Events} {ok : Bool}
    {e : Nat → Option (Events × FdContextPtr)} (hop : op ≠ .ADD)
    (h : m.epollCtl op fd events p ok = some e) : ok = true ∧ (m.epoll fd).isSome = true := by
  cases ok with
  | false => exact absurd h (by simp [epollCtl])
  | true =>
      refine ⟨rfl, ?_⟩
      cases hep : m.epoll fd with
      | some entry => rfl
      | none => cases op <;> simp [epollCtl, hep] at h hop

theorem op_ne_ADD (b : Prop) [Decidable b] : (if b then CtlOp.DEL else CtlOp.MOD) ≠ .ADD := by
  split <;> decide

theorem addEvent_hands {fd : Nat} {args : AddArgs S F C} {ok : Bool} {rt : Int}
    (h : m.addEvent fd p event args ok = .ok (m', rt)) (hh : m'.Handed r) : m.Handed r := by
  rcases addEvent_stores h with ⟨rfl, -⟩ | ⟨c, ctx, waiter, -, -, -, hlog, -⟩
  · exact hh
  · rw [Handed, hlog] at hh
    simpa [Handed, Entry.hands] using hh

theorem delEvent_hands {fd : Nat} {ok rt : Bool} (h : m.delEvent fd p event ok = .ok (m', rt))
    (hh : m'.Handed r) : m.Handed r := by
  obtain ⟨c, -, h⟩ := bind_ok h
  split at h
  · dsimp only at h
    split at h
    · obtain ⟨rfl, -⟩ := Prod.mk.inj (Except.ok.inj h)
      exact hh
    · obtain ⟨ctx, -, h⟩ := bind_ok h
      obtain ⟨rfl, -⟩ := Prod.mk.inj (Except.ok.inj h)
      rw [Handed, List.any_append, hands_removed, Bool.or_false] at hh
      exact hh
  · obtain ⟨rfl, -⟩ := Prod.mk.inj (Except.ok.inj h)
    exact hh

theorem cancelEvent_hands {fd : Nat} {ok rt : Bool}
    (h : m.cancelEvent fd p event ok = .ok (m', rt)) (hh : m'.Handed r) :
    m.Handed r ∨ m.registered p event r = true ∧ ok = true ∧ (m.epoll fd).isSome = true := by
  obtain ⟨c, -, h⟩ := bind_ok h
  split at h
  · dsimp only at h
    split at h
    · obtain ⟨rfl, -⟩ := Prod.mk.inj (Except.ok.inj h)
      exact .inl hh
    · rename_i epoll hctl
      obtain ⟨m₁, ht, h⟩ := bind_ok h
      obtain ⟨rfl, -⟩ := Prod.mk.inj (Except.ok.inj h)
      exact ((trigger_hands ht).1 hh).imp_right (⟨·, epollCtl_some (op_ne_ADD _) hctl⟩)
  · obtain ⟨rfl, -⟩ := Prod.mk.inj (Except.ok.inj h)
    exact .inl hh

theorem cancelAll_hands {fd : Nat} {ok rt : Bool} (h : m.cancelAll fd p ok = .ok (m', rt))
    (hh : m'.Handed r) :
    m.Handed r ∨
      (∃ event, m.registered p event r = true) ∧ ok = true ∧ (m.epoll fd).isSome = true := by
  obtain ⟨c, -, h⟩ := bind_ok h
  split at h
  · obtain ⟨rfl, -⟩ := Prod.mk.inj (Except.ok.inj h)
    exact .inl hh
  split at h
  · obtain ⟨rfl, -⟩ := Prod.mk.inj (Except.ok.inj h)
    exact .inl hh
  rename_i epoll hctl
  have hok := epollCtl_some (by decide) hctl
  obtain ⟨m₁, h₁, h⟩ := bind_ok h
  obtain ⟨c₁, -, h⟩ := bind_ok h
  obtain ⟨m₂, h₂, h⟩ := bind_ok h
  obtain ⟨c₂, -, h⟩ := bind_ok h
  split at h
  · obtain ⟨rfl, -⟩ := Prod.mk.inj (Except.ok.inj h)
    obtain ⟨hhand₁, hback₁⟩ := triggerIf_hands (r := r) h₁
    rcases (triggerIf_hands h₂).1 hh with hh | ⟨-, hreg⟩
    · exact (hhand₁ hh).imp_right fun hreg => ⟨⟨_, hreg.2⟩, hok⟩
    · exact .inr ⟨⟨_, hback₁ _ _ hreg⟩, hok⟩
  · cases h

/-- `idle` hands over what the kernel has reported. -/
theorem dispatch_hands {mask : Mask} {ok : Bool} (h : m.dispatch p mask ok = .ok m')
    (hh : m'.Handed r) :
    m.Handed r ∨
      ∃ event, m.registered p event r = true ∧ (realEvents mask).has event = true := by
  obtain ⟨c, -, h⟩ := bind_ok h
  dsimp only at h
  split at h
  · obtain rfl := Except.ok.inj h
    exact .inl hh
  split at h
  · obtain rfl := Except.ok.inj h
    exact .inl hh
  obtain ⟨m₁, h₁, h₂⟩ := bind_ok h
  obtain ⟨hhand₁, hback₁⟩ := triggerIf_hands (r := r) h₁
  rcases (triggerIf_hands h₂).1 hh with hh | ⟨hmask, hreg⟩
  · exact (hhand₁ hh).imp_right fun ⟨hmask, hreg⟩ => ⟨.READ, hreg, hmask⟩
  · exact .inr ⟨.WRITE, hback₁ _ _ hreg, hmask⟩

end IOManager

end CoLib
