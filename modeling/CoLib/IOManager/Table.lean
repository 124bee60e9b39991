/-
# `CoLib.IOManager.Table` — the table of contexts as a shared object

`addEvent` tests the size of `m_fdContexts` under the read lock, releases it, and
resizes under the write lock to a size that it computes from its own descriptor.
Another thread may have made the table larger in between: the resize then cuts
it.  `roomy` is the condition that it does not, and `fdContexts_keep` says that
under it the table only grows, so that a thread that has looked a descriptor up
works on the object every later lookup finds.

Nothing else changes the table: a critical section of `fd_ctx->mutex` and the
handling of an `epoll_event` leave it alone (`critical_table`, `dispatch_table`).
-/
import CoLib.IOManager.Moves

namespace CoLib

open Lib

variable {S F C T : Type}

namespace IOManager

variable {m m' : IOManager S F C}

/-! ## What leaves the table alone -/

theorem trigger_table {p : FdContextPtr} {event : Event} {remover : Remover}
    (h : m.trigger p event remover = .ok m') : m'.fdContexts = m.fdContexts := by
  obtain ⟨c, -, h⟩ := bind_ok h
  obtain ⟨⟨c', entries⟩, -, h⟩ := bind_ok h
  obtain rfl := Except.ok.inj h
  exact rfl

theorem triggerIf_table {mask : Bool} {p : FdContextPtr} {event : Event} {remover : Remover}
    (h : m.triggerIf mask p event remover = .ok m') : m'.fdContexts = m.fdContexts := by
  cases mask with
  | true => exact trigger_table h
  | false =>
      obtain rfl := Except.ok.inj h
      exact rfl

theorem addEvent_table {fd : Nat} {p : FdContextPtr} {event : Event} {args : AddArgs S F C}
    {ok : Bool} {rt : Int} (h : m.addEvent fd p event args ok = .ok (m', rt)) :
    m'.fdContexts = m.fdContexts := by
  obtain ⟨c, -, h⟩ := bind_ok h
  split at h
  · exact absurd h (by simp)
  · dsimp only at h
    split at h
    · obtain ⟨rfl, -⟩ := Prod.mk.inj (Except.ok.inj h)
      exact rfl
    · obtain ⟨ctx, -, h⟩ := bind_ok h
      split at h
      · exact absurd h (by simp)
      · split at h
        · obtain ⟨rfl, -⟩ := Prod.mk.inj (Except.ok.inj h)
          exact rfl
        · split at h
          · obtain ⟨rfl, -⟩ := Prod.mk.inj (Except.ok.inj h)
            exact rfl
          · exact absurd h (by simp)

theorem delEvent_table {fd : Nat} {p : FdContextPtr} {event : Event} {ok rt : Bool}
    (h : m.delEvent fd p event ok = .ok (m', rt)) : m'.fdContexts = m.fdContexts := by
  obtain ⟨c, -, h⟩ := bind_ok h
  split at h
  · dsimp only at h
    split at h
    · obtain ⟨rfl, -⟩ := Prod.mk.inj (Except.ok.inj h)
      exact rfl
    · obtain ⟨ctx, -, h⟩ := bind_ok h
      obtain ⟨rfl, -⟩ := Prod.mk.inj (Except.ok.inj h)
      exact rfl
  · obtain ⟨rfl, -⟩ := Prod.mk.inj (Except.ok.inj h)
    exact rfl

theorem cancelEvent_table {fd : Nat} {p : FdContextPtr} {event : Event} {ok rt : Bool}
    (h : m.cancelEvent fd p event ok = .ok (m', rt)) : m'.fdContexts = m.fdContexts := by
  obtain ⟨c, -, h⟩ := bind_ok h
  split at h
  · dsimp only at h
    split at h
    · obtain ⟨rfl, -⟩ := Prod.mk.inj (Except.ok.inj h)
      exact rfl
    · obtain ⟨m₁, ht, h⟩ := bind_ok h
      obtain ⟨rfl, -⟩ := Prod.mk.inj (Except.ok.inj h)
      have hm := trigger_table ht
      exact hm
  · obtain ⟨rfl, -⟩ := Prod.mk.inj (Except.ok.inj h)
    exact rfl

theorem cancelAll_table {fd : Nat} {p : FdContextPtr} {ok rt : Bool}
    (h : m.cancelAll fd p ok = .ok (m', rt)) : m'.fdContexts = m.fdContexts := by
  obtain ⟨c, -, h⟩ := bind_ok h
  split at h
  · obtain ⟨rfl, -⟩ := Prod.mk.inj (Except.ok.inj h)
    exact rfl
  · split at h
    · obtain ⟨rfl, -⟩ := Prod.mk.inj (Except.ok.inj h)
      exact rfl
    · obtain ⟨m₁, h₁, h⟩ := bind_ok h
      obtain ⟨c₁, -, h⟩ := bind_ok h
      obtain ⟨m₂, h₂, h⟩ := bind_ok h
      obtain ⟨c₂, -, h⟩ := bind_ok h
      split at h
      · obtain ⟨rfl, -⟩ := Prod.mk.inj (Except.ok.inj h)
        have hm₁ := triggerIf_table h₁
        exact (triggerIf_table h₂).trans hm₁
      · exact absurd h (by simp)

theorem dispatch_table {p : FdContextPtr} {mask : Mask} {ok : Bool}
    (h : m.dispatch p mask ok = .ok m') : m'.fdContexts = m.fdContexts := by
  obtain ⟨c, -, h⟩ := bind_ok h
  dsimp only at h
  split at h
  · obtain rfl := Except.ok.inj h
    exact rfl
  · split at h
    · obtain rfl := Except.ok.inj h
      exact rfl
    · obtain ⟨m₁, h₁, h₂⟩ := bind_ok h
      have hm₁ := triggerIf_table h₁
      exact (triggerIf_table h₂).trans hm₁

/-! ## Resizing -/

@[simp] theorem contextResize_length (size : Nat) :
    (m.contextResize size).fdContexts.length = size := by
  simp only [contextResize, List.length_append, List.length_take, List.length_map,
    List.length_range]
  omega

/-- A resize to at least the size there is keeps every object in its place. -/
theorem contextResize_prefix {size : Nat} (h : m.fdContexts.length ≤ size) :
    m.fdContexts <+: (m.contextResize size).fdContexts := by
  simp only [contextResize, List.take_of_length_le h]
  exact List.prefix_append _ _

end IOManager

namespace EventSys

open IOManager

variable [DecidableEq T] {s s' : EventSys S F C T}

/-- A thread that grows the table does not find it larger than it makes it. -/
def roomy (s : EventSys S F C T) : EventAct S F C T → Bool
  | .grow t =>
      match s.phase t with
      | .grow call => s.mgr.fdContexts.length ≤ call.fd * 3 / 2
      | _ => true
  | _ => true

theorem critical_table {m m' : IOManager S F C} {p : FdContextPtr} {ok : Bool}
    {call : EventCall S F C} (h : critical m p ok call = .ok m') :
    m'.fdContexts = m.fdContexts := by
  cases call with
  | addEvent fd event args =>
      obtain ⟨rt, h⟩ := map_fst_ok h
      exact addEvent_table h
  | delEvent fd event =>
      obtain ⟨rt, h⟩ := map_fst_ok h
      exact delEvent_table h
  | cancelEvent fd event =>
      obtain ⟨rt, h⟩ := map_fst_ok h
      exact cancelEvent_table h
  | cancelAll fd =>
      obtain ⟨rt, h⟩ := map_fst_ok h
      exact cancelAll_table h

/-- What a step does to the table: nothing, or it resizes it for the descriptor
of a thread that found it too small, which then holds the object it finds. -/
theorem step_table {a : EventAct S F C T} (h : s.step a = some (.ok s')) :
    (s'.mgr.fdContexts = s.mgr.fdContexts ∧ (∀ t, a ≠ .grow t) ∧
      ∀ u call p, s'.phase u = .locked call p →
        s.phase u = .locked call p ∨ s.mgr.fdContexts[call.fd]? = some p) ∨
    ∃ t call p, a = .grow t ∧ s.phase t = .grow call ∧
      s'.mgr = s.mgr.contextResize (call.fd * 3 / 2) ∧
      s'.phase = Function.update s.phase t (.locked call p) ∧
      s'.mgr.fdContexts[call.fd]? = some p := by
  have hgoto : ∀ (m : IOManager S F C) (t : T) (ph : EventPhase S F C) (u : T) call p,
      (∀ call p, ph = .locked call p → s.mgr.fdContexts[call.fd]? = some p) →
      ({ s with mgr := m }.goto t ph).phase u = .locked call p →
        s.phase u = .locked call p ∨ s.mgr.fdContexts[call.fd]? = some p := by
    intro m t ph u call p hph hu
    by_cases hut : u = t
    · subst hut
      exact .inr (hph call p (by simpa [goto] using hu))
    · exact .inl (by simpa [goto, hut] using hu)
  cases step_does h with
  | call t call hph =>
      exact .inl ⟨rfl, by simp, fun u call p => hgoto s.mgr t _ u call p (by simp)⟩
  | found t call p hph hp =>
      refine .inl ⟨rfl, by simp, fun u call p => hgoto s.mgr t _ u call p ?_⟩
      intro call p heq
      obtain ⟨rfl, rfl⟩ := EventPhase.locked.inj heq
      exact hp
  | missing t call ph hph hnext =>
      refine .inl ⟨rfl, by simp, fun u call p => hgoto s.mgr t _ u call p ?_⟩
      rcases hnext with rfl | rfl <;> simp
  | grow t call p hph hp => exact .inr ⟨t, call, p, rfl, hph, rfl, rfl, hp⟩
  | enter t ok call p m hph hm =>
      exact .inl ⟨critical_table hm, by simp, fun u call p => hgoto m t _ u call p (by simp)⟩
  | wait t events hph =>
      exact .inl ⟨rfl, by simp, fun u call p => hgoto s.mgr t _ u call p (by simp)⟩
  | dispatched t ok hph =>
      exact .inl ⟨rfl, by simp, fun u call p => hgoto s.mgr t _ u call p (by simp)⟩
  | dispatch t ok p mask events m hph hm =>
      exact .inl ⟨dispatch_table hm, by simp, fun u call p => hgoto m t _ u call p (by simp)⟩
  | close fd => exact .inl ⟨rfl, by simp, fun u call p hu => .inl hu⟩

/-- A step keeps every object of the table in its place exactly if it is roomy. -/
theorem step_prefix_iff {a : EventAct S F C T} (h : s.step a = some (.ok s')) :
    s.mgr.fdContexts <+: s'.mgr.fdContexts ↔ s.roomy a = true := by
  rcases step_table h with ⟨heq, hgrow, -⟩ | ⟨t, call, p, rfl, hph, hm, -, -⟩
  · rw [heq]
    refine iff_of_true (List.prefix_refl _) ?_
    cases a with
    | grow t => exact absurd rfl (hgrow t)
    | _ => exact rfl
  · have hroomy : s.roomy (.grow t) = true ↔ s.mgr.fdContexts.length ≤ call.fd * 3 / 2 := by
      simp [roomy, hph]
    rw [hroomy, hm]
    constructor
    · intro hpre
      simpa using hpre.length_le
    · exact contextResize_prefix

/-- Every thread that works on an object works on the one the table holds. -/
def Held (s : EventSys S F C T) : Prop :=
  ∀ t call p, s.phase t = .locked call p → s.mgr.fdContexts[call.fd]? = some p

theorem prefix_getElem? {α : Type} {xs ys : List α} {i : Nat} {x : α} (h : xs <+: ys)
    (hx : xs[i]? = some x) : ys[i]? = some x := by
  obtain ⟨zs, rfl⟩ := h
  obtain ⟨hi, -⟩ := List.getElem?_eq_some_iff.mp hx
  rw [List.getElem?_append_left hi]
  exact hx

theorem held_step {a : EventAct S F C T} (hs : s.Held) (ha : s.roomy a = true)
    (h : s.step a = some (.ok s')) : s'.Held := by
  intro u call p hu
  have hpre := (step_prefix_iff h).mpr ha
  rcases step_table h with ⟨-, -, hph⟩ | ⟨t, call', p', rfl, -, -, hph', hp'⟩
  · rcases hph u call p hu with hu | hu
    · exact prefix_getElem? hpre (hs u call p hu)
    · exact prefix_getElem? hpre hu
  · rw [hph'] at hu
    by_cases hut : u = t
    · subst hut
      rw [Function.update_self] at hu
      obtain ⟨rfl, rfl⟩ := EventPhase.locked.inj hu
      exact hp'
    · rw [Function.update_of_ne hut] at hu
      exact prefix_getElem? hpre (hs u call p hu)

theorem reach_held
    (h : Reach (proceed step) (fun s a => s.roomy a = true) (init : EventSys S F C T) s) :
    s.Held := by
  refine h.invariant ?_ ?_
  · intro t call p hp
    exact absurd hp (by simp [init])
  · intro u a u' hu ha hstep
    exact held_step hu ha (proceed_eq_some.mp hstep)

theorem reach_extends
    (h : Reach (proceed step) (fun s a => s.roomy a = true) s s') :
    s.mgr.fdContexts <+: s'.mgr.fdContexts := by
  refine h.invariant (I := fun u => s.mgr.fdContexts <+: u.mgr.fdContexts) (List.prefix_refl _) ?_
  intro u a u' hu ha hstep
  exact hu.trans ((step_prefix_iff (proceed_eq_some.mp hstep)).mpr ha)

/-- **The table only grows.**  In every run whose resizes are roomy, an object
that the table holds for a descriptor stays there; every thread that has looked
the descriptor up works on it, and every later lookup finds it.  A resize that
is not roomy moves or drops an object. -/
theorem fdContexts_keep
    (h : Reach (proceed step) (fun s a => s.roomy a = true) (init : EventSys S F C T) s)
    (h' : Reach (proceed step) (fun s a => s.roomy a = true) s s') :
    (∀ fd p, s.mgr.fdContexts[fd]? = some p →
      s'.mgr.fdContexts[fd]? = some p ∧
      (∀ t call q, call.fd = fd → s'.phase t = .locked call q → q = p) ∧
      ∀ t call, call.fd = fd → s'.phase t = .lookup call →
        s'.step (.lookup t) = some (.ok (s'.goto t (.locked call p)))) ∧
    ∀ a s'', s'.step a = some (.ok s'') →
      (s'.mgr.fdContexts <+: s''.mgr.fdContexts ↔ s'.roomy a = true) := by
  refine ⟨fun fd p hp => ?_, fun a s'' ha => step_prefix_iff ha⟩
  have hp' : s'.mgr.fdContexts[fd]? = some p := prefix_getElem? (reach_extends h') hp
  refine ⟨hp', ?_, ?_⟩
  · rintro t call q rfl hq
    have hheld := reach_held (h.trans h') t call q hq
    exact Option.some.inj (hheld.symm.trans hp')
  · rintro t call rfl hph
    simp only [step, hph, hp']

/-- One thread registers descriptor 40, the other 70; both find the table too
small, and the second has grown it and registered when the first grows it. -/
def growTwice : List (EventAct Unit Unit Unit Bool) × EventAct Unit Unit Unit Bool :=
  let args : AddArgs Unit Unit Unit := ⟨some (), some (), (), true⟩
  ([.call false (.addEvent 40 .READ args), .lookup false,
    .call true (.addEvent 70 .READ args), .lookup true, .grow true, .enter true true],
    .grow false)

/-- Two threads that grow the table for different descriptors: the one with the
smaller descriptor drops the object on which the other has registered an event. -/
theorem contextResize_shrinks :
    ¬ ∀ (s s' : EventSys Unit Unit Unit Bool) (fd : Nat) (p : FdContextPtr),
      Reach (proceed step) (fun _ _ => True) init s →
      Reach (proceed step) (fun _ _ => True) s s' →
      s.mgr.fdContexts[fd]? = some p → s'.mgr.fdContexts[fd]? = some p := by
  intro h
  obtain ⟨s, s', p, hrun, hstep, hp, -, hnone⟩ : ∃ s s' p,
      run (guarded (proceed step) fun _ _ => True) init growTwice.1 = some s ∧
      proceed step s growTwice.2 = some s' ∧
      s.mgr.fdContexts[70]? = some p ∧
      (s.mgr.heap[p]?.map fun c => c.events.read) = some true ∧
      s'.mgr.fdContexts[70]? = none := ⟨_, _, _, rfl, rfl, rfl, rfl, rfl⟩
  have hkeep := h s s' 70 p (run_reach _ hrun) (.tail .refl trivial hstep) hp
  rw [hnone] at hkeep
  exact absurd hkeep (by simp)

/-- The same calls, the second thread growing the table after the first. -/
theorem fdContexts_keep_inOrder :
    ∃ s s', run (guarded (proceed step) fun s a => s.roomy a = true) init
        (growTwice.1.take 4 ++ [.grow false]) = some s ∧
      run (guarded (proceed step) fun s a => s.roomy a = true) s [.grow true] = some s' ∧
      s'.mgr.fdContexts[50]? = s.mgr.fdContexts[50]? := by
  obtain ⟨s, s', p, hrun, hrun', hp⟩ : ∃ s s' p,
      run (guarded (proceed step) fun s a => s.roomy a = true) init
        (growTwice.1.take 4 ++ [.grow false]) = some s ∧
      run (guarded (proceed step) fun s a => s.roomy a = true) s [.grow true] = some s' ∧
      s.mgr.fdContexts[50]? = some p := ⟨_, _, _, rfl, rfl, rfl⟩
  have hkeep := (fdContexts_keep (run_reach _ hrun) (run_reach _ hrun')).1 50 p hp
  exact ⟨s, s', hrun, hrun', hkeep.1.trans hp.symm⟩

end EventSys

end CoLib
