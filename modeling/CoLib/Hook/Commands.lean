/-
# `CoLib.Hook.Commands` — the hooked `fcntl`, command by command

The hooked `fcntl` takes its third argument from a `va_list`, of the type that it
ascribes to the command, and calls the original function again.  `F_SETFL` and
`F_GETFL` on a managed socket look after the user's `O_NONBLOCK`; all other commands
are to be passed on.  The hook does so whether or not hooks are enabled.

The original function is a parameter: what it returns for a descriptor, a command
and an argument.

**Proved here.**  `transparent_iff`: for which calls the hook makes one call with the
same argument, returns its result, and leaves the record alone when that is -1.
Commands with an `int` argument are called without it, and two errors are masked.
-/
import CoLib.Hook.Bounds
import CoLib.Hook.Fcntl

namespace CoLib

open Lib

/-- The commands that `fcntl` distinguishes, and the others. -/
inductive FcntlCmd where
  | F_SETFL
  | F_GETFL
  | F_DUPFD
  | F_DUPFD_CLOEXEC
  | F_SETFD
  | F_SETOWN
  | F_SETSIG
  | F_SETLEASE
  | F_NOTIFY
  | F_SETPIPE_SZ
  | F_GETFD
  | F_GETOWN
  | F_GETSIG
  | F_GETLEASE
  | F_GETPIPE_SZ
  | F_SETLK
  | F_SETLKW
  | F_GETLK
  | F_GETOWN_EX
  | F_SETOWN_EX
  | other (n : Nat)
  deriving DecidableEq

/-- The third argument. -/
inductive FcntlArg where
  | none
  | int (v : BitVec 32)
  | ptr (p : Nat)
  deriving DecidableEq

/-- The argument is one that the command takes. -/
def FcntlCmd.takes : FcntlCmd → FcntlArg → Bool
  | .F_SETFL, .int _ => true
  | .F_GETFL, .none => true
  | .F_DUPFD, .int _ | .F_DUPFD_CLOEXEC, .int _ | .F_SETFD, .int _ | .F_SETOWN, .int _
  | .F_SETSIG, .int _ | .F_SETLEASE, .int _ | .F_NOTIFY, .int _ | .F_SETPIPE_SZ, .int _ => true
  | .F_GETFD, .none | .F_GETOWN, .none | .F_GETSIG, .none | .F_GETLEASE, .none
  | .F_GETPIPE_SZ, .none => true
  | .F_SETLK, .ptr _ | .F_SETLKW, .ptr _ | .F_GETLK, .ptr _ | .F_GETOWN_EX, .ptr _
  | .F_SETOWN_EX, .ptr _ => true
  | .other _, _ => true
  | _, _ => false

/-- A call of `fcntl` with the argument that the command takes. -/
structure FcntlCall where
  cmd : FcntlCmd
  arg : FcntlArg
  typed : cmd.takes arg = true

/-- The original function. -/
abbrev FcntlFun := Int → FcntlCmd → FcntlArg → BitVec 32

/-- What a call does: the calls of the original function, the result, the table. -/
structure FcntlRun where
  calls : List (Int × FcntlCmd × FcntlArg)
  rt : BitVec 32
  mgr : FdManager

namespace FdManager

/-- `get(fd)`; nothing when it indexes outside. -/
def get (m : FdManager) (fd : Int) : Option (Option FdCtx) :=
  match Indexed.getShared m fd false with
  | .ok data => some data.join
  | .error _ => none

/-- The descriptor's record, if it is one of an open socket. -/
def managed (m : FdManager) (fd : Int) : Option FdCtx :=
  (m.get fd).join.filter fun c => !c.passes

variable {m : FdManager} {fd : Int} {ctx : FdCtx}

theorem get_isSome_iff (m : FdManager) (fd : Int) :
    (m.get fd).isSome ↔ fd = -1 ∨ 0 ≤ fd ∨ toInt m.datas.length ≤ fd := by
  rw [← Indexed.inside_getShared_false, get]
  cases Indexed.getShared m fd false with
  | ok data => exact iff_of_true rfl ⟨data, rfl⟩
  | error e => exact iff_of_false Bool.false_ne_true fun ⟨_, h⟩ => by cases h

/-- For a descriptor in range it is `find`. -/
theorem get_eq (hsize : m.datas.length ≤ intMax) (n : Nat) : m.get n = some (m.find n) := by
  rw [get, Indexed.getShared_eq hsize]
  rfl

theorem managed_of_get {data : Option FdCtx} (h : m.get fd = some data) :
    m.managed fd = data.filter fun c => !c.passes := by
  rw [managed, h]
  rfl

/-- What is managed is a record in the table. -/
theorem find_of_managed (h : m.managed fd = some ctx) :
    m.find fd.toNat = some ctx ∧ ctx.passes = false := by
  obtain ⟨hjoin, hpasses⟩ := Option.filter_eq_some_iff.mp h
  refine ⟨?_, by simpa using hpasses⟩
  obtain ⟨o, hget, rfl⟩ : ∃ o, m.get fd = some o ∧ o = some ctx := by
    cases hget : m.get fd with
    | none => rw [hget] at hjoin; cases hjoin
    | some o => rw [hget] at hjoin; exact ⟨o, rfl, hjoin⟩
  rw [get, Indexed.getShared_false] at hget
  split at hget
  · rename_i data hdata
    split at hdata
    · cases hdata
      cases hget
    · obtain ⟨slot, hslot, hdata⟩ := bind_ok hdata
      cases hdata
      obtain rfl : slot = some ctx := Option.some.inj hget
      rw [vectorAt] at hslot
      split at hslot
      · split at hslot
        · rename_i hat
          rw [find_eq_slot, slot, hat, Except.ok.inj hslot]
          rfl
        · cases hslot
      · cases hslot
  · cases hget

end FdManager

namespace FcntlCall

/-- `va_arg(va, int)`. -/
def vaInt : FcntlArg → Option (BitVec 32)
  | .int v => some v
  | _ => none

/-- `va_arg(va, T*)`. -/
def vaPtr : FcntlArg → Option Nat
  | .ptr p => some p
  | _ => none

/-- `return fcntl_f(fd, cmd, arg)`. -/
def pass (fcntl_f : FcntlFun) (m : FdManager) (fd : Int) (cmd : FcntlCmd) (arg : FcntlArg) :
    FcntlRun :=
  { calls := [(fd, cmd, arg)]
    rt := fcntl_f fd cmd arg
    mgr := m }

/-- The argument of the original `F_SETFL`: the flag is as the system wants it. -/
def keepFlag (ctx : FdCtx) (arg : BitVec 32) : BitVec 32 :=
  if ctx.sysNonblock then arg ||| O_NONBLOCK else arg &&& ~~~O_NONBLOCK

/-- The result of `F_GETFL`: the flag is as the user wants it. -/
def wishFlag (ctx : FdCtx) (arg : BitVec 32) : BitVec 32 :=
  if ctx.userNonblock then arg ||| O_NONBLOCK else arg &&& ~~~O_NONBLOCK

/-- `fcntl(fd, cmd, ...)`; nothing where the source has no defined behaviour. -/
def fcntl (fcntl_f : FcntlFun) (m : FdManager) (fd : Int) (cmd : FcntlCmd) (arg : FcntlArg) :
    Option FcntlRun :=
  match cmd with
  | .F_SETFL => do
      let arg ← vaInt arg
      let ctx ← m.get fd
      match ctx.filter fun c => !c.passes with
      | none => some (pass fcntl_f m fd cmd (.int arg))
      | some ctx =>
          let m := m.modify fd.toNat fun c => { c with userNonblock := isNonblock arg }
          some (pass fcntl_f m fd cmd (.int (keepFlag ctx arg)))
  | .F_GETFL => do
      let run := pass fcntl_f m fd cmd .none
      let ctx ← m.get fd
      match ctx.filter fun c => !c.passes with
      | none => some run
      | some ctx => some { run with rt := wishFlag ctx run.rt }
  | .F_DUPFD | .F_DUPFD_CLOEXEC | .F_SETFD | .F_SETOWN | .F_SETSIG | .F_SETLEASE | .F_NOTIFY
  | .F_SETPIPE_SZ => do
      -- `arg` is taken and not passed on
      let _ ← vaInt arg
      some (pass fcntl_f m fd cmd .none)
  | .F_GETFD | .F_GETOWN | .F_GETSIG | .F_GETLEASE | .F_GETPIPE_SZ =>
      some (pass fcntl_f m fd cmd .none)
  | .F_SETLK | .F_SETLKW | .F_GETLK => do
      let arg ← vaPtr arg
      some (pass fcntl_f m fd cmd (.ptr arg))
  | .F_GETOWN_EX | .F_SETOWN_EX => do
      let arg ← vaPtr arg
      some (pass fcntl_f m fd cmd (.ptr arg))
  | .other _ => some (pass fcntl_f m fd cmd .none)

/-! ## What is asked of the hook -/

/-- The flags differ in `O_NONBLOCK` at most. -/
def SameFlags (a b : BitVec 32) : Prop :=
  a &&& ~~~O_NONBLOCK = b &&& ~~~O_NONBLOCK

/-- The argument is passed on: as it is, or, for `F_SETFL` on a managed socket, but
for the flag. -/
def PassesOn (m : FdManager) (fd : Int) (c : FcntlCall) (arg : FcntlArg) : Prop :=
  arg = c.arg ∨ c.cmd = .F_SETFL ∧ (m.managed fd).isSome ∧
    ∃ a b, c.arg = .int a ∧ arg = .int b ∧ SameFlags b a

/-- One call of the original function with the same command and argument, whose
result `r` is returned, but for the flag of a successful `F_GETFL`; and when `r` is -1
so is the result, and the records are as before. -/
def Transparent (fcntl_f : FcntlFun) (m : FdManager) (fd : Int) (c : FcntlCall) : Prop :=
  ∃ run arg, fcntl fcntl_f m fd c.cmd c.arg = some run ∧
    run.calls = [(fd, c.cmd, arg)] ∧ c.PassesOn m fd arg ∧
    (if c.cmd = .F_GETFL ∧ fcntl_f fd c.cmd arg ≠ -1#32 then
      SameFlags run.rt (fcntl_f fd c.cmd arg)
    else run.rt = fcntl_f fd c.cmd arg) ∧
    (fcntl_f fd c.cmd arg = -1#32 → ∀ n, run.mgr.find n = m.find n)

/-- `get(fd)` has an answer. -/
def Answers (m : FdManager) (fd : Int) : Prop :=
  fd = -1 ∨ 0 ≤ fd ∨ toInt m.datas.length ≤ fd

/-- The calls that are passed on as they should be. -/
def Fits (fcntl_f : FcntlFun) (m : FdManager) (fd : Int) (c : FcntlCall) : Prop :=
  match c.cmd, c.arg with
  | .F_SETFL, .int arg => Answers m fd ∧ ∀ ctx, m.managed fd = some ctx →
      fcntl_f fd .F_SETFL (.int (keepFlag ctx arg)) = -1#32 → ctx.userNonblock = isNonblock arg
  | .F_GETFL, _ => Answers m fd ∧ ∀ ctx, m.managed fd = some ctx →
      fcntl_f fd .F_GETFL .none = -1#32 → ctx.userNonblock = true
  | .F_GETFD, _ | .F_GETOWN, _ | .F_GETSIG, _ | .F_GETLEASE, _ | .F_GETPIPE_SZ, _ => True
  | .F_SETLK, _ | .F_SETLKW, _ | .F_GETLK, _ | .F_GETOWN_EX, _ | .F_SETOWN_EX, _ => True
  | .other _, arg => arg = .none
  | _, _ => False

/-! ## The hook -/

variable {fcntl_f : FcntlFun} {m : FdManager} {fd : Int} {c : FcntlCall} {ctx : FdCtx}

theorem sameFlags_or (a : BitVec 32) : SameFlags (a ||| O_NONBLOCK) a := by
  have hnot : O_NONBLOCK &&& ~~~O_NONBLOCK = 0#32 := by decide
  rw [SameFlags, BitVec.and_or_distrib_right, hnot, BitVec.or_zero]

theorem sameFlags_and (a : BitVec 32) : SameFlags (a &&& ~~~O_NONBLOCK) a := by
  rw [SameFlags, BitVec.and_assoc, BitVec.and_self]

theorem sameFlags_keepFlag (ctx : FdCtx) (a : BitVec 32) : SameFlags (keepFlag ctx a) a := by
  rw [keepFlag]
  split
  · exact sameFlags_or a
  · exact sameFlags_and a

theorem sameFlags_wishFlag (ctx : FdCtx) (a : BitVec 32) : SameFlags (wishFlag ctx a) a := by
  rw [wishFlag]
  split
  · exact sameFlags_or a
  · exact sameFlags_and a

/-- An error survives the flag only if the user wants it set. -/
theorem wishFlag_error (ctx : FdCtx) : wishFlag ctx (-1#32) = -1#32 ↔ ctx.userNonblock = true := by
  rw [wishFlag]
  cases ctx.userNonblock with
  | true => decide
  | false => decide

/-- A call that is passed on as it is. -/
theorem transparent_of_pass (h : fcntl fcntl_f m fd c.cmd c.arg
    = some (pass fcntl_f m fd c.cmd c.arg)) : c.Transparent fcntl_f m fd := by
  refine ⟨_, c.arg, h, rfl, .inl rfl, ?_, fun _ _ => rfl⟩
  split
  · exact rfl
  · exact rfl

/-- A call that has no defined behaviour. -/
theorem not_transparent_of_none (h : fcntl fcntl_f m fd c.cmd c.arg = none) :
    ¬ c.Transparent fcntl_f m fd := by
  rintro ⟨run, arg, hrun, -⟩
  rw [h] at hrun
  cases hrun

/-- The argument of the one call that is made. -/
theorem arg_of_calls {cmd : FcntlCmd} {arg arg' : FcntlArg}
    (h : [(fd, cmd, arg)] = [(fd, cmd, arg')]) : arg = arg' :=
  (Prod.mk.inj (Prod.mk.inj (List.singleton_inj.mp h)).2).2

/-- A call whose argument is dropped. -/
theorem not_transparent_of_dropped (h : fcntl fcntl_f m fd c.cmd c.arg
    = some (pass fcntl_f m fd c.cmd .none)) (hcmd : c.cmd ≠ .F_SETFL) (harg : c.arg ≠ .none) :
    ¬ c.Transparent fcntl_f m fd := by
  rintro ⟨run, arg, hrun, hcalls, hpass, -⟩
  obtain rfl := Option.some.inj (h.symm.trans hrun)
  obtain rfl : FcntlArg.none = arg := arg_of_calls hcalls
  rcases hpass with hpass | ⟨hset, -⟩
  · exact harg hpass.symm
  · exact hcmd hset

theorem transparent_setfl (arg : BitVec 32) (typed : FcntlCmd.takes .F_SETFL (.int arg) = true) :
    Transparent fcntl_f m fd ⟨.F_SETFL, .int arg, typed⟩ ↔ Answers m fd ∧
      ∀ ctx, m.managed fd = some ctx →
        fcntl_f fd .F_SETFL (.int (keepFlag ctx arg)) = -1#32 →
          ctx.userNonblock = isNonblock arg := by
  rw [Answers, ← FdManager.get_isSome_iff]
  cases hget : m.get fd with
  | none =>
      refine iff_of_false (not_transparent_of_none ?_) fun h => Bool.false_ne_true h.1
      simp only [fcntl, vaInt, hget, Option.bind_eq_bind, Option.bind_some, Option.bind_none]
  | some data =>
      have hmanaged : m.managed fd = data.filter fun c => !c.passes :=
        FdManager.managed_of_get hget
      rw [hmanaged]
      refine Iff.trans ?_ (and_iff_right rfl).symm
      cases hfilter : data.filter fun c => !c.passes with
      | none =>
          refine iff_of_true (transparent_of_pass ?_) fun ctx hctx => by cases hctx
          simp only [fcntl, vaInt, hget, Option.bind_eq_bind, Option.bind_some, hfilter]
      | some ctx =>
          have hrun : fcntl fcntl_f m fd .F_SETFL (.int arg) =
              some (pass fcntl_f
                (m.modify fd.toNat fun c => { c with userNonblock := isNonblock arg })
                fd .F_SETFL (.int (keepFlag ctx arg))) := by
            simp only [fcntl, vaInt, hget, Option.bind_eq_bind, Option.bind_some, hfilter]
          obtain ⟨hfind, -⟩ := FdManager.find_of_managed (hmanaged.trans hfilter)
          constructor
          · rintro ⟨run, arg', hrun', hcalls, -, -, hsame⟩ ctx' hctx hfail
            obtain rfl := Option.some.inj hctx
            obtain rfl := Option.some.inj (hrun.symm.trans hrun')
            obtain rfl : FcntlArg.int (keepFlag ctx arg) = arg' := arg_of_calls hcalls
            have hback := hsame hfail fd.toNat
            rw [pass, FdManager.find_modify, if_pos rfl, hfind] at hback
            exact (congrArg FdCtx.userNonblock (Option.some.inj hback)).symm
          · intro hfits
            refine ⟨_, _, hrun, rfl, .inr ⟨rfl, ?_, arg, _, rfl, rfl, sameFlags_keepFlag ctx arg⟩,
              ?_, ?_⟩
            · rw [hmanaged, hfilter]
              rfl
            · rw [if_neg fun h => by cases h.1]
              rfl
            · intro hfail n
              have hwish := hfits ctx rfl hfail
              rw [pass, FdManager.find_modify]
              split
              · rename_i hn
                rw [← hn, hfind, Option.map_some, ← hwish]
              · rfl

theorem transparent_getfl (arg : FcntlArg) (typed : FcntlCmd.takes .F_GETFL arg = true) :
    Transparent fcntl_f m fd ⟨.F_GETFL, arg, typed⟩ ↔ Answers m fd ∧
      ∀ ctx, m.managed fd = some ctx →
        fcntl_f fd .F_GETFL .none = -1#32 → ctx.userNonblock = true := by
  obtain rfl : arg = .none := by
    cases arg with
    | none => rfl
    | int v => cases typed
    | ptr p => cases typed
  rw [Answers, ← FdManager.get_isSome_iff]
  cases hget : m.get fd with
  | none =>
      refine iff_of_false (not_transparent_of_none ?_) fun h => Bool.false_ne_true h.1
      simp only [fcntl, hget, Option.bind_eq_bind, Option.bind_none]
  | some data =>
      have hmanaged : m.managed fd = data.filter fun c => !c.passes :=
        FdManager.managed_of_get hget
      rw [hmanaged]
      refine Iff.trans ?_ (and_iff_right rfl).symm
      cases hfilter : data.filter fun c => !c.passes with
      | none =>
          refine iff_of_true (transparent_of_pass ?_) fun ctx hctx => by cases hctx
          simp only [fcntl, hget, Option.bind_eq_bind, Option.bind_some, hfilter]
      | some ctx =>
          have hrun : fcntl fcntl_f m fd .F_GETFL .none =
              some { pass fcntl_f m fd .F_GETFL .none with
                rt := wishFlag ctx (fcntl_f fd .F_GETFL .none) } := by
            simp only [fcntl, hget, Option.bind_eq_bind, Option.bind_some, hfilter]
            rfl
          constructor
          · rintro ⟨run, arg', hrun', hcalls, -, hrt, -⟩ ctx' hctx hfail
            obtain rfl := Option.some.inj hctx
            obtain rfl := Option.some.inj (hrun.symm.trans hrun')
            obtain rfl : FcntlArg.none = arg' := arg_of_calls hcalls
            rw [if_neg fun h => h.2 hfail] at hrt
            have hmask : wishFlag ctx (fcntl_f fd .F_GETFL .none) = fcntl_f fd .F_GETFL .none := hrt
            rw [hfail] at hmask
            exact (wishFlag_error ctx).mp hmask
          · intro hfits
            refine ⟨_, .none, hrun, rfl, .inl rfl, ?_, fun _ _ => rfl⟩
            by_cases hfail : fcntl_f fd .F_GETFL .none = -1#32
            · rw [if_neg fun h => h.2 hfail]
              show wishFlag ctx (fcntl_f fd .F_GETFL .none) = fcntl_f fd .F_GETFL .none
              rw [hfail]
              exact (wishFlag_error ctx).mpr (hfits ctx rfl hfail)
            · rw [if_pos ⟨rfl, hfail⟩]
              exact sameFlags_wishFlag ctx _

/-- **Which calls the hook passes on.**  For every original function, table,
descriptor and call with the argument that its command takes, the hook is
transparent exactly if the call fits. -/
theorem transparent_iff (fcntl_f : FcntlFun) (m : FdManager) (fd : Int) (c : FcntlCall) :
    c.Transparent fcntl_f m fd ↔ c.Fits fcntl_f m fd := by
  obtain ⟨cmd, arg, typed⟩ := c
  cases cmd with
  | F_SETFL =>
      cases arg with
      | int v => exact transparent_setfl v typed
      | none => cases typed
      | ptr p => cases typed
  | F_GETFL => exact transparent_getfl arg typed
  | F_DUPFD | F_DUPFD_CLOEXEC | F_SETFD | F_SETOWN | F_SETSIG | F_SETLEASE | F_NOTIFY
  | F_SETPIPE_SZ =>
      cases arg with
      | int v => exact iff_of_false (not_transparent_of_dropped rfl (by simp) (by simp)) id
      | none => cases typed
      | ptr p => cases typed
  | F_GETFD | F_GETOWN | F_GETSIG | F_GETLEASE | F_GETPIPE_SZ =>
      cases arg with
      | none => exact iff_of_true (transparent_of_pass rfl) trivial
      | int v => cases typed
      | ptr p => cases typed
  | F_SETLK | F_SETLKW | F_GETLK | F_GETOWN_EX | F_SETOWN_EX =>
      cases arg with
      | ptr p => exact iff_of_true (transparent_of_pass rfl) trivial
      | none => cases typed
      | int v => cases typed
  | other n =>
      cases arg with
      | none => exact iff_of_true (transparent_of_pass rfl) rfl
      | int v =>
          exact iff_of_false (not_transparent_of_dropped rfl (by simp) (by simp))
            fun h => by cases h
      | ptr p =>
          exact iff_of_false (not_transparent_of_dropped rfl (by simp) (by simp))
            fun h => by cases h

/-! ### The kernel's `fcntl` -/

/-- The original function, as far as the kernel's model goes. -/
def ofKernel (k : Kernel) : FcntlFun := fun fd cmd arg =>
  match cmd, arg with
  | .F_SETFL, .int v => (k.setfl fd.toNat v).2
  | .F_GETFL, _ => k.getfl fd.toNat
  | _, _ => 0#32

/-- On the kernel's, `F_SETFL` is the call that the model of the flag has. -/
theorem fcntl_setfl_eq (s : Descriptors) (hsize : s.mgr.datas.length ≤ intMax) (n : Nat)
    (arg : BitVec 32) :
    ∃ run, fcntl (ofKernel s.kernel) s.mgr n .F_SETFL (.int arg) = some run ∧
      run.mgr = (s.fcntlSetfl n arg).1.mgr ∧ run.rt = (s.fcntlSetfl n arg).2 := by
  simp only [fcntl, vaInt, FdManager.get_eq hsize, Option.bind_eq_bind, Option.bind_some,
    Descriptors.fcntlSetfl]
  cases s.mgr.find n with
  | none => exact ⟨_, rfl, rfl, rfl⟩
  | some ctx =>
      cases hpasses : ctx.passes with
      | true =>
          simp only [Option.filter, hpasses, Bool.not_true, Bool.false_eq_true, if_false, if_true]
          exact ⟨_, rfl, rfl, rfl⟩
      | false =>
          simp only [Option.filter, hpasses, Bool.not_false, Bool.false_eq_true, if_false, if_true]
          exact ⟨_, rfl, rfl, rfl⟩

/-- And so is `F_GETFL`. -/
theorem fcntl_getfl_eq (s : Descriptors) (hsize : s.mgr.datas.length ≤ intMax) (n : Nat) :
    ∃ run, fcntl (ofKernel s.kernel) s.mgr n .F_GETFL .none = some run ∧
      run.rt = s.fcntlGetfl n := by
  simp only [fcntl, FdManager.get_eq hsize, Option.bind_eq_bind, Option.bind_some,
    Descriptors.fcntlGetfl]
  cases s.mgr.find n with
  | none => exact ⟨_, rfl, rfl⟩
  | some ctx =>
      cases hpasses : ctx.passes with
      | true =>
          simp only [Option.filter, hpasses, Bool.not_true, Bool.false_eq_true, if_false, if_true]
          exact ⟨_, rfl, rfl⟩
      | false =>
          simp only [Option.filter, hpasses, Bool.not_false, Bool.false_eq_true, if_false, if_true]
          exact ⟨_, rfl, rfl⟩

/-- `fcntl(5, F_DUPFD, 100)`. -/
def dup100 : FcntlCall where
  cmd := .F_DUPFD
  arg := .int 100#32
  typed := rfl

/-- `F_DUPFD` is called without its argument. -/
theorem fcntl_dup100 :
    ¬ dup100.Transparent (fun _ _ _ => 6#32) .create 5 :=
  not_transparent_of_dropped rfl (by decide) (by decide)

end FcntlCall

end CoLib
