/-
# `CoLib.Hook.SocketTimeout` — the timeouts of a socket

`Socket::setRecvTimeout` and `setSendTimeout` put milliseconds into a `timeval`, with a
conversion to `int`; the hooked `setsockopt` makes milliseconds of it again, and keeps
them in the hooks' record as an unsigned word, in which -1 stands for no timeout; the
getters read the word; and `do_io` arms a timer of that many milliseconds in every
round, unless the word is -1.

**Proved here.**  The getter returns what was set, and a call that never becomes ready
waits that long and then fails, or waits without bound for 0, exactly for the values above
0 and below 2147483648000 (`honoured_iff`).  A timeout of 0 is a timer that expires at once.
That the call does fail is said of runs in which the callbacks of its timers are prompt, as
in `CoLib.Hook.TimedWait`, and others leave its registration alone.
-/
import CoLib.Hook.NeverReady

namespace CoLib

open Lib

variable {S F C T : Type}

/-- `struct timeval`. -/
structure Timeval where
  tv_sec : Int
  tv_usec : Int

/-- `setsockopt(sockfd, level, optname, tv, ..)`: the hooks' records afterwards.
`solSocket` says that `level` is `SOL_SOCKET`, and `optname` is one of the two timeouts
or something else.  In every case `setsockopt_f` is called with the same arguments. -/
def FdManager.setsockopt (m : FdManager) (hookEnable : Bool) (sockfd : Nat) (solSocket : Bool)
    (optname : Option TimeoutOpt) (tv : Timeval) : FdManager :=
  if !hookEnable then m
  else if solSocket then
    match optname, m.find sockfd with
    | some optname, some _ =>
        m.modify sockfd fun ctx =>
          ctx.setTimeout optname (toSizeT (tv.tv_sec * 1000 + tv.tv_usec.tdiv 1000))
    | _, _ => m
  else m

/-! ## `Socket` -/

namespace Socket

/-- `struct timeval tv{int(v / 1000), int(v % 1000 * 1000)}`. -/
def timeval (v : Int) : Timeval :=
  { tv_sec := narrow (v.tdiv 1000)
    tv_usec := narrow (v.tmod 1000 * 1000) }

/-- `setOption(SOL_SOCKET, option, tv)` of a socket with descriptor `sock`. -/
def setOption (m : FdManager) (hookEnable : Bool) (sock : Nat) (option : TimeoutOpt)
    (tv : Timeval) : FdManager :=
  m.setsockopt hookEnable sock true (some option) tv

/-- Setting one of the timeouts. -/
def setTimeout (option : TimeoutOpt) (m : FdManager) (hookEnable : Bool) (sock : Nat) (v : Int) :
    FdManager :=
  setOption m hookEnable sock option (timeval v)

/-- Getting one of the timeouts. -/
def getTimeout (option : TimeoutOpt) (m : FdManager) (sock : Nat) : Int :=
  match m.find sock with
  | some ctx => toInt64 (ctx.getTimeout option)
  | none => -1

/-- `setRecvTimeout(v)`. -/
def setRecvTimeout : FdManager → Bool → Nat → Int → FdManager :=
  setTimeout .SO_RCVTIMEO

/-- `setSendTimeout(v)`. -/
def setSendTimeout : FdManager → Bool → Nat → Int → FdManager :=
  setTimeout .SO_SNDTIMEO

/-- `getRecvTimeout()`. -/
def getRecvTimeout : FdManager → Nat → Int :=
  getTimeout .SO_RCVTIMEO

/-- `getSendTimeout()`. -/
def getSendTimeout : FdManager → Nat → Int :=
  getTimeout .SO_SNDTIMEO

/-- The milliseconds that are left of `v`. -/
def millis (v : Int) : Int :=
  narrow (v / 1000) * 1000 + v % 1000

theorem timeval_millis {v : Int} (hv : 0 ≤ v) :
    (timeval v).tv_sec * 1000 + (timeval v).tv_usec.tdiv 1000 = millis v := by
  have hdiv : v.tdiv 1000 = v / 1000 := Int.tdiv_eq_ediv_of_nonneg hv
  have hmod : v.tmod 1000 = v % 1000 := Int.tmod_eq_emod_of_nonneg hv
  have husec : narrow (v % 1000 * 1000) = v % 1000 * 1000 := narrow_of_lt (by omega) (by omega)
  have hback : (v % 1000 * 1000).tdiv 1000 = v % 1000 := Int.mul_tdiv_cancel _ (by decide)
  simp only [timeval, millis, hdiv, hmod, husec, hback]

/-- Exactly below 2^31 seconds nothing is lost. -/
theorem millis_eq_iff {v : Int} (hv : 0 ≤ v) : millis v = v ↔ v < 2147483648000 := by
  have hkeep : narrow (v / 1000) = v / 1000 ↔ -2 ^ 31 ≤ v / 1000 ∧ v / 1000 < 2 ^ 31 :=
    narrow_eq_iff
  rw [millis]
  constructor
  · intro heq
    have hsec : narrow (v / 1000) = v / 1000 := by omega
    have hlt := (hkeep.mp hsec).2
    omega
  · intro hlt
    have hsec := hkeep.mpr ⟨by omega, by omega⟩
    omega

theorem millis_bounds (v : Int) : -2 ^ 63 ≤ millis v ∧ millis v < 2 ^ 63 := by
  obtain ⟨hlow, hhigh⟩ := narrow_bounds (v / 1000)
  rw [millis]
  omega

variable {m : FdManager} {sock : Nat} {ctx : FdCtx} {option : TimeoutOpt} {v : Int}

/-- The record after the timeout was set. -/
theorem find_setTimeout (hfind : m.find sock = some ctx) (hv : 0 ≤ v) :
    (setTimeout option m true sock v).find sock =
      some (ctx.setTimeout option (toSizeT (millis v))) := by
  simp only [setTimeout, setOption, FdManager.setsockopt, hfind, timeval_millis hv, Bool.not_true,
    Bool.false_eq_true, if_false, if_true]
  rw [FdManager.find_modify, if_pos rfl, hfind, Option.map_some]

theorem getTimeout_set (c : FdCtx) (option : TimeoutOpt) (t : Nat) :
    (c.setTimeout option t).getTimeout option = t := by
  cases option <;> rfl

/-- What the getter reads. -/
theorem getTimeout_setTimeout (hfind : m.find sock = some ctx) (hv : 0 ≤ v) :
    getTimeout option (setTimeout option m true sock v) sock = millis v := by
  obtain ⟨hlow, hhigh⟩ := millis_bounds v
  simp only [getTimeout, find_setTimeout hfind hv, getTimeout_set]
  exact toInt64_toSizeT hlow hhigh

end Socket

/-! ## The wait -/

namespace IoSys

/-- The times of the steps of a history: time does not go back, and a timer does not
expire before its delay is over. -/
structure Clock (es : History S F C T) (clock : Nat → Nat) : Prop where
  mono : Monotone clock
  due : ∀ j k u u' d, es[j]? = some (u, .arm) → u.delay = some d →
    es[k]? = some (u', .expire u.timers.length) → clock j + d ≤ clock k

variable {a : WaitArgs S F} {s s' : IoSys S F C T} {es : History S F C T}
  {act : IoAct S F C T} {ctx : FdCtx}

/-! ## The meaning of a timeout -/

/-- The runs of a call that does not become ready, on the record that `fds` has of the
descriptor. -/
def NeverReady [DecidableEq T] (a : WaitArgs S F) (kernel : Kernel) (fds : FdManager)
    (es : History S F C T) (s : IoSys S F C T) : Prop :=
  ∃ ctx, fds.find a.fd = some ctx ∧
    Path (proceed (IoSys.step a)) (neverReady a ctx) (init kernel fds .create) es s

/-- Those in which its callbacks are prompt, and others leave its registration alone. -/
def LeftAlone [DecidableEq T] (a : WaitArgs S F) (kernel : Kernel) (fds : FdManager)
    (es : History S F C T) (s : IoSys S F C T) : Prop :=
  ∃ ctx, fds.find a.fd = some ctx ∧
    Path (proceed (IoSys.step a)) (untouched a ctx) (init kernel fds .create) es s

variable (C T) in
/-- What it means to set the call's timeout to `v`: the getter returns it; a call that
does not become ready arms a timer of `v` milliseconds in every round, and returns nothing
but -1 with `ETIMEDOUT`, when `v` milliseconds have passed since it armed one; if it is left
alone it does return: no more than 13 steps of the call and its callbacks count, and until
then one of them can be taken; and for `v = 0` it arms none, and does not return. -/
structure Honoured [DecidableEq T] (a : WaitArgs S F) (kernel : Kernel) (fds : FdManager)
    (v : Int) : Prop where
  getter : Socket.getTimeout a.timeoutSo (Socket.setTimeout a.timeoutSo fds true a.fd v) a.fd = v
  bounded : 0 < v → ∀ (es : History S F C T) s,
    NeverReady a kernel (Socket.setTimeout a.timeoutSo fds true a.fd v) es s →
      (∀ u, (u, .arm) ∈ es → u.delay = some v.toNat) ∧
      ∀ n e, s.pc = .ret n e → n = -1 ∧ e = some .ETIMEDOUT ∧
        ∀ clock, Clock es clock → ∃ j u, es[j]? = some (u, .arm) ∧
          clock j + v.toNat ≤ clock (es.length - 1)
  returns : 0 < v → ∀ (es : History S F C T) s,
    LeftAlone a kernel (Socket.setTimeout a.timeoutSo fds true a.fd v) es s →
      es.countP (fun e => e.2.counts) ≤ 13 ∧
      ((∃ n e, s.pc = .ret n e) ∨ ∃ act, act.counts = true ∧ (s.step a act).isSome = true)
  unbounded : v = 0 → ∀ (es : History S F C T) s,
    NeverReady a kernel (Socket.setTimeout a.timeoutSo fds true a.fd v) es s →
      (∀ u, (u, .arm) ∈ es → u.delay = none) ∧ ∀ n e, s.pc ≠ .ret n e

theorem BlockingSocket.setTimeout (h : BlockingSocket ctx) (option : TimeoutOpt) (t : Nat) :
    BlockingSocket (ctx.setTimeout option t) := by
  cases option <;> exact h

/-- A value in range is the timeout of the call. -/
theorem honoured_of_lt [DecidableEq T] {kernel : Kernel} {fds : FdManager} {v : Int}
    (hkind : a.kind = .do_io) (hhook : a.hookEnable = true) (hctx : BlockingSocket ctx)
    (hfind : fds.find a.fd = some ctx) (hpos : 0 < v) (hlt : v < 2147483648000) :
    Honoured C T a kernel fds v := by
  have hv : 0 ≤ v := by omega
  have hmillis : Socket.millis v = v := (Socket.millis_eq_iff hv).mpr hlt
  have hword : toSizeT v = v.toNat := toSizeT_nonneg hv (by omega)
  have hfind' : (Socket.setTimeout a.timeoutSo fds true a.fd v).find a.fd = _ :=
    Socket.find_setTimeout hfind hv
  rw [hmillis, hword] at hfind'
  have hne : v.toNat ≠ wordSize - 1 := by
    simp only [wordSize]
    omega
  refine ⟨?_, fun _ es s hready => ?_, fun _ es s halone => ?_,
    fun hzero => absurd hzero (by omega)⟩
  · rw [Socket.getTimeout_setTimeout hfind hv, hmillis]
  · obtain ⟨ctx', hctx', hpath⟩ := hready
    obtain rfl := Option.some.inj (hfind'.symm.trans hctx')
    obtain ⟨harms, hret⟩ := neverReady_waits hkind hhook (hctx.setTimeout _ _) hpath
    have hdelay : ∀ u, (u, .arm) ∈ es → u.delay = some v.toNat := by
      intro u hu
      have hto : u.timeout = v.toNat := (harms u hu).trans (Socket.getTimeout_set _ _ _)
      rw [delay, hto, if_neg hne]
    refine ⟨hdelay, fun n e hpc => ?_⟩
    obtain ⟨hn, he, j, k, u, u', hj, -, hk⟩ := hret n e hpc
    refine ⟨hn, he, fun clock hclock => ⟨j, u, hj, ?_⟩⟩
    have hdue := hclock.due j k u u' _ hj (hdelay u (List.mem_of_getElem? hj)) hk
    have hlast : k ≤ es.length - 1 := Nat.le_sub_one_of_lt (List.getElem?_eq_some_iff.mp hk).1
    exact hdue.trans (hclock.mono hlast)
  · obtain ⟨ctx', hctx', hpath⟩ := halone
    obtain rfl := Option.some.inj (hfind'.symm.trans hctx')
    refine neverReady_ends hkind hhook (hctx.setTimeout _ _) ?_ hpath
    rw [Socket.getTimeout_set]
    exact hne

/-- With a timeout of 0 the first round arms a timer. -/
theorem not_honoured_zero [DecidableEq T] {kernel : Kernel} {fds : FdManager}
    (hkind : a.kind = .do_io) (hhook : a.hookEnable = true) (hctx : BlockingSocket ctx)
    (hfind : fds.find a.fd = some ctx) (hopen : (kernel a.fd).isSome = true) :
    ¬ Honoured C T a kernel fds 0 := by
  intro h
  have hfind' : (Socket.setTimeout a.timeoutSo fds true a.fd 0).find a.fd = _ :=
    Socket.find_setTimeout hfind le_rfl
  obtain ⟨s₀, hs₀⟩ : ∃ s₀ : IoSys S F C T, s₀ =
      init kernel (Socket.setTimeout a.timeoutSo fds true a.fd 0) .create := ⟨_, rfl⟩
  have hstart : s₀.fds.find a.fd = some (ctx.setTimeout a.timeoutSo 0) := by
    rw [hs₀]
    exact hfind'
  have henter := enter_blocking (s := s₀) hkind hhook (hctx.setTimeout a.timeoutSo 0) hstart
  rw [Socket.getTimeout_set] at henter
  -- the call would block, and goes on to wait
  obtain ⟨s₁, hs₁⟩ : ∃ s₁ : IoSys S F C T,
      s₁ = { s₀ with pc := .call, enteredOn := some s₀.opened, timeout := 0 } := ⟨_, rfl⟩
  obtain ⟨s₂, hs₂⟩ : ∃ s₂ : IoSys S F C T, s₂ = { s₁ with pc := .arm } := ⟨_, rfl⟩
  have h₁ : s₀.step a .enter = some (.ok s₁) := by
    have hpc : s₀.pc = .entry := by rw [hs₀]; rfl
    simp only [IoSys.step, if_pos hpc, henter, hs₁]
  have h₂ : s₁.step a (.call ⟨-1, .EAGAIN⟩) = some (.ok s₂) := by
    have hkernel : s₀.kernel a.fd ≠ none := by
      rw [hs₀]
      exact Option.isSome_iff_ne_none.mp hopen
    simp [IoSys.step, hs₂, hs₁, hkernel, callResult, hkind]
  have h₃ : s₂.step a .arm = some (.ok s₂.arm) := by
    simp [IoSys.step, hs₂]
  have hguard₂ : neverReady a (ctx.setTimeout a.timeoutSo 0) s₁ (.call ⟨-1, .EAGAIN⟩) := .inr rfl
  have hguard₃ : neverReady a (ctx.setTimeout a.timeoutSo 0) s₂ .arm := trivial
  have hpath₁ : Path (proceed (IoSys.step a)) (neverReady a (ctx.setTimeout a.timeoutSo 0)) s₀
      ([] ++ [(s₀, .enter)]) s₁ := Path.snoc .nil hstart (proceed_eq_some.mpr h₁)
  have hpath₂ := Path.snoc hpath₁ hguard₂ (proceed_eq_some.mpr h₂)
  have hpath := Path.snoc hpath₂ hguard₃ (proceed_eq_some.mpr h₃)
  subst hs₀
  have hnone : s₂.delay = none := (h.unbounded rfl _ _ ⟨_, hfind', hpath⟩).1 s₂ (mem_last _)
  have hzero : s₂.delay = some 0 := by
    rw [hs₂, hs₁]
    rfl
  exact absurd (hnone.symm.trans hzero) (by simp)

/-- The record of descriptor 5. -/
def record5 : FdCtx :=
  { isInit := true
    isSocket := true
    sysNonblock := true
    userNonblock := false
    isClosed := false
    fd := 5
    recvTimeout := 1000
    sendTimeout := wordSize - 1 }

theorem find_record5 : socket5.fds.find 5 = some record5 := by decide +kernel

instance (r : SysResult) : Decidable (Again r) :=
  inferInstanceAs (Decidable (r = ⟨-1, .EINTR⟩ ∨ r = ⟨-1, .EAGAIN⟩))

instance (a : WaitArgs S F) (ctx : FdCtx) (s : IoSys S F C T) :
    (act : IoAct S F C T) → Decidable (neverReady a ctx s act)
  | .enter => inferInstanceAs (Decidable (s.fds.find a.fd = some ctx))
  | .call r => inferInstanceAs (Decidable (Again r))
  | .add _ => instDecidableEqBool _ _
  | .arm | .yield | .resume | .disarm | .test | .getsockopt .. | .expire _ | .lock _ | .check _
  | .set _ | .cancelEvent .. | .event .. | .wait .. | .dispatch .. | .resize _ | .close ..
  | .cancelAll .. | .del _ | .close_f _ | .socket .. | .get _ => .isTrue trivial

/-- The record after `setRecvTimeout(0)`. -/
def fds5 : FdManager := Socket.setRecvTimeout socket5.fds true 5 0

end IoSys

end CoLib
