/-
# `CoLib.Net.TcpServer` — binding and accepting

`TcpServer::bind` makes a listening socket for each address of a list, appends the
addresses that fail to a vector of the caller, and afterwards looks whether that vector is
empty: if not, it clears `m_socks` and returns `false`.

`startAccept` accepts from one listening socket until the server is stopped.  The receive
timeout `m_recvTimeout` is for the clients, and is set on the listening socket.  The
timeouts are those of the hooks' records, on a thread with the hooks enabled, as the
scheduler's are.

**Proved here.**  `bind_meets_iff`: `bind` does what it has to if no address fails and the
vector was empty, or if one fails and there were no sockets; and in no other case.
`startAccept_serves_iff`: in a run, every client has its timeout and the listening socket
keeps its own exactly if no accepted client makes a difference (`Harmless`).
-/
import CoLib.Hook.SocketTimeout
import CoLib.Lib.Run

namespace CoLib.TcpServer

open Lib

/-! ## `bind` -/

section

variable {K A : Type}

/-- What the calls of the kernel return that `bind` makes, and the kernel afterwards.  A
call of `bind` or `listen` has succeeded if it returned 0. -/
structure SocketCalls (K A : Type) where
  socket : K → A → Option Nat × K
  bind : K → Nat → A → Bool × K
  listen : K → Nat → Bool × K
  close : K → Nat → K

/-- `Socket::CreateTCP(addr)`, `sock->bind(addr)` and `sock->listen()`: the listening
socket; the destructor closes a socket that is given up. -/
def listenOn (c : SocketCalls K A) (k : K) (addr : A) : Option Nat × K :=
  match c.socket k addr with
  | (none, k) => (none, k)
  | (some sock, k) =>
      match c.bind k sock addr with
      | (false, k) => (none, c.close k sock)
      | (true, k) =>
          match c.listen k sock with
          | (false, k) => (none, c.close k sock)
          | (true, k) => (some sock, k)

/-- The loop over `addrs`: `m_socks` and `fails` afterwards. -/
def bindLoop (c : SocketCalls K A) : K → List A → List Nat → List A → List Nat × List A
  | _, [], socks, fails => (socks, fails)
  | k, addr :: addrs, socks, fails =>
      match listenOn c k addr with
      | (some sock, k) => bindLoop c k addrs (socks ++ [sock]) fails
      | (none, k) => bindLoop c k addrs socks (fails ++ [addr])

/-- What `bind(addrs, fails)` leaves: the result, `m_socks` and `fails`. -/
structure Bound (A : Type) where
  returned : Bool
  socks : List Nat
  fails : List A
  deriving DecidableEq

/-- `bind(addrs, fails)` of a server with the sockets `socks`. -/
def bind (c : SocketCalls K A) (k : K) (socks : List Nat) (addrs fails : List A) : Bound A :=
  let (socks, fails) := bindLoop c k addrs socks fails
  if fails.isEmpty then { returned := true, socks, fails }
  else { returned := false, socks := [], fails }

/-- `bind(addr)`. -/
def bindOne (c : SocketCalls K A) (k : K) (socks : List Nat) (addr : A) : Bound A :=
  bind c k socks [addr] []

/-- The listening socket for each address, where there is one. -/
def attempts (c : SocketCalls K A) : K → List A → List (A × Option Nat)
  | _, [] => []
  | k, addr :: addrs =>
      let (sock, k) := listenOn c k addr
      (addr, sock) :: attempts c k addrs

/-- The addresses that fail. -/
def failing (l : List (A × Option Nat)) : List A :=
  (l.filter fun p => p.2.isNone).map Prod.fst

/-- The new sockets. -/
def listening (l : List (A × Option Nat)) : List Nat :=
  l.filterMap Prod.snd

variable {c : SocketCalls K A} {k : K} {addrs : List A} {socks : List Nat} {fails : List A}

/-- The loop adds the new sockets and the failing addresses, in their order. -/
theorem bindLoop_eq (addrs : List A) (k : K) (socks : List Nat) (fails : List A) :
    bindLoop c k addrs socks fails =
      (socks ++ listening (attempts c k addrs), fails ++ failing (attempts c k addrs)) := by
  induction addrs generalizing k socks fails with
  | nil => simp [bindLoop, attempts, listening, failing]
  | cons addr addrs ih =>
      rcases hlisten : listenOn c k addr with ⟨sock, k'⟩
      cases sock with
      | none => simp [bindLoop, attempts, listening, failing, hlisten, ih]
      | some sock => simp [bindLoop, attempts, listening, failing, hlisten, ih]

/-- Every address was bound and is listening. -/
def AllListening (l : List (A × Option Nat)) : Prop :=
  ∀ p ∈ l, p.2.isSome = true

instance (l : List (A × Option Nat)) : Decidable (AllListening l) :=
  inferInstanceAs (Decidable (∀ p ∈ l, _))

theorem failing_eq_nil_iff {l : List (A × Option Nat)} : failing l = [] ↔ AllListening l := by
  rw [failing, List.map_eq_nil_iff, List.filter_eq_nil_iff]
  refine forall₂_congr fun p _ => ?_
  cases p.2 <;> simp

/-- What a call of `bind` has to do. -/
structure Meets (c : SocketCalls K A) (k : K) (socks : List Nat) (addrs fails : List A)
    (b : Bound A) : Prop where
  returned : b.returned = true ↔ AllListening (attempts c k addrs)
  bound : AllListening (attempts c k addrs) →
    b.socks = socks ++ listening (attempts c k addrs)
  failed : ¬ AllListening (attempts c k addrs) →
    b.fails = fails ++ failing (attempts c k addrs) ∧ ∀ sock ∈ socks, sock ∈ b.socks

/-- **`bind`.** -/
theorem bind_meets_iff (c : SocketCalls K A) (k : K) (socks : List Nat) (addrs fails : List A) :
    Meets c k socks addrs fails (bind c k socks addrs fails) ↔
      (AllListening (attempts c k addrs) ∧ fails = []) ∨
        (¬ AllListening (attempts c k addrs) ∧ socks = []) := by
  by_cases hall : AllListening (attempts c k addrs)
  · have hfails : fails ++ failing (attempts c k addrs) = fails := by
      rw [failing_eq_nil_iff.mpr hall, List.append_nil]
    cases fails with
    | nil =>
        refine iff_of_true ?_ (.inl ⟨hall, rfl⟩)
        simp only [bind, bindLoop_eq, hfails, List.isEmpty_nil, if_true]
        exact ⟨iff_of_true rfl hall, fun _ => rfl, fun h => absurd hall h⟩
    | cons addr fails =>
        refine iff_of_false ?_ (by simp [hall])
        intro h
        have htrue := h.returned.mpr hall
        simp only [bind, bindLoop_eq, hfails, List.isEmpty_cons] at htrue
        cases htrue
  · have hfails : (fails ++ failing (attempts c k addrs)).isEmpty = false := by
      rw [List.isEmpty_eq_false_iff]
      intro hnil
      exact hall (failing_eq_nil_iff.mp (List.append_eq_nil_iff.mp hnil).2)
    have hbind : bind c k socks addrs fails =
        { returned := false, socks := [], fails := fails ++ failing (attempts c k addrs) } := by
      simp only [bind, bindLoop_eq, hfails, Bool.false_eq_true, if_false]
    rw [hbind]
    constructor
    · intro h
      refine .inr ⟨hall, List.eq_nil_iff_forall_not_mem.mpr fun sock hsock => ?_⟩
      exact absurd ((h.failed hall).2 sock hsock) List.not_mem_nil
    · rintro (⟨h, -⟩ | ⟨-, rfl⟩)
      · exact absurd h hall
      · exact ⟨iff_of_false Bool.false_ne_true hall, fun h => absurd h hall,
          fun _ => ⟨rfl, fun sock h => absurd h List.not_mem_nil⟩⟩

/-- A single address, for which there is no vector of the caller. -/
theorem bindOne_meets_iff (addr : A) :
    Meets c k socks [addr] [] (bindOne c k socks addr) ↔
      (listenOn c k addr).1.isSome = true ∨ socks = [] := by
  have hall : AllListening (attempts c k [addr]) ↔ (listenOn c k addr).1.isSome = true :=
    List.forall_mem_singleton
  rw [bindOne, bind_meets_iff, hall]
  by_cases h : (listenOn c k addr).1.isSome = true
  · exact iff_of_true (.inl ⟨h, rfl⟩) (.inl h)
  · exact ⟨fun hor => .inr (hor.resolve_left fun hand => h hand.1).2,
      fun hor => .inr ⟨h, hor.resolve_left h⟩⟩

/-- A kernel where the address 1 is in use. -/
def inUse : SocketCalls Unit Nat where
  socket _ addr := (some (addr + 10), ())
  bind _ _ addr := (addr != 1, ())
  listen _ _ := (true, ())
  close _ _ := ()

/-- A server that listens, and is bound to an address in use. -/
theorem bind_inUse : ¬ Meets inUse () [3] [1, 2] [] (bind inUse () [3] [1, 2] []) := by
  intro h
  exact absurd ((h.failed (by decide)).2 3 List.mem_cons_self) (by decide)

end

/-! ## `startAccept` -/

/-- A client that `startAccept` has given to `handleClient`: its descriptor, the receive
timeout of its record, and `m_recvTimeout` when it was accepted. -/
structure Client where
  sock : Nat
  timeout : Option Nat
  readTimeout : Nat

/-- A server while `startAccept` runs: `m_isStop`, `m_recvTimeout`, whether the loop is in
`accept`, the hooks' records, the kernel, and the clients scheduled so far. -/
structure Accepting where
  isStop : Bool
  recvTimeout : Nat
  inAccept : Bool
  fds : FdManager
  kernel : Kernel
  clients : List Client

/-- A step: of the loop (`head`, `failed` and `accepted`), a call of another thread, or
whatever else happens to descriptors. -/
inductive AcceptAct where
  | head
  | failed
  | accepted (newsock : Nat)
  | setReadTimeout (v : UInt64)
  | stop
  | others (fds : FdManager) (kernel : Kernel)

namespace Accepting

/-- `sock->init(newsock)`: the descriptor has a record of an open socket. -/
def isClient (fds : FdManager) (newsock : Nat) : Bool :=
  match fds.find newsock with
  | some ctx => ctx.isSocket && !ctx.isClosed
  | none => false

/-- The receive timeout of a record. -/
def timeoutOf (fds : FdManager) (sock : Nat) : Option Nat :=
  (fds.find sock).map fun ctx => ctx.getTimeout .SO_RCVTIMEO

/-- One step of a server that accepts from `sock`. -/
def step (sock : Nat) (s : Accepting) : AcceptAct → Option Accepting
  | .head => if s.inAccept || s.isStop then none else some { s with inAccept := true }
  | .failed => if s.inAccept then some { s with inAccept := false } else none
  | .accepted newsock =>
      if s.inAccept = true ∧ newsock ≠ sock then
        let (fds, kernel) := s.fds.getOrCreate s.kernel newsock
        let s := { s with inAccept := false, fds, kernel }
        if isClient s.fds newsock then
          let fds := Socket.setRecvTimeout s.fds true sock (toInt64 s.recvTimeout)
          let client : Client :=
            { sock := newsock, timeout := timeoutOf fds newsock, readTimeout := s.recvTimeout }
          some { s with fds, clients := s.clients ++ [client] }
        else some s
      else none
  | .setReadTimeout v => some { s with recvTimeout := v.toNat }
  | .stop => some { s with isStop := true }
  | .others fds kernel => some { s with fds, kernel }

/-- The step is one of the loop. -/
def ofLoop : AcceptAct → Bool
  | .head => true
  | .failed => true
  | .accepted _ => true
  | _ => false

/-- Every client has its timeout, and no step of the loop changes that of the listening
socket. -/
structure Serves (sock : Nat) (es : List (Accepting × AcceptAct)) (s : Accepting) : Prop where
  clients : ∀ c ∈ s.clients, c.timeout = some c.readTimeout
  listener : ∀ e ∈ es, ofLoop e.2 = true → ∀ s', step sock e.1 e.2 = some s' →
    timeoutOf s'.fds sock = timeoutOf e.1.fds sock

/-- What `setRecvTimeout(v)` writes into the record. -/
def written (v : Nat) : Nat :=
  let tv := Socket.timeval (toInt64 v)
  toSizeT (tv.tv_sec * 1000 + tv.tv_usec.tdiv 1000)

/-- The step makes no client, or the client has the timeout already, and so has the
listening socket what is written there. -/
def Harmless (sock : Nat) (s : Accepting) : AcceptAct → Prop
  | .accepted newsock =>
      let fds := (s.fds.getOrCreate s.kernel newsock).1
      isClient fds newsock = true →
        timeoutOf fds newsock = some s.recvTimeout ∧
          ∀ v ∈ timeoutOf s.fds sock, v = written s.recvTimeout
  | _ => True

/-! ### The records -/

variable {fds : FdManager} {kernel : Kernel} {sock newsock : Nat}

/-- Creating a record leaves the others alone. -/
theorem find_getOrCreate_ne (hne : newsock ≠ sock) :
    (fds.getOrCreate kernel newsock).1.find sock = fds.find sock := by
  rw [FdManager.getOrCreate]
  cases fds.find newsock with
  | some ctx => rfl
  | none =>
      simp only [FdManager.find_eq_slot, FdManager.slot, List.getElem?_set_ne hne]
      split
      · rename_i hlen
        have hsize : fds.datas.length ≤ newsock * 3 / 2 := by omega
        rw [FdManager.resize, List.take_of_length_le hsize, List.getElem?_append]
        split
        · rfl
        · rename_i hout
          rw [List.getElem?_eq_none (not_lt.mp hout), List.getElem?_replicate]
          split <;> rfl
      · rfl

theorem timeoutOf_getOrCreate (hne : newsock ≠ sock) :
    timeoutOf (fds.getOrCreate kernel newsock).1 sock = timeoutOf fds sock := by
  rw [timeoutOf, find_getOrCreate_ne hne, timeoutOf]

theorem setRecvTimeout_none {v : Int} (hfind : fds.find sock = none) :
    Socket.setRecvTimeout fds true sock v = fds := by
  simp [Socket.setRecvTimeout, Socket.setTimeout, Socket.setOption, FdManager.setsockopt, hfind]

theorem setRecvTimeout_some {v : Nat} {ctx : FdCtx} (hfind : fds.find sock = some ctx) :
    Socket.setRecvTimeout fds true sock (toInt64 v) =
      fds.modify sock fun ctx => ctx.setTimeout .SO_RCVTIMEO (written v) := by
  simp [Socket.setRecvTimeout, Socket.setTimeout, Socket.setOption, FdManager.setsockopt, hfind,
    written]

/-- `sock->setRecvTimeout(m_recvTimeout)` writes into the record of `sock` only. -/
theorem timeoutOf_setRecvTimeout (v other : Nat) :
    timeoutOf (Socket.setRecvTimeout fds true sock (toInt64 v)) other =
      if sock = other then (timeoutOf fds sock).map fun _ => written v
      else timeoutOf fds other := by
  cases hfind : fds.find sock with
  | none =>
      rw [setRecvTimeout_none hfind]
      split
      · rename_i heq
        rw [← heq, timeoutOf, hfind]
        rfl
      · rfl
  | some ctx =>
      rw [setRecvTimeout_some hfind]
      simp only [timeoutOf, FdManager.find_modify, hfind]
      split
      · rename_i heq
        rw [← heq, hfind]
        exact congrArg some (Socket.getTimeout_set ctx .SO_RCVTIMEO (written v))
      · rfl

/-! ### Steps and runs -/

variable {s s' : Accepting} {a : AcceptAct}

/-- What a step of the loop that accepts does. -/
theorem step_accepted (h : step sock s (.accepted newsock) = some s') :
    ∃ new, s'.clients = s.clients ++ new ∧
      (isClient (s.fds.getOrCreate s.kernel newsock).1 newsock = true →
        new = [{ sock := newsock
                 timeout := timeoutOf (s.fds.getOrCreate s.kernel newsock).1 newsock
                 readTimeout := s.recvTimeout }] ∧
          timeoutOf s'.fds sock = (timeoutOf s.fds sock).map fun _ => written s.recvTimeout) ∧
      (isClient (s.fds.getOrCreate s.kernel newsock).1 newsock = false →
        new = [] ∧ timeoutOf s'.fds sock = timeoutOf s.fds sock) := by
  simp only [step] at h
  split at h
  · rename_i haccept
    have hne := haccept.2
    split at h
    · rename_i hclient
      obtain rfl := Option.some.inj h
      refine ⟨_, rfl, fun _ => ⟨?_, ?_⟩, fun hno => absurd (hno.symm.trans hclient) (by decide)⟩
      · rw [timeoutOf_setRecvTimeout, if_neg (Ne.symm hne)]
      · simp only [timeoutOf_setRecvTimeout, if_true, timeoutOf_getOrCreate hne]
    · rename_i hclient
      obtain rfl := Option.some.inj h
      refine ⟨[], (List.append_nil _).symm, fun hyes => absurd hyes hclient, fun _ => ⟨rfl, ?_⟩⟩
      exact timeoutOf_getOrCreate hne
  · cases h

/-- A step is right exactly if it is harmless. -/
theorem step_serves (h : step sock s a = some s') :
    ∃ new, s'.clients = s.clients ++ new ∧
      ((∀ c ∈ new, c.timeout = some c.readTimeout) ∧
          (ofLoop a = true → timeoutOf s'.fds sock = timeoutOf s.fds sock) ↔
        Harmless sock s a) := by
  cases a with
  | head =>
      simp only [step] at h
      split at h
      · cases h
      · obtain rfl := Option.some.inj h
        exact ⟨[], (List.append_nil _).symm, by simp [Harmless]⟩
  | failed =>
      simp only [step] at h
      split at h
      · obtain rfl := Option.some.inj h
        exact ⟨[], (List.append_nil _).symm, by simp [Harmless]⟩
      · cases h
  | accepted newsock =>
      obtain ⟨new, hnew, hyes, hno⟩ := step_accepted h
      refine ⟨new, hnew, ?_⟩
      cases hclient : isClient (s.fds.getOrCreate s.kernel newsock).1 newsock with
      | false =>
          obtain ⟨rfl, htimeout⟩ := hno hclient
          refine iff_of_true ⟨fun c hc => absurd hc List.not_mem_nil, fun _ => htimeout⟩ ?_
          intro htrue
          exact absurd (hclient.symm.trans htrue) (by decide)
      | true =>
          obtain ⟨rfl, htimeout⟩ := hyes hclient
          rw [htimeout, List.forall_mem_singleton]
          have hsame : ((timeoutOf s.fds sock).map fun _ => written s.recvTimeout) =
              timeoutOf s.fds sock ↔ ∀ v ∈ timeoutOf s.fds sock, v = written s.recvTimeout := by
            cases timeoutOf s.fds sock with
            | none => simp
            | some v => simp [eq_comm]
          simp only [Harmless, ofLoop, hclient, true_imp_iff, hsame]
  | setReadTimeout v =>
      obtain rfl := Option.some.inj h
      exact ⟨[], (List.append_nil _).symm, by simp [Harmless, ofLoop]⟩
  | stop =>
      obtain rfl := Option.some.inj h
      exact ⟨[], (List.append_nil _).symm, by simp [Harmless, ofLoop]⟩
  | others fds kernel =>
      obtain rfl := Option.some.inj h
      exact ⟨[], (List.append_nil _).symm, by simp [Harmless, ofLoop]⟩

/-- **Runs of `startAccept`.**  Every client has its timeout and the listening socket keeps
its own, exactly if every step is harmless. -/
theorem startAccept_serves_iff (sock : Nat) (s₀ s : Accepting) (es : List (Accepting × AcceptAct))
    (hnew : s₀.clients = []) (h : Path (step sock) (fun _ _ => True) s₀ es s) :
    Serves sock es s ↔ ∀ e ∈ es, Harmless sock e.1 e.2 := by
  induction h with
  | nil =>
      refine iff_of_true ⟨fun c hc => ?_, fun e he => absurd he List.not_mem_nil⟩
        fun e he => absurd he List.not_mem_nil
      rw [hnew] at hc
      exact absurd hc List.not_mem_nil
  | @snoc es s s' a _ _ hstep ih =>
      obtain ⟨new, hclients, hstepIff⟩ := step_serves hstep
      rw [List.forall_mem_append, List.forall_mem_singleton, ← ih, ← hstepIff]
      constructor
      · intro hserves
        have hall := hserves.clients
        rw [hclients, List.forall_mem_append] at hall
        exact ⟨⟨hall.1, fun e he => hserves.listener e (List.mem_append_left _ he)⟩, hall.2,
          fun hloop => hserves.listener _ (List.mem_append_right _ (List.mem_singleton_self _))
            hloop _ hstep⟩
      · rintro ⟨hserves, hnew, hlistener⟩
        refine ⟨?_, ?_⟩
        · rw [hclients, List.forall_mem_append]
          exact ⟨hserves.clients, hnew⟩
        · rw [List.forall_mem_append, List.forall_mem_singleton]
          refine ⟨hserves.listener, fun hloop s'' hs'' => ?_⟩
          rw [hstep] at hs''
          obtain rfl := Option.some.inj hs''
          exact hlistener hloop

/-- A client whose record is new has no timeout: the step is harmless only if the server
has none either, nor the listening socket. -/
theorem harmless_new_iff {f : File} (hnone : s.fds.find newsock = none)
    (hroom : newsock < s.fds.datas.length ∨ 2 ≤ newsock) (hopen : s.kernel newsock = some f)
    (hsock : f.isSock = true) :
    Harmless sock s (.accepted newsock) ↔
      s.recvTimeout = wordSize - 1 ∧ ∀ v ∈ timeoutOf s.fds sock, v = wordSize - 1 := by
  have hfind := FdManager.find_getOrCreate (k := s.kernel) hnone hroom
  rw [FdCtx.create_socket hopen hsock] at hfind
  have hclient : isClient (s.fds.getOrCreate s.kernel newsock).1 newsock = true := by
    simp only [isClient, hfind]
    rfl
  have htimeout : timeoutOf (s.fds.getOrCreate s.kernel newsock).1 newsock =
      some (wordSize - 1) := by
    rw [timeoutOf, hfind]
    rfl
  have hwritten : written (wordSize - 1) = wordSize - 1 := by decide
  simp only [Harmless, hclient, true_imp_iff, htimeout, Option.some.injEq]
  constructor
  · rintro ⟨heq, hlistener⟩
    rw [← heq, hwritten] at hlistener
    exact ⟨heq.symm, hlistener⟩
  · rintro ⟨heq, hlistener⟩
    rw [heq, hwritten]
    exact ⟨rfl, hlistener⟩

/-- Two sockets, the descriptors 3 and 4. -/
def twoSockets : Kernel := fun fd =>
  if fd = 3 ∨ fd = 4 then some { isSock := true, flags := 0#32 } else none

/-- A server with `m_recvTimeout`, listening on 3. -/
def listeningOn3 (recvTimeout : Nat) : Accepting :=
  { isStop := false
    recvTimeout
    inAccept := false
    fds := (FdManager.create.getOrCreate twoSockets 3).1
    kernel := twoSockets
    clients := [] }

/-- No timeout at all. -/
theorem startAccept_serves_noTimeout : ∃ s es,
    Path (step 3) (fun _ _ => True) (listeningOn3 (wordSize - 1)) es s ∧
      s.clients.length = 1 ∧ Serves 3 es s := by
  have hhead : Path (step 3) (fun _ _ => True) (listeningOn3 (wordSize - 1))
      [(listeningOn3 (wordSize - 1), .head)]
      { listeningOn3 (wordSize - 1) with inAccept := true } := .snoc .nil trivial rfl
  have hrun := hhead.snoc (a := .accepted 4) trivial rfl
  refine ⟨_, _, hrun, rfl, (startAccept_serves_iff 3 _ _ _ rfl hrun).mpr ?_⟩
  rw [List.forall_mem_append, List.forall_mem_singleton, List.forall_mem_singleton]
  exact ⟨trivial, (harmless_new_iff rfl (.inr (by decide)) rfl rfl).mpr
    ⟨rfl, fun v hv => (Option.some.inj hv).symm⟩⟩

/-- A timeout of two minutes: the client has none. -/
theorem startAccept_twoMinutes : ¬ ∀ s es,
    Path (step 3) (fun _ _ => True) (listeningOn3 120000) es s → Serves 3 es s := by
  intro h
  have hhead : Path (step 3) (fun _ _ => True) (listeningOn3 120000)
      [(listeningOn3 120000, .head)] { listeningOn3 120000 with inAccept := true } :=
    .snoc .nil trivial rfl
  have hclients := (h _ _ (hhead.snoc (a := .accepted 4) trivial rfl)).clients
  have hclient := hclients ⟨4, some (wordSize - 1), 120000⟩ List.mem_cons_self
  exact absurd (Option.some.inj hclient) (by decide)

end Accepting

end CoLib.TcpServer
