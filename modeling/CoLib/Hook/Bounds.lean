/-
# `CoLib.Hook.Bounds` — descriptors as indices

`FdManager` and `IOManager` index their tables with a descriptor, an `int` that the
program passes in: -1 from a closed `Socket`, or any other number.  Six functions
compare it with the size of the table cast to `int`, and two of them grow the table
to `fd * 1.5` slots first.  Here they are modelled on every `int`, with each index
checked; for descriptors that are in range they are the functions of the models of
the two tables.

`get` and `addEvent` take a lock twice, and others may change the table in between:
they have two tables, the second as it is under the second lock.

**Proved here.**  For every function the descriptors and tables for which no index is
outside: not the negative ones, except that `get` answers -1 itself, and not 0 and 1
where the table has to grow for them.
-/
import CoLib.Hook.FdManager
import CoLib.IOManager.Table

namespace CoLib

open Lib

/-- What can be wrong with an access to a table. -/
inductive TableFault where
  /-- Element `i` of a vector of `size` elements. -/
  | index (i : Int) (size : Nat)
  /-- A negative `double` is converted to `size_t`. -/
  | conversion
  deriving DecidableEq

/-! ## Vectors -/

section vectors

variable {α : Type}

/-- `v[i]`. -/
def vectorAt (v : List α) (i : Int) : Except TableFault α :=
  if 0 ≤ i then
    match v[i.toNat]? with
    | some a => .ok a
    | none => .error (.index i v.length)
  else .error (.index i v.length)

/-- `v[i] = a`. -/
def vectorSet (v : List α) (i : Int) (a : α) : Except TableFault (List α) := do
  let _ ← vectorAt v i
  .ok (v.set i.toNat a)

/-- `fd * 1.5`, converted to `size_t`. -/
def timesOneAndAHalf (fd : Int) : Except TableFault Nat :=
  if 0 ≤ fd then .ok (fd.toNat * 3 / 2) else .error .conversion

/-- No index is outside. -/
def Inside (x : Except TableFault α) : Prop :=
  ∃ a, x = .ok a

theorem vectorAt_nat {v : List α} {n : Nat} {a : α} (h : v[n]? = some a) :
    vectorAt v n = .ok a := by
  rw [vectorAt, if_pos (Int.natCast_nonneg n), Int.toNat_natCast, h]

theorem inside_vectorAt (v : List α) (i : Int) :
    Inside (vectorAt v i) ↔ 0 ≤ i ∧ i < v.length := by
  by_cases hi : 0 ≤ i
  · obtain ⟨n, rfl⟩ := Int.eq_ofNat_of_zero_le hi
    rw [vectorAt, if_pos hi, Int.toNat_natCast]
    cases hv : v[n]? with
    | some a =>
        obtain ⟨hlt, -⟩ := List.getElem?_eq_some_iff.mp hv
        exact iff_of_true ⟨a, rfl⟩ ⟨hi, by omega⟩
    | none =>
        have hle := List.getElem?_eq_none_iff.mp hv
        refine iff_of_false ?_ fun h => by omega
        rintro ⟨a, ha⟩
        cases ha
  · rw [vectorAt, if_neg hi]
    refine iff_of_false ?_ fun h => hi h.1
    rintro ⟨a, ha⟩
    cases ha

theorem inside_vectorSet (v : List α) (i : Int) (a : α) :
    Inside (vectorSet v i a) ↔ 0 ≤ i ∧ i < v.length := by
  rw [← inside_vectorAt]
  constructor
  · rintro ⟨w, hw⟩
    obtain ⟨b, hb, -⟩ := bind_ok hw
    exact ⟨b, hb⟩
  · rintro ⟨b, hb⟩
    exact ⟨_, by rw [vectorSet, hb]; rfl⟩

theorem timesOneAndAHalf_eq {fd : Int} {size : Nat} (h : timesOneAndAHalf fd = .ok size) :
    0 ≤ fd ∧ size = fd.toNat * 3 / 2 := by
  rw [timesOneAndAHalf] at h
  split at h
  · exact ⟨‹_›, (Except.ok.inj h).symm⟩
  · cases h

/-- What is done with an element does not fail. -/
theorem inside_bind {β : Type} (x : Except TableFault α) (f : α → β) :
    Inside (x >>= fun a => (.ok (f a) : Except TableFault β)) ↔ Inside x := by
  constructor
  · rintro ⟨b, hb⟩
    obtain ⟨a, ha, -⟩ := bind_ok hb
    exact ⟨a, ha⟩
  · rintro ⟨a, rfl⟩
    exact ⟨f a, rfl⟩

/-- The size cast to `int` is no larger than the size. -/
theorem toInt_le (n : Nat) : toInt n ≤ n := by
  rw [toInt_eq]
  split <;> omega

end vectors

/-! ## `FdManager` -/

namespace FdManager.Indexed

/-- `get(fd, auto_create)` up to `lock.unlock()`: what it returns, or nothing when it
goes on. -/
def getShared (m : FdManager) (fd : Int) (autoCreate : Bool) :
    Except TableFault (Option (Option FdCtx)) :=
  if fd = -1 then .ok (some none)
  else if toInt m.datas.length ≤ fd then .ok (if autoCreate then none else some none)
  else do
    let data ← vectorAt m.datas fd
    .ok (if data.isSome || !autoCreate then some data else none)

/-- `get(fd, true)` from the write lock on; `ctx` is `new FdCtx(fd)`. -/
def getExclusive (m : FdManager) (fd : Int) (ctx : FdCtx) : Except TableFault FdManager := do
  let m ←
    if fd ≥ toInt m.datas.length then do
      let size ← timesOneAndAHalf fd
      .ok (m.resize size)
    else .ok m
  let datas ← vectorSet m.datas fd (some ctx)
  .ok { datas }

/-- `get(fd, auto_create)`. -/
def get (m m' : FdManager) (fd : Int) (autoCreate : Bool) (ctx : FdCtx) :
    Except TableFault (FdManager × Option FdCtx) := do
  match ← getShared m fd autoCreate with
  | some data => .ok (m, data)
  | none =>
      let m ← getExclusive m' fd ctx
      .ok (m, some ctx)

/-- `del(fd)`. -/
def del (m : FdManager) (fd : Int) : Except TableFault FdManager :=
  if toInt m.datas.length ≤ fd then .ok m
  else do
    let datas ← vectorSet m.datas fd none
    .ok { datas }

variable {m : FdManager} {fd : Int}

theorem resize_length (m : FdManager) (size : Nat) : (m.resize size).datas.length = size := by
  simp only [resize, List.length_append, List.length_take, List.length_replicate]
  omega

/-- An access that is guarded by the size goes wrong for negative descriptors. -/
theorem inside_guarded {α : Type} {v : List α} (hlt : fd < toInt v.length) :
    Inside (vectorAt v fd) ↔ 0 ≤ fd := by
  have hle := toInt_le v.length
  rw [inside_vectorAt]
  omega

theorem inside_getExclusive (m : FdManager) (fd : Int) (ctx : FdCtx) :
    Inside (getExclusive m fd ctx) ↔ 0 ≤ fd ∧ (fd < toInt m.datas.length ∨ 2 ≤ fd) := by
  have hle := toInt_le m.datas.length
  by_cases hgrow : fd ≥ toInt m.datas.length
  · by_cases hfd : 0 ≤ fd
    · have hsize : timesOneAndAHalf fd = .ok (fd.toNat * 3 / 2) := if_pos hfd
      have hrun : getExclusive m fd ctx =
          (vectorSet (m.resize (fd.toNat * 3 / 2)).datas fd (some ctx) >>=
            fun datas => .ok { datas }) := by
        rw [getExclusive, if_pos hgrow, hsize]
        rfl
      rw [hrun, inside_bind, inside_vectorSet, resize_length]
      omega
    · have hconv : timesOneAndAHalf fd = .error .conversion := if_neg hfd
      refine iff_of_false ?_ fun h => hfd h.1
      rintro ⟨m', hm'⟩
      rw [getExclusive, if_pos hgrow, hconv] at hm'
      cases hm'
  · have hrun : getExclusive m fd ctx =
        (vectorSet m.datas fd (some ctx) >>= fun datas => .ok { datas }) := by
      rw [getExclusive, if_neg hgrow]
      rfl
    rw [hrun, inside_bind, inside_vectorSet]
    omega

/-- `get(fd, false)` does not go on. -/
theorem getShared_false (m : FdManager) (fd : Int) :
    getShared m fd false =
      if fd = -1 ∨ toInt m.datas.length ≤ fd then .ok (some none)
      else vectorAt m.datas fd >>= fun data => .ok (some data) := by
  rw [getShared]
  by_cases hnone : fd = -1
  · rw [if_pos hnone, if_pos (.inl hnone)]
  by_cases hle : toInt m.datas.length ≤ fd
  · rw [if_neg hnone, if_pos hle]
    exact (if_pos (.inr hle)).symm
  · rw [if_neg hnone, if_neg hle, if_neg (not_or.mpr ⟨hnone, hle⟩)]
    cases vectorAt m.datas fd with
    | error e => rfl
    | ok data =>
        cases data with
        | none => rfl
        | some c => rfl

theorem inside_getShared_false (m : FdManager) (fd : Int) :
    Inside (getShared m fd false) ↔ fd = -1 ∨ 0 ≤ fd ∨ toInt m.datas.length ≤ fd := by
  rw [getShared_false]
  by_cases hleft : fd = -1 ∨ toInt m.datas.length ≤ fd
  · rw [if_pos hleft]
    refine iff_of_true ⟨_, rfl⟩ ?_
    omega
  · rw [if_neg hleft, inside_bind, inside_guarded (by omega)]
    omega

theorem inside_get_false (m m' : FdManager) (fd : Int) (ctx : FdCtx) :
    Inside (get m m' fd false ctx) ↔ fd = -1 ∨ 0 ≤ fd ∨ toInt m.datas.length ≤ fd := by
  have hrun : get m m' fd false ctx =
      (getShared m fd false >>= fun data => .ok (m, data.join)) := by
    rw [get, getShared_false]
    by_cases hleft : fd = -1 ∨ toInt m.datas.length ≤ fd
    · rw [if_pos hleft]
      rfl
    · rw [if_neg hleft]
      cases vectorAt m.datas fd with
      | error e => rfl
      | ok data => rfl
  rw [hrun, inside_bind, inside_getShared_false]

theorem get_goesOn {m m' : FdManager} {autoCreate : Bool} {ctx : FdCtx}
    (h : getShared m fd autoCreate = .ok none) :
    get m m' fd autoCreate ctx = (getExclusive m' fd ctx >>= fun m => .ok (m, some ctx)) := by
  rw [get, h]
  rfl

theorem inside_get_true (m m' : FdManager) (fd : Int) (ctx : FdCtx) :
    Inside (get m m' fd true ctx) ↔ fd = -1 ∨ 0 ≤ fd ∧
      (fd < toInt m.datas.length ∧ (m.slot fd.toNat).isSome ∨
        fd < toInt m'.datas.length ∨ 2 ≤ fd) := by
  by_cases hnone : fd = -1
  · refine iff_of_true ⟨(m, none), ?_⟩ (.inl hnone)
    rw [get, getShared, if_pos hnone]
    rfl
  have hexcl := inside_getExclusive m' fd ctx
  by_cases hle : toInt m.datas.length ≤ fd
  · have hshared : getShared m fd true = .ok none := by
      rw [getShared, if_neg hnone, if_pos hle]
      rfl
    rw [get_goesOn hshared, inside_bind, hexcl]
    omega
  by_cases hfd : 0 ≤ fd
  · obtain ⟨n, rfl⟩ := Int.eq_ofNat_of_zero_le hfd
    have hlen := toInt_le m.datas.length
    have hlt : n < m.datas.length := by omega
    have hat : vectorAt m.datas n = .ok (m.slot n) := by
      rw [slot, List.getElem?_eq_getElem hlt]
      exact vectorAt_nat (List.getElem?_eq_getElem hlt)
    rw [Int.toNat_natCast]
    cases hslot : m.slot n with
    | some c =>
        refine iff_of_true ⟨(m, some c), ?_⟩ (.inr ⟨hfd, .inl ⟨by omega, rfl⟩⟩)
        rw [get, getShared, if_neg hnone, if_neg hle, hat, hslot]
        rfl
    | none =>
        have hshared : getShared m n true = .ok none := by
          rw [getShared, if_neg hnone, if_neg hle, hat, hslot]
          rfl
        rw [get_goesOn hshared, inside_bind, hexcl]
        simp only [Option.isSome_none, Bool.false_eq_true, and_false, false_or]
        omega
  · refine iff_of_false ?_ (by omega)
    rintro ⟨r, hr⟩
    obtain ⟨shared, hshared, -⟩ := bind_ok hr
    rw [getShared, if_neg hnone, if_neg hle] at hshared
    obtain ⟨data, hdata, -⟩ := bind_ok hshared
    exact hfd ((inside_guarded (by omega)).mp ⟨data, hdata⟩)

/-- For a descriptor in range it is `find`. -/
theorem getShared_eq (hsize : m.datas.length ≤ intMax) (n : Nat) :
    getShared m n false = .ok (some (m.find n)) := by
  have hint : toInt m.datas.length = m.datas.length := toInt_ofNat hsize
  rw [getShared_false, find, slot]
  by_cases hle : m.datas.length ≤ n
  · rw [if_pos (.inr (by omega)), if_pos hle]
  · have hat := vectorAt_nat (List.getElem?_eq_getElem (Nat.lt_of_not_le hle))
    rw [if_neg (by omega), if_neg hle, hat, List.getElem?_eq_getElem (Nat.lt_of_not_le hle)]
    rfl

theorem inside_del (m : FdManager) (fd : Int) :
    Inside (del m fd) ↔ 0 ≤ fd ∨ toInt m.datas.length ≤ fd := by
  by_cases hle : toInt m.datas.length ≤ fd
  · exact iff_of_true ⟨m, if_pos hle⟩ (.inr hle)
  · have hlen := toInt_le m.datas.length
    have hrun : del m fd = (vectorSet m.datas fd none >>= fun datas => .ok { datas }) :=
      if_neg hle
    rw [hrun, inside_bind, inside_vectorSet]
    omega

/-- For a descriptor in range it is the model of the table. -/
theorem del_eq (hsize : m.datas.length ≤ intMax) (n : Nat) :
    del m n = .ok (FdManager.del m n) := by
  have hint : toInt m.datas.length = m.datas.length := toInt_ofNat hsize
  by_cases hle : m.datas.length ≤ n
  · rw [del, FdManager.del, if_pos (by omega), if_pos hle]
  · have hat := vectorAt_nat (List.getElem?_eq_getElem (Nat.lt_of_not_le hle))
    rw [del, FdManager.del, if_neg (by omega), if_neg hle, vectorSet, hat]
    rfl

end FdManager.Indexed

/-! ## `IOManager` -/

namespace IOManager.Indexed

variable {S F C : Type}

/-- The lookup of `delEvent`, `cancelEvent` and `cancelAll`; nothing when they return
false. -/
def lookup (m : IOManager S F C) (fd : Int) : Except TableFault (Option FdContextPtr) :=
  if toInt m.fdContexts.length ≤ fd then .ok none
  else do
    let p ← vectorAt m.fdContexts fd
    .ok (some p)

/-- `delEvent(fd, event)` up to `fd_ctx->mutex`. -/
def delEvent (m : IOManager S F C) (fd : Int) : Except TableFault (Option FdContextPtr) :=
  lookup m fd

/-- `cancelEvent(fd, event)` up to `fd_ctx->mutex`. -/
def cancelEvent (m : IOManager S F C) (fd : Int) : Except TableFault (Option FdContextPtr) :=
  lookup m fd

/-- `cancelAll(fd)` up to `fd_ctx->mutex`. -/
def cancelAll (m : IOManager S F C) (fd : Int) : Except TableFault (Option FdContextPtr) :=
  lookup m fd

/-- `addEvent(fd, event, cb)` up to `fd_ctx->mutex`. -/
def addEvent (m m' : IOManager S F C) (fd : Int) :
    Except TableFault (IOManager S F C × FdContextPtr) :=
  if toInt m.fdContexts.length > fd then do
    let p ← vectorAt m.fdContexts fd
    .ok (m, p)
  else do
    let size ← timesOneAndAHalf fd
    let m := m'.contextResize size
    let p ← vectorAt m.fdContexts fd
    .ok (m, p)

theorem inside_lookup (m : IOManager S F C) (fd : Int) :
    Inside (lookup m fd) ↔ 0 ≤ fd ∨ toInt m.fdContexts.length ≤ fd := by
  rw [lookup]
  by_cases hle : toInt m.fdContexts.length ≤ fd
  · rw [if_pos hle]
    exact iff_of_true ⟨none, rfl⟩ (.inr hle)
  · rw [if_neg hle, inside_bind, FdManager.Indexed.inside_guarded (by omega)]
    omega

theorem inside_addEvent (m m' : IOManager S F C) (fd : Int) :
    Inside (addEvent m m' fd) ↔ 0 ≤ fd ∧ (fd < toInt m.fdContexts.length ∨ 2 ≤ fd) := by
  rw [addEvent]
  by_cases hlt : toInt m.fdContexts.length > fd
  · rw [if_pos hlt, inside_bind, FdManager.Indexed.inside_guarded hlt]
    omega
  rw [if_neg hlt]
  by_cases hfd : 0 ≤ fd
  · have hsize : timesOneAndAHalf fd = .ok (fd.toNat * 3 / 2) := if_pos hfd
    have hrun : (timesOneAndAHalf fd >>= fun size =>
          (vectorAt (m'.contextResize size).fdContexts fd >>= fun p =>
            (.ok (m'.contextResize size, p) : Except TableFault _))) =
        (vectorAt (m'.contextResize (fd.toNat * 3 / 2)).fdContexts fd >>= fun p =>
          .ok (m'.contextResize (fd.toNat * 3 / 2), p)) := by
      rw [hsize]
      rfl
    refine (Eq.to_iff (congrArg Inside hrun)).trans ?_
    rw [inside_bind, inside_vectorAt, contextResize_length]
    omega
  · refine iff_of_false ?_ fun h => hfd h.1
    rintro ⟨r, hr⟩
    obtain ⟨size, hsize, -⟩ := bind_ok hr
    exact hfd (timesOneAndAHalf_eq hsize).1

/-- For a descriptor in range it is the lookup of the model of the threads. -/
theorem lookup_eq {m : IOManager S F C} (hsize : m.fdContexts.length ≤ intMax) (n : Nat) :
    lookup m n = .ok m.fdContexts[n]? := by
  have hint : toInt m.fdContexts.length = m.fdContexts.length := toInt_ofNat hsize
  rw [lookup]
  by_cases hle : m.fdContexts.length ≤ n
  · rw [if_pos (by omega), List.getElem?_eq_none hle]
  · have hat := vectorAt_nat (List.getElem?_eq_getElem (Nat.lt_of_not_le hle))
    rw [if_neg (by omega), hat, List.getElem?_eq_getElem (Nat.lt_of_not_le hle)]
    rfl

end IOManager.Indexed

/-! ## The six functions -/

/-- The two tables. -/
structure Tables (S F C : Type) where
  fds : FdManager
  iom : IOManager S F C

/-- A function that indexes one of them with a descriptor. -/
inductive TableCall where
  | get (autoCreate : Bool)
  | del
  | addEvent
  | delEvent
  | cancelEvent
  | cancelAll
  deriving DecidableEq

namespace TableCall

variable {S F C : Type}

/-- The function, on the tables as they are under its first and under its second lock. -/
def exec (t t' : Tables S F C) (fd : Int) (ctx : FdCtx) : TableCall → Except TableFault Unit
  | .get autoCreate =>
      FdManager.Indexed.get t.fds t'.fds fd autoCreate ctx >>= fun _ => .ok ()
  | .del => FdManager.Indexed.del t.fds fd >>= fun _ => .ok ()
  | .addEvent => IOManager.Indexed.addEvent t.iom t'.iom fd >>= fun _ => .ok ()
  | .delEvent => IOManager.Indexed.delEvent t.iom fd >>= fun _ => .ok ()
  | .cancelEvent => IOManager.Indexed.cancelEvent t.iom fd >>= fun _ => .ok ()
  | .cancelAll => IOManager.Indexed.cancelAll t.iom fd >>= fun _ => .ok ()

/-- The descriptor fits the function and the tables. -/
def Fits (t t' : Tables S F C) (fd : Int) : TableCall → Prop
  | .get false => fd = -1 ∨ 0 ≤ fd ∨ toInt t.fds.datas.length ≤ fd
  | .get true => fd = -1 ∨ 0 ≤ fd ∧
      (fd < toInt t.fds.datas.length ∧ (t.fds.slot fd.toNat).isSome ∨
        fd < toInt t'.fds.datas.length ∨ 2 ≤ fd)
  | .del => 0 ≤ fd ∨ toInt t.fds.datas.length ≤ fd
  | .addEvent => 0 ≤ fd ∧ (fd < toInt t.iom.fdContexts.length ∨ 2 ≤ fd)
  | .delEvent | .cancelEvent | .cancelAll => 0 ≤ fd ∨ toInt t.iom.fdContexts.length ≤ fd

/-- **When no index is outside.**  On any two tables, however others change them in
between, a function called with any `int` stays inside exactly if that fits. -/
theorem inside_iff (t t' : Tables S F C) (fd : Int) (ctx : FdCtx) (call : TableCall) :
    Inside (call.exec t t' fd ctx) ↔ call.Fits t t' fd := by
  cases call with
  | get autoCreate =>
      cases autoCreate with
      | false => exact (inside_bind _ _).trans (FdManager.Indexed.inside_get_false _ _ _ _)
      | true => exact (inside_bind _ _).trans (FdManager.Indexed.inside_get_true _ _ _ _)
  | del => exact (inside_bind _ _).trans (FdManager.Indexed.inside_del _ _)
  | addEvent => exact (inside_bind _ _).trans (IOManager.Indexed.inside_addEvent _ _ _)
  | delEvent => exact (inside_bind _ _).trans (IOManager.Indexed.inside_lookup _ _)
  | cancelEvent => exact (inside_bind _ _).trans (IOManager.Indexed.inside_lookup _ _)
  | cancelAll => exact (inside_bind _ _).trans (IOManager.Indexed.inside_lookup _ _)

/-- With tables of 2 to 2^31 - 1 slots, as they are from the constructors on, only
negative descriptors go wrong, and -1 not in `get`. -/
theorem fits_iff_nonneg {t t' : Tables S F C}
    (hfds : 2 ≤ t.fds.datas.length ∧ t.fds.datas.length ≤ intMax)
    (hfds' : 2 ≤ t'.fds.datas.length ∧ t'.fds.datas.length ≤ intMax)
    (hiom : 2 ≤ t.iom.fdContexts.length ∧ t.iom.fdContexts.length ≤ intMax)
    (fd : Int) (call : TableCall) :
    call.Fits t t' fd ↔ 0 ≤ fd ∨ fd = -1 ∧ ∃ autoCreate, call = .get autoCreate := by
  have hsize : toInt t.fds.datas.length = t.fds.datas.length := toInt_ofNat hfds.2
  have hsize' : toInt t'.fds.datas.length = t'.fds.datas.length := toInt_ofNat hfds'.2
  have hsizeIom : toInt t.iom.fdContexts.length = t.iom.fdContexts.length := toInt_ofNat hiom.2
  cases call with
  | get autoCreate =>
      have hget : ∃ b, TableCall.get autoCreate = .get b := ⟨autoCreate, rfl⟩
      cases autoCreate with
      | false =>
          simp only [Fits, hget, and_true]
          omega
      | true =>
          simp only [Fits, hget, and_true]
          omega
  | _ =>
      simp only [Fits, reduceCtorEq, exists_false, and_false, or_false]
      omega

/-- The tables as the constructors leave them. -/
def created : Tables Unit Unit Unit :=
  { fds := .create, iom := .create }

/-- A record of no open file. -/
def unopened : FdCtx :=
  (FdCtx.create 0 fun _ => none).1

/-- `Socket::cancelAll` of a closed socket, whose descriptor is -1, and `del` of that
descriptor. -/
theorem outside_closed :
    ¬ Inside (TableCall.cancelAll.exec created created (-1) unopened) ∧
      ¬ Inside (TableCall.del.exec created created (-1) unopened) := by
  constructor
  · intro h
    have hin := (IOManager.Indexed.inside_lookup created.iom (-1)).mp ((inside_bind _ _).mp h)
    have hsize : toInt created.iom.fdContexts.length = (32 : Nat) := toInt_ofNat (by decide)
    omega
  · intro h
    have hin := (FdManager.Indexed.inside_del created.fds (-1)).mp ((inside_bind _ _).mp h)
    have hsize : toInt created.fds.datas.length = (64 : Nat) := toInt_ofNat (by decide)
    omega

end TableCall

end CoLib
