/-
# `CoLib.ByteArray.ZeroCopy` — the copying and the zero-copy path agree

A caller can have its bytes copied by `write` and `read`, or get the memory itself by
`getWriteBuffers` and `getReadBuffers`, use a part of it, and commit that part by
`updateNullWrite` and `updateNullRead`; or have the whole of it committed at once by
`is_update`.  Four loops walk over the nodes for this.

**Proved here.**  They take the same steps: from every state that the operations reach,
whatever a caller has stored through its iovecs, the two paths lead to the same state,
in every field and every node (`zeroCopy_agrees`).
-/
import CoLib.ByteArray.Refine

namespace CoLib.ByteArray

open Lib Heap

/-! ## Filling a part -/

/-- Filling the memory of a walk with nothing leaves it as it is. -/
theorem Way.fillIovecs_nil {h g : Heap} {b fuel i n : Nat} {p q : Option Addr} {vs : List Iovec}
    {j : Nat} (hway : Way h b fuel p i n vs q j) (hg : SameShape h g)
    (hoff : ∀ w nd, p = some w → g.node w = some nd → i ≤ nd.ptr.length) :
    fillIovecs g vs [] = some g := by
  induction hway with
  | done => rfl
  | @inside _ w nd _ _ _ _ hnd =>
      obtain ⟨nd', hnd', -⟩ := hg.node_some hnd
      simp [fillIovecs, store_nil hnd' (hoff w nd' rfl hnd')]
  | @across _ w nd _ _ _ _ _ _ _ hnd _ ih =>
      obtain ⟨nd', hnd', -⟩ := hg.node_some hnd
      have hrest := ih fun _ _ _ _ => Nat.zero_le _
      simp [fillIovecs, store_nil hnd' (hoff w nd' rfl hnd'), hrest]

/-- Filling a first part of the memory that was asked for is filling the memory of that
part. -/
theorem Way.fillIovecs_part {h : Heap} {b fuel i n : Nat} {p q : Option Addr} {vs : List Iovec}
    {j : Nat} (hway : Way h b fuel p i n vs q j) :
    ∀ {g : Heap} {fuel' : Nat} {bs : List UInt8} {vs' : List Iovec} {q' : Option Addr} {j' : Nat},
      SameShape h g → Way h b fuel' p i bs.length vs' q' j' → bs.length ≤ n →
      (∀ w nd, p = some w → g.node w = some nd → i ≤ nd.ptr.length) →
      fillIovecs g vs bs = fillIovecs g vs' bs := by
  induction hway with
  | done fuel p i =>
      intro g fuel' bs vs' q' j' hg hpart hle hoff
      obtain rfl := List.length_eq_zero_iff.mp (Nat.le_zero.mp hle)
      rw [hpart.fillIovecs_nil hg hoff]
      rfl
  | inside fuel hpos hin hnd =>
      intro g fuel' bs vs' q' j' hg hpart hle hoff
      obtain ⟨m, hm⟩ : ∃ m, bs.length = m := ⟨_, rfl⟩
      rw [hm] at hpart hle
      cases hpart with
      | done =>
          obtain rfl := List.length_eq_zero_iff.mp hm
          exact (Way.inside fuel hpos hin hnd).fillIovecs_nil hg hoff
      | inside _ _ _ _ =>
          rw [fillIovecs, fillIovecs, List.take_of_length_le (hm.trans_le hle),
            List.take_of_length_le hm.le]
          rfl
      | across _ hlong => omega
  | @across _ w nd i size vs q j hpos hlong hnd hway ih =>
      intro g fuel' bs vs' q' j' hg hpart hle hoff
      obtain ⟨m, hm⟩ : ∃ m, bs.length = m := ⟨_, rfl⟩
      rw [hm] at hpart hle
      cases hpart with
      | done =>
          obtain rfl := List.length_eq_zero_iff.mp hm
          exact (Way.across hpos hlong hnd hway).fillIovecs_nil hg hoff
      | inside _ _ hin _ =>
          -- the part ends in this node
          have hshort : bs.length ≤ b - i := hm.trans_le hin.le
          rw [fillIovecs, fillIovecs, List.take_of_length_le hshort, List.take_of_length_le hm.le,
            List.drop_of_length_le hshort, List.drop_of_length_le hm.le]
          refine Option.bind_congr fun g₁ hst => ?_
          exact hway.fillIovecs_nil (hg.trans (.of_store hst)) fun _ _ _ _ => Nat.zero_le _
      | across _ _ hnd' hpart =>
          obtain rfl := Option.some.inj (hnd.symm.trans hnd')
          rw [fillIovecs, fillIovecs]
          refine Option.bind_congr fun g₁ hst => ?_
          rw [← hm, ← List.length_drop] at hpart
          have hrest : (bs.drop (b - i)).length ≤ size - (b - i) :=
            List.length_drop.trans_le (Nat.sub_le_sub_right (hm.trans_le hle) (b - i))
          exact ih (hg.trans (.of_store hst)) hpart hrest fun _ _ _ _ => Nat.zero_le _

/-! ## Copying nothing -/

/-- `read` without a buffer consumes what `read` does, and copies nothing. -/
theorem readLoop_null : ∀ (fuel : Nat) (s : ByteArray) (size rSize : Nat) (out : List UInt8)
    {s' : ByteArray} {r : Nat} {out' : List UInt8},
    readLoop true fuel s size rSize out = some (s', r, out') →
    readLoop false fuel s size rSize [] = some (s', r, []) := by
  intro fuel
  induction fuel with
  | zero =>
      intro s size rSize out s' r out' h
      obtain rfl | hpos := Nat.eq_zero_or_pos size
      · simp only [readLoop_zero, Option.some.injEq, Prod.mk.injEq] at h ⊢
        exact ⟨h.1, h.2.1, trivial⟩
      · simp [readLoop, hpos.ne'] at h
  | succ fuel ih =>
      intro s size rSize out s' r out' h
      obtain rfl | hpos := Nat.eq_zero_or_pos size
      · simp only [readLoop_zero, Option.some.injEq, Prod.mk.injEq] at h ⊢
        exact ⟨h.1, h.2.1, trivial⟩
      simp only [readLoop, hpos.ne', if_false, Option.bind_eq_bind] at h ⊢
      obtain ⟨p, hp, h⟩ := Option.bind_eq_some_iff.mp h
      refine Option.bind_eq_some_iff.mpr ⟨p, hp, ?_⟩
      by_cases hin : size < s.baseSize - s.readIndex
      · rw [if_pos hin] at h ⊢
        obtain ⟨bs, -, h⟩ := Option.bind_eq_some_iff.mp h
        exact ih _ _ _ _ h
      · rw [if_neg hin] at h ⊢
        obtain ⟨bs, -, h⟩ := Option.bind_eq_some_iff.mp h
        obtain ⟨nd, hnd, h⟩ := Option.bind_eq_some_iff.mp h
        obtain ⟨s₁, hs₁, h⟩ := Option.bind_eq_some_iff.mp h
        have hrest := ih _ _ _ _ h
        simpa [copyOut, hnd, hs₁] using hrest

/-! ## Committing -/

section Commit

variable {s : ByteArray} {front back : List Addr}

/-- What the nodes contain does not matter for the invariant. -/
theorem Rep.of_shape (h : Rep s front back) {g : Heap} (hg : SameShape s.heap g) :
    Rep { s with heap := g } front back where
  pos := h.pos
  nodup := h.nodup
  linked := h.linked.congr fun p _ => hg.next p
  sized := hg.sized h.sized
  below := fun p hp => hg.brk ▸ h.below p hp
  back_ne := h.back_ne
  readNode := h.readNode
  writeNode := h.writeNode
  endNode := h.endNode
  readIndex := h.readIndex
  writeIndex := h.writeIndex
  dataSize := h.dataSize
  capacity := h.capacity

/-- The write cursor stands inside its node. -/
theorem Rep.writeIndex_le (h : Rep s front back) {g : Heap} (hg : SameShape s.heap g) (w : Addr)
    (nd : Node) (hw : s.writeNode = some w) (hnd : g.node w = some nd) :
    s.writeIndex ≤ nd.ptr.length := by
  have hmem : w ∈ front ++ back :=
    List.mem_append_right _ (List.mem_of_head? (h.writeNode.symm.trans hw))
  obtain ⟨nd', hnd', -, hlen⟩ := hg.sized h.sized w hmem
  obtain rfl := Option.some.inj (hnd.symm.trans hnd')
  exact hlen ▸ h.writeIndex.le

theorem updateCapacity_of_lt {size : Nat} (h : size < s.capacity) :
    s.updateCapacity size = some s := by
  rw [updateCapacity, growLoop, if_neg (by omega)]

/-- Where the write cursor goes for `n` bytes, and that it may be moved there whatever
is in the nodes. -/
theorem Rep.commit (h : Rep s front back) {n : Nat} (hroom : n < s.capacity) :
    ∃ vs q j, writeWalk s.heap s.baseSize (n + 1) s.writeNode s.writeIndex n
        = some (vs, some q, j) ∧
      (∀ bs : List UInt8, bs.length = n →
        ∃ g, fillIovecs s.heap vs bs = some g ∧ SameShape s.heap g) ∧
      ∀ g, SameShape s.heap g → ∃ front' back', Rep (s.advanced g (some q) j n) front' back' := by
  have hcap := h.capacity
  obtain ⟨vs, moved, rest, j, rfl, hrest, hwalk, hj, hpos, hfills⟩ :=
    writeWalk_spec (n + 1) back s.writeIndex n h.linked.right
      (fun p hp => h.sized p (List.mem_append_right _ hp)) (List.nodup_append.mp h.nodup).2.1
      h.writeIndex (by omega) (by omega)
  obtain ⟨q, tl, rfl⟩ := List.exists_cons_of_ne_nil hrest
  refine ⟨vs, q, j, by rw [h.writeNode]; exact hwalk, fun bs hbs => ?_, fun g hg => ?_⟩
  · obtain ⟨g, hfill, hshape, -⟩ := hfills s.heap bs (SameShape.refl _) hbs
    exact ⟨g, hfill, hshape⟩
  · -- the invariant after some bytes have been put there
    have hlen : (List.replicate n (0 : UInt8)).length = n := List.length_replicate
    obtain ⟨g₀, -, hshape, hflat, hframe⟩ := hfills s.heap _ (SameShape.refl _) hlen
    obtain ⟨hrep, -⟩ := h.advance hrest (by rwa [hlen]) hj (by rwa [hlen]) hshape hflat hframe
    rw [hlen] at hrep
    exact ⟨_, _, hrep.of_shape (hshape.symm.trans hg)⟩

/-- The loop of `write`, with or without a buffer. -/
theorem Rep.writeLoop_eq (h : Rep s front back) {n : Nat} (hroom : n < s.capacity)
    {buf : Option (List UInt8)} (hbuf : ∀ bs, buf = some bs → n ≤ bs.length) :
    ∃ g q j, writeLoop buf (n + 1) s n 0
        = some ({ s with heap := g, writeNode := some q, writeIndex := j }, n) ∧
      ∃ front' back', Rep (s.advanced g (some q) j n) front' back' := by
  obtain ⟨vs, q, j, hwalk, hfill, hrep⟩ := h.commit hroom
  obtain ⟨g, hg, hshape⟩ : ∃ g, copyAll s.heap vs buf 0 n = some g ∧ SameShape s.heap g := by
    cases buf with
    | none => exact ⟨s.heap, rfl, SameShape.refl _⟩
    | some bs => exact hfill (bs.take n) (by rw [List.length_take, min_eq_left (hbuf bs rfl)])
  exact ⟨g, q, j, writeLoop_of_walk buf hwalk (SameShape.refl _) hg, hrep g hshape⟩

/-- The loop of `read`, with and without a buffer, and the walk of `getReadBuffers` with
`is_update`. -/
theorem Rep.readLoop_eq (h : Rep s front back) {n : Nat} (hn : n ≤ s.dataSize) :
    ∃ s' vs q j, readWalk true (n + 1) s s.readNode s.readIndex n = some (s', vs, q, j) ∧
      s'.dataSize = s.dataSize ∧
      readLoop true (n + 1) s n 0 []
        = some (s'.setRead q j, n, (window s (front ++ back)).take n) ∧
      readLoop false (n + 1) s n 0 [] = some (s'.setRead q j, n, []) ∧
      ∃ front' back', Rep (s'.consumed q j n) front' back' := by
  obtain ⟨s', vs, q, j, front', back', hwalk, hdata, -, hreads, hrep, -⟩ :=
    h.consume hn (n + 1) (by omega)
  have hloop := readLoop_of_walk (n + 1) s n 0 [] hwalk hreads
  rw [Nat.zero_add, List.nil_append] at hloop
  exact ⟨s', vs, q, j, hwalk, hdata, hloop, readLoop_null _ _ _ _ _ hloop, front', back', hrep⟩

/-- The number of bytes that `read` consumes when it is given a count. -/
def readSize (s : ByteArray) (size : Int) : Nat :=
  (if toSizeT size < s.dataSize then size else toInt s.dataSize).toNat

theorem toInt_le (n : Nat) : toInt n ≤ intMax ∧ (toInt n).toNat ≤ n := by
  rw [toInt_eq]
  simp only [intMax]
  split <;> omega

theorem readSize_le {s : ByteArray} {size : Int} (hsize : size ≤ intMax) :
    readSize s size ≤ s.dataSize := by
  rw [readSize]
  split
  · rename_i hlt
    simp only [intMax] at hsize
    rcases Int.lt_or_le size 0 with hneg | hpos
    · omega
    · rw [toSizeT_nonneg hpos (by omega)] at hlt
      exact hlt.le
  · exact (toInt_le _).2

/-- `read` of any `int`. -/
theorem Rep.read_eq (h : Rep s front back) (buf : Bool) {size : Int} (hsize : size ≤ intMax) :
    ∃ s' front' back', s.read buf size
        = some (s', readSize s size,
            if buf then (window s (front ++ back)).take (readSize s size) else []) ∧
      s'.dataSize = s.dataSize - readSize s size ∧ Rep s' front' back' ∧
      window s' (front' ++ back') = (window s (front ++ back)).drop (readSize s size) := by
  obtain ⟨s', vs, q, j, front', back', hwalk, hdata, -, hreads, hrep, hwin⟩ :=
    h.consume (readSize_le hsize) (readSize s size + 1) (by omega)
  have hloop := readLoop_of_walk (readSize s size + 1) s (readSize s size) 0 [] hwalk hreads
  rw [Nat.zero_add, List.nil_append] at hloop
  have hnull := readLoop_null _ _ _ _ _ hloop
  refine ⟨s'.consumed q j (readSize s size), front', back', ?_, ?_, hrep, hwin⟩
  · rw [read, ← readSize]
    cases buf with
    | true =>
        simp only [Option.bind_eq_bind, hloop, Option.bind_some, if_true]
        rfl
    | false =>
        simp only [Option.bind_eq_bind, hnull, Option.bind_some, Bool.false_eq_true, if_false]
        rfl
  · simp only [consumed, hdata]

/-- `write` of any `int`. -/
theorem Rep.write_eq (h : Rep s front back) {buf : Option (List UInt8)} {size : Int}
    (hsize : size ≤ intMax) (hbuf : ∀ bs, buf = some bs → size.toNat ≤ bs.length) :
    ∃ s₁ s', s.updateCapacity (toSizeT size) = some s₁ ∧
      s.write buf size = some (s', size.toNat) ∧ s'.dataSize = s.dataSize + size.toNat ∧
      (size ≤ 0 → s' = s₁) ∧ ∃ front' back', Rep s' front' back' := by
  obtain ⟨s₁, extra, hgrow, h₁, hsame, hroom, -⟩ := updateCapacity_spec h (toSizeT size)
  have hle : size.toNat < s₁.capacity := by
    simp only [intMax] at hsize
    rcases Int.lt_or_le size 0 with hneg | hpos
    · have := h₁.capacity_pos
      omega
    · rwa [toSizeT_nonneg hpos (by omega)] at hroom
  obtain ⟨g, q, j, hloop, hrep⟩ := h₁.writeLoop_eq hle hbuf
  refine ⟨s₁, s₁.advanced g (some q) j size.toNat, hgrow, ?_, ?_, fun hneg => ?_, hrep⟩
  · simp only [write, Option.bind_eq_bind, hgrow, Option.bind_some, hloop]
    rfl
  · rw [← hsame.dataSize]
    rfl
  · -- the loop is not entered
    have hzero : size.toNat = 0 := Int.toNat_of_nonpos hneg
    rw [hzero, writeLoop_zero] at hloop
    have hsame : s₁ = { s₁ with heap := g, writeNode := some q, writeIndex := j } :=
      congrArg Prod.fst (Option.some.inj hloop)
    rw [hzero, advanced]
    exact hsame.symm

/-- `read` and `updateNullRead` of `n` bytes lead to the state of `getReadBuffers` with
`is_update`. -/
theorem Rep.getReadBuffers_eq (h : Rep s front back) (n : Nat) :
    ∃ s' vs, s.getReadBuffers n true = some (s', vs, min n s.dataSize) ∧
      (n ≤ intMax → s.read true n
        = some (s', min n s.dataSize, (window s (front ++ back)).take n)) ∧
      (n ≤ intMax → s.updateNullRead n = some (s', min n s.dataSize, [])) ∧
      ∃ front' back', Rep s' front' back' := by
  have hlen := h.length_window
  have hsize := min_def_lt n s.dataSize
  obtain ⟨s', vs, q, j, hwalk, hdata, hloop, hnull, hrep⟩ :=
    h.readLoop_eq (min_le_right n s.dataSize)
  have hint : n ≤ intMax →
      (if toSizeT (n : Int) < s.dataSize then (n : Int) else toInt s.dataSize)
        = (min n s.dataSize : Nat) := by
    intro hn
    rw [toSizeT_ofNat hn]
    split
    · rw [min_eq_left (by omega)]
    · rw [toInt_ofNat (by omega), min_eq_right (by omega)]
  have hwin : (window s (front ++ back)).take (min n s.dataSize)
      = (window s (front ++ back)).take n := by
    rw [← hlen, ← List.take_eq_take_min]
  refine ⟨s'.consumed q j (min n s.dataSize), vs, ?_, fun hn => ?_, fun hn => ?_, hrep⟩
  · simp [getReadBuffers, ← hsize, hwalk, consumed, setRead]
  · simp only [read, Option.bind_eq_bind, hint hn, Int.toNat_natCast, hloop, Option.bind_some, hwin]
    rfl
  · simp only [updateNullRead, toInt_ofNat hn, read, Option.bind_eq_bind, hint hn,
      Int.toNat_natCast, hnull, Option.bind_some]
    rfl

end Commit

/-! ## What is reachable -/

/-- The operations of the interface; `store` is what a caller writes through an iovec. -/
inductive Call where
  | write (buf : Option (List UInt8)) (size : Int)
  | writeString (buf : List UInt8)
  | read (buf : Bool) (size : Int)
  | readString (size : Nat)
  | getWriteBuffers (size : Nat) (isUpdate : Bool)
  | getReadBuffers (size : Nat) (isUpdate : Bool)
  | updateNullWrite (wSize : Nat)
  | updateNullRead (rSize : Nat)
  | updateCapacity (size : Nat)
  | store (p : Addr) (off : Nat) (bs : List UInt8)

namespace Call

/-- The argument is an `int`, and the buffer holds what is to be copied. -/
def InRange : Call → Prop
  | .write buf size => size ≤ intMax ∧ ∀ bs, buf = some bs → size.toNat ≤ bs.length
  | .read _ size => size ≤ intMax
  | _ => True

/-- The state after the operation. -/
def exec (s : ByteArray) : Call → Option ByteArray
  | .write buf size => (s.write buf size).map Prod.fst
  | .writeString buf => (s.write (some buf) (toInt buf.length)).map Prod.fst
  | .read buf size => (s.read buf size).map Prod.fst
  | .readString size => (s.read true (toInt size)).map Prod.fst
  | .getWriteBuffers size isUpdate => (s.getWriteBuffers size isUpdate).map Prod.fst
  | .getReadBuffers size isUpdate => (s.getReadBuffers size isUpdate).map Prod.fst
  | .updateNullWrite wSize => (s.updateNullWrite wSize).map Prod.fst
  | .updateNullRead rSize => (s.updateNullRead rSize).map Prod.fst
  | .updateCapacity size => s.updateCapacity size
  | .store p off bs => (s.heap.store p off bs).map fun heap => { s with heap }

end Call

/-- What the operations make of a new buffer. -/
def Reachable (s : ByteArray) : Prop :=
  ∃ fresh baseSize capacity s₀, create fresh baseSize capacity = some s₀ ∧
    Reach Call.exec (fun _ c => c.InRange) s₀ s

section Reachable

variable {s s' : ByteArray} {front back : List Addr}

theorem write_rep (h : Rep s front back) {buf : Option (List UInt8)} {size : Int}
    (hsize : size ≤ intMax) (hbuf : ∀ bs, buf = some bs → size.toNat ≤ bs.length)
    (hw : (s.write buf size).map Prod.fst = some s') : ∃ front' back', Rep s' front' back' := by
  obtain ⟨s₁, s₂, -, hwrite, -, -, hrep⟩ := h.write_eq hsize hbuf
  rw [hwrite] at hw
  obtain rfl := Option.some.inj hw
  exact hrep

theorem read_rep (h : Rep s front back) {buf : Bool} {size : Int} (hsize : size ≤ intMax)
    (hr : (s.read buf size).map Prod.fst = some s') : ∃ front' back', Rep s' front' back' := by
  obtain ⟨s₁, front', back', hread, -, hrep, -⟩ := h.read_eq buf hsize
  rw [hread] at hr
  obtain rfl := Option.some.inj hr
  exact ⟨front', back', hrep⟩

/-- Every operation keeps the invariant. -/
theorem exec_rep (h : Rep s front back) {c : Call} (hc : c.InRange) (hexec : c.exec s = some s') :
    ∃ front' back', Rep s' front' back' := by
  cases c with
  | write buf size => exact write_rep h hc.1 hc.2 hexec
  | writeString buf =>
      obtain ⟨hle, hlen⟩ := toInt_le buf.length
      refine write_rep h hle ?_ hexec
      rintro bs ⟨⟩
      exact hlen
  | read buf size => exact read_rep h hc hexec
  | readString size => exact read_rep h (toInt_le size).1 hexec
  | getWriteBuffers size isUpdate =>
      obtain ⟨s₁, extra, hgrow, h₁, -, hroom, -⟩ := updateCapacity_spec h size
      obtain ⟨vs, q, j, hwalk, -, hrep⟩ := h₁.commit hroom
      simp only [Call.exec, getWriteBuffers, Option.bind_eq_bind, hgrow, Option.bind_some,
        hwalk] at hexec
      cases isUpdate with
      | true =>
          obtain rfl := Option.some.inj hexec
          exact hrep s₁.heap (SameShape.refl _)
      | false =>
          obtain rfl := Option.some.inj hexec
          exact ⟨_, _, h₁⟩
  | getReadBuffers size isUpdate =>
      cases isUpdate with
      | true =>
          obtain ⟨s₁, vs, hget, -, -, hrep⟩ := h.getReadBuffers_eq size
          rw [Call.exec, hget] at hexec
          obtain rfl := Option.some.inj hexec
          exact hrep
      | false =>
          obtain ⟨vs, hget, -⟩ := h.peek_eq size
          rw [Call.exec, hget] at hexec
          obtain rfl := Option.some.inj hexec
          exact ⟨_, _, h⟩
  | updateNullWrite wSize =>
      exact write_rep h (toInt_le wSize).1 (fun bs hbs => by cases hbs) hexec
  | updateNullRead rSize => exact read_rep h (toInt_le rSize).1 hexec
  | updateCapacity size =>
      obtain ⟨s₁, extra, hgrow, h₁, -⟩ := updateCapacity_spec h size
      obtain rfl := Option.some.inj (hgrow.symm.trans hexec)
      exact ⟨_, _, h₁⟩
  | store p off bs =>
      obtain ⟨g, hst, rfl⟩ := Option.map_eq_some_iff.mp hexec
      exact ⟨_, _, h.of_shape (.of_store hst)⟩

/-- With cells of no bytes the constructor does not return. -/
theorem growLoop_baseSize_zero (size : Nat) : ∀ (fuel : Nat) (s : ByteArray), s.baseSize = 0 →
    s.capacity = 0 → growLoop size fuel s = none := by
  intro fuel
  induction fuel with
  | zero =>
      intro s _ hcap
      rw [growLoop, hcap, if_pos (Nat.zero_le _)]
  | succ fuel ih =>
      intro s hbase hcap
      rw [growLoop, hcap, if_pos (Nat.zero_le _), Option.bind_eq_none_iff]
      intro s₁ hs₁
      obtain ⟨e, -, hs₁⟩ := Option.bind_eq_some_iff.mp hs₁
      obtain ⟨g, -, hs₁⟩ := Option.bind_eq_some_iff.mp hs₁
      obtain rfl := Option.some.inj hs₁
      exact ih _ hbase (by rw [hbase, hcap])

theorem Reachable.rep (h : Reachable s) : ∃ front back, Rep s front back := by
  obtain ⟨fresh, b, cap, s₀, hcreate, hreach⟩ := h
  have hb : 1 ≤ b := by
    by_contra hzero
    obtain rfl : b = 0 := by omega
    rw [create, updateCapacity, growLoop_baseSize_zero cap (cap + 1) _ rfl rfl] at hcreate
    cases hcreate
  obtain ⟨s₁, front, back, hcreate₁, hrep, -⟩ := create_spec fresh hb cap
  obtain rfl := Option.some.inj (hcreate.symm.trans hcreate₁)
  refine hreach.invariant (I := fun s => ∃ front back, Rep s front back) ⟨front, back, hrep⟩ ?_
  rintro s c s' ⟨front, back, hrep⟩ hc hexec
  exact exec_rep hrep hc hexec

end Reachable

/-! ## The two paths -/

/-- The zero-copy path, asked for `N` bytes of which `r` are used, agrees with the copying
one. -/
structure ZeroCopy (s : ByteArray) (N r : Nat) : Prop where
  /-- Filling the first `r` bytes and committing them is `write`, after the same growth. -/
  write : ∃ s₁ vs, s.updateCapacity N = some s₁ ∧ s.getWriteBuffers N false = some (s₁, vs, N) ∧
    ∀ buf : List UInt8, r ≤ buf.length → ∃ g s₂, fillIovecs s₁.heap vs (buf.take r) = some g ∧
      updateNullWrite { s₁ with heap := g } r = some (s₂, r) ∧
      s₁.write (some buf) r = some (s₂, r)
  /-- The array is as it was, and shows what `read` would return. -/
  peek : ∃ vs s₁ n out, s.getReadBuffers N false = some (s, vs, n) ∧
    readIovecs s.heap vs = some out ∧ s.read true N = some (s₁, n, out)
  /-- Committing `r` bytes is reading them. -/
  read : ∃ s₁ n out, s.updateNullRead r = some (s₁, n, []) ∧ s.read true r = some (s₁, n, out)
  /-- `is_update` commits all that was asked for. -/
  updateWrite : ∃ s₁ s₂ vs, s.getWriteBuffers N false = some (s₁, vs, N) ∧
    s₁.updateNullWrite N = some (s₂, N) ∧ s.getWriteBuffers N true = some (s₂, vs, N)
  updateRead : ∃ s₁ n vs vs', s.getReadBuffers N false = some (s, vs, n) ∧
    s.updateNullRead N = some (s₁, n, []) ∧ s.updateNullRead n = some (s₁, n, []) ∧
    s.getReadBuffers N true = some (s₁, vs', n)

section ZeroCopy

variable {s : ByteArray} {front back : List Addr} {N r : Nat}

/-- What there is bounds what is got. -/
theorem getReadBuffers_min (s : ByteArray) (n : Nat) (isUpdate : Bool) :
    s.getReadBuffers (min n s.dataSize) isUpdate = s.getReadBuffers n isUpdate := by
  have hsize : (if min n s.dataSize < s.dataSize then min n s.dataSize else s.dataSize)
      = if n < s.dataSize then n else s.dataSize := by
    rw [← min_def_lt, ← min_def_lt, min_assoc, min_self]
  rw [getReadBuffers, getReadBuffers, hsize]

/-- A null write where there is room. -/
theorem updateNullWrite_of_walk (hr : r ≤ intMax) (hroom : r < s.capacity)
    {vs : List Iovec} {q : Addr} {j : Nat}
    (hwalk : writeWalk s.heap s.baseSize (r + 1) s.writeNode s.writeIndex r = some (vs, some q, j))
    {g : Heap} (hg : SameShape s.heap g) :
    updateNullWrite { s with heap := g } r = some (s.advanced g (some q) j r, r) := by
  have hgrow : updateCapacity { s with heap := g } r = some { s with heap := g } :=
    updateCapacity_of_lt hroom
  have hloop := writeLoop_of_walk none hwalk hg rfl
  simp only [updateNullWrite, toInt_ofNat hr, ByteArray.write, toSizeT_ofNat hr,
    Option.bind_eq_bind, hgrow, Option.bind_some, Int.toNat_natCast, hloop]
  rfl

/-- Writing where there is room. -/
theorem write_of_fill (hr : r ≤ intMax) (hroom : r < s.capacity)
    {vs : List Iovec} {q : Addr} {j : Nat} {g : Heap} {buf : List UInt8}
    (hwalk : writeWalk s.heap s.baseSize (r + 1) s.writeNode s.writeIndex r = some (vs, some q, j))
    (hfill : fillIovecs s.heap vs (buf.take r) = some g) :
    s.write (some buf) r = some (s.advanced g (some q) j r, r) := by
  have hloop := writeLoop_of_walk (some buf) hwalk (SameShape.refl _) hfill
  simp only [ByteArray.write, toSizeT_ofNat hr, Option.bind_eq_bind, updateCapacity_of_lt hroom,
    Option.bind_some, Int.toNat_natCast, hloop]
  rfl

theorem Rep.zeroCopy (h : Rep s front back) (hr : r ≤ N) (hN : N ≤ intMax) : ZeroCopy s N r := by
  obtain ⟨s₁, extra, hgrow, h₁, -, hroom, -⟩ := updateCapacity_spec h N
  obtain ⟨vs, q, j, hwalk, hfills, hrep⟩ := h₁.commit hroom
  have hget : s.getWriteBuffers N false = some (s₁, vs, N) := by
    simp [getWriteBuffers, hgrow, hwalk]
  obtain ⟨vs', hpeek, hshows⟩ := h.peek_eq N
  obtain ⟨s₂, vs₂, hgetRead, hread, hnull, -⟩ := h.getReadBuffers_eq N
  refine ⟨⟨s₁, vs, hgrow, hget, fun buf hbuf => ?_⟩,
    ⟨vs', s₂, _, _, hpeek, hshows, hread hN⟩, ?_, ?_, ?_⟩
  · -- the walk over `N` bytes is cut to the one over `r`
    obtain ⟨vsr, qr, jr, hwalkr, hfillr, -⟩ := h₁.commit (hr.trans_lt hroom)
    have hlen : (buf.take r).length = r := by rw [List.length_take, min_eq_left hbuf]
    obtain ⟨g, hg, hshape⟩ := hfillr (buf.take r) hlen
    have hpart : fillIovecs s₁.heap vs (buf.take r) = some g := by
      rw [← hg]
      rw [← hlen] at hwalkr
      exact (way_of_writeWalk hwalk).fillIovecs_part (SameShape.refl _) (way_of_writeWalk hwalkr)
        (by rwa [hlen]) (h₁.writeIndex_le (SameShape.refl _))
    exact ⟨g, s₁.advanced g (some qr) jr r, hpart,
      updateNullWrite_of_walk (hr.trans hN) (hr.trans_lt hroom) hwalkr hshape,
      write_of_fill (hr.trans hN) (hr.trans_lt hroom) hwalkr hg⟩
  · obtain ⟨s₃, -, -, hread₃, hnull₃, -⟩ := h.getReadBuffers_eq r
    exact ⟨s₃, _, _, hnull₃ (hr.trans hN), hread₃ (hr.trans hN)⟩
  · have hcommit := updateNullWrite_of_walk hN hroom hwalk (SameShape.refl _)
    refine ⟨s₁, _, vs, hget, hcommit, ?_⟩
    simp [getWriteBuffers, hgrow, hwalk, advanced]
  · -- asking for more than there is is asking for all
    obtain ⟨s₃, vs₃, hget₃, -, hnull₃, -⟩ := h.getReadBuffers_eq (min N s.dataSize)
    have hmin : min (min N s.dataSize) s.dataSize = min N s.dataSize := by omega
    rw [getReadBuffers_min, hgetRead, hmin] at hget₃
    obtain rfl : s₂ = s₃ := (Prod.mk.inj (Option.some.inj hget₃)).1
    rw [hmin] at hnull₃
    exact ⟨s₂, _, vs', vs₂, hpeek, hnull hN, hnull₃ ((min_le_left _ _).trans hN), hgetRead⟩

/-- **The zero-copy path agrees with the copying one**, in every reachable state. -/
theorem zeroCopy_agrees (h : Reachable s) (hr : r ≤ N) (hN : N ≤ intMax) : ZeroCopy s N r := by
  obtain ⟨front, back, hrep⟩ := h.rep
  exact hrep.zeroCopy hr hN

instance : (c : Call) → Decidable c.InRange
  | .write none size => decidable_of_iff (size ≤ intMax) ⟨fun h => ⟨h, by simp⟩, And.left⟩
  | .write (some bs) size => decidable_of_iff (size ≤ intMax ∧ size.toNat ≤ bs.length)
      (and_congr_right fun _ => ⟨fun h _ hbs => Option.some.inj hbs ▸ h, fun h => h bs rfl⟩)
  | .read _ size => inferInstanceAs (Decidable (size ≤ intMax))
  | .writeString _ | .readString _ | .getWriteBuffers .. | .getReadBuffers ..
  | .updateNullWrite _ | .updateNullRead _ | .updateCapacity _ | .store .. => .isTrue trivial

/-- Cells of four bytes, of which the first has been read and moved to the tail. -/
def partlyRead : List Call :=
  [.write (some [1, 2, 3, 4, 5]) 5, .read true 4, .getWriteBuffers 6 false, .store 1 1 [6]]

theorem zeroCopy_agrees_partlyRead :
    ∃ s₀ s, create (fun _ _ => 0) 4 0 = some s₀ ∧
      run (guarded Call.exec fun _ c => c.InRange) s₀ partlyRead = some s ∧ s.dataSize = 1 ∧
      ZeroCopy s 6 5 := by
  have h : ((create (fun _ _ => 0) 4 0).bind fun s₀ =>
      run (guarded Call.exec fun _ c => c.InRange) s₀ partlyRead).any
      (fun s => decide (s.dataSize = 1)) = true := by decide +kernel
  obtain ⟨s, hs, hsize⟩ := Option.any_eq_true _ _ |>.mp h
  obtain ⟨s₀, hcreate, hrun⟩ := Option.bind_eq_some_iff.mp hs
  exact ⟨s₀, s, hcreate, hrun, of_decide_eq_true hsize,
    zeroCopy_agrees ⟨_, _, _, s₀, hcreate, run_reach _ hrun⟩ (by decide) (by decide)⟩

end ZeroCopy

end CoLib.ByteArray
