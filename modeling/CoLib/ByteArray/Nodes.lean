/-
# `CoLib.ByteArray.Nodes` — every node is on the list, and is freed once

`Rep` says what the list from the read node looks like.  That no allocated node is beside
it follows from a count: the free, the unread and the already read bytes of the list are
together the bytes of all nodes there are (`Whole`), and the list has no node twice.

**Proved here.**  `exec_whole`: no operation loses a node.  `invariants_hold`: after
every sequence of operations with counts up to `INT_MAX` the list, the cursors and the
counters are as they should be (`Sound`), every further operation goes through, and the
destructor frees each node once and leaves none.
-/
import CoLib.ByteArray.ZeroCopy
import Mathlib

namespace CoLib

open Lib

namespace Heap

theorem SameShape.size {h h' : Heap} (hs : SameShape h h') (p : Addr) :
    (h'.node p).map Node.size = (h.node p).map Node.size := by
  have hnode := congrArg (Option.map fun x : Option Addr × Nat × Nat => x.2.1) (hs.node p)
  rwa [Option.map_map, Option.map_map] at hnode

theorem SameBytes.size {h h' : Heap} (hs : SameBytes h h') (p : Addr) :
    (h'.node p).map Node.size = (h.node p).map Node.size := by
  have hnode := congrArg (Option.map fun x : List UInt8 × Nat => x.2) (hs.node p)
  rwa [Option.map_map, Option.map_map] at hnode

/-- If every node has `b` bytes, it still has. -/
theorem SameBytes.sizes {h h' : Heap} {b : Nat} (hs : SameBytes h h')
    (hsize : ∀ p nd, h.node p = some nd → nd.size = b) :
    ∀ p nd, h'.node p = some nd → nd.size = b := by
  intro p nd hnd
  have hmap := hs.size p
  rw [hnd] at hmap
  obtain ⟨nd₀, hnd₀, heq⟩ := Option.map_eq_some_iff.mp hmap.symm
  rw [← heq]
  exact hsize p nd₀ hnd₀

end Heap

namespace ByteArray

open Heap

/-! ## The destructor -/

/-- `delete p`: the node must be allocated. -/
def freeNode (h : Heap) (p : Addr) : Option Heap := do
  let _ ← h.node p
  some { h with node := Function.update h.node p none }

/-- The loop of `~ByteArray()` from `it`, at most `fuel` rounds: the heap afterwards, and
the nodes that were freed in their order. -/
def destroyLoop : Nat → Heap → Option Addr → Option (Heap × List Addr)
  | _, h, none => some (h, [])
  | 0, _, some _ => none
  | fuel + 1, h, some it => do
      let nd ← h.node it
      let h ← freeNode h it
      let (h, freed) ← destroyLoop fuel h nd.next
      some (h, it :: freed)

/-- `~ByteArray()`; there are `brk` nodes at most. -/
def destroy (s : ByteArray) : Option (Heap × List Addr) :=
  destroyLoop s.heap.brk s.heap s.readNode

/-- The loop frees the cells of a list one after the other. -/
theorem destroyLoop_eq {b : Nat} : ∀ (ps : List Addr) (fuel : Nat) (h : Heap),
    Linked h.next ps → ps.Nodup → Sized b h ps → ps.length ≤ fuel →
    ∃ h', destroyLoop fuel h ps.head? = some (h', ps) ∧
      ∀ p, h'.node p = if p ∈ ps then none else h.node p := by
  intro ps
  induction ps with
  | nil => exact fun fuel h _ _ _ _ => ⟨h, by cases fuel <;> rfl, fun p => by simp⟩
  | cons it ps ih =>
      intro fuel h hlink hnd hs hfuel
      obtain ⟨fuel, rfl⟩ : ∃ k, fuel = k + 1 := ⟨fuel - 1, by simp at hfuel; omega⟩
      obtain ⟨hnot, hnd⟩ := List.nodup_cons.mp hnd
      obtain ⟨nd, hnode, -, -⟩ := hs it List.mem_cons_self
      let h₁ : Heap := { h with node := Function.update h.node it none }
      have hkeep : ∀ p ∈ ps, h₁.node p = h.node p := fun p hp =>
        Function.update_of_ne (by rintro rfl; exact hnot hp) _ _
      have hlink₁ : Linked h₁.next ps :=
        hlink.2.congr fun p hp => by rw [next, next, hkeep p hp]
      have hs₁ : Sized b h₁ ps := fun p hp => by
        rw [hkeep p hp]
        exact hs p (List.mem_cons_of_mem _ hp)
      obtain ⟨h', hloop, hnode'⟩ := ih fuel h₁ hlink₁ hnd hs₁ (by simpa using hfuel)
      have hnext : nd.next = ps.head? := by
        have hhead := hlink.1
        rwa [next, hnode] at hhead
      refine ⟨h', ?_, fun p => ?_⟩
      · simp only [List.head?_cons, destroyLoop, freeNode, hnode, Option.bind_eq_bind,
          Option.bind_some, hnext]
        rw [show ({ h with node := Function.update h.node it none } : Heap) = h₁ from rfl, hloop]
        rfl
      · rw [hnode' p]
        by_cases hp : p = it
        · subst hp
          simp [h₁]
        · simp [h₁, hp]

/-! ## The count of the nodes -/

/-- The bytes that have been read, that are unread and that are free are those of all the
nodes there are. -/
structure Whole (b : Nat) (s : ByteArray) : Prop where
  baseSize : s.baseSize = b
  unallocated : ∀ p, s.heap.brk ≤ p → s.heap.node p = none
  size : ∀ p nd, s.heap.node p = some nd → nd.size = b
  total : s.readIndex + s.dataSize + s.capacity = b * s.heap.brk

/-- A list of different numbers below its length has all of them. -/
theorem mem_of_nodup_of_lt {l : List Nat} (hnd : l.Nodup) (hlt : ∀ p ∈ l, p < l.length) {p : Nat}
    (hp : p < l.length) : p ∈ l := by
  have hsub : l ⊆ List.range l.length := fun p hp => List.mem_range.mpr (hlt p hp)
  have hperm := (hnd.subperm hsub).perm_of_length_le (by rw [List.length_range])
  exact hperm.mem_iff.mpr (List.mem_range.mpr hp)

variable {b : Nat} {s s' : ByteArray} {front back : List Addr}

theorem Whole.sizes (hw : Whole b s) (p : Addr) (nd : Node) (hnd : s.heap.node p = some nd) :
    nd.size = s.baseSize :=
  (hw.size p nd hnd).trans hw.baseSize.symm

/-- As many nodes are on the list as there are. -/
theorem Rep.length_eq (h : Rep s front back) (hw : Whole b s) :
    (front ++ back).length = s.heap.brk := by
  have hfits := h.fits
  rw [h.sized.length_flat, hw.total, ← hw.baseSize] at hfits
  exact (Nat.eq_of_mul_eq_mul_left h.pos hfits).symm

/-- Exactly the allocated nodes are on the list. -/
theorem Rep.mem_iff (h : Rep s front back) (hw : Whole b s) (p : Addr) :
    p ∈ front ++ back ↔ (s.heap.node p).isSome = true := by
  constructor
  · intro hp
    obtain ⟨nd, hnd, -⟩ := h.sized p hp
    rw [hnd]
    rfl
  · intro hp
    have hlen := h.length_eq hw
    have hlt : p < s.heap.brk := by
      by_contra hge
      rw [hw.unallocated p (not_lt.mp hge)] at hp
      cases hp
    rw [← hlen] at hlt
    exact mem_of_nodup_of_lt h.nodup (fun q hq => hlen ▸ h.below q hq) hlt

/-! ### What the operations do to it -/

/-- The same nodes, and the same sum. -/
structure SameNodes (s s' : ByteArray) : Prop where
  baseSize : s'.baseSize = s.baseSize
  brk : s'.heap.brk = s.heap.brk
  size : ∀ p, (s'.heap.node p).map Node.size = (s.heap.node p).map Node.size
  total : s'.readIndex + s'.dataSize + s'.capacity = s.readIndex + s.dataSize + s.capacity

theorem SameNodes.refl (s : ByteArray) : SameNodes s s := ⟨rfl, rfl, fun _ => rfl, rfl⟩

theorem SameNodes.trans {s'' : ByteArray} (h : SameNodes s s') (h' : SameNodes s' s'') :
    SameNodes s s'' :=
  ⟨h'.baseSize.trans h.baseSize, h'.brk.trans h.brk, fun p => (h'.size p).trans (h.size p),
    h'.total.trans h.total⟩

theorem SameNodes.whole (h : SameNodes s s') (hw : Whole b s) : Whole b s' where
  baseSize := h.baseSize.trans hw.baseSize
  unallocated := fun p hp => by
    have hsize := h.size p
    rw [hw.unallocated p (h.brk ▸ hp)] at hsize
    exact Option.map_eq_none_iff.mp hsize
  size := fun p nd hnd => by
    have hsize := h.size p
    rw [hnd] at hsize
    obtain ⟨nd', hnd', heq⟩ := Option.map_eq_some_iff.mp hsize.symm
    rw [← hw.size p nd' hnd', heq]
  total := by rw [h.total, hw.total, h.brk]

/-- A new node. -/
theorem appendNode_whole (hw : Whole b s) (h : appendNode s = some s') : Whole b s' := by
  obtain ⟨e, -, h⟩ := Option.bind_eq_some_iff.mp h
  obtain ⟨g, hset, h⟩ := Option.bind_eq_some_iff.mp h
  obtain rfl := Option.some.inj h
  have hsame := SameBytes.of_setNext hset
  obtain ⟨⟨new, hnew, hsize, -⟩, hold, hbrk, -⟩ := newNode_spec s.heap s.baseSize
  rw [hw.baseSize] at hsize
  have hnode (p : Addr) : (g.node p).map Node.size =
      if p = s.heap.brk then some b else (s.heap.node p).map Node.size := by
    rw [hsame.size]
    split
    · rename_i heq
      rw [heq, hnew, Option.map_some, hsize]
    · rename_i hne
      rw [hold p hne]
  have hcount : g.brk = s.heap.brk + 1 := hsame.brk.trans hbrk
  refine ⟨hw.baseSize, fun p hp => ?_, fun p nd hnd => ?_, ?_⟩
  · have hle : s.heap.brk + 1 ≤ p := hcount ▸ hp
    have hge : s.heap.brk ≤ p := Nat.le_of_succ_le hle
    have hmap := hnode p
    rw [if_neg (Nat.ne_of_gt hle), hw.unallocated p hge] at hmap
    exact Option.map_eq_none_iff.mp hmap
  · have hmap := hnode p
    rw [hnd, Option.map_some] at hmap
    split at hmap
    · exact Option.some.inj hmap
    · obtain ⟨nd', hnd', heq⟩ := Option.map_eq_some_iff.mp hmap.symm
      exact heq ▸ hw.size p nd' hnd'
  · have htotal := hw.total
    simp only [hcount, hw.baseSize, Nat.mul_succ]
    omega

theorem growLoop_whole (size : Nat) : ∀ (fuel : Nat) {s s' : ByteArray}, Whole b s →
    growLoop size fuel s = some s' → Whole b s' ∧ size < s'.capacity := by
  intro fuel
  induction fuel with
  | zero =>
      intro s s' hw h
      rw [growLoop] at h
      split at h
      · cases h
      · obtain rfl := Option.some.inj h
        exact ⟨hw, by omega⟩
  | succ fuel ih =>
      intro s s' hw h
      rw [growLoop] at h
      split at h
      · obtain ⟨s₁, happ, h⟩ := Option.bind_eq_some_iff.mp h
        exact ih (appendNode_whole hw happ) h
      · obtain rfl := Option.some.inj h
        exact ⟨hw, by omega⟩

/-- The loop of `write` moves the write cursor and fills nodes. -/
theorem writeLoop_frame (buf : Option (List UInt8)) : ∀ (fuel : Nat) {s s' : ByteArray}
    {size wSize w : Nat}, writeLoop buf fuel s size wSize = some (s', w) →
    SameShape s.heap s'.heap ∧ s'.baseSize = s.baseSize ∧ s'.capacity = s.capacity ∧
      s'.dataSize = s.dataSize ∧ s'.readIndex = s.readIndex ∧ w = wSize + size := by
  intro fuel
  induction fuel with
  | zero =>
      intro s s' size wSize w h
      rw [writeLoop] at h
      split at h
      · rename_i hzero
        obtain ⟨rfl, rfl⟩ := Prod.mk.inj (Option.some.inj h)
        exact ⟨.refl _, rfl, rfl, rfl, rfl, by omega⟩
      · cases h
  | succ fuel ih =>
      intro s s' size wSize w h
      rw [writeLoop] at h
      split at h
      · rename_i hzero
        obtain ⟨rfl, rfl⟩ := Prod.mk.inj (Option.some.inj h)
        exact ⟨.refl _, rfl, rfl, rfl, rfl, by omega⟩
      · obtain ⟨node, -, h⟩ := Option.bind_eq_some_iff.mp h
        simp only at h
        split at h
        · obtain ⟨g, hcopy, h⟩ := Option.bind_eq_some_iff.mp h
          obtain ⟨hshape, hbase, hcap, hdata, hread, hw⟩ := ih h
          exact ⟨(copyIn_shape hcopy).trans hshape, hbase, hcap, hdata, hread, by omega⟩
        · obtain ⟨g, hcopy, h⟩ := Option.bind_eq_some_iff.mp h
          obtain ⟨nd, -, h⟩ := Option.bind_eq_some_iff.mp h
          obtain ⟨q, -, h⟩ := Option.bind_eq_some_iff.mp h
          obtain ⟨hshape, hbase, hcap, hdata, hread, hw⟩ := ih h
          exact ⟨(copyIn_shape hcopy).trans hshape, hbase, hcap, hdata, hread, by omega⟩

theorem write_whole (hw : Whole b s) {buf : Option (List UInt8)} {size : Int} {w : Nat}
    (hsize : size ≤ intMax) (h : s.write buf size = some (s', w)) : Whole b s' := by
  obtain ⟨s₁, hgrow, h⟩ := Option.bind_eq_some_iff.mp h
  obtain ⟨⟨s₂, w₂⟩, hloop, h⟩ := Option.bind_eq_some_iff.mp h
  obtain ⟨rfl, -⟩ := Prod.mk.inj (Option.some.inj h)
  obtain ⟨hw₁, hroom⟩ := growLoop_whole _ _ hw hgrow
  obtain ⟨hshape, hbase, hcap, hdata, hread, rfl⟩ := writeLoop_frame buf _ hloop
  have hle : size.toNat < s₁.capacity := by
    simp only [intMax] at hsize
    rcases Int.lt_or_le size 0 with hneg | hpos
    · omega
    · rwa [toSizeT_nonneg hpos (by omega)] at hroom
  have hsame : SameNodes s₁ { s₂ with
      dataSize := s₂.dataSize + (0 + size.toNat), capacity := s₂.capacity - (0 + size.toNat) } :=
    ⟨hbase, hshape.brk, hshape.size, by simp only [hread, hdata, hcap]; omega⟩
  exact hsame.whole hw₁

/-- `deallocNode` gives the bytes of a node back. -/
theorem deallocNode_frame {p : Addr} (h : deallocNode s p = some s') :
    SameBytes s.heap s'.heap ∧ s'.baseSize = s.baseSize ∧ s'.dataSize = s.dataSize ∧
      s'.readIndex = s.readIndex ∧ s'.readNode = s.readNode ∧
      ∃ nd, s.heap.node p = some nd ∧ s'.capacity = s.capacity + nd.size := by
  have hbytes := deallocNode_sameBytes h
  obtain ⟨g₁, hset₁, h⟩ := Option.bind_eq_some_iff.mp h
  obtain ⟨e, -, h⟩ := Option.bind_eq_some_iff.mp h
  obtain ⟨g₂, hset₂, h⟩ := Option.bind_eq_some_iff.mp h
  obtain ⟨nd, hnd, h⟩ := Option.bind_eq_some_iff.mp h
  obtain rfl := Option.some.inj h
  refine ⟨hbytes, rfl, rfl, rfl, rfl, ?_⟩
  have hsize := hbytes.size p
  rw [hnd] at hsize
  obtain ⟨nd', hnd', heq⟩ := Option.map_eq_some_iff.mp hsize.symm
  exact ⟨nd', hnd', by rw [heq]⟩

/-- The loop of `read` moves the read cursor over nodes, whose bytes become free. -/
theorem readLoop_frame (buf : Bool) : ∀ (fuel : Nat) {s s' : ByteArray} {size rSize r : Nat}
    {out out' : List UInt8}, (∀ p nd, s.heap.node p = some nd → nd.size = s.baseSize) →
    s.readIndex ≤ s.baseSize → readLoop buf fuel s size rSize out = some (s', r, out') →
    SameBytes s.heap s'.heap ∧ s'.baseSize = s.baseSize ∧ s'.dataSize = s.dataSize ∧
      s'.readIndex + s'.capacity = s.readIndex + s.capacity + size ∧ r = rSize + size := by
  intro fuel
  induction fuel with
  | zero =>
      intro s s' size rSize r out out' hsize hindex h
      rw [readLoop] at h
      split at h
      · rename_i hzero
        obtain ⟨rfl, rest⟩ := Prod.mk.inj (Option.some.inj h)
        obtain ⟨rfl, -⟩ := Prod.mk.inj rest
        exact ⟨.refl _, rfl, rfl, by omega, by omega⟩
      · cases h
  | succ fuel ih =>
      intro s s' size rSize r out out' hsize hindex h
      rw [readLoop] at h
      split at h
      · rename_i hzero
        obtain ⟨rfl, rest⟩ := Prod.mk.inj (Option.some.inj h)
        obtain ⟨rfl, -⟩ := Prod.mk.inj rest
        exact ⟨.refl _, rfl, rfl, by omega, by omega⟩
      · obtain ⟨node, -, h⟩ := Option.bind_eq_some_iff.mp h
        simp only at h
        split at h
        · rename_i hin
          obtain ⟨bs, -, h⟩ := Option.bind_eq_some_iff.mp h
          have hnext : s.readIndex + size ≤ s.baseSize := by omega
          obtain ⟨hbytes, hbase, hdata, hsum, hr⟩ :=
            ih (s := { s with readIndex := s.readIndex + size }) hsize hnext h
          exact ⟨hbytes, hbase, hdata, by simp only at hsum; omega, by omega⟩
        · obtain ⟨bs, -, h⟩ := Option.bind_eq_some_iff.mp h
          obtain ⟨nd, -, h⟩ := Option.bind_eq_some_iff.mp h
          obtain ⟨s₁, hdealloc, h⟩ := Option.bind_eq_some_iff.mp h
          obtain ⟨hbytes₁, hbase₁, hdata₁, hread₁, -, nd', hnd', hcap₁⟩ :=
            deallocNode_frame hdealloc
          have hsize₁ := hbytes₁.sizes (hbase₁.symm ▸ hsize)
          have hindex₁ : s₁.readIndex ≤ s₁.baseSize := hread₁.trans_le (Nat.zero_le _)
          obtain ⟨hbytes, hbase, hdata, hsum, hr⟩ := ih hsize₁ hindex₁ h
          have hnode := hsize _ nd' hnd'
          simp only at hread₁ hcap₁ hnode
          exact ⟨hbytes₁.trans hbytes, hbase.trans hbase₁, hdata.trans hdata₁, by omega, by omega⟩

theorem read_whole (h : Rep s front back) (hw : Whole b s) {buf : Bool} {size : Int} {r : Nat}
    {out : List UInt8} (hsize : size ≤ intMax) (hread : s.read buf size = some (s', r, out)) :
    Whole b s' := by
  rw [read, ← readSize] at hread
  obtain ⟨⟨s₁, r₁, out₁⟩, hloop, hread⟩ := Option.bind_eq_some_iff.mp hread
  obtain ⟨rfl, -⟩ := Prod.mk.inj (Option.some.inj hread)
  obtain ⟨hbytes, hbase, hdata, hsum, rfl⟩ := readLoop_frame buf _ hw.sizes h.readIndex.le hloop
  have hle := readSize_le (s := s) hsize
  have hsame : SameNodes s { s₁ with dataSize := s₁.dataSize - (0 + readSize s size) } :=
    ⟨hbase, hbytes.brk, hbytes.size, by simp only [hdata]; omega⟩
  exact hsame.whole hw

/-- The walk of `getReadBuffers` moves the cursor and, with `is_update`, the nodes. -/
theorem readWalk_frame (isUpdate : Bool) : ∀ (fuel : Nat) {s s' : ByteArray} {p q : Option Addr}
    {i j size : Nat} {vs : List Iovec},
    (∀ p nd, s.heap.node p = some nd → nd.size = s.baseSize) → i ≤ s.baseSize →
    readWalk isUpdate fuel s p i size = some (s', vs, q, j) →
    SameBytes s.heap s'.heap ∧ s'.baseSize = s.baseSize ∧ s'.dataSize = s.dataSize ∧
      s'.readIndex = s.readIndex ∧ (isUpdate = false → s' = s) ∧
      (isUpdate = true → j + s'.capacity = i + s.capacity + size) := by
  intro fuel
  induction fuel with
  | zero =>
      intro s s' p q i j size vs hsize hindex h
      rw [readWalk] at h
      split at h
      · rename_i hzero
        obtain ⟨rfl, rest⟩ := Prod.mk.inj (Option.some.inj h)
        obtain ⟨-, rest⟩ := Prod.mk.inj rest
        obtain ⟨-, rfl⟩ := Prod.mk.inj rest
        exact ⟨.refl _, rfl, rfl, rfl, fun _ => rfl, fun _ => by omega⟩
      · cases h
  | succ fuel ih =>
      intro s s' p q i j size vs hsize hindex h
      rw [readWalk] at h
      split at h
      · rename_i hzero
        obtain ⟨rfl, rest⟩ := Prod.mk.inj (Option.some.inj h)
        obtain ⟨-, rest⟩ := Prod.mk.inj rest
        obtain ⟨-, rfl⟩ := Prod.mk.inj rest
        exact ⟨.refl _, rfl, rfl, rfl, fun _ => rfl, fun _ => by omega⟩
      · obtain ⟨r, -, h⟩ := Option.bind_eq_some_iff.mp h
        obtain ⟨nd, -, h⟩ := Option.bind_eq_some_iff.mp h
        simp only at h
        split at h
        · rename_i hin
          obtain ⟨⟨s₂, vs₂, q₂, j₂⟩, hwalk, h⟩ := Option.bind_eq_some_iff.mp h
          obtain ⟨rfl, rest⟩ := Prod.mk.inj (Option.some.inj h)
          obtain ⟨-, rest⟩ := Prod.mk.inj rest
          obtain ⟨-, rfl⟩ := Prod.mk.inj rest
          obtain ⟨hbytes, hbase, hdata, hread, hsame, hsum⟩ := ih hsize (by omega) hwalk
          exact ⟨hbytes, hbase, hdata, hread, hsame, fun hu => by
            have hsum := hsum hu
            simp only at hsum ⊢
            omega⟩
        · cases isUpdate with
          | false =>
              rw [if_neg Bool.false_ne_true, Option.bind_eq_bind, Option.bind_some] at h
              obtain ⟨⟨s₂, vs₂, q₂, j₂⟩, hwalk, h⟩ := Option.bind_eq_some_iff.mp h
              obtain ⟨rfl, rest⟩ := Prod.mk.inj (Option.some.inj h)
              obtain ⟨-, rest⟩ := Prod.mk.inj rest
              obtain ⟨-, rfl⟩ := Prod.mk.inj rest
              obtain ⟨hbytes, hbase, hdata, hread, hsame, -⟩ := ih hsize (Nat.zero_le _) hwalk
              exact ⟨hbytes, hbase, hdata, hread, hsame, fun hu => Bool.noConfusion hu⟩
          | true =>
              rw [if_pos rfl] at h
              obtain ⟨s₁, hdealloc, h⟩ := Option.bind_eq_some_iff.mp h
              obtain ⟨⟨s₂, vs₂, q₂, j₂⟩, hwalk, h⟩ := Option.bind_eq_some_iff.mp h
              obtain ⟨rfl, rest⟩ := Prod.mk.inj (Option.some.inj h)
              obtain ⟨-, rest⟩ := Prod.mk.inj rest
              obtain ⟨-, rfl⟩ := Prod.mk.inj rest
              obtain ⟨hbytes₁, hbase₁, hdata₁, hread₁, -, nd', hnd', hcap₁⟩ :=
                deallocNode_frame hdealloc
              have hsize₁ := hbytes₁.sizes (hbase₁.symm ▸ hsize)
              obtain ⟨hbytes, hbase, hdata, hread, -, hsum⟩ := ih hsize₁ (Nat.zero_le _) hwalk
              have hnode := hsize _ nd' hnd'
              have hsum := hsum rfl
              exact ⟨hbytes₁.trans hbytes, hbase.trans hbase₁, hdata.trans hdata₁,
                hread.trans hread₁, fun hu => Bool.noConfusion hu, fun _ => by
                  change j₂ + s₂.capacity = _
                  omega⟩

/-! ## Every operation -/

/-- **No operation loses a node.** -/
theorem exec_whole (h : Rep s front back) (hw : Whole b s) {c : Call} (hc : c.InRange)
    (hexec : c.exec s = some s') : Whole b s' := by
  cases c with
  | write buf size =>
      obtain ⟨⟨s₁, w⟩, hwrite, rfl⟩ := Option.map_eq_some_iff.mp hexec
      exact write_whole hw hc.1 hwrite
  | writeString buf =>
      obtain ⟨⟨s₁, w⟩, hwrite, rfl⟩ := Option.map_eq_some_iff.mp hexec
      exact write_whole hw (toInt_le _).1 hwrite
  | read buf size =>
      obtain ⟨⟨s₁, r, out⟩, hread, rfl⟩ := Option.map_eq_some_iff.mp hexec
      exact read_whole h hw hc hread
  | readString size =>
      obtain ⟨⟨s₁, r, out⟩, hread, rfl⟩ := Option.map_eq_some_iff.mp hexec
      exact read_whole h hw (toInt_le _).1 hread
  | getWriteBuffers size isUpdate =>
      obtain ⟨⟨s₁, vs, n⟩, hget, rfl⟩ := Option.map_eq_some_iff.mp hexec
      obtain ⟨s₂, hgrow, hget⟩ := Option.bind_eq_some_iff.mp hget
      obtain ⟨⟨vs', q, j⟩, -, hget⟩ := Option.bind_eq_some_iff.mp hget
      obtain ⟨hw₂, hroom⟩ := growLoop_whole _ _ hw hgrow
      cases isUpdate with
      | true =>
          obtain ⟨rfl, -⟩ := Prod.mk.inj (Option.some.inj hget)
          have hsame : SameNodes s₂ (s₂.advanced s₂.heap q j size) :=
            ⟨rfl, rfl, fun _ => rfl, by simp only [advanced]; omega⟩
          exact hsame.whole hw₂
      | false =>
          obtain ⟨rfl, -⟩ := Prod.mk.inj (Option.some.inj hget)
          exact hw₂
  | getReadBuffers size isUpdate =>
      obtain ⟨⟨s₁, vs, n⟩, hget, rfl⟩ := Option.map_eq_some_iff.mp hexec
      obtain ⟨⟨s₂, vs', q, j⟩, hwalk, hget⟩ := Option.bind_eq_some_iff.mp hget
      obtain ⟨hbytes, hbase, hdata, -, hpeek, hsum⟩ :=
        readWalk_frame isUpdate _ hw.sizes h.readIndex.le hwalk
      rw [← min_def_lt] at hsum hget
      cases isUpdate with
      | true =>
          obtain ⟨rfl, -⟩ := Prod.mk.inj (Option.some.inj hget)
          have hsum := hsum rfl
          have hsame : SameNodes s (s₂.consumed q j (min size s.dataSize)) :=
            ⟨hbase, hbytes.brk, hbytes.size, by simp only [consumed, setRead, hdata]; omega⟩
          exact hsame.whole hw
      | false =>
          obtain ⟨rfl, -⟩ := Prod.mk.inj (Option.some.inj hget)
          rw [hpeek rfl]
          exact hw
  | updateNullWrite wSize =>
      obtain ⟨⟨s₁, w⟩, hwrite, rfl⟩ := Option.map_eq_some_iff.mp hexec
      exact write_whole hw (toInt_le _).1 hwrite
  | updateNullRead rSize =>
      obtain ⟨⟨s₁, r, out⟩, hread, rfl⟩ := Option.map_eq_some_iff.mp hexec
      exact read_whole h hw (toInt_le _).1 hread
  | updateCapacity size => exact (growLoop_whole _ _ hw hexec).1
  | store p off bs =>
      obtain ⟨g, hst, rfl⟩ := Option.map_eq_some_iff.mp hexec
      have hshape := SameShape.of_store hst
      have hsame : SameNodes s { s with heap := g } := ⟨rfl, hshape.brk, hshape.size, rfl⟩
      exact hsame.whole hw

/-- A new array has one node, and those that its capacity asks for. -/
theorem create_whole {fresh : Addr → Nat → UInt8} {b cap : Nat}
    (h : create fresh b cap = some s) : Whole b s := by
  refine (growLoop_whole cap _ ?_ h).1
  obtain ⟨⟨new, hnew, hsize, -⟩, hold, hbrk, -⟩ := newNode_spec ⟨fun _ => none, 0, fresh⟩ b
  refine ⟨rfl, fun p hp => ?_, fun p nd hnd => ?_, ?_⟩
  · rw [hbrk] at hp
    exact hold p (Nat.ne_of_gt hp)
  · by_cases hp : p = 0
    · subst hp
      obtain rfl := Option.some.inj (hnew.symm.trans hnd)
      exact hsize
    · rw [hold p hp] at hnd
      cases hnd
  · simp [hbrk]

/-! ## Every run -/

/-- The operations of the class itself. -/
def Call.Own : Call → Prop
  | .store .. => False
  | _ => True

/-- Each of them goes through: no null pointer is followed and no assertion fails. -/
theorem exec_isSome (h : Rep s front back) {c : Call} (hc : c.InRange) (hown : c.Own) :
    (c.exec s).isSome = true := by
  cases c with
  | write buf size =>
      obtain ⟨s₁, s₂, -, hwrite, -⟩ := h.write_eq hc.1 hc.2
      rw [Call.exec, hwrite]
      rfl
  | writeString buf =>
      obtain ⟨hle, hlen⟩ := toInt_le buf.length
      have hbuf : ∀ bs, some buf = some bs → (toInt buf.length).toNat ≤ bs.length :=
        fun bs hbs => Option.some.inj hbs ▸ hlen
      obtain ⟨s₁, s₂, -, hwrite, -⟩ := h.write_eq hle hbuf
      rw [Call.exec, hwrite]
      rfl
  | read buf size =>
      obtain ⟨s₁, -, -, hread, -⟩ := h.read_eq buf hc
      rw [Call.exec, hread]
      rfl
  | readString size =>
      obtain ⟨s₁, -, -, hread, -⟩ := h.read_eq true (toInt_le size).1
      rw [Call.exec, hread]
      rfl
  | getWriteBuffers size isUpdate =>
      obtain ⟨s₁, extra, hgrow, h₁, -, hroom, -⟩ := updateCapacity_spec h size
      obtain ⟨vs, q, j, hwalk, -⟩ := h₁.commit hroom
      simp only [Call.exec, getWriteBuffers, Option.bind_eq_bind, hgrow, Option.bind_some, hwalk]
      cases isUpdate <;> rfl
  | getReadBuffers size isUpdate =>
      cases isUpdate with
      | true =>
          obtain ⟨s₁, vs, hget, -⟩ := h.getReadBuffers_eq size
          rw [Call.exec, hget]
          rfl
      | false =>
          obtain ⟨vs, hget, -⟩ := h.peek_eq size
          rw [Call.exec, hget]
          rfl
  | updateNullWrite wSize =>
      have hbuf : ∀ bs : List UInt8, none = some bs → (toInt wSize).toNat ≤ bs.length := by
        intro bs hbs
        cases hbs
      obtain ⟨s₁, s₂, -, hwrite, -⟩ := h.write_eq (toInt_le wSize).1 hbuf
      rw [Call.exec, updateNullWrite, hwrite]
      rfl
  | updateNullRead rSize =>
      obtain ⟨s₁, -, -, hread, -⟩ := h.read_eq false (toInt_le rSize).1
      rw [Call.exec, updateNullRead, hread]
      rfl
  | updateCapacity size =>
      obtain ⟨s₁, -, hgrow, -⟩ := updateCapacity_spec h size
      rw [Call.exec, hgrow]
      rfl
  | store p off bs => exact hown.elim

/-- The list, the cursors and the counters are as they should be: `front` are the nodes from
the read node to the one before the write node, `back` the write node and those behind it. -/
structure Sound (b : Nat) (s : ByteArray) (front back : List Addr) : Prop where
  /-- `m_next` leads from the read node over these nodes, and ends behind the last. -/
  readNode : s.readNode = (front ++ back).head?
  linked : Linked s.heap.next (front ++ back)
  endNode : s.endNode = (front ++ back).getLast?
  /-- Every allocated node is visited, and once. -/
  nodup : (front ++ back).Nodup
  allocated : ∀ p, p ∈ front ++ back ↔ (s.heap.node p).isSome = true
  writeNode : ∃ w ∈ front ++ back, s.writeNode = some w ∧ back.head? = some w
  readIndex : s.readIndex < b
  writeIndex : s.writeIndex < b
  dataSize : (s.dataSize : Int) = b * front.length + s.writeIndex - s.readIndex
  capacity : (s.capacity : Int) = b * back.length - s.writeIndex
  capacity_pos : 1 ≤ s.capacity

theorem Rep.sound (h : Rep s front back) (hw : Whole b s) : Sound b s front back where
  readNode := h.readNode
  linked := h.linked
  endNode := h.endNode.trans (List.getLast?_append_of_ne_nil _ h.back_ne).symm
  nodup := h.nodup
  allocated := h.mem_iff hw
  writeNode := by
    obtain ⟨w, tl, hback⟩ := List.exists_cons_of_ne_nil h.back_ne
    have hhead : back.head? = some w := by rw [hback, List.head?_cons]
    have hmem : w ∈ front ++ back := List.mem_append_right _ (List.mem_of_head? hhead)
    exact ⟨w, hmem, h.writeNode.trans hhead, hhead⟩
  readIndex := h.readIndex.trans_eq hw.baseSize
  writeIndex := h.writeIndex.trans_eq hw.baseSize
  dataSize := by
    have hdata := h.dataSize
    rw [hw.baseSize] at hdata
    rw [← Nat.cast_mul]
    omega
  capacity := by
    have hcap := h.capacity
    rw [hw.baseSize] at hcap
    rw [← Nat.cast_mul]
    omega
  capacity_pos := h.capacity_pos

/-- The destructor frees every node once, and leaves none. -/
theorem Rep.destroy_eq (h : Rep s front back) (hw : Whole b s) :
    ∃ h', destroy s = some (h', front ++ back) ∧ ∀ p, h'.node p = none := by
  obtain ⟨h', hloop, hnode⟩ :=
    destroyLoop_eq (front ++ back) s.heap.brk s.heap h.linked h.nodup h.sized (h.length_eq hw).le
  rw [← h.readNode] at hloop
  refine ⟨h', hloop, fun p => ?_⟩
  rw [hnode p]
  split
  · rfl
  · rename_i hp
    rw [h.mem_iff hw p, Option.isSome_iff_ne_none, not_not] at hp
    exact hp

/-- What holds after every sequence of operations. -/
theorem rep_of_reach {s₀ : ByteArray} (h₀ : ∃ front back, Rep s₀ front back) (hw₀ : Whole b s₀)
    (h : Reach Call.exec (fun _ c => c.InRange) s₀ s) :
    (∃ front back, Rep s front back) ∧ Whole b s := by
  refine h.invariant (I := fun s => (∃ front back, Rep s front back) ∧ Whole b s) ⟨h₀, hw₀⟩ ?_
  rintro s c s' ⟨⟨front, back, hrep⟩, hw⟩ hc hexec
  exact ⟨exec_rep hrep hc hexec, exec_whole hrep hw hc hexec⟩

/-- **The invariants of a `ByteArray`.**  After every sequence of operations the list from the
read node has every node once and the counters are the distances between the cursors; so the
destructor frees every node once, and every further operation goes through. -/
theorem invariants_hold (fresh : Addr → Nat → UInt8) (hb : 1 ≤ b) (cap : Nat) :
    ∃ s₀, create fresh b cap = some s₀ ∧
      ∀ s, Reach Call.exec (fun _ c => c.InRange) s₀ s →
        (∃ front back, Sound b s front back ∧
          ∃ h, destroy s = some (h, front ++ back) ∧ ∀ p, h.node p = none) ∧
        ∀ c : Call, c.InRange → c.Own → (c.exec s).isSome = true := by
  obtain ⟨s₀, front₀, back₀, hcreate, hrep₀, -⟩ := create_spec fresh hb cap
  refine ⟨s₀, hcreate, fun s hreach => ?_⟩
  obtain ⟨⟨front, back, hrep⟩, hw⟩ :=
    rep_of_reach ⟨front₀, back₀, hrep₀⟩ (create_whole hcreate) hreach
  exact ⟨⟨front, back, hrep.sound hw, hrep.destroy_eq hw⟩,
    fun c hc hown => exec_isSome hrep hc hown⟩

/-- The first of two cells has been read, and moved behind the second. -/
theorem invariants_hold_partlyRead :
    ∃ s₀ s, create (fun _ _ => 0) 4 0 = some s₀ ∧
      run (guarded Call.exec fun _ c => c.InRange) s₀ partlyRead = some s ∧
      s.readNode = some 1 ∧ s.endNode ≠ some 1 ∧
      ∃ front back, Sound 4 s front back ∧
        ∃ h, destroy s = some (h, front ++ back) ∧ ∀ p, h.node p = none := by
  have h : ((create (fun _ _ => 0) 4 0).bind fun s₀ =>
      run (guarded Call.exec fun _ c => c.InRange) s₀ partlyRead).any
      (fun s => decide (s.readNode = some 1 ∧ s.endNode ≠ some 1)) = true := by decide +kernel
  obtain ⟨s, hs, hmoved⟩ := Option.any_eq_true _ _ |>.mp h
  obtain ⟨s₀, hcreate, hrun⟩ := Option.bind_eq_some_iff.mp hs
  obtain ⟨hread, hend⟩ := of_decide_eq_true hmoved
  obtain ⟨s₁, hcreate₁, hinv⟩ := invariants_hold (fun _ _ => 0) (b := 4) (by decide) 0
  obtain rfl := Option.some.inj (hcreate.symm.trans hcreate₁)
  exact ⟨s₀, s, hcreate, hrun, hread, hend, (hinv s (run_reach _ hrun)).1⟩

end ByteArray

end CoLib
