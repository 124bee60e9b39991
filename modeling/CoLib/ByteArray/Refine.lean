/-
# `CoLib.ByteArray.Refine` — a `ByteArray` is a FIFO byte queue

`Rep s front back` is the invariant: the nodes before the write node and those
from it on, the cursors inside them, and the two counters as positions on the
tape.  Each operation keeps it and moves the window of unread bytes
(`Rep.window`) as a queue request does; `run_refines_fifo` is the consequence
for every sequence of operations.
-/
import CoLib.ByteArray.Cursor
import CoLib.Lib.Fifo

namespace CoLib.ByteArray

open Lib Heap

/-- A well-formed buffer: `front` are the nodes before the write node, `back`
the write node and those behind it. -/
structure Rep (s : ByteArray) (front back : List Addr) : Prop where
  pos : 0 < s.baseSize
  nodup : (front ++ back).Nodup
  linked : Linked s.heap.next (front ++ back)
  sized : Sized s.baseSize s.heap (front ++ back)
  below : ∀ p ∈ front ++ back, p < s.heap.brk
  back_ne : back ≠ []
  readNode : s.readNode = (front ++ back).head?
  writeNode : s.writeNode = back.head?
  endNode : s.endNode = back.getLast?
  readIndex : s.readIndex < s.baseSize
  writeIndex : s.writeIndex < s.baseSize
  dataSize : s.readIndex + s.dataSize = s.baseSize * front.length + s.writeIndex
  capacity : s.capacity + s.writeIndex = s.baseSize * back.length

/-- The unread bytes: `m_data_size` bytes of the tape from the read cursor on. -/
def window (s : ByteArray) (ps : List Addr) : List UInt8 :=
  ((s.heap.flat ps).drop s.readIndex).take s.dataSize

namespace Rep

variable {s : ByteArray} {front back : List Addr}

theorem length_flat (h : Rep s front back) :
    (s.heap.flat (front ++ back)).length =
      s.baseSize * front.length + s.baseSize * back.length := by
  rw [h.sized.length_flat, List.length_append, Nat.mul_add]

/-- The unread bytes and the free ones behind them fit on the tape. -/
theorem fits (h : Rep s front back) :
    s.readIndex + s.dataSize + s.capacity = (s.heap.flat (front ++ back)).length := by
  have h₁ := h.length_flat
  have h₂ := h.dataSize
  have h₃ := h.capacity
  omega

theorem length_window (h : Rep s front back) :
    (window s (front ++ back)).length = s.dataSize := by
  have := h.fits
  simp only [window, List.length_take, List.length_drop]
  omega

/-- There is always room for one more byte. -/
theorem capacity_pos (h : Rep s front back) : 0 < s.capacity := by
  have h₁ := h.capacity
  have h₂ := h.writeIndex
  have h₃ : s.baseSize * 1 ≤ s.baseSize * back.length :=
    Nat.mul_le_mul_left _ (List.length_pos_iff.mpr h.back_ne)
  omega

end Rep

/-! ## Growing -/

/-- What growing leaves alone. -/
structure SameData (s s' : ByteArray) : Prop where
  baseSize : s'.baseSize = s.baseSize
  dataSize : s'.dataSize = s.dataSize

theorem SameData.refl (s : ByteArray) : SameData s s := ⟨rfl, rfl⟩

theorem SameData.trans {s s' s'' : ByteArray} (h : SameData s s') (h' : SameData s' s'') :
    SameData s s'' := ⟨h'.1.trans h.1, h'.2.trans h.2⟩

/-- One more node at the end: the unread bytes do not move. -/
theorem appendNode_spec {s : ByteArray} {front back : List Addr} (h : Rep s front back) :
    ∃ s', appendNode s = some s' ∧ Rep s' front (back ++ [s.heap.brk]) ∧ SameData s s' ∧
      s'.capacity = s.capacity + s.baseSize ∧
      window s' (front ++ (back ++ [s.heap.brk])) = window s (front ++ back) := by
  obtain ⟨e, he⟩ : ∃ e, back.getLast? = some e := by
    cases hl : back.getLast? with
    | none => exact absurd (List.getLast?_eq_none_iff.mp hl) h.back_ne
    | some e => exact ⟨e, rfl⟩
  have hemem : e ∈ front ++ back := List.mem_append_right _ (List.mem_of_getLast? he)
  have hbrk : s.heap.brk ∉ front ++ back := fun hm => absurd (h.below _ hm) (Nat.lt_irrefl _)
  obtain ⟨⟨new, hnew, hsize, hlen, hstop⟩, hold, hbrk₁, -⟩ := newNode_spec s.heap s.baseSize
  have hne : ∀ p ∈ front ++ back, p ≠ s.heap.brk := fun p hp => (h.below p hp).ne
  obtain ⟨en, hen, -, -⟩ := h.sized e hemem
  have hen₁ : (s.heap.newNode s.baseSize).node e = some en := by rw [hold e (hne e hemem), hen]
  obtain ⟨g, hset, hbytes, hnext, hframe⟩ := setNext_spec (some s.heap.brk) hen₁
  have hs₁ : Sized s.baseSize (s.heap.newNode s.baseSize) (front ++ (back ++ [s.heap.brk])) := by
    intro p hp
    rw [← List.append_assoc, List.mem_append, List.mem_singleton] at hp
    rcases hp with hp | rfl
    · rw [hold p (hne p hp)]; exact h.sized p hp
    · exact ⟨new, hnew, hsize, hlen⟩
  have hflat : g.flat (front ++ back) = s.heap.flat (front ++ back) := by
    refine flat_congr fun p hp => ?_
    rw [hbytes.bytes, bytes, bytes, hold p (hne p hp)]
  refine ⟨{ s with
    heap := g, endNode := some s.heap.brk, capacity := s.capacity + s.baseSize },
    by simp [appendNode, h.endNode, he, hset], ?_, ⟨rfl, rfl⟩, rfl, ?_⟩
  · exact
      { pos := h.pos
        nodup := by
          rw [← List.append_assoc]
          exact (List.perm_append_singleton _ _).nodup_iff.mpr
            (List.nodup_cons.mpr ⟨hbrk, h.nodup⟩)
        linked := by
          rw [← List.append_assoc]
          refine h.linked.snoc h.nodup hbrk (z := e) ?_ ?_ hnext ?_
          · rw [List.getLast?_append_of_ne_nil _ h.back_ne, he]
          · intro p hp hpe
            rw [hframe p hpe, next, next, hold p (hne p hp)]
          · rw [hframe _ (hne e hemem).symm, next, hnew]; exact hstop
        sized := hbytes.sized hs₁
        below := by
          intro p hp
          rw [← List.append_assoc, List.mem_append, List.mem_singleton] at hp
          rw [hbytes.brk, hbrk₁]
          rcases hp with hp | rfl
          · exact Nat.lt_succ_of_lt (h.below p hp)
          · exact Nat.lt_succ_self _
        back_ne := by simp
        readNode := by
          rw [h.readNode]
          obtain ⟨z, zs, rfl⟩ := List.exists_cons_of_ne_nil h.back_ne
          cases front <;> rfl
        writeNode := by
          rw [h.writeNode]
          obtain ⟨z, zs, rfl⟩ := List.exists_cons_of_ne_nil h.back_ne
          rfl
        endNode := by simp
        readIndex := h.readIndex
        writeIndex := h.writeIndex
        dataSize := h.dataSize
        capacity := by
          have := h.capacity
          simp only [List.length_append, List.length_singleton, Nat.mul_succ]
          omega }
  · have hfits := h.fits
    simp only [window]
    rw [← List.append_assoc, flat_append, hflat, List.drop_append_of_le_length (by omega),
      List.take_append_of_le_length (by rw [List.length_drop]; omega)]

/-- The loop of `updateCapacity` ends with more than `size` free bytes. -/
theorem growLoop_spec (size : Nat) : ∀ (fuel : Nat) (s : ByteArray) (front back : List Addr),
    Rep s front back → size + 1 ≤ s.capacity + fuel →
    ∃ s' extra, growLoop size fuel s = some s' ∧ Rep s' front (back ++ extra) ∧ SameData s s' ∧
      size < s'.capacity ∧ window s' (front ++ (back ++ extra)) = window s (front ++ back) := by
  intro fuel
  induction fuel with
  | zero =>
      intro s front back h hfuel
      exact ⟨s, [], by simp [growLoop]; omega, by simpa using h, .refl s, by omega, by simp⟩
  | succ fuel ih =>
      intro s front back h hfuel
      by_cases hcap : s.capacity ≤ size
      · obtain ⟨s₁, happ, h₁, hsame, hcap₁, hwin⟩ := appendNode_spec h
        have hpos := h.pos
        obtain ⟨s', extra, hgrow, h', hsame', hlt, hwin'⟩ :=
          ih s₁ front (back ++ [s.heap.brk]) h₁ (by omega)
        refine ⟨s', s.heap.brk :: extra, by simp [growLoop, hcap, happ, hgrow],
          by simpa using h', hsame.trans hsame', hlt, ?_⟩
        rw [← hwin, ← hwin']; simp
      · exact ⟨s, [], by simp [growLoop, hcap], by simpa using h, .refl s, by omega, by simp⟩

theorem updateCapacity_spec {s : ByteArray} {front back : List Addr} (h : Rep s front back)
    (size : Nat) :
    ∃ s' extra, s.updateCapacity size = some s' ∧ Rep s' front (back ++ extra) ∧
      SameData s s' ∧ size < s'.capacity ∧
      window s' (front ++ (back ++ extra)) = window s (front ++ back) :=
  growLoop_spec size (size + 1) s front back h (by omega)

/-- The constructor yields a well-formed, empty buffer. -/
theorem create_spec (fresh : Addr → Nat → UInt8) {b : Nat} (hb : 1 ≤ b) (cap : Nat) :
    ∃ s front back, create fresh b cap = some s ∧ Rep s front back ∧
      window s (front ++ back) = [] := by
  obtain ⟨⟨new, hnew, hsize, hlen, hstop⟩, -, hbrk, -⟩ := newNode_spec ⟨fun _ => none, 0, fresh⟩ b
  have h₀ : Rep
      { heap := Heap.newNode ⟨fun _ => none, 0, fresh⟩ b
        baseSize := b, capacity := b, dataSize := 0, writeIndex := 0, writeNode := some 0
        readIndex := 0, readNode := some 0, endNode := some 0 } [] [0] :=
    { pos := hb
      nodup := by simp
      linked := by simp [next, hnew, hstop]
      sized := by
        intro p hp
        obtain rfl : p = 0 := by simpa using hp
        exact ⟨new, hnew, hsize, hlen⟩
      below := by simp [hbrk]
      back_ne := by simp
      readNode := rfl
      writeNode := rfl
      endNode := rfl
      readIndex := hb
      writeIndex := hb
      dataSize := by simp
      capacity := by simp }
  obtain ⟨s, extra, hs, h, -, -, hwin⟩ := updateCapacity_spec h₀ cap
  exact ⟨s, [], _, hs, h, by rw [hwin]; simp [window]⟩

/-! ## Appending -/

/-- The buffer after `n` bytes have been put at the write cursor. -/
def advanced (s : ByteArray) (g : Heap) (p : Option Addr) (j n : Nat) : ByteArray :=
  { s with
    heap := g, writeNode := p, writeIndex := j
    dataSize := s.dataSize + n, capacity := s.capacity - n }

/-- Moving the write cursor over freshly filled memory appends what was filled. -/
theorem Rep.advance {s : ByteArray} {front moved rest : List Addr}
    (h : Rep s front (moved ++ rest)) (hrest : rest ≠ []) {bs : List UInt8} {g : Heap} {j : Nat}
    (hroom : bs.length < s.capacity) (hj : j < s.baseSize)
    (hpos : s.writeIndex + bs.length = s.baseSize * moved.length + j)
    (hshape : SameShape s.heap g)
    (hflat : g.flat (moved ++ rest) = splice (s.heap.flat (moved ++ rest)) s.writeIndex bs)
    (hframe : ∀ q, q ∉ moved ++ rest → g.bytes q = s.heap.bytes q) :
    Rep (s.advanced g rest.head? j bs.length) (front ++ moved) rest ∧
      window (s.advanced g rest.head? j bs.length) (front ++ moved ++ rest)
        = window s (front ++ (moved ++ rest)) ++ bs := by
  have hnd := h.nodup
  have hlink := h.linked
  have hsz := h.sized
  have hbelow := h.below
  have hread := h.readNode
  have hend := h.endNode
  have hdata := h.dataSize
  have hcap := h.capacity
  rw [← List.append_assoc] at hnd hlink hsz hbelow hread
  rw [List.getLast?_append_of_ne_nil _ hrest] at hend
  rw [List.length_append, Nat.mul_add] at hcap
  constructor
  · exact
      { pos := h.pos, nodup := hnd
        linked := hlink.congr fun p _ => hshape.next p
        sized := hshape.sized hsz
        below := fun p hp => hshape.brk ▸ hbelow p hp
        back_ne := hrest, readNode := hread, writeNode := rfl, endNode := hend
        readIndex := h.readIndex, writeIndex := hj
        dataSize := by
          simp only [advanced, List.length_append, Nat.mul_add]; omega
        capacity := by simp only [advanced]; omega }
  · have hfront : g.flat front = s.heap.flat front := by
      refine flat_congr fun p hp => hframe p fun hm => ?_
      exact (List.nodup_append.mp h.nodup).2.2 p hp p hm rfl
    have hlenf : (s.heap.flat front).length = s.baseSize * front.length :=
      Sized.length_flat fun p hp => h.sized p (List.mem_append_left _ hp)
    have hsplice : g.flat (front ++ (moved ++ rest))
        = splice (s.heap.flat (front ++ (moved ++ rest))) (s.readIndex + s.dataSize) bs := by
      rw [flat_append, hfront, hflat, flat_append s.heap front, hdata, ← hlenf]
      exact (splice_append_right _ _ _ _).symm
    have hfits := h.fits
    simp only [window, advanced]
    rw [List.append_assoc, hsplice]
    exact window_splice (by omega)

/-- The common part of `write` and `getWriteBuffers`: from a buffer with room
for `bs`, the walk succeeds and filling what it recorded appends `bs`. -/
theorem Rep.append {s : ByteArray} {front back : List Addr} (h : Rep s front back)
    (bs : List UInt8) (hroom : bs.length < s.capacity) (fuel : Nat) (hfuel : bs.length ≤ fuel) :
    ∃ vs q j g front' back',
      writeWalk s.heap s.baseSize fuel s.writeNode s.writeIndex bs.length = some (vs, some q, j) ∧
      fillIovecs s.heap vs bs = some g ∧
      Rep (s.advanced g (some q) j bs.length) front' back' ∧
      window (s.advanced g (some q) j bs.length) (front' ++ back')
        = window s (front ++ back) ++ bs := by
  have hcap := h.capacity
  obtain ⟨vs, moved, rest, j, rfl, hrest, hwalk, hj, hpos, hfills⟩ :=
    writeWalk_spec fuel back s.writeIndex bs.length h.linked.right
      (fun p hp => h.sized p (List.mem_append_right _ hp)) (List.nodup_append.mp h.nodup).2.1
      h.writeIndex (by omega) hfuel
  obtain ⟨g, hfill, hshape, hflat, hframe⟩ := hfills s.heap bs (SameShape.refl _) rfl
  obtain ⟨q, tl, rfl⟩ := List.exists_cons_of_ne_nil hrest
  obtain ⟨hrep, hwin⟩ := h.advance hrest hroom hj hpos hshape hflat hframe
  exact ⟨vs, q, j, g, front ++ moved, q :: tl, by rw [h.writeNode]; exact hwalk, hfill, hrep, hwin⟩

/-- `write(buf, n)` appends the first `n` bytes of `buf`. -/
theorem write_spec {s : ByteArray} {front back : List Addr} (h : Rep s front back)
    {buf : List UInt8} {n : Nat} (hn : n ≤ intMax) (hbuf : n ≤ buf.length) :
    ∃ s' front' back', s.write (some buf) n = some (s', n) ∧ Rep s' front' back' ∧
      window s' (front' ++ back') = window s (front ++ back) ++ buf.take n := by
  obtain ⟨s₁, extra, hgrow, h₁, -, hroom, hwin₁⟩ := updateCapacity_spec h n
  have hlen : (buf.take n).length = n := by simp [hbuf]
  obtain ⟨vs, q, j, g, front', back', hwalk, hfill, hrep, hwin⟩ :=
    h₁.append (buf.take n) (by rwa [hlen]) (n + 1) (by omega)
  rw [hlen] at hwalk hrep hwin
  have hloop := writeLoop_of_walk (some buf) hwalk (SameShape.refl _) hfill
  refine ⟨s₁.advanced g (some q) j n, front', back', ?_, hrep, by rw [hwin, hwin₁]⟩
  simp [write, toSizeT_ofNat hn, hgrow, hloop, advanced]

/-- `getWriteBuffers(v, n, true)`, filled with `bs`, appends `bs`. -/
theorem fillBuffers_spec {s : ByteArray} {front back : List Addr} (h : Rep s front back)
    (bs : List UInt8) :
    ∃ s₁ vs g front' back', s.getWriteBuffers bs.length true = some (s₁, vs, bs.length) ∧
      fillIovecs s₁.heap vs bs = some g ∧ Rep { s₁ with heap := g } front' back' ∧
      window { s₁ with heap := g } (front' ++ back') = window s (front ++ back) ++ bs := by
  obtain ⟨s₁, extra, hgrow, h₁, -, hroom, hwin₁⟩ := updateCapacity_spec h bs.length
  obtain ⟨vs, q, j, g, front', back', hwalk, hfill, hrep, hwin⟩ :=
    h₁.append bs hroom (bs.length + 1) (by omega)
  refine ⟨s₁.advanced s₁.heap (some q) j bs.length, vs, g, front', back', ?_, hfill, hrep,
    by rw [← hwin₁, ← hwin]; rfl⟩
  simp [getWriteBuffers, hgrow, hwalk, advanced]

/-! ## Consuming -/

/-- The buffer after `n` bytes have been taken at the read cursor. -/
def consumed (s : ByteArray) (p : Option Addr) (j n : Nat) : ByteArray :=
  { s.setRead p j with dataSize := s.dataSize - n }

/-- The common part of `read` and `getReadBuffers`: the walk succeeds, what it
recorded is the oldest `n` unread bytes, and these are the ones removed. -/
theorem Rep.consume {s : ByteArray} {front back : List Addr} (h : Rep s front back) {n : Nat}
    (hn : n ≤ s.dataSize) (fuel : Nat) (hfuel : n ≤ fuel) :
    ∃ s' vs q j front' back',
      readWalk true fuel s s.readNode s.readIndex n = some (s', vs, q, j) ∧
      s'.dataSize = s.dataSize ∧ SameBytes s.heap s'.heap ∧
      readIovecs s.heap vs = some ((window s (front ++ back)).take n) ∧
      Rep (s'.consumed q j n) front' back' ∧
      window (s'.consumed q j n) (front' ++ back') = (window s (front ++ back)).drop n := by
  have hdata := h.dataSize
  have hcap := h.capacity
  have hw := h.writeIndex
  obtain ⟨s', vs, taken, rest, j, rfl, hwalk, hsame, hlink, hend, hcap', hj, hpos, hreads⟩ :=
    readWalk_spec fuel s front back s.readIndex n h.linked h.sized h.nodup h.back_ne h.endNode
      h.readIndex (by rw [Nat.mul_succ]; omega) hfuel
  have hperm : (rest ++ (back ++ taken)).Perm (taken ++ rest ++ back) := by
    rw [← List.append_assoc, List.append_assoc taken]
    exact List.perm_append_comm
  rw [List.length_append, Nat.mul_add] at hdata
  refine ⟨s', vs, _, j, rest, back ++ taken, by rw [h.readNode]; exact hwalk, hsame.dataSize,
    hsame.bytes, ?_, ?_, ?_⟩
  · rw [hreads, window, List.take_take, min_eq_left hn]
  · exact
      { pos := by simp only [consumed, setRead]; rw [hsame.baseSize]; exact h.pos
        nodup := hperm.nodup_iff.mpr h.nodup
        linked := hlink
        sized := by
          simp only [consumed, setRead]
          rw [hsame.baseSize]
          exact hsame.bytes.sized fun p hp => h.sized p (hperm.mem_iff.mp hp)
        below := fun p hp => hsame.bytes.brk ▸ h.below p (hperm.mem_iff.mp hp)
        back_ne := by simp [h.back_ne]
        readNode := rfl
        writeNode := by
          simp only [consumed, setRead]
          rw [hsame.writeNode, h.writeNode]
          obtain ⟨z, zs, rfl⟩ := List.exists_cons_of_ne_nil h.back_ne
          rfl
        endNode := hend
        readIndex := by simp only [consumed, setRead]; rw [hsame.baseSize]; exact hj
        writeIndex := by
          simp only [consumed, setRead]; rw [hsame.baseSize, hsame.writeIndex]; exact hw
        dataSize := by
          simp only [consumed, setRead]
          rw [hsame.baseSize, hsame.writeIndex, hsame.dataSize]; omega
        capacity := by
          simp only [consumed, setRead]
          rw [hsame.baseSize, hsame.writeIndex, hcap', List.length_append, Nat.mul_add]; omega }
  · -- rotating the consumed nodes to the tail moves the tape under the cursor
    have hlent : (s.heap.flat taken).length = s.baseSize * taken.length :=
      Sized.length_flat fun p hp => h.sized p (by simp [hp])
    have hlenr : (s.heap.flat (rest ++ back)).length
        = s.baseSize * rest.length + s.baseSize * back.length := by
      rw [Sized.length_flat fun p hp => h.sized p (by
        simp only [List.mem_append] at hp ⊢; tauto), List.length_append, Nat.mul_add]
    have htape : s.heap.flat (taken ++ rest ++ back)
        = s.heap.flat taken ++ s.heap.flat (rest ++ back) := by
      rw [List.append_assoc, flat_append]
    simp only [window, consumed, setRead]
    rw [hsame.dataSize, hsame.bytes.flat, ← List.append_assoc, flat_append _ (rest ++ back),
      List.drop_take, List.drop_drop, hpos, htape, ← hlent, List.drop_length_add_append,
      List.drop_append_of_le_length (by omega),
      List.take_append_of_le_length (by rw [List.length_drop]; omega)]

/-- `read(buf, n)` delivers and removes the oldest `min(n, m_data_size)` bytes. -/
theorem read_spec {s : ByteArray} {front back : List Addr} (h : Rep s front back) {n : Nat}
    (hn : n ≤ intMax) :
    ∃ s' front' back', s.read true n
        = some (s', min n s.dataSize, (window s (front ++ back)).take n) ∧
      Rep s' front' back' ∧
      window s' (front' ++ back') = (window s (front ++ back)).drop n := by
  have hlen := h.length_window
  have hsize : (if toSizeT (n : Int) < s.dataSize then (n : Int) else toInt s.dataSize)
      = (min n s.dataSize : Nat) := by
    rw [toSizeT_ofNat hn]
    split
    · rw [min_eq_left (by omega)]
    · rw [toInt_ofNat (by omega), min_eq_right (by omega)]
  obtain ⟨s', vs, q, j, front', back', hwalk, -, -, hreads, hrep, hwin⟩ :=
    h.consume (min_le_right n s.dataSize) (min n s.dataSize + 1) (by omega)
  have hloop := readLoop_of_walk _ s _ 0 [] hwalk hreads
  refine ⟨s'.consumed q j (min n s.dataSize), front', back', ?_, hrep, ?_⟩
  · rw [read, hsize]
    simp only [Option.bind_eq_bind, Int.toNat_natCast, hloop, Option.bind_some, Nat.zero_add,
      List.nil_append]
    have htake : (window s (front ++ back)).take (min n s.dataSize)
        = (window s (front ++ back)).take n := by
      rw [← hlen, ← List.take_eq_take_min]
    rw [htake]
    rfl
  · rw [hwin, ← hlen, ← List.drop_eq_drop_min]

/-- `getReadBuffers(v, n, true)` delivers and removes the same bytes. -/
theorem drainBuffers_spec {s : ByteArray} {front back : List Addr} (h : Rep s front back)
    (n : Nat) :
    ∃ s' vs front' back', s.getReadBuffers n true = some (s', vs, min n s.dataSize) ∧
      readIovecs s'.heap vs = some ((window s (front ++ back)).take n) ∧ Rep s' front' back' ∧
      window s' (front' ++ back') = (window s (front ++ back)).drop n := by
  have hlen := h.length_window
  have hsize := min_def_lt n s.dataSize
  obtain ⟨s', vs, q, j, front', back', hwalk, -, hbytes, hreads, hrep, hwin⟩ :=
    h.consume (min_le_right n s.dataSize) (min n s.dataSize + 1) (by omega)
  refine ⟨s'.consumed q j (min n s.dataSize), vs, front', back', ?_, ?_, hrep, ?_⟩
  · simp [getReadBuffers, ← hsize, hwalk, consumed, setRead]
  · rw [show (s'.consumed q j (min n s.dataSize)).heap = s'.heap from rfl,
      readIovecs_congr hbytes, hreads, ← hlen, ← List.take_eq_take_min]
  · rw [hwin, ← hlen, ← List.drop_eq_drop_min]

/-- `getReadBuffers` without `is_update` shows the oldest bytes, and changes nothing. -/
theorem Rep.peek_eq {s : ByteArray} {front back : List Addr} (h : Rep s front back) (n : Nat) :
    ∃ vs, s.getReadBuffers n false = some (s, vs, min n s.dataSize) ∧
      readIovecs s.heap vs = some ((window s (front ++ back)).take n) := by
  have hfits := h.fits
  have hcap := h.capacity_pos
  have hlen := h.length_window
  have hsize := min_def_lt n s.dataSize
  obtain ⟨vs, q, hwalk, hreads⟩ := readWalk_peek (min n s.dataSize + 1) s (front ++ back)
    s.readIndex (min n s.dataSize) h.linked h.sized h.readIndex
    (by rw [← h.sized.length_flat]; omega) (by omega)
  rw [← h.readNode] at hwalk
  refine ⟨vs, ?_, ?_⟩
  · simp [getReadBuffers, ← hsize, hwalk]
  · have hpart : (window s (front ++ back)).take n
        = ((s.heap.flat (front ++ back)).drop s.readIndex).take (min n s.dataSize) := by
      rw [window, List.take_take]
    rw [hpart]
    exact hreads

/-- All unread bytes, through `getReadBuffers` without `is_update`. -/
def unread (s : ByteArray) : Option (List UInt8) := do
  let (s, vs, _) ← s.getReadBuffers s.dataSize false
  readIovecs s.heap vs

theorem Rep.unread_eq {s : ByteArray} {front back : List Addr} (h : Rep s front back) :
    unread s = some (window s (front ++ back)) := by
  obtain ⟨vs, hget, hreads⟩ := h.peek_eq s.dataSize
  rw [List.take_of_length_le h.length_window.le] at hreads
  simp only [unread, Option.bind_eq_bind, hget, Option.bind_some, hreads]

/-! ## Whole runs -/

/-- The operations of a run.  `fillWriteBuffers bs` is `getWriteBuffers(v, |bs|,
true)` followed by filling the iovecs with `bs`; `drainReadBuffers n` is
`getReadBuffers(v, n, true)` followed by reading the iovecs. -/
inductive Op where
  | write (buf : List UInt8) (n : Nat)
  | read (n : Nat)
  | fillWriteBuffers (bs : List UInt8)
  | drainReadBuffers (n : Nat)
  | updateCapacity (n : Nat)

/-- An `int` count is not negative and `buf` holds that many bytes. -/
def Op.InRange : Op → Prop
  | .write buf n => n ≤ intMax ∧ n ≤ buf.length
  | .read n => n ≤ intMax
  | _ => True

/-- One operation: the new state, the returned count and the bytes delivered. -/
def Op.exec (s : ByteArray) : Op → Option (ByteArray × Nat × List UInt8)
  | .write buf n => do
      let (s, w) ← s.write (some buf) n
      some (s, w, [])
  | .read n => s.read true n
  | .fillWriteBuffers bs => do
      let (s, vs, w) ← s.getWriteBuffers bs.length true
      let h ← fillIovecs s.heap vs bs
      some ({ s with heap := h }, w, [])
  | .drainReadBuffers n => do
      let (s, vs, r) ← s.getReadBuffers n true
      let out ← readIovecs s.heap vs
      some (s, r, out)
  | .updateCapacity n => do
      let s ← s.updateCapacity n
      some (s, 0, [])

/-- The same operation on a queue. -/
def Op.request : Op → Request UInt8
  | .write buf n => ⟨0, buf.take n⟩
  | .read n => ⟨n, []⟩
  | .fillWriteBuffers bs => ⟨0, bs⟩
  | .drainReadBuffers n => ⟨n, []⟩
  | .updateCapacity _ => ⟨0, []⟩

/-- What a FIFO byte queue answers: the count of bytes moved and the bytes
delivered. -/
def fifo (q : List UInt8) (op : Op) : List UInt8 × Nat × List UInt8 :=
  let (q', out) := Fifo.step q op.request
  (q', op.request.push.length + out.length, out)

/-- The buffer `s` holds the queue `q`. -/
def Holds (s : ByteArray) (q : List UInt8) : Prop :=
  ∃ front back, Rep s front back ∧ window s (front ++ back) = q

theorem Holds.dataSize {s : ByteArray} {q : List UInt8} (h : Holds s q) :
    s.dataSize = q.length := by
  obtain ⟨front, back, hrep, rfl⟩ := h
  exact hrep.length_window.symm

/-- One operation answers as the queue does. -/
theorem exec_refines {s : ByteArray} {q : List UInt8} {op : Op} (h : Holds s q)
    (hop : op.InRange) :
    ∃ s', op.exec s = some (s', (fifo q op).2) ∧ Holds s' (fifo q op).1 := by
  have hsize := h.dataSize
  obtain ⟨front, back, hrep, rfl⟩ := h
  cases op with
  | write buf n =>
      obtain ⟨s', front', back', hw, hrep', hwin⟩ := write_spec hrep hop.1 hop.2
      refine ⟨s', ?_, front', back', hrep', by simp [fifo, Fifo.step, Op.request, hwin]⟩
      simp [Op.exec, hw, fifo, Fifo.step, Op.request, hop.2]
  | read n =>
      obtain ⟨s', front', back', hr, hrep', hwin⟩ := read_spec hrep hop
      refine ⟨s', ?_, front', back', hrep', by simp [fifo, Fifo.step, Op.request, hwin]⟩
      simp [Op.exec, hr, fifo, Fifo.step, Op.request, hsize]
  | fillWriteBuffers bs =>
      obtain ⟨s', vs, g, front', back', hw, hfill, hrep', hwin⟩ := fillBuffers_spec hrep bs
      refine ⟨{ s' with heap := g }, ?_, front', back', hrep',
        by simp [fifo, Fifo.step, Op.request, hwin]⟩
      simp [Op.exec, hw, hfill, fifo, Fifo.step, Op.request]
  | drainReadBuffers n =>
      obtain ⟨s', vs, front', back', hr, hread, hrep', hwin⟩ := drainBuffers_spec hrep n
      refine ⟨s', ?_, front', back', hrep', by simp [fifo, Fifo.step, Op.request, hwin]⟩
      simp [Op.exec, hr, hread, fifo, Fifo.step, Op.request, hsize]
  | updateCapacity n =>
      obtain ⟨s', extra, hg, hrep', -, -, hwin⟩ := updateCapacity_spec hrep n
      refine ⟨s', ?_, front, back ++ extra, hrep', by simp [fifo, Fifo.step, Op.request, hwin]⟩
      simp [Op.exec, hg, fifo, Fifo.step, Op.request]

/-- The answers of the queue are those of the generic one, with counts added. -/
theorem answers_fifo (ops : List Op) (q : List UInt8) :
    (answers fifo q ops).1 = (Fifo.run q (ops.map Op.request)).1 ∧
    (answers fifo q ops).2.map Prod.snd = (Fifo.run q (ops.map Op.request)).2 := by
  induction ops generalizing q with
  | nil => exact ⟨rfl, rfl⟩
  | cons op ops ih =>
      obtain ⟨ih₁, ih₂⟩ := ih (Fifo.step q op.request).1
      exact ⟨ih₁, congrArg ((Fifo.step q op.request).2 :: ·) ih₂⟩

/-- **A `ByteArray` is a FIFO byte queue.**  Whatever operations run from the
constructor, none of them faults, every one returns and delivers what the queue
does, the unread bytes are the queue's, `m_data_size` is what was appended minus
what was consumed, and what was delivered followed by what is unread is what
was appended. -/
theorem run_refines_fifo (fresh : Addr → Nat → UInt8) {b : Nat} (hb : 1 ≤ b) (cap : Nat)
    (ops : List Op) (hops : ∀ op ∈ ops, op.InRange) :
    ∃ s₀ s, create fresh b cap = some s₀ ∧
      runOut Op.exec s₀ ops = some (s, (answers fifo [] ops).2) ∧
      unread s = some (answers fifo [] ops).1 ∧
      s.dataSize + ((answers fifo [] ops).2.flatMap Prod.snd).length
        = (ops.flatMap fun op => op.request.push).length ∧
      (answers fifo [] ops).2.flatMap Prod.snd ++ (answers fifo [] ops).1
        = ops.flatMap fun op => op.request.push := by
  obtain ⟨s₀, front, back, hcreate, hrep, hwin⟩ := create_spec fresh hb cap
  obtain ⟨s, hrun, hholds⟩ :=
    runOut_refines (R := Holds) (P := Op.InRange) (fun s t a => exec_refines) ops s₀ []
      ⟨front, back, hrep, hwin⟩ hops
  have hcons : (answers fifo [] ops).2.flatMap Prod.snd ++ (answers fifo [] ops).1
      = ops.flatMap fun op => op.request.push := by
    obtain ⟨hq, hout⟩ := answers_fifo ops []
    rw [List.flatMap_def, hq, hout, Fifo.run_conserves, List.flatMap_map]
    rfl
  have hsize := hholds.dataSize
  obtain ⟨front', back', hrep', hwin'⟩ := hholds
  refine ⟨s₀, s, hcreate, hrun, by rw [hrep'.unread_eq, hwin'], ?_, hcons⟩
  rw [← hcons, List.length_append, hsize, Nat.add_comm]

/-- A run over cells of four bytes in which the first cell is consumed, moved to
the tail and written again. -/
def recycling : List Op :=
  [.write [1, 2, 3, 4, 5] 5, .read 4, .fillWriteBuffers [6, 7], .updateCapacity 6,
    .drainReadBuffers 9, .write [8, 9, 10] 2, .read 1]

theorem run_refines_fifo_recycling :
    ∃ s₀ s, create (fun _ _ => 0) 4 0 = some s₀ ∧
      runOut Op.exec s₀ recycling
        = some (s, [(5, []), (4, [1, 2, 3, 4]), (2, []), (0, []), (3, [5, 6, 7]), (2, []),
            (1, [8])]) ∧
      unread s = some [9] := by
  have hops : ∀ op ∈ recycling, op.InRange := by
    simp [recycling, Op.InRange, intMax]
  obtain ⟨s₀, s, hcreate, hrun, hunread, -, -⟩ :=
    run_refines_fifo (fun _ _ => 0) (b := 4) (by decide) 0 recycling hops
  exact ⟨s₀, s, hcreate, hrun, hunread⟩

end CoLib.ByteArray
