/-
# `CoLib.ByteArray.Cursor` — walking the write and the read cursor

`getWriteBuffers` and `getReadBuffers` walk a cursor over the nodes and record
the pieces of memory they pass.  `writeWalk_spec` and `readWalk_spec` say where
the cursor ends and what the recorded pieces are on the tape: filling them in
order is one `splice`, reading them in order is one window.

`write` and `read` walk the same way and copy as they go.  `Way.writeLoop_eq` and
`readLoop_of_walk` reduce them to the walk followed by the copy, so the copying
and the zero-copy operations share one analysis.
-/
import CoLib.ByteArray.Tape
import Mathlib

namespace CoLib.ByteArray

open Lib Heap

/-! ## The write cursor -/

@[simp] theorem writeWalk_zero (h : Heap) (b fuel : Nat) (p : Option Addr) (i : Nat) :
    writeWalk h b fuel p i 0 = some ([], p, i) := by
  cases fuel <;> simp [writeWalk]

/-- Filling `vs` in order overwrites the tape of `ps` from `i` on, whatever the
nodes contain. -/
def Fills (h : Heap) (ps : List Addr) (i size : Nat) (vs : List Iovec) : Prop :=
  ∀ g bs, SameShape h g → bs.length = size →
    ∃ g', fillIovecs g vs bs = some g' ∧ SameShape g g' ∧
      g'.flat ps = splice (g.flat ps) i bs ∧ ∀ q, q ∉ ps → g'.bytes q = g.bytes q

theorem fills_nil (h : Heap) (ps : List Addr) (i : Nat) : Fills h ps i 0 [] := by
  intro g bs _ hlen
  obtain rfl := List.length_eq_zero_iff.mp hlen
  exact ⟨g, rfl, SameShape.refl g, by simp, fun _ _ => rfl⟩

section Fill

variable {b : Nat} {h : Heap} {w : Addr} {ps : List Addr}

/-- A request that ends inside the node it starts in. -/
theorem fills_inside (hs : Sized b h (w :: ps)) (hw : w ∉ ps) {i size : Nat}
    (hlen : i + size ≤ b) : Fills h (w :: ps) i size [⟨w, i, size⟩] := by
  intro g bs hg hbs
  obtain ⟨nd, hnd, -, hsz⟩ := (hg.sized hs) w (by simp)
  have hfit : i + bs.length ≤ nd.ptr.length := by rw [hbs, hsz]; exact hlen
  obtain ⟨g', hst, hshape, hbytes, hframe⟩ := store_spec hnd hfit
  refine ⟨g', by simp [fillIovecs, ← hbs, hst], hshape, ?_, ?_⟩
  · rw [flat_cons, flat_cons, hbytes, flat_congr fun p hp => hframe p ?_]
    · exact (splice_append_left (by rw [(hg.sized hs).length_bytes (by simp)]; omega)).symm
    · rintro rfl; exact hw hp
  · intro q hq
    exact hframe q (by rintro rfl; simp at hq)

/-- A request that fills the first node up and goes on in the next ones. -/
theorem fills_across (hs : Sized b h (w :: ps)) (hw : w ∉ ps) {i size : Nat}
    (hi : i ≤ b) (hsize : b - i ≤ size) {vs : List Iovec}
    (hvs : Fills h ps 0 (size - (b - i)) vs) :
    Fills h (w :: ps) i size (⟨w, i, b - i⟩ :: vs) := by
  intro g bs hg hbs
  obtain ⟨nd, hnd, -, hsz⟩ := (hg.sized hs) w (by simp)
  have htake : (bs.take (b - i)).length = b - i := by simp; omega
  have hfit : i + (bs.take (b - i)).length ≤ nd.ptr.length := by omega
  obtain ⟨g₁, hst, hshape₁, hbytes₁, hframe₁⟩ := store_spec hnd hfit
  obtain ⟨g', hfill, hshape', hflat', hframe'⟩ :=
    hvs g₁ (bs.drop (b - i)) (hg.trans hshape₁) (by simp; omega)
  have hps : g₁.flat ps = g.flat ps :=
    flat_congr fun p hp => hframe₁ p (by rintro rfl; exact hw hp)
  refine ⟨g', by simp [fillIovecs, hst, hfill], hshape₁.trans hshape', ?_, ?_⟩
  · have hcross : i + (bs.take (b - i)).length = (g.bytes w).length := by
      rw [(hg.sized hs).length_bytes (by simp)]; omega
    rw [flat_cons, flat_cons, hframe' w hw, hbytes₁, hflat', hps,
      ← splice_across hcross, List.take_append_drop]
  · intro q hq
    simp only [List.mem_cons, not_or] at hq
    rw [hframe' q hq.2, hframe₁ q hq.1]

end Fill

/-- The walk of the write cursor: it stops at position `i + size` of the tape
and the recorded pieces cover what lies between. -/
theorem writeWalk_spec {b : Nat} {h : Heap} : ∀ (fuel : Nat) (ps : List Addr) (i size : Nat),
    Linked h.next ps → Sized b h ps → ps.Nodup → i < b → i + size < b * ps.length →
    size ≤ fuel →
    ∃ vs moved rest j, ps = moved ++ rest ∧ rest ≠ [] ∧
      writeWalk h b fuel ps.head? i size = some (vs, rest.head?, j) ∧
      j < b ∧ i + size = b * moved.length + j ∧ Fills h ps i size vs := by
  intro fuel
  induction fuel with
  | zero =>
      intro ps i size _ _ _ hi hroom hfuel
      obtain rfl : size = 0 := by omega
      refine ⟨[], [], ps, i, rfl, ?_, by simp, hi, by simp, fills_nil h ps i⟩
      rintro rfl; simp at hroom
  | succ fuel ih =>
      intro ps i size hlink hs nd hi hroom hfuel
      obtain _ | ⟨w, ps⟩ := ps
      · simp at hroom
      obtain ⟨hw, nd'⟩ := List.nodup_cons.mp nd
      obtain rfl | hpos := Nat.eq_zero_or_pos size
      · exact ⟨[], [], w :: ps, i, rfl, by simp, by simp, hi, by simp, fills_nil h _ i⟩
      obtain ⟨node, hnode, -, -⟩ := hs w (by simp)
      by_cases hin : size < b - i
      · refine ⟨[⟨w, i, size⟩], [], w :: ps, i + size, rfl, by simp, ?_, by omega, by simp,
          fills_inside hs hw (by omega)⟩
        simp [writeWalk, hpos.ne', hnode, hin]
      · -- the node is filled up: go on behind it
        have hnext : node.next = ps.head? := by simpa [next, hnode] using hlink.1
        have hroom' : 0 + (size - (b - i)) < b * ps.length := by
          rw [List.length_cons, Nat.mul_succ] at hroom; omega
        obtain ⟨vs, moved, rest, j, rfl, hrest, hwalk, hj, hpos', hvs⟩ :=
          ih ps 0 (size - (b - i)) hlink.2 (fun p hp => hs p (by simp [hp])) nd'
            (by omega) hroom' (by omega)
        refine ⟨⟨w, i, b - i⟩ :: vs, w :: moved, rest, j, rfl, hrest, ?_, hj, ?_,
          fills_across hs hw hi.le (by omega) hvs⟩
        · simp only [writeWalk, hpos.ne', if_false, List.head?_cons, Option.bind_eq_bind,
            Option.bind_some, hnode, hin, hnext, hwalk]
        · rw [List.length_cons, Nat.mul_succ]; omega

/-- The way of the write cursor over `size` bytes, with the pieces it passes: there is
nothing to pass; or it ends inside the node; or it fills the node up and goes on behind. -/
inductive Way (h : Heap) (b : Nat) :
    Nat → Option Addr → Nat → Nat → List Iovec → Option Addr → Nat → Prop
  | done (fuel : Nat) (p : Option Addr) (i : Nat) : Way h b fuel p i 0 [] p i
  | inside (fuel : Nat) {w : Addr} {nd : Node} {i size : Nat} : 0 < size → size < b - i →
      h.node w = some nd → Way h b (fuel + 1) (some w) i size [⟨w, i, size⟩] (some w) (i + size)
  | across {fuel : Nat} {w : Addr} {nd : Node} {i size : Nat} {vs : List Iovec} {q : Option Addr}
      {j : Nat} : 0 < size → b - i ≤ size → h.node w = some nd →
      Way h b fuel nd.next 0 (size - (b - i)) vs q j →
      Way h b (fuel + 1) (some w) i size (⟨w, i, b - i⟩ :: vs) q j

theorem way_of_writeWalk {h : Heap} {b : Nat} : ∀ {fuel : Nat} {p : Option Addr} {i size : Nat}
    {vs : List Iovec} {q : Option Addr} {j : Nat},
    writeWalk h b fuel p i size = some (vs, q, j) → Way h b fuel p i size vs q j := by
  intro fuel
  induction fuel with
  | zero =>
      intro p i size vs q j hwalk
      obtain rfl | hpos := Nat.eq_zero_or_pos size
      · cases hwalk
        exact .done 0 p i
      · simp [writeWalk, hpos.ne'] at hwalk
  | succ fuel ih =>
      intro p i size vs q j hwalk
      obtain rfl | hpos := Nat.eq_zero_or_pos size
      · cases hwalk
        exact .done (fuel + 1) p i
      simp only [writeWalk, hpos.ne', if_false, Option.bind_eq_bind] at hwalk
      obtain ⟨w, rfl, hwalk⟩ := Option.bind_eq_some_iff.mp hwalk
      obtain ⟨nd, hnd, hwalk⟩ := Option.bind_eq_some_iff.mp hwalk
      split at hwalk
      · rename_i hin
        rw [writeWalk_zero] at hwalk
        cases hwalk
        exact .inside fuel hpos hin hnd
      · rename_i hin
        obtain ⟨⟨vs', q', j'⟩, hrest, heq⟩ := Option.bind_eq_some_iff.mp hwalk
        cases heq
        exact .across hpos (Nat.le_of_not_lt hin) hnd (ih hrest)

/-- A way that has run off the list does not come back. -/
theorem Way.of_null {h : Heap} {b fuel i size : Nat} {vs : List Iovec} {q : Option Addr} {j : Nat}
    (hway : Way h b fuel none i size vs q j) : q = none := by
  cases hway with
  | done => rfl

@[simp] theorem writeLoop_zero (buf : Option (List UInt8)) (fuel : Nat) (s : ByteArray)
    (wSize : Nat) : writeLoop buf fuel s 0 wSize = some (s, wSize) := by
  cases fuel <;> simp [writeLoop]

/-- What the rounds of `write` copy together; `buf` null copies nothing. -/
def copyAll (h : Heap) (vs : List Iovec) (buf : Option (List UInt8)) (wSize size : Nat) :
    Option Heap :=
  match buf with
  | none => some h
  | some bs => fillIovecs h vs ((bs.drop wSize).take size)

theorem copyIn_shape {h h' : Heap} {w : Addr} {i wSize len : Nat} {buf : Option (List UInt8)}
    (hcopy : copyIn h w i buf wSize len = some h') : SameShape h h' := by
  cases buf with
  | none =>
      obtain rfl := Option.some.inj hcopy
      exact SameShape.refl h
  | some bs => exact .of_store hcopy

/-- The copy of the last round. -/
theorem copyAll_last {h : Heap} {w : Addr} {i size : Nat} (buf : Option (List UInt8))
    (wSize : Nat) : copyAll h [⟨w, i, size⟩] buf wSize size = copyIn h w i buf wSize size := by
  cases buf with
  | none => rfl
  | some bs =>
      rw [copyAll, copyIn, fillIovecs, List.take_take, min_self]
      exact Option.bind_fun_some _

/-- The copy of a round, and those of the rounds after it. -/
theorem copyAll_cons {h : Heap} {w : Addr} {i size len : Nat} {vs : List Iovec}
    (hlen : len ≤ size) (buf : Option (List UInt8)) (wSize : Nat) :
    copyAll h (⟨w, i, len⟩ :: vs) buf wSize size =
      (copyIn h w i buf wSize len).bind fun g => copyAll g vs buf (wSize + len) (size - len) := by
  cases buf with
  | none => rfl
  | some bs =>
      simp only [copyAll, copyIn, fillIovecs, List.take_take, min_eq_left hlen, List.drop_take,
        List.drop_drop]

/-- `write` walks as `getWriteBuffers` does, and copies what filling its iovecs would. -/
theorem Way.writeLoop_eq {h : Heap} {buf : Option (List UInt8)} {b fuel i size : Nat}
    {p q : Option Addr} {vs : List Iovec} {j : Nat} (hway : Way h b fuel p i size vs q j) :
    q ≠ none → ∀ {s : ByteArray} {wSize : Nat} {h' : Heap}, SameShape h s.heap →
      s.baseSize = b → s.writeNode = p → s.writeIndex = i →
      copyAll s.heap vs buf wSize size = some h' →
      writeLoop buf fuel s size wSize =
        some ({ s with heap := h', writeNode := q, writeIndex := j }, wSize + size) := by
  induction hway with
  | done fuel p i =>
      rintro - s wSize h' - - rfl rfl hcopy
      obtain rfl : s.heap = h' := by
        cases buf with
        | none => exact Option.some.inj hcopy
        | some bs => exact Option.some.inj hcopy
      exact writeLoop_zero buf fuel s wSize
  | inside fuel hpos hin hnd =>
      rintro - s wSize h' - rfl hnode rfl hcopy
      rw [copyAll_last] at hcopy
      simp only [writeLoop, hpos.ne', if_false, Option.bind_eq_bind, hnode, Option.bind_some, hin,
        if_true, hcopy, writeLoop_zero]
  | @across fuel w nd i size vs q j hpos hle hnd hway ih =>
      rintro hq s wSize h' hshape rfl hnode rfl hcopy
      rw [copyAll_cons hle] at hcopy
      obtain ⟨g, hg, hcopy⟩ := Option.bind_eq_some_iff.mp hcopy
      have hshape' : SameShape h g := hshape.trans (copyIn_shape hg)
      -- the next node is where it was
      obtain ⟨nx, hnx⟩ : ∃ nx, nd.next = some nx := by
        cases hn : nd.next with
        | none => exact absurd (hn ▸ hway).of_null hq
        | some nx => exact ⟨nx, rfl⟩
      have hnext : (g.node w).bind Node.next = some nx := by
        have hsame := hshape'.next w
        rwa [next, next, hnd, Option.bind_some, hnx] at hsame
      obtain ⟨nd', hnd', hnx'⟩ := Option.bind_eq_some_iff.mp hnext
      have hloop := ih hq (s := { s with heap := g, writeIndex := 0, writeNode := some nx })
        hshape' rfl hnx.symm rfl hcopy
      have hsum : wSize + (s.baseSize - s.writeIndex) + (size - (s.baseSize - s.writeIndex))
          = wSize + size := by omega
      simp only [writeLoop, hpos.ne', if_false, Option.bind_eq_bind, hnode, Option.bind_some,
        hle.not_gt, hg, hnd', hnx', hloop, hsum]

/-- The whole loop of `write`, from a walk over the nodes; `g` has the same nodes. -/
theorem writeLoop_of_walk (buf : Option (List UInt8)) {s : ByteArray} {fuel size : Nat}
    {vs : List Iovec} {q : Addr} {j : Nat} {g h' : Heap}
    (hwalk : writeWalk s.heap s.baseSize fuel s.writeNode s.writeIndex size = some (vs, some q, j))
    (hg : SameShape s.heap g) (hcopy : copyAll g vs buf 0 size = some h') :
    writeLoop buf fuel { s with heap := g } size 0 =
      some ({ s with heap := h', writeNode := some q, writeIndex := j }, size) := by
  have hloop := (way_of_writeWalk hwalk).writeLoop_eq (Option.some_ne_none q)
    (s := { s with heap := g }) hg rfl rfl rfl hcopy
  rwa [Nat.zero_add] at hloop

/-! ## The read cursor -/

@[simp] theorem readWalk_zero (u : Bool) (fuel : Nat) (s : ByteArray) (p : Option Addr)
    (i : Nat) : readWalk u fuel s p i 0 = some (s, [], p, i) := by
  cases fuel <;> simp [readWalk]

theorem readIovecs_congr {h h' : Heap} (hs : SameBytes h h') :
    ∀ vs, readIovecs h' vs = readIovecs h vs
  | [] => rfl
  | v :: vs => by simp [readIovecs, hs.load, readIovecs_congr hs vs]

/-- Reading `vs` in order gives the window of the tape of `ps` from `i` on. -/
def Reads (h : Heap) (ps : List Addr) (i size : Nat) (vs : List Iovec) : Prop :=
  readIovecs h vs = some (((h.flat ps).drop i).take size)

section Window

variable {b : Nat} {h : Heap} {r : Addr} {ps : List Addr}

theorem reads_inside (hs : Sized b h (r :: ps)) {i size : Nat} (hlen : i + size ≤ b) :
    Reads h (r :: ps) i size [⟨r, i, size⟩] := by
  obtain ⟨nd, hnd, -, hsz⟩ := hs r (by simp)
  have hb := hs.length_bytes (p := r) (by simp)
  simp only [Reads, readIovecs, load_spec hnd (hsz.symm ▸ hlen), flat_cons]
  rw [List.drop_append_of_le_length (by omega),
    List.take_append_of_le_length (by rw [List.length_drop]; omega)]
  simp

theorem reads_across (hs : Sized b h (r :: ps)) {i size : Nat} (hi : i ≤ b)
    (hsize : b - i ≤ size) {vs : List Iovec} (hvs : Reads h ps 0 (size - (b - i)) vs) :
    Reads h (r :: ps) i size (⟨r, i, b - i⟩ :: vs) := by
  obtain ⟨nd, hnd, -, hsz⟩ := hs r (by simp)
  have hb := hs.length_bytes (p := r) (by simp)
  have hdrop : ((h.bytes r).drop i).length = b - i := by simp [hb]
  simp only [Reads, readIovecs, load_spec hnd (show i + (b - i) ≤ nd.ptr.length by omega)] at hvs ⊢
  rw [hvs, flat_cons, List.drop_append_of_le_length (by omega), List.take_append, hdrop,
    List.take_of_length_le (hdrop.le.trans hsize), List.take_of_length_le hdrop.le]
  simp

/-- A read that ends in the nodes `ps` does not depend on the nodes behind them. -/
theorem Reads.front {h' : Heap} {qs : List Addr} {size : Nat} {vs : List Iovec}
    (hsame : SameBytes h h') (hs : Sized b h ps) (hfit : size ≤ b * ps.length)
    (hvs : Reads h' (ps ++ qs) 0 size vs) : Reads h ps 0 size vs := by
  have hlen := hs.length_flat
  unfold Reads at hvs ⊢
  rw [← readIovecs_congr hsame, hvs, hsame.flat, flat_append, List.drop_zero, List.drop_zero,
    List.take_append_of_le_length (hlen.symm ▸ hfit)]

end Window

/-- What `deallocNode` and the read walk leave alone. -/
structure SameCursors (s s' : ByteArray) : Prop where
  baseSize : s'.baseSize = s.baseSize
  dataSize : s'.dataSize = s.dataSize
  writeIndex : s'.writeIndex = s.writeIndex
  writeNode : s'.writeNode = s.writeNode
  readIndex : s'.readIndex = s.readIndex
  readNode : s'.readNode = s.readNode
  bytes : SameBytes s.heap s'.heap

theorem SameCursors.refl (s : ByteArray) : SameCursors s s :=
  ⟨rfl, rfl, rfl, rfl, rfl, rfl, SameBytes.refl _⟩

theorem SameCursors.trans {s s' s'' : ByteArray} (h : SameCursors s s')
    (h' : SameCursors s' s'') : SameCursors s s'' :=
  ⟨h'.baseSize.trans h.baseSize, h'.dataSize.trans h.dataSize,
    h'.writeIndex.trans h.writeIndex, h'.writeNode.trans h.writeNode,
    h'.readIndex.trans h.readIndex, h'.readNode.trans h.readNode, h.bytes.trans h'.bytes⟩

/-- The first node of the list goes to its tail. -/
theorem deallocNode_spec {s : ByteArray} {r : Addr} {ps : List Addr}
    (hlink : Linked s.heap.next (r :: ps)) (hs : Sized s.baseSize s.heap (r :: ps))
    (nd : (r :: ps).Nodup) (hne : ps ≠ []) (hend : s.endNode = ps.getLast?) :
    ∃ s', deallocNode s r = some s' ∧ SameCursors s s' ∧
      Linked s'.heap.next (ps ++ [r]) ∧ s'.endNode = some r ∧
      s'.capacity = s.capacity + s.baseSize := by
  obtain ⟨node, hnode, -, -⟩ := hs r (by simp)
  obtain ⟨z, hz⟩ : ∃ z, ps.getLast? = some z := by
    cases hl : ps.getLast? with
    | none => exact absurd (List.getLast?_eq_none_iff.mp hl) hne
    | some z => exact ⟨z, rfl⟩
  have hzps : z ∈ ps := List.mem_of_getLast? hz
  have hzr : z ≠ r := by rintro rfl; exact (List.nodup_cons.mp nd).1 hzps
  obtain ⟨h₁, hset₁, hbytes₁, hnext₁, hframe₁⟩ := setNext_spec none hnode
  obtain ⟨zn, hzn, -, -⟩ := (hbytes₁.sized hs) z (by simp [hzps])
  obtain ⟨h₂, hset₂, hbytes₂, hnext₂, hframe₂⟩ := setNext_spec (some r) hzn
  obtain ⟨rn, hrn, hsize, -⟩ := ((hbytes₁.trans hbytes₂).sized hs) r (by simp)
  refine ⟨{ s with heap := h₂, endNode := some r, capacity := s.capacity + rn.size }, ?_,
    ⟨rfl, rfl, rfl, rfl, rfl, rfl, hbytes₁.trans hbytes₂⟩, ?_, rfl, by rw [hsize]⟩
  · simp [deallocNode, hset₁, hend, hz, hset₂, hrn]
  · refine hlink.rotate nd hz (fun p hp hpz => ?_) hnext₂ ?_
    · rw [hframe₂ p hpz, hframe₁ p (by rintro rfl; exact (List.nodup_cons.mp nd).1 hp)]
    · rw [hframe₂ r hzr.symm, hnext₁]

/-- The walk of the read cursor with `is_update`: it stops at position `i + size`
of the tape, the nodes before it have gone to the tail, and the recorded pieces
are what lies between. -/
theorem readWalk_spec : ∀ (fuel : Nat) (s : ByteArray) (front back : List Addr) (i size : Nat),
    Linked s.heap.next (front ++ back) → Sized s.baseSize s.heap (front ++ back) →
    (front ++ back).Nodup → back ≠ [] → s.endNode = back.getLast? → i < s.baseSize →
    i + size < s.baseSize * (front.length + 1) → size ≤ fuel →
    ∃ s' vs taken rest j, front = taken ++ rest ∧
      readWalk true fuel s (front ++ back).head? i size
        = some (s', vs, (rest ++ (back ++ taken)).head?, j) ∧
      SameCursors s s' ∧ Linked s'.heap.next (rest ++ (back ++ taken)) ∧
      s'.endNode = (back ++ taken).getLast? ∧
      s'.capacity = s.capacity + s.baseSize * taken.length ∧
      j < s.baseSize ∧ i + size = s.baseSize * taken.length + j ∧
      Reads s.heap (front ++ back) i size vs := by
  intro fuel
  induction fuel with
  | zero =>
      intro s front back i size hlink hs nd hne hend hi hroom hfuel
      obtain rfl : size = 0 := by omega
      exact ⟨s, [], [], front, i, rfl, by simp, .refl s, by simpa using hlink,
        by simpa using hend, by simp, hi, by simp, by simp [Reads, readIovecs]⟩
  | succ fuel ih =>
      intro s front back i size hlink hs nd hne hend hi hroom hfuel
      obtain rfl | hpos := Nat.eq_zero_or_pos size
      · exact ⟨s, [], [], front, i, rfl, by simp, .refl s, by simpa using hlink,
          by simpa using hend, by simp, hi, by simp, by simp [Reads, readIovecs]⟩
      obtain ⟨r, ps, hps⟩ : ∃ r ps, front ++ back = r :: ps := by
        cases front with
        | nil => exact List.exists_cons_of_ne_nil hne
        | cons r front => exact ⟨r, front ++ back, rfl⟩
      rw [hps] at hlink hs nd
      obtain ⟨node, hnode, -, hsz⟩ := hs r (by simp)
      by_cases hin : size < s.baseSize - i
      · refine ⟨s, [⟨r, i, size⟩], [], front, i + size, rfl, ?_, .refl s,
          by simpa [hps] using hlink,
          by simpa using hend, by simp, by omega, by simp, hps ▸ reads_inside hs (by omega)⟩
        simp [readWalk, hpos.ne', hps, hnode, hin]
      · -- the node is read to its end, so a whole node lies before the target
        obtain _ | ⟨r', front⟩ := front
        · simp only [List.length_nil] at hroom; omega
        obtain ⟨rfl, rfl⟩ : r' = r ∧ front ++ back = ps := by simpa using hps
        have hlast : (front ++ back).getLast? = back.getLast? := by
          rw [List.getLast?_append_of_ne_nil _ hne]
        obtain ⟨s₁, hdealloc, hsame, hlink₁, hend₁, hcap₁⟩ :=
          deallocNode_spec hlink hs nd (by simp [hne]) (hend.trans hlast.symm)
        have hnext : node.next = (front ++ (back ++ [r'])).head? := by
          have hhead : node.next = (front ++ back).head? := by simpa [next, hnode] using hlink.1
          obtain ⟨z, zs, rfl⟩ := List.exists_cons_of_ne_nil hne
          rw [hhead]; cases front <;> rfl
        have hsub : ∀ p ∈ front ++ (back ++ [r']), p ∈ r' :: (front ++ back) := by
          intro p hp; simp only [List.mem_append, List.mem_cons, List.not_mem_nil] at hp ⊢; tauto
        have hs₁ : Sized s₁.baseSize s₁.heap (front ++ (back ++ [r'])) := fun p hp =>
          hsame.baseSize ▸ hsame.bytes.sized hs p (hsub p hp)
        have nd₁ : (front ++ (back ++ [r'])).Nodup := by
          rw [← List.append_assoc]
          exact (List.perm_append_singleton r' (front ++ back)).nodup_iff.mpr nd
        have hroom₁ : 0 + (size - (s.baseSize - i)) < s₁.baseSize * (front.length + 1) := by
          rw [List.length_cons, Nat.mul_succ] at hroom
          rw [hsame.baseSize]; omega
        obtain ⟨s', vs, taken, rest, j, rfl, hwalk, hsame', hlink', hend', hcap', hj, hpos', hvs⟩ :=
          ih s₁ front (back ++ [r']) 0 (size - (s.baseSize - i))
            (by rw [← List.append_assoc]; exact hlink₁) hs₁ nd₁ (by simp) (by simp [hend₁])
            (by rw [hsame.baseSize]; omega) hroom₁ (by omega)
        rw [hsame.baseSize] at hcap' hj hpos' hroom₁
        refine ⟨s', ⟨r', i, s.baseSize - i⟩ :: vs, r' :: taken, rest, j, rfl, ?_,
          hsame.trans hsame', by simpa using hlink', by simpa using hend', ?_, hj, ?_, ?_⟩
        · simp only [readWalk, hpos.ne', if_false, List.cons_append, List.head?_cons,
            Option.bind_eq_bind, Option.bind_some, hnode, hin, if_true, hdealloc, hnext, hwalk]
          simp
        · rw [hcap', hcap₁, List.length_cons, Nat.mul_succ]; omega
        · rw [List.length_cons, Nat.mul_succ]; omega
        · have hback : 0 < back.length := List.length_pos_iff.mpr hne
          have hfit : size - (s.baseSize - i) ≤ s.baseSize * (taken ++ rest ++ back).length := by
            have : s.baseSize * ((taken ++ rest).length + 1)
                ≤ s.baseSize * (taken ++ rest ++ back).length :=
              Nat.mul_le_mul_left _ (by simp only [List.length_append]; omega)
            omega
          rw [← List.append_assoc] at hvs
          exact reads_across hs hi.le (by omega)
            (hvs.front hsame.bytes (fun p hp => hs p (List.mem_cons_of_mem _ hp)) hfit)

/-- The walk of the read cursor without `is_update` changes nothing. -/
theorem readWalk_peek : ∀ (fuel : Nat) (s : ByteArray) (ps : List Addr) (i size : Nat),
    Linked s.heap.next ps → Sized s.baseSize s.heap ps → i < s.baseSize →
    i + size < s.baseSize * ps.length → size ≤ fuel →
    ∃ vs q, readWalk false fuel s ps.head? i size = some (s, vs, q) ∧
      Reads s.heap ps i size vs := by
  intro fuel
  induction fuel with
  | zero =>
      intro s ps i size _ _ _ _ hfuel
      obtain rfl : size = 0 := by omega
      exact ⟨[], _, readWalk_zero .., by simp [Reads, readIovecs]⟩
  | succ fuel ih =>
      intro s ps i size hlink hs hi hroom hfuel
      obtain _ | ⟨r, ps⟩ := ps
      · simp at hroom
      obtain rfl | hpos := Nat.eq_zero_or_pos size
      · exact ⟨[], _, readWalk_zero .., by simp [Reads, readIovecs]⟩
      obtain ⟨node, hnode, -, -⟩ := hs r (by simp)
      by_cases hin : size < s.baseSize - i
      · exact ⟨[⟨r, i, size⟩], _, by simp [readWalk, hpos.ne', hnode, hin]; rfl,
          reads_inside hs (by omega)⟩
      · have hnext : node.next = ps.head? := by simpa [next, hnode] using hlink.1
        have hroom' : 0 + (size - (s.baseSize - i)) < s.baseSize * ps.length := by
          rw [List.length_cons, Nat.mul_succ] at hroom; omega
        obtain ⟨vs, q, hwalk, hvs⟩ := ih s ps 0 (size - (s.baseSize - i)) hlink.2
          (fun p hp => hs p (by simp [hp])) (by omega) hroom' (by omega)
        refine ⟨⟨r, i, s.baseSize - i⟩ :: vs, q, ?_, reads_across hs hi.le (by omega) hvs⟩
        simp [readWalk, hpos.ne', hnode, hin, hnext, hwalk]

/-- The read cursor, moved. -/
def setRead (s : ByteArray) (p : Option Addr) (i : Nat) : ByteArray :=
  { s with readNode := p, readIndex := i }

/-- Neither `deallocNode` nor the walk looks at the cursor members. -/
theorem deallocNode_setRead (s : ByteArray) (r : Addr) (q : Option Addr) (j : Nat) :
    deallocNode (s.setRead q j) r = (deallocNode s r).map (setRead · q j) := by
  unfold deallocNode
  cases h1 : s.heap.setNext r none with
  | none => simp [setRead, h1]
  | some h =>
      cases h2 : s.endNode with
      | none => simp [setRead, h1, h2]
      | some e =>
          cases h3 : h.setNext e (some r) with
          | none => simp [setRead, h1, h2, h3]
          | some h' => cases h4 : h'.node r <;> simp [setRead, h1, h2, h3, h4]

theorem readWalk_setRead (u : Bool) (q : Option Addr) (j : Nat) :
    ∀ (fuel : Nat) (s : ByteArray) (p : Option Addr) (i size : Nat),
      readWalk u fuel (s.setRead q j) p i size
        = (readWalk u fuel s p i size).map fun x => (x.1.setRead q j, x.2) := by
  intro fuel
  induction fuel with
  | zero => intro s p i size; by_cases hz : size = 0 <;> simp [readWalk, hz]
  | succ fuel ih =>
      intro s p i size
      obtain rfl | hpos := Nat.eq_zero_or_pos size
      · simp
      obtain _ | r := p
      · simp [readWalk, hpos.ne']
      cases hnd : s.heap.node r with
      | none => simp [readWalk, hpos.ne', setRead, hnd]
      | some nd =>
          have hnd' : (s.setRead q j).heap.node r = some nd := hnd
          have hb : (s.setRead q j).baseSize = s.baseSize := rfl
          by_cases hin : size < s.baseSize - i
          · simp [readWalk, hpos.ne', hnd, hnd', hb, hin]
          · cases u with
            | false =>
                simp only [readWalk, hpos.ne', if_false, Option.bind_eq_bind, Option.bind_some,
                  hnd, hnd', hb, hin, Bool.false_eq_true, ih]
                cases readWalk false fuel s nd.next 0 (size - (s.baseSize - i)) <;> rfl
            | true =>
                simp only [readWalk, hpos.ne', if_false, Option.bind_eq_bind, Option.bind_some,
                  hnd, hnd', hb, hin, if_true, deallocNode_setRead]
                cases deallocNode s r with
                | none => rfl
                | some s₁ =>
                    simp only [Option.map_some, Option.bind_some, ih]
                    cases readWalk true fuel s₁ nd.next 0 (size - (s.baseSize - i)) <;> rfl

@[simp] theorem readLoop_zero (buf : Bool) (fuel : Nat) (s : ByteArray) (rSize : Nat)
    (out : List UInt8) : readLoop buf fuel s 0 rSize out = some (s, rSize, out) := by
  cases fuel <;> simp [readLoop]

/-- `deallocNode` relinks; it does not touch a byte. -/
theorem deallocNode_sameBytes {s s' : ByteArray} {r : Addr} (h : deallocNode s r = some s') :
    SameBytes s.heap s'.heap := by
  unfold deallocNode at h
  obtain ⟨h₁, hset₁, h⟩ := Option.bind_eq_some_iff.mp h
  obtain ⟨e, -, h⟩ := Option.bind_eq_some_iff.mp h
  obtain ⟨h₂, hset₂, h⟩ := Option.bind_eq_some_iff.mp h
  obtain ⟨nd, -, h⟩ := Option.bind_eq_some_iff.mp h
  obtain rfl := Option.some.inj h
  exact (SameBytes.of_setNext hset₁).trans (SameBytes.of_setNext hset₂)

/-- `read` copies what reading the iovecs of `getReadBuffers` would. -/
theorem readLoop_of_walk : ∀ (fuel : Nat) (s : ByteArray) (size rSize : Nat)
    (out : List UInt8) {s' : ByteArray} {vs : List Iovec} {q : Option Addr} {j : Nat}
    {bs : List UInt8},
    readWalk true fuel s s.readNode s.readIndex size = some (s', vs, q, j) →
    readIovecs s.heap vs = some bs →
    readLoop true fuel s size rSize out
      = some (s'.setRead q j, rSize + size, out ++ bs) := by
  intro fuel
  induction fuel with
  | zero =>
      intro s size rSize out s' vs q j bs hwalk hread
      obtain rfl | hpos := Nat.eq_zero_or_pos size
      · simp only [readWalk_zero, Option.some.injEq, Prod.mk.injEq] at hwalk
        obtain ⟨rfl, rfl, rfl, rfl⟩ := hwalk
        obtain rfl : [] = bs := by simpa [readIovecs] using hread
        simp [setRead]
      · simp [readWalk, hpos.ne'] at hwalk
  | succ fuel ih =>
      intro s size rSize out s' vs q j bs hwalk hread
      obtain rfl | hpos := Nat.eq_zero_or_pos size
      · simp only [readWalk_zero, Option.some.injEq, Prod.mk.injEq] at hwalk
        obtain ⟨rfl, rfl, rfl, rfl⟩ := hwalk
        obtain rfl : [] = bs := by simpa [readIovecs] using hread
        simp [setRead]
      · simp only [readWalk, hpos.ne', if_false, Option.bind_eq_bind] at hwalk
        obtain ⟨r, hr, hwalk⟩ := Option.bind_eq_some_iff.mp hwalk
        obtain ⟨nd, hnd, hwalk⟩ := Option.bind_eq_some_iff.mp hwalk
        by_cases hin : size < s.baseSize - s.readIndex
        · simp only [hin, if_true, readWalk_zero, Option.bind_some, Option.some.injEq,
            Prod.mk.injEq] at hwalk
          obtain ⟨rfl, rfl, rfl, rfl⟩ := hwalk
          simp only [readIovecs, Option.bind_eq_bind, Option.bind_some, List.append_nil] at hread
          obtain ⟨b₁, hload, heq⟩ := Option.bind_eq_some_iff.mp hread
          obtain rfl := Option.some.inj heq
          simp [readLoop, hpos.ne', hr, hin, copyOut, hload, setRead]
        · simp only [hin, if_false, if_true] at hwalk
          obtain ⟨s₁, hdealloc, hwalk⟩ := Option.bind_eq_some_iff.mp hwalk
          obtain ⟨⟨s₂, vs', q', j'⟩, hwalk', heq⟩ := Option.bind_eq_some_iff.mp hwalk
          simp only [Option.some.injEq, Prod.mk.injEq] at heq
          obtain ⟨rfl, rfl, rfl, rfl⟩ := heq
          simp only [readIovecs, Option.bind_eq_bind] at hread
          obtain ⟨b₁, hload, hread⟩ := Option.bind_eq_some_iff.mp hread
          obtain ⟨b₂, hread', heq⟩ := Option.bind_eq_some_iff.mp hread
          obtain rfl := Option.some.inj heq
          have hdealloc' : deallocNode { s with readIndex := 0, readNode := nd.next } r
              = some (s₁.setRead nd.next 0) := by
            have := deallocNode_setRead s r nd.next 0
            rwa [hdealloc] at this
          have hwalk₁ := readWalk_setRead true nd.next 0 fuel s₁ nd.next 0
            (size - (s.baseSize - s.readIndex))
          rw [hwalk', Option.map_some] at hwalk₁
          have hread₁ : readIovecs (s₁.setRead nd.next 0).heap vs' = some b₂ :=
            (readIovecs_congr (deallocNode_sameBytes hdealloc) vs').trans hread'
          have hloop := ih (s₁.setRead nd.next 0) (size - (s.baseSize - s.readIndex))
            (rSize + (s.baseSize - s.readIndex)) (out ++ b₁) hwalk₁ hread₁
          simp only [readLoop, hpos.ne', if_false, Option.bind_eq_bind, hr, Option.bind_some,
            hin, copyOut, if_true, hload, hnd, hdealloc', hloop]
          rw [show rSize + (s.baseSize - s.readIndex) + (size - (s.baseSize - s.readIndex))
            = rSize + size by omega, List.append_assoc]
          rfl

end CoLib.ByteArray
