/-
# `CoLib.Net.Lookup` — addresses by the name of a host

`Address::Lookup` cuts the host at a colon into a node and a service, asks `getaddrinfo`,
and puts an `Address` for each result into a vector.  The pointer to the first colon is
the service, also where a second colon shows that the host is an IPv6 literal; `Create`
knows no family but `AF_INET`, and its null pointers are put into the vector too.

`getaddrinfo` is a parameter; it sees its texts up to their first zero byte.

**Proved here.**  `asks_iff`: what is asked for is right where there is at most one
colon.  `lookup_meets_iff`: the addresses are right where all results are of the family
`AF_INET`.  `lookupAnyIPAddress_eq`: the variant that looks for an `IPAddress` passes
over the null pointers.
-/
import CoLib.Net.IPv4Address

namespace CoLib.Address

open Http

/-! ## `Address::Create` -/

/-- `Create(addr, addrlen)`, where `addr` is null or points to an address of any family,
whose bytes are read as a `sockaddr_in`. -/
def create (addr : Option SockaddrIn) : Option IPv4Address :=
  match addr with
  | none => none
  | some addr => if addr.sin_family = AF_INET then some { addr } else none

/-- `struct addrinfo`: what `ai_addr` points to. -/
structure AddrInfo where
  ai_addr : Option SockaddrIn

/-- The family of a result is one that `Create` knows. -/
def AddrInfo.Supported (i : AddrInfo) : Prop :=
  ∃ addr, i.ai_addr = some addr ∧ addr.sin_family = AF_INET

theorem create_isSome_iff (i : AddrInfo) : (create i.ai_addr).isSome = true ↔ i.Supported := by
  rw [AddrInfo.Supported]
  cases i.ai_addr with
  | none => simp [create]
  | some addr =>
      rw [create]
      split
      · rename_i h
        exact ⟨fun _ => ⟨addr, rfl, h⟩, fun _ => rfl⟩
      · rename_i h
        simp [h]

/-! ## `Address::Lookup` -/

/-- What is asked of `getaddrinfo` besides the names. -/
structure Hints where
  ai_family : Int
  ai_socktype : Int
  ai_protocol : Int

/-- `getaddrinfo`: an error, or the list of results. -/
abbrev Getaddrinfo :=
  List UInt8 → Option (List UInt8) → Hints → Except Int (List AddrInfo)

/-- `memchr(s, c, ..)`: the text from the first `c` on. -/
def memchr (s : List UInt8) (c : UInt8) : Option (List UInt8) :=
  match s.dropWhile (· != c) with
  | [] => none
  | rest => some rest

/-- What a function of C sees of a text. -/
def cStr (s : List UInt8) : List UInt8 :=
  s.takeWhile (· != 0)

/-- The node and the service of a host. -/
def query (host : List UInt8) : List UInt8 × Option (List UInt8) :=
  let (node, service) : List UInt8 × Option (List UInt8) :=
    match memchr host 58 with
    | none => ([], none)
    | some service =>
        match memchr service.tail 58 with
        | none => (host.take (host.length - service.length), some service.tail)
        | some _ => ([], some service)
  let node := if node = [] then host else node
  (cStr node, service.map cStr)

/-- `Lookup(result, host, ..)`: the result, and the vector afterwards. -/
def lookup (getaddrinfo : Getaddrinfo) (result : List (Option IPv4Address)) (host : List UInt8)
    (hints : Hints) : Bool × List (Option IPv4Address) :=
  match getaddrinfo (query host).1 (query host).2 hints with
  | .error _ => (false, result)
  | .ok results =>
      (true, results.foldl (fun result next => result ++ [create next.ai_addr]) result)

/-- `LookupAny(host, ..)`; there may be no `result[0]`. -/
def lookupAny (getaddrinfo : Getaddrinfo) (host : List UInt8) (hints : Hints) :
    Option (Option IPv4Address) :=
  match lookup getaddrinfo [] host hints with
  | (true, result) => result[0]?
  | (false, _) => some none

/-- `LookupAnyIPAddress(host, ..)`: every address there is, is an `IPAddress`. -/
def lookupAnyIPAddress (getaddrinfo : Getaddrinfo) (host : List UInt8) (hints : Hints) :
    Option IPv4Address :=
  match lookup getaddrinfo [] host hints with
  | (true, result) => result.findSome? id
  | (false, _) => none

/-! ### What is asked for -/

variable {host node service : List UInt8}

theorem memchr_of_notMem {s : List UInt8} {c : UInt8} (h : c ∉ s) : memchr s c = none := by
  have hdrop : s.dropWhile (· != c) = [] := by
    rw [List.dropWhile_eq_nil_iff]
    intro x hx
    rw [bne_iff_ne]
    rintro rfl
    exact h hx
  rw [memchr, hdrop]

theorem memchr_append {s r : List UInt8} {c : UInt8} (h : c ∉ s) :
    memchr (s ++ c :: r) c = some (c :: r) := by
  have hs : ∀ x ∈ s, (x != c) = true := by
    intro x hx
    rw [bne_iff_ne]
    rintro rfl
    exact h hx
  rw [memchr, List.dropWhile_append_of_pos hs, List.dropWhile_cons_of_neg (by simp)]

theorem cStr_eq_self_iff {s : List UInt8} : cStr s = s ↔ 0 ∉ s := by
  rw [cStr, List.takeWhile_eq_self_iff]
  constructor
  · intro h hmem
    exact absurd (h 0 hmem) (by decide)
  · intro h x hx
    rw [bne_iff_ne]
    rintro rfl
    exact h hx

/-- No colon: the host is the node. -/
theorem query_whole (h : 58 ∉ host) : query host = (cStr host, none) := by
  rw [query, memchr_of_notMem h]
  rfl

/-- One colon. -/
theorem query_split (hnode : 58 ∉ node) (hservice : 58 ∉ service) :
    query (node ++ 58 :: service) =
      (cStr (if node = [] then 58 :: service else node), some (cStr service)) := by
  have hlen : (node ++ 58 :: service).length - (58 :: service).length = node.length := by
    rw [List.length_append]
    omega
  rw [query, memchr_append hnode]
  simp only [List.tail_cons, memchr_of_notMem hservice, hlen, List.take_left', Option.map_some]
  split
  · rename_i hempty
    rw [hempty]
    rfl
  · rfl

/-- More than one colon: the service is the text from the first on. -/
theorem query_literal {r : List UInt8} (hnode : 58 ∉ node) (hservice : 58 ∉ service) :
    query (node ++ 58 :: (service ++ 58 :: r)) =
      (cStr (node ++ 58 :: (service ++ 58 :: r)), some (cStr (58 :: (service ++ 58 :: r)))) := by
  rw [query, memchr_append hnode]
  simp only [List.tail_cons, memchr_append hservice, if_true, Option.map_some]

/-- What has to be asked for: the two sides of the only colon, if there is something
before it; the host without a service, if there is no colon or more than one. -/
structure Asks (host : List UInt8) (q : List UInt8 × Option (List UInt8)) : Prop where
  split : host.count 58 = 1 → ∀ node service, host = node ++ 58 :: service → node ≠ [] →
    q = (node, some service)
  whole : host.count 58 ≠ 1 → q = (host, none)

/-- The first colon and what follows. -/
theorem exists_colon (h : 58 ∈ host) : ∃ node service, host = node ++ 58 :: service ∧
    58 ∉ node ∧ host.count 58 = 1 + service.count 58 := by
  obtain ⟨node, service, heq, hnode⟩ := List.eq_append_cons_of_mem h
  refine ⟨node, service, heq, hnode, ?_⟩
  rw [heq, List.count_append, List.count_cons_self, List.count_eq_zero.mpr hnode]
  omega

/-- A text is cut at its first colon in one way. -/
theorem split_unique {node' service' : List UInt8} (hnode : 58 ∉ node) (hnode' : 58 ∉ node')
    (heq : node ++ 58 :: service = node' ++ 58 :: service') :
    node = node' ∧ service = service' := by
  have hrest : some (58 :: service) = some (58 :: service') := by
    rw [← memchr_append hnode, ← memchr_append hnode', heq]
  obtain ⟨-, rfl⟩ := List.cons.inj (Option.some.inj hrest)
  exact ⟨List.append_cancel_right heq, rfl⟩

theorem asks_whole_iff (h : 58 ∉ host) : Asks host (query host) ↔ 0 ∉ host := by
  have hzero : host.count 58 = 0 := List.count_eq_zero.mpr h
  rw [query_whole h]
  constructor
  · intro hasks
    have hwhole := hasks.whole (by omega)
    rw [Prod.mk.injEq, cStr_eq_self_iff] at hwhole
    exact hwhole.1
  · intro hclean
    exact ⟨fun hone => by omega, fun _ => by rw [cStr_eq_self_iff.mpr hclean]⟩

/-- Nothing is said of a host that begins with its only colon. -/
theorem asks_leading {q : List UInt8 × Option (List UInt8)} (hservice : 58 ∉ service) :
    Asks (58 :: service) q := by
  have hone : (58 :: service).count 58 = 1 := by
    rw [List.count_cons_self, List.count_eq_zero.mpr hservice]
  refine ⟨fun _ node service' heq hne => ?_, fun h => absurd hone h⟩
  -- a colon behind a node would be a second one
  obtain ⟨c, node, rfl⟩ := List.exists_cons_of_ne_nil hne
  obtain ⟨-, rfl⟩ := List.cons.inj heq
  exact absurd (List.mem_append_right _ List.mem_cons_self) hservice

theorem asks_split_iff (hnode : 58 ∉ node) (hservice : 58 ∉ service) (hne : node ≠ []) :
    Asks (node ++ 58 :: service) (query (node ++ 58 :: service)) ↔
      0 ∉ node ++ 58 :: service := by
  have hone : (node ++ 58 :: service).count 58 = 1 := by
    rw [List.count_append, List.count_cons_self, List.count_eq_zero.mpr hnode,
      List.count_eq_zero.mpr hservice]
  have hclean : 0 ∉ node ++ 58 :: service ↔ 0 ∉ node ∧ 0 ∉ service := by
    simp
  rw [query_split hnode hservice, if_neg hne, hclean, ← cStr_eq_self_iff, ← cStr_eq_self_iff]
  constructor
  · intro h
    have hsplit := h.split hone node service rfl hne
    rwa [Prod.mk.injEq, Option.some.injEq] at hsplit
  · rintro ⟨hnode₀, hservice₀⟩
    refine ⟨fun _ node' service' heq _ => ?_, fun h => absurd hone h⟩
    have hnode' : 58 ∉ node' := by
      intro hin
      have hpos := List.count_pos_iff.mpr hin
      rw [heq, List.count_append, List.count_cons_self] at hone
      omega
    obtain ⟨rfl, rfl⟩ := split_unique hnode hnode' heq
    rw [hnode₀, hservice₀]

/-- More than one colon: there is a service, and there should be none. -/
theorem not_asks_literal {r : List UInt8} (hnode : 58 ∉ node) (hservice : 58 ∉ service) :
    ¬ Asks (node ++ 58 :: (service ++ 58 :: r)) (query (node ++ 58 :: (service ++ 58 :: r))) := by
  intro h
  have htwo : (node ++ 58 :: (service ++ 58 :: r)).count 58 ≠ 1 := by
    rw [List.count_append, List.count_cons_self, List.count_append, List.count_cons_self]
    omega
  have hwhole := h.whole htwo
  rw [query_literal hnode hservice, Prod.mk.injEq] at hwhole
  exact absurd hwhole.2 (by simp)

/-- **What is asked for.**  It is right exactly where there is at most one colon and no
zero byte; and nothing is said of a host that begins with its only colon. -/
theorem asks_iff (host : List UInt8) : Asks host (query host) ↔
    (host.count 58 = 1 ∧ host.head? = some 58) ∨ (host.count 58 ≤ 1 ∧ 0 ∉ host) := by
  by_cases hmem : 58 ∈ host
  · obtain ⟨node, service, rfl, hnode, hcount⟩ := exists_colon hmem
    by_cases hservice : 58 ∈ service
    · have hpos := List.count_pos_iff.mpr hservice
      obtain ⟨mid, r, rfl, hmid, -⟩ := exists_colon hservice
      refine iff_of_false (not_asks_literal hnode hmid) ?_
      rintro (⟨hone, -⟩ | ⟨hone, -⟩) <;> omega
    · rw [List.count_eq_zero.mpr hservice] at hcount
      rcases eq_or_ne node [] with rfl | hne
      · exact iff_of_true (asks_leading hservice) (.inl ⟨hcount, rfl⟩)
      · rw [asks_split_iff hnode hservice hne]
        refine ⟨fun h => .inr ⟨hcount.le, h⟩, ?_⟩
        rintro (⟨-, hhead⟩ | ⟨-, h⟩)
        · rw [List.head?_append_of_ne_nil _ hne] at hhead
          exact absurd (List.mem_of_head? hhead) hnode
        · exact h
  · have hzero : host.count 58 = 0 := List.count_eq_zero.mpr hmem
    rw [asks_whole_iff hmem]
    refine ⟨fun h => .inr ⟨by omega, h⟩, ?_⟩
    rintro (⟨hone, -⟩ | ⟨-, h⟩)
    · omega
    · exact h

/-! ### What is put into the vector -/

variable {getaddrinfo : Getaddrinfo} {hints : Hints} {results : List AddrInfo}

/-- The loop over the results. -/
theorem foldl_push (result : List (Option IPv4Address)) :
    results.foldl (fun result next => result ++ [create next.ai_addr]) result =
      result ++ results.map fun i => create i.ai_addr := by
  induction results generalizing result with
  | nil => rw [List.foldl_nil, List.map_nil, List.append_nil]
  | cons i results ih => rw [List.foldl_cons, ih, List.map_cons, List.append_assoc]; rfl

/-- The addresses of the results that are supported. -/
def supported (results : List AddrInfo) : List IPv4Address :=
  results.filterMap fun i => create i.ai_addr

/-- No null pointer is among the addresses exactly where every result is supported. -/
theorem map_create_iff : (results.map fun i => create i.ai_addr) = (supported results).map some ↔
    ∀ i ∈ results, i.Supported := by
  constructor
  · intro heq i hi
    have hmem : create i.ai_addr ∈ (supported results).map some := by
      rw [← heq]
      exact List.mem_map_of_mem hi
    obtain ⟨x, -, hx⟩ := List.mem_map.mp hmem
    exact (create_isSome_iff i).mp (hx ▸ rfl)
  · intro h
    induction results with
    | nil => rfl
    | cons i results ih =>
        obtain ⟨hi, hrest⟩ := List.forall_mem_cons.mp h
        obtain ⟨x, hx⟩ := Option.isSome_iff_exists.mp ((create_isSome_iff i).mpr hi)
        have hcons : supported (i :: results) = x :: supported results :=
          List.filterMap_cons_some hx
        rw [hcons, List.map_cons, List.map_cons, hx, ih hrest]

/-- What a call has to do, where `getaddrinfo` gives `results`: ask for the right names, put
the supported addresses into the vector, and return the first of them or null. -/
structure Meets (getaddrinfo : Getaddrinfo) (result : List (Option IPv4Address))
    (host : List UInt8) (hints : Hints) (results : List AddrInfo) : Prop where
  asks : Asks host (query host)
  vector : lookup getaddrinfo result host hints =
    (true, result ++ (supported results).map some)
  any : lookupAny getaddrinfo host hints = some (supported results).head?

/-- **`Lookup` and `LookupAny`.**  With a list of results that is not empty, they do what
they have to exactly if the names are those of `asks_iff`, and every result is
supported. -/
theorem lookup_meets_iff (getaddrinfo : Getaddrinfo) (result : List (Option IPv4Address))
    (host : List UInt8) (hints : Hints) (results : List AddrInfo)
    (hresults : getaddrinfo (query host).1 (query host).2 hints = .ok results)
    (hne : results ≠ []) :
    Meets getaddrinfo result host hints results ↔
      ((host.count 58 = 1 ∧ host.head? = some 58) ∨ (host.count 58 ≤ 1 ∧ 0 ∉ host)) ∧
        ∀ i ∈ results, i.Supported := by
  have hlookup (result : List (Option IPv4Address)) : lookup getaddrinfo result host hints =
      (true, result ++ results.map fun i => create i.ai_addr) := by
    rw [lookup, hresults]
    exact congrArg (Prod.mk true) (foldl_push result)
  rw [← asks_iff]
  constructor
  · intro h
    have hvector := h.vector
    rw [hlookup, Prod.mk.injEq, List.append_cancel_left_eq] at hvector
    exact ⟨h.asks, map_create_iff.mp hvector.2⟩
  · rintro ⟨hasks, hall⟩
    have hmap := map_create_iff.mpr hall
    refine ⟨hasks, by rw [hlookup, hmap], ?_⟩
    rw [lookupAny, hlookup, hmap]
    cases hsupported : supported results with
    | nil =>
        rw [hsupported, List.map_nil, List.map_eq_nil_iff] at hmap
        exact absurd hmap hne
    | cons x rest => rfl

/-- `LookupAnyIPAddress` passes over the null pointers. -/
theorem lookupAnyIPAddress_eq
    (hresults : getaddrinfo (query host).1 (query host).2 hints = .ok results) :
    lookupAnyIPAddress getaddrinfo host hints = (supported results).head? := by
  have hfind : (results.map fun i => create i.ai_addr).findSome? id =
      (supported results).head? := by
    rw [supported, List.head?_filterMap, List.findSome?_map]
    rfl
  rw [lookupAnyIPAddress, lookup, hresults]
  simp only [foldl_push, List.nil_append, hfind]

/-- `getaddrinfo` with one answer. -/
def answering (results : List AddrInfo) : Getaddrinfo :=
  fun _ _ _ => .ok results

/-- The host `127.0.0.1:80`, and a result for it. -/
theorem lookup_meets_port :
    Meets (answering [⟨some ⟨AF_INET, 0x5000, 0x0100007f⟩⟩]) [] (chars "127.0.0.1:80") ⟨0, 0, 0⟩
      [⟨some ⟨AF_INET, 0x5000, 0x0100007f⟩⟩] :=
  (lookup_meets_iff (answering [⟨some ⟨AF_INET, 0x5000, 0x0100007f⟩⟩]) [] (chars "127.0.0.1:80")
    ⟨0, 0, 0⟩ [⟨some ⟨AF_INET, 0x5000, 0x0100007f⟩⟩] rfl (List.cons_ne_nil _ _)).mpr
      ⟨.inr ⟨by decide, by decide⟩, List.forall_mem_singleton.mpr ⟨_, rfl, rfl⟩⟩

/-- The host `::1`, and a result of the family `AF_INET6`. -/
theorem lookup_literal :
    ¬ Meets (answering [⟨some ⟨10, 0, 0⟩⟩]) [] (chars "::1") ⟨0, 0, 0⟩ [⟨some ⟨10, 0, 0⟩⟩] := by
  intro h
  exact absurd (congrArg Prod.snd (h.asks.whole (by decide))) (by decide)

end CoLib.Address
