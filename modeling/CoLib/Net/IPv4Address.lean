/-
# `CoLib.Net.IPv4Address` — an address and a port in network order

`IPv4Address` keeps a `sockaddr_in`, whose port and address are in network order.  The
constructor, the printer and the setter of the port convert with `htons` and `ntohs`,
which are functions of 16 bits: the address has 32.  `getPort` does not convert.

The machine is little-endian, as `htons` and `ntohs` swap bytes.

**Proved here.**  What each of them makes of an address (`toString_new`,
`toString_create`, `getPort_setPort`), and where that is what went in
(`roundTrips_iff`): for addresses below `2^16`, for the text `0.0.0.0`, and for ports
whose two bytes are equal.  The port that is printed is always right.
-/
import CoLib.Http.Numeral

namespace CoLib

open Http

/-! ## Byte order -/

/-- `htons`: the two bytes swapped. -/
def htons (x : UInt16) : UInt16 :=
  UInt16.ofNat (x.toNat % 256 * 256 + x.toNat / 256)

/-- `ntohs`. -/
def ntohs (x : UInt16) : UInt16 := htons x

theorem toNat_htons (x : UInt16) : (htons x).toNat = x.toNat % 256 * 256 + x.toNat / 256 := by
  have hlt := x.toNat_lt
  rw [htons, UInt16.toNat_ofNat']
  omega

@[simp] theorem ntohs_htons (x : UInt16) : ntohs (htons x) = x := by
  have hlt := x.toNat_lt
  apply UInt16.toNat_inj.mp
  rw [ntohs, toNat_htons, toNat_htons]
  omega

/-! ## Four octets -/

/-- The octets of an address, the most significant one first. -/
structure Octets where
  a : UInt8
  b : UInt8
  c : UInt8
  d : UInt8
  deriving DecidableEq

namespace Octets

/-- The octets of a number. -/
def ofNat (n : Nat) : Octets :=
  { a := UInt8.ofNat (n / 2 ^ 24), b := UInt8.ofNat (n / 2 ^ 16), c := UInt8.ofNat (n / 2 ^ 8)
    d := UInt8.ofNat n }

/-- The octets of a number below `2^16`. -/
theorem ofNat_pair (x y : UInt8) : ofNat (x.toNat * 256 + y.toNat) = ⟨0, 0, x, y⟩ := by
  have hx := x.toNat_lt
  have hy := y.toNat_lt
  have ha : (x.toNat * 256 + y.toNat) / 2 ^ 24 = 0 := by omega
  have hb : (x.toNat * 256 + y.toNat) / 2 ^ 16 = 0 := by omega
  have hc : (x.toNat * 256 + y.toNat) / 2 ^ 8 = x.toNat := by omega
  have hd : UInt8.ofNat (x.toNat * 256 + y.toNat) = y := by
    apply UInt8.toNat_inj.mp
    rw [UInt8.toNat_ofNat']
    omega
  rw [ofNat, ha, hb, hc, hd, UInt8.ofNat_toNat]
  rfl

/-- The octets as dotted quad. -/
def text (o : Octets) : List UInt8 :=
  decimalText o.a.toNat ++ chars "." ++ decimalText o.b.toNat ++ chars "."
    ++ decimalText o.c.toNat ++ chars "." ++ decimalText o.d.toNat

/-- The word that is loaded where the octets lie in network order. -/
def inAddr (o : Octets) : UInt32 :=
  UInt32.ofNat (o.a.toNat + 2 ^ 8 * o.b.toNat + 2 ^ 16 * o.c.toNat + 2 ^ 24 * o.d.toNat)

/-- A number that ends where the digits end can be read off. -/
theorem decimalText_append_inj {m n : Nat} {c : UInt8} {y z : List UInt8}
    (hc : isDigit c = false) :
    decimalText m ++ c :: y = decimalText n ++ c :: z ↔ m = n ∧ y = z := by
  have hread (k : Nat) (r : List UInt8) :
      (decimalText k ++ c :: r).takeWhile isDigit = decimalText k := by
    have hdigits := (numeral_eq_some_iff.mp (numeral_decimalText k)).2.1
    rw [List.takeWhile_append_of_pos hdigits, List.takeWhile_cons_of_neg (by simp [hc]),
      List.append_nil]
  constructor
  · intro heq
    have hnum : decimalText m = decimalText n := by
      rw [← hread m y, ← hread n z, heq]
    have hsome : some m = some n := by
      rw [← numeral_decimalText m, ← numeral_decimalText n, hnum]
    obtain rfl := Option.some.inj hsome
    exact ⟨rfl, (List.cons.inj (List.append_cancel_left heq)).2⟩
  · rintro ⟨rfl, rfl⟩
    rfl

/-- The octets can be read off, and what is behind the colon. -/
theorem text_append_inj {o o' : Octets} {r r' : List UInt8} :
    o.text ++ chars ":" ++ r = o'.text ++ chars ":" ++ r' ↔ o = o' ∧ r = r' := by
  have hdot : chars "." = [46] := rfl
  have hcolon : chars ":" = [58] := rfl
  have hnodot : isDigit 46 = false := rfl
  have hnocolon : isDigit 58 = false := rfl
  simp only [text, hdot, hcolon, List.append_assoc, List.nil_append, List.cons_append,
    decimalText_append_inj hnodot, decimalText_append_inj hnocolon, UInt8.toNat_inj]
  cases o
  cases o'
  simp only [mk.injEq, and_assoc]

end Octets

/-! ## `IPv4Address` -/

/-- `AF_INET`. -/
def AF_INET : UInt16 := 2

/-- `struct sockaddr_in`. -/
structure SockaddrIn where
  sin_family : UInt16
  sin_port : UInt16
  s_addr : UInt32
  deriving DecidableEq

/-- `class IPv4Address`. -/
structure IPv4Address where
  addr : SockaddrIn
  deriving DecidableEq

namespace IPv4Address

/-- `IPv4Address(address, port)`. -/
def new (address : UInt32) (port : UInt16) : IPv4Address :=
  { addr :=
      { sin_family := AF_INET
        sin_port := htons port
        s_addr := (htons address.toUInt16).toUInt32 } }

/-- `Create(address, port)`, with `inet_pton(AF_INET, ..)` as a parameter: the word that it
stores where it accepts the text. -/
def create (inetPton : List UInt8 → Option UInt32) (address : List UInt8) (port : UInt16) :
    Option IPv4Address :=
  let rt := new 0 0
  let rt := { rt with addr.sin_port := htons port }
  match inetPton address with
  | some word => some { rt with addr.s_addr := word }
  | none => none

/-- `insert(os)`, and `toString()`. -/
def toString (x : IPv4Address) : List UInt8 :=
  let addr := (ntohs x.addr.s_addr.toUInt16).toUInt32
  decimalText ((addr >>> 24) &&& 0xff).toNat ++ chars "."
    ++ decimalText ((addr >>> 16) &&& 0xff).toNat ++ chars "."
    ++ decimalText ((addr >>> 8) &&& 0xff).toNat ++ chars "."
    ++ decimalText (addr &&& 0xff).toNat
    ++ chars ":" ++ decimalText (ntohs x.addr.sin_port).toNat

/-- `getPort()`. -/
def getPort (x : IPv4Address) : UInt32 := x.addr.sin_port.toUInt32

/-- `setPort(v)`. -/
def setPort (x : IPv4Address) (v : UInt16) : IPv4Address :=
  { x with addr.sin_port := htons v }

/-! ### What is printed -/

/-- An octet of a word. -/
theorem toNat_octet (w : UInt32) {i : UInt32} {k : Nat} (hi : i.toNat % 32 = k) :
    ((w >>> i) &&& 0xff).toNat = w.toNat / 2 ^ k % 256 := by
  rw [UInt32.toNat_and, UInt32.toNat_shiftRight, hi, Nat.shiftRight_eq_div_pow]
  exact Nat.and_two_pow_sub_one_eq_mod _ 8

/-- The octets that are printed are those of the lower half, swapped. -/
theorem toString_eq (x : IPv4Address) :
    x.toString = (Octets.ofNat (ntohs x.addr.s_addr.toUInt16).toNat).text ++ chars ":"
      ++ decimalText (ntohs x.addr.sin_port).toNat := by
  have ha (w : UInt32) : ((w >>> 24) &&& 0xff).toNat = w.toNat / 2 ^ 24 % 256 :=
    toNat_octet w rfl
  have hb (w : UInt32) : ((w >>> 16) &&& 0xff).toNat = w.toNat / 2 ^ 16 % 256 :=
    toNat_octet w rfl
  have hc (w : UInt32) : ((w >>> 8) &&& 0xff).toNat = w.toNat / 2 ^ 8 % 256 :=
    toNat_octet w rfl
  have hd (w : UInt32) : (w &&& 0xff).toNat = w.toNat % 256 := by
    rw [UInt32.toNat_and]
    exact Nat.and_two_pow_sub_one_eq_mod _ 8
  simp only [toString, ha, hb, hc, hd, Octets.text, Octets.ofNat, UInt16.toNat_toUInt32,
    UInt8.toNat_ofNat']

theorem toString_new (a : UInt32) (p : UInt16) :
    (new a p).toString =
      (Octets.ofNat (a.toNat % 2 ^ 16)).text ++ chars ":" ++ decimalText p.toNat := by
  have hback : (htons a.toUInt16).toUInt32.toUInt16 = htons a.toUInt16 := UInt16.toUInt16_toUInt32 _
  rw [toString_eq, new]
  simp only [hback, ntohs_htons, UInt32.toNat_toUInt16]

/-- The word that `inet_pton` stores loses its last two octets. -/
theorem toString_create {inetPton : List UInt8 → Option UInt32} {o : Octets}
    (hpton : inetPton o.text = some o.inAddr) (p : UInt16) :
    (create inetPton o.text p).map toString =
      some ((⟨0, 0, o.a, o.b⟩ : Octets).text ++ chars ":" ++ decimalText p.toNat) := by
  have ha := o.a.toNat_lt
  have hb := o.b.toNat_lt
  have hc := o.c.toNat_lt
  have hd := o.d.toNat_lt
  have hlow : (ntohs o.inAddr.toUInt16).toNat = o.a.toNat * 256 + o.b.toNat := by
    rw [ntohs, toNat_htons, UInt32.toNat_toUInt16, Octets.inAddr, UInt32.toNat_ofNat']
    omega
  simp only [create, hpton, Option.map_some, toString_eq, hlow, Octets.ofNat_pair, ntohs_htons]

theorem getPort_setPort (x : IPv4Address) (q : UInt16) :
    (x.setPort q).getPort.toNat = q.toNat % 256 * 256 + q.toNat / 256 := by
  rw [getPort, setPort, UInt16.toNat_toUInt32, toNat_htons]

theorem toString_setPort (x : IPv4Address) (q : UInt16) :
    (x.setPort q).toString = (Octets.ofNat (ntohs x.addr.s_addr.toUInt16).toNat).text ++ chars ":"
      ++ decimalText q.toNat := by
  rw [toString_eq, setPort, ntohs_htons]

/-! ### Where it is what went in -/

/-- What the addresses have to do, with a text that is the dotted quad of `o`. -/
structure RoundTrips (inetPton : List UInt8 → Option UInt32) (a : UInt32) (p q : UInt16)
    (o : Octets) : Prop where
  constructed : (new a p).toString =
    (Octets.ofNat a.toNat).text ++ chars ":" ++ decimalText p.toNat
  created : (create inetPton o.text p).map toString =
    some (o.text ++ chars ":" ++ decimalText p.toNat)
  port : ∀ x : IPv4Address, (x.setPort q).getPort = q.toUInt32
  shown : ∀ x : IPv4Address, ∃ host : Octets,
    (x.setPort q).toString = host.text ++ chars ":" ++ decimalText q.toNat

/-- The constructor: 16 bits pass. -/
theorem constructed_iff (a : UInt32) (p : UInt16) :
    (new a p).toString = (Octets.ofNat a.toNat).text ++ chars ":" ++ decimalText p.toNat ↔
      a.toNat < 2 ^ 16 := by
  have hlt := a.toNat_lt
  rw [toString_new, Octets.text_append_inj]
  constructor
  · rintro ⟨heq, -⟩
    rw [Octets.ofNat, Octets.ofNat, Octets.mk.injEq] at heq
    obtain ⟨ha, hb, -, -⟩ := heq
    have ha' := congrArg UInt8.toNat ha
    have hb' := congrArg UInt8.toNat hb
    rw [UInt8.toNat_ofNat', UInt8.toNat_ofNat'] at ha' hb'
    omega
  · intro hsmall
    rw [Nat.mod_eq_of_lt hsmall]
    exact ⟨rfl, rfl⟩

/-- The text: no octet may be there to be lost. -/
theorem created_iff {inetPton : List UInt8 → Option UInt32} {o : Octets}
    (hpton : inetPton o.text = some o.inAddr) (p : UInt16) :
    (create inetPton o.text p).map toString =
        some (o.text ++ chars ":" ++ decimalText p.toNat) ↔ o = ⟨0, 0, 0, 0⟩ := by
  rw [toString_create hpton, Option.some.injEq, Octets.text_append_inj]
  obtain ⟨a, b, c, d⟩ := o
  simp only [Octets.mk.injEq]
  constructor
  · rintro ⟨⟨rfl, rfl, rfl, rfl⟩, -⟩
    exact ⟨rfl, rfl, rfl, rfl⟩
  · rintro ⟨rfl, rfl, rfl, rfl⟩
    exact ⟨⟨rfl, rfl, rfl, rfl⟩, trivial⟩

/-- The getter of the port: the bytes come out swapped. -/
theorem getPort_iff (x : IPv4Address) (q : UInt16) :
    (x.setPort q).getPort = q.toUInt32 ↔ q.toNat % 256 = q.toNat / 256 := by
  have hlt := q.toNat_lt
  rw [← UInt32.toNat_inj, getPort_setPort, UInt16.toNat_toUInt32]
  omega

/-- **Addresses, texts and ports that come back.** -/
theorem roundTrips_iff (inetPton : List UInt8 → Option UInt32) (a : UInt32) (p q : UInt16)
    (o : Octets) (hpton : inetPton o.text = some o.inAddr) :
    RoundTrips inetPton a p q o ↔
      a.toNat < 2 ^ 16 ∧ o = ⟨0, 0, 0, 0⟩ ∧ q.toNat % 256 = q.toNat / 256 := by
  constructor
  · intro h
    exact ⟨(constructed_iff a p).mp h.constructed, (created_iff hpton p).mp h.created,
      (getPort_iff (new 0 0) q).mp (h.port _)⟩
  · rintro ⟨ha, ho, hq⟩
    exact
      { constructed := (constructed_iff a p).mpr ha
        created := (created_iff hpton p).mpr ho
        port := fun x => (getPort_iff x q).mpr hq
        shown := fun x => ⟨_, toString_setPort x q⟩ }

/-- `inet_pton` on one text. -/
def pton (o : Octets) (address : List UInt8) : Option UInt32 :=
  if address = o.text then some o.inAddr else none

theorem roundTrips_any : RoundTrips (pton ⟨0, 0, 0, 0⟩) 80 8080 0x5050 ⟨0, 0, 0, 0⟩ :=
  (roundTrips_iff (pton ⟨0, 0, 0, 0⟩) 80 8080 0x5050 ⟨0, 0, 0, 0⟩ (if_pos rfl)).mpr
    ⟨by decide, rfl, by decide⟩

/-- `127.0.0.1` and port 80. -/
theorem roundTrips_loopback :
    ¬ RoundTrips (pton ⟨127, 0, 0, 1⟩) 0x7f000001 80 80 ⟨127, 0, 0, 1⟩ := by
  intro h
  exact absurd ((getPort_iff (new 0 0) 80).mp (h.port _)) (by decide)

end IPv4Address

end CoLib
