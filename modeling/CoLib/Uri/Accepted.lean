/-
# `CoLib.Uri.Accepted` — what `Uri::Create` accepts

Each state of the machine stands for lists of expressions of RFC 3986: a text that leads from
the state to a final one is derived by one of them.  `restsOf` has the lists; that behind each
byte the lists of the next state are left is one computation over all ranges of the machine
(`rows_leave`), with the byte 2 left out.

The states from 229 on repeat the ones before them, for the authority behind a scheme, with
other actions (`copies`).  The states that are missing are entered behind a byte 2.

**Proved here.**  A text that is accepted is a reference of RFC 3986, with the bytes from 128 on
in `pchar`, if and only if it has no byte 2 (`reference_iff`).
-/
import CoLib.Uri.Create
import CoLib.Uri.Grammar

namespace CoLib.Uri

open Lib.Grammar

/-! ## What may come in a state -/

/-- Lists of expressions, one behind the other. -/
abbrev Lists := List (List (Expr Rule))

/-- Behind a host. -/
def afterHost : List (Expr Rule) :=
  optional (seqs [.bytes colon, .rule .port]) :: .rule .pathAbempty :: tail

/-- At the end of an `IP_literal`. -/
def closing : List (Expr Rule) := .bytes (byte 93) :: afterHost

/-- A byte of an `IPvFuture`, behind the dot. -/
def futureByte : Expr Rule := .bytes (unreserved ||| subDelims ||| colon)

/-- At the places where a part begins, or a scheme or a port goes on. -/
def plainRests : Lists :=
  [[.rule .uriReference],
    .star (.bytes (alpha ||| digit ||| byte 43 ||| interval 45 46)) :: .bytes colon ::
      .rule .hierPart :: tail,
    .rule .hierPart :: tail,
    .bytes slash :: .rule .authority :: .rule .pathAbempty :: tail,
    optional (seqs [.rule .segmentNz, .star slashSegment]) :: tail,
    .rule .authority :: .rule .pathAbempty :: tail,
    .rule .host :: afterHost,
    afterHost,
    .rule .port :: .rule .pathAbempty :: tail,
    .star (.bytes digit) :: .rule .pathAbempty :: tail,
    .rule .query :: tail.drop 1,
    [.rule .fragment]]

def plain (is : List Nat) : Lists :=
  is.filterMap fun i => plainRests[i]?

/-- Within a part that has encoded bytes. -/
def encodedRests : Lists :=
  [segment :: .star slashSegment :: tail,
    .star pcharNc :: .star slashSegment :: tail,
    .star (.alt (.rule .pchar) (.bytes (slash ||| question))) :: tail.drop 1,
    [.star (.alt (.rule .pchar) (.bytes (slash ||| question)))],
    .star (.alt (.bytes (unreserved ||| subDelims)) (.rule .pctEncoded)) :: afterHost,
    .star (.alt (.bytes (unreserved ||| subDelims ||| colon)) (.rule .pctEncoded)) ::
      .bytes atSign :: .rule .host :: afterHost]

/-- The same, with `n` bytes of an encoded byte to come. -/
def encoded (n : Nat) (is : List Nat) : Lists :=
  is.filterMap fun i => (encodedRests[i]?).map (List.replicate n (.bytes xdigit) ++ ·)

/-- Within an `IP_literal`, at its beginning and in an `IPvFuture`. -/
def literalRests : Lists :=
  [[.alt (.rule .ipv6Address) (.rule .ipvFuture)],
    [.bytes xdigit, .star (.bytes xdigit), .bytes dot, futureByte, .star futureByte],
    [.star (.bytes xdigit), .bytes dot, futureByte, .star futureByte],
    [futureByte, .star futureByte],
    [.star futureByte]]

def literal (is : List Nat) : Lists :=
  is.filterMap fun i => (literalRests[i]?).map (· ++ closing)

/-- Within a `dec_octet`, and in front of one. -/
def octetRests : Lists :=
  [[], [.bytes digit], [.bytes digit, .bytes digit], [.bytes (interval 48 53)],
    [.bytes (byte 53), .bytes (interval 48 53)], [.rule .decOctet]]

/-- The same, with `n` more of them to come. -/
def octet (n : Nat) (is : List Nat) : Lists :=
  is.filterMap fun i => (octetRests[i]?).map
    (· ++ (List.replicate n [.bytes dot, .rule .decOctet]).flatten ++ closing)

/-- `n` times `h16 ":"` and `last`, at the end of an `IPv6address`. -/
def colons (n : Nat) (last : List (Expr Rule)) : List (Expr Rule) :=
  (List.replicate n [.rule .h16, .bytes colon]).flatten ++ last ++ closing

/-- Behind a colon of an `IPv6address`: without a double colon to come, with one that has
begun, and with `h16`s in front of it. -/
def behindColon : Lists :=
  let ls32 := [.rule .ls32]
  let h16 := [.rule .h16]
  let double n last := .bytes colon :: colons n last
  let one n last := .rule .h16 :: .bytes colon :: double n last
  let front i n last := .upTo i h16Colon :: one n last
  [colons 0 ls32, colons 1 ls32, colons 2 ls32, colons 3 ls32, colons 4 ls32, colons 5 ls32,
    colons 0 h16,
    double 4 ls32, double 3 ls32, double 2 ls32, double 1 ls32, double 0 ls32, double 0 h16,
    double 0 [],
    one 3 ls32, one 2 ls32, one 1 ls32, one 0 ls32, one 0 h16, one 0 [],
    front 1 2 ls32, front 1 1 ls32, front 1 0 ls32, front 1 0 h16, front 1 0 [],
    front 2 1 ls32, front 2 0 ls32, front 2 0 h16, front 2 0 [],
    front 3 0 ls32, front 3 0 h16, front 3 0 [], front 4 0 h16, front 4 0 [], front 5 0 []]

def behind (is : List Nat) : Lists :=
  is.filterMap fun i => behindColon[i]?

/-- With up to `n` digits of an `h16` to come. -/
def inGroup (n : Nat) (k : List (Expr Rule)) : List (Expr Rule) :=
  if n = 0 then k else .upTo n (.bytes xdigit) :: k

def group (n : Nat) (is : List Nat) : Lists :=
  (behind is).map fun k => inGroup n (.bytes colon :: k)

def closed (n : Nat) : Lists := [inGroup n closing]

/-- The states 1 to 40. -/
def rests1 : List (Nat × List (List (Expr Rule))) :=
  [
    (1, encoded 2 [3]), (2, encoded 1 [3]), (3, encoded 2 [1]), (4, encoded 1 [1]),
    (5, encoded 2 [0]), (6, encoded 1 [0]), (7, encoded 2 [2]), (8, encoded 1 [2]),
    (31, encoded 2 [4, 5]), (32, encoded 1 [4, 5]), (33, encoded 0 [5]), (34, encoded 2 [5]),
    (35, encoded 1 [5]), (36, encoded 2 [4]), (37, encoded 1 [4]), (38, literal [0]),
    (39, group 3 [5, 7, 14, 20, 25, 29, 32, 34]), (40, group 2 [5, 7, 14, 20, 25, 29, 32, 34])]

/-- The states 41 to 80. -/
def rests41 : List (Nat × List (List (Expr Rule))) :=
  [
    (41, group 1 [5, 7, 14, 20, 25, 29, 32, 34]), (42, group 0 [5, 7, 14, 20, 25, 29, 32, 34]),
    (43, behind [5, 7, 14, 20, 25, 29, 32, 34]), (44, group 3 [4, 8, 15, 21, 26, 30, 33]),
    (45, group 2 [4, 8, 15, 21, 26, 30, 33]), (46, group 1 [4, 8, 15, 21, 26, 30, 33]),
    (47, behind [7] ++ group 0 [8, 15, 21, 26, 30, 33]), (48, behind [4, 8, 15, 21, 26, 30, 33]),
    (49, group 3 [3, 9, 16, 22, 27, 31]), (50, group 2 [3, 9, 16, 22, 27, 31]),
    (51, group 1 [3, 9, 16, 22, 27, 31]), (52, behind [8] ++ group 0 [9, 16, 22, 27, 31]),
    (53, behind [3, 9, 16, 22, 27, 31]), (54, group 3 [2, 10, 17, 23, 28]),
    (55, group 2 [2, 10, 17, 23, 28]), (56, group 1 [2, 10, 17, 23, 28]),
    (57, behind [9] ++ group 0 [10, 17, 23, 28]), (58, behind [2, 10, 17, 23, 28]),
    (59, group 3 [1, 11, 18, 24]), (60, group 2 [1, 11, 18, 24]), (61, group 1 [1, 11, 18, 24]),
    (62, behind [10] ++ group 0 [11, 18, 24]), (63, behind [1, 11, 18, 24]),
    (64, group 3 [0, 12, 19]), (65, group 2 [0, 12, 19]), (66, group 1 [0, 12, 19]),
    (67, behind [11] ++ group 0 [12, 19]), (68, behind [0, 12, 19]), (72, octet 2 [5]),
    (75, octet 2 [0]), (76, octet 1 [5]), (79, octet 1 [0]), (80, octet 0 [5])]

/-- The states 81 to 120. -/
def rests81 : List (Nat × List (List (Expr Rule))) :=
  [
    (83, closed 0), (84, closed 0 ++ octet 0 [1, 2]), (85, closed 0 ++ octet 0 [1]),
    (86, closed 0 ++ octet 0 [1, 4]), (87, closed 0 ++ octet 0 [3]), (88, octet 1 [0, 1, 2]),
    (89, octet 1 [0, 1]), (90, octet 1 [0, 1, 4]), (91, octet 1 [0, 3]), (92, octet 2 [0, 1, 2]),
    (93, octet 2 [0, 1]), (94, octet 2 [0, 1, 4]), (95, octet 2 [0, 3]),
    (96, group 3 [6, 13] ++ octet 3 [0]), (97, group 2 [6, 13]), (98, group 1 [6, 13]),
    (99, behind [12] ++ group 0 [13]), (100, behind [6, 13]), (101, closed 3), (102, closed 2),
    (103, closed 1), (104, group 3 [6, 13] ++ octet 3 [0, 1, 2]),
    (105, group 2 [6, 13] ++ octet 3 [0, 1]), (106, group 1 [6, 13] ++ octet 3 [0]),
    (107, group 3 [6, 13] ++ octet 3 [0, 1, 4]), (108, group 2 [6, 13] ++ octet 3 [0]),
    (109, group 2 [6, 13] ++ octet 3 [0, 3]), (110, group 3 [6, 13] ++ octet 3 [0, 1]),
    (111, behind [6]), (112, group 3 [6, 13]), (113, behind [0]), (114, group 3 [6] ++ octet 3 [0]),
    (115, group 2 [6]), (116, group 1 [6]), (117, behind [12]),
    (118, group 3 [6] ++ octet 3 [0, 1, 2]), (119, group 2 [6] ++ octet 3 [0, 1]),
    (120, group 1 [6] ++ octet 3 [0])]

/-- The states 121 to 160. -/
def rests121 : List (Nat × List (List (Expr Rule))) :=
  [
    (121, group 3 [6] ++ octet 3 [0, 1, 4]), (122, group 2 [6] ++ octet 3 [0]),
    (123, group 2 [6] ++ octet 3 [0, 3]), (124, group 3 [6] ++ octet 3 [0, 1]), (125, group 3 [6]),
    (126, behind [1]), (127, group 3 [0]), (128, group 2 [0]), (129, group 1 [0]),
    (130, behind [11]), (131, behind [2]), (132, group 3 [1]), (133, group 2 [1]),
    (134, group 1 [1]), (135, behind [10]), (136, behind [3]), (137, group 3 [2]),
    (138, group 2 [2]), (139, group 1 [2]), (140, behind [9]), (141, behind [4]),
    (142, group 3 [3]), (143, group 2 [3]), (144, group 1 [3]), (145, behind [8]),
    (146, behind [7, 8, 9, 10, 11, 12, 13] ++ group 0 [5]),
    (147, behind [0, 1, 2, 3, 4, 5, 6] ++ closed 0),
    (148, closed 3 ++ group 3 [0, 1, 2, 3, 4, 6] ++ octet 3 [0]),
    (149, closed 2 ++ group 2 [0, 1, 2, 3, 4, 6]), (150, closed 1 ++ group 1 [0, 1, 2, 3, 4, 6]),
    (151, behind [7, 8, 9, 10, 11, 12] ++ closed 0), (152, behind [0, 1, 2, 3, 4, 6]),
    (153, closed 3 ++ group 3 [0, 1, 2, 3, 6] ++ octet 3 [0]),
    (154, closed 2 ++ group 2 [0, 1, 2, 3, 6]), (155, closed 1 ++ group 1 [0, 1, 2, 3, 6]),
    (156, behind [8, 9, 10, 11, 12] ++ closed 0), (157, behind [0, 1, 2, 3, 6]),
    (158, closed 3 ++ group 3 [0, 1, 2, 6] ++ octet 3 [0]), (159, closed 2 ++ group 2 [0, 1, 2, 6]),
    (160, closed 1 ++ group 1 [0, 1, 2, 6])]

/-- The states 161 to 200. -/
def rests161 : List (Nat × List (List (Expr Rule))) :=
  [
    (161, behind [9, 10, 11, 12] ++ closed 0), (162, behind [0, 1, 2, 6]),
    (163, closed 3 ++ group 3 [0, 1, 6] ++ octet 3 [0]), (164, closed 2 ++ group 2 [0, 1, 6]),
    (165, closed 1 ++ group 1 [0, 1, 6]), (166, behind [10, 11, 12] ++ closed 0),
    (167, behind [0, 1, 6]), (168, closed 3 ++ group 3 [0, 6] ++ octet 3 [0]),
    (169, closed 2 ++ group 2 [0, 6]), (170, closed 1 ++ group 1 [0, 6]),
    (171, behind [11, 12] ++ closed 0), (172, behind [0, 6]),
    (173, closed 3 ++ group 3 [6] ++ octet 3 [0]), (174, closed 2 ++ group 2 [6]),
    (175, closed 1 ++ group 1 [6]), (176, behind [12] ++ closed 0),
    (177, closed 3 ++ group 3 [6] ++ octet 3 [0, 1, 2]),
    (178, closed 2 ++ group 2 [6] ++ octet 3 [0, 1]), (179, closed 1 ++ group 1 [6] ++ octet 3 [0]),
    (180, closed 3 ++ group 3 [6] ++ octet 3 [0, 1, 4]),
    (181, closed 2 ++ group 2 [6] ++ octet 3 [0]), (182, closed 2 ++ group 2 [6] ++ octet 3 [0, 3]),
    (183, closed 3 ++ group 3 [6] ++ octet 3 [0, 1]), (184, closed 3 ++ group 3 [6]),
    (185, closed 3 ++ group 3 [0, 6] ++ octet 3 [0, 1, 2]),
    (186, closed 2 ++ group 2 [0, 6] ++ octet 3 [0, 1]),
    (187, closed 1 ++ group 1 [0, 6] ++ octet 3 [0]),
    (188, closed 3 ++ group 3 [0, 6] ++ octet 3 [0, 1, 4]),
    (189, closed 2 ++ group 2 [0, 6] ++ octet 3 [0]),
    (190, closed 2 ++ group 2 [0, 6] ++ octet 3 [0, 3]),
    (191, closed 3 ++ group 3 [0, 6] ++ octet 3 [0, 1]), (192, closed 3 ++ group 3 [0, 6]),
    (193, closed 3 ++ group 3 [0, 1, 6] ++ octet 3 [0, 1, 2]),
    (194, closed 2 ++ group 2 [0, 1, 6] ++ octet 3 [0, 1]),
    (195, closed 1 ++ group 1 [0, 1, 6] ++ octet 3 [0]),
    (196, closed 3 ++ group 3 [0, 1, 6] ++ octet 3 [0, 1, 4]),
    (197, closed 2 ++ group 2 [0, 1, 6] ++ octet 3 [0]),
    (198, closed 2 ++ group 2 [0, 1, 6] ++ octet 3 [0, 3]),
    (199, closed 3 ++ group 3 [0, 1, 6] ++ octet 3 [0, 1]), (200, closed 3 ++ group 3 [0, 1, 6])]

/-- The states 201 to 228. -/
def rests201 : List (Nat × List (List (Expr Rule))) :=
  [
    (201, closed 3 ++ group 3 [0, 1, 2, 6] ++ octet 3 [0, 1, 2]),
    (202, closed 2 ++ group 2 [0, 1, 2, 6] ++ octet 3 [0, 1]),
    (203, closed 1 ++ group 1 [0, 1, 2, 6] ++ octet 3 [0]),
    (204, closed 3 ++ group 3 [0, 1, 2, 6] ++ octet 3 [0, 1, 4]),
    (205, closed 2 ++ group 2 [0, 1, 2, 6] ++ octet 3 [0]),
    (206, closed 2 ++ group 2 [0, 1, 2, 6] ++ octet 3 [0, 3]),
    (207, closed 3 ++ group 3 [0, 1, 2, 6] ++ octet 3 [0, 1]),
    (208, closed 3 ++ group 3 [0, 1, 2, 6]),
    (209, closed 3 ++ group 3 [0, 1, 2, 3, 6] ++ octet 3 [0, 1, 2]),
    (210, closed 2 ++ group 2 [0, 1, 2, 3, 6] ++ octet 3 [0, 1]),
    (211, closed 1 ++ group 1 [0, 1, 2, 3, 6] ++ octet 3 [0]),
    (212, closed 3 ++ group 3 [0, 1, 2, 3, 6] ++ octet 3 [0, 1, 4]),
    (213, closed 2 ++ group 2 [0, 1, 2, 3, 6] ++ octet 3 [0]),
    (214, closed 2 ++ group 2 [0, 1, 2, 3, 6] ++ octet 3 [0, 3]),
    (215, closed 3 ++ group 3 [0, 1, 2, 3, 6] ++ octet 3 [0, 1]),
    (216, closed 3 ++ group 3 [0, 1, 2, 3, 6]),
    (217, closed 3 ++ group 3 [0, 1, 2, 3, 4, 6] ++ octet 3 [0, 1, 2]),
    (218, closed 2 ++ group 2 [0, 1, 2, 3, 4, 6] ++ octet 3 [0, 1]),
    (219, closed 1 ++ group 1 [0, 1, 2, 3, 4, 6] ++ octet 3 [0]),
    (220, closed 3 ++ group 3 [0, 1, 2, 3, 4, 6] ++ octet 3 [0, 1, 4]),
    (221, closed 2 ++ group 2 [0, 1, 2, 3, 4, 6] ++ octet 3 [0]),
    (222, closed 2 ++ group 2 [0, 1, 2, 3, 4, 6] ++ octet 3 [0, 3]),
    (223, closed 3 ++ group 3 [0, 1, 2, 3, 4, 6] ++ octet 3 [0, 1]),
    (224, closed 3 ++ group 3 [0, 1, 2, 3, 4, 6]), (225, literal [1]), (226, literal [2]),
    (227, literal [3]), (228, literal [4])]

/-- The states 451 to 490. -/
def rests451 : List (Nat × List (List (Expr Rule))) :=
  [
    (451, plain [0]), (452, encoded 0 [1]), (453, plain [11]), (454, encoded 0 [3]),
    (455, encoded 0 [0]), (456, plain [10]), (457, encoded 0 [2]), (458, plain [3, 4]),
    (459, plain [5]), (460, plain [7]), (461, plain [8]), (462, plain [9]), (467, encoded 0 [4, 5]),
    (468, encoded 0 [5] ++ plain [8]), (469, plain [6]), (470, encoded 0 [4]), (471, encoded 0 [4]),
    (472, encoded 0 [4]), (473, encoded 0 [4]), (474, encoded 0 [4]), (475, encoded 0 [4]),
    (476, encoded 0 [4]), (477, encoded 0 [4]), (478, encoded 0 [4]), (479, encoded 0 [4]),
    (480, encoded 0 [4]), (481, encoded 0 [4]), (482, encoded 0 [4]), (483, encoded 0 [4]),
    (484, encoded 0 [4]), (485, encoded 0 [4]), (486, encoded 0 [4]), (487, encoded 0 [4]),
    (488, encoded 0 [4]), (489, encoded 0 [5] ++ plain [9]), (490, encoded 0 [4, 5])]

/-- The states 491 to 510. -/
def rests491 : List (Nat × List (List (Expr Rule))) :=
  [
    (491, encoded 0 [4, 5]), (492, encoded 0 [4, 5]), (493, encoded 0 [4, 5]),
    (494, encoded 0 [4, 5]), (495, encoded 0 [4, 5]), (496, encoded 0 [4, 5]),
    (497, encoded 0 [4, 5]), (498, encoded 0 [4, 5]), (499, encoded 0 [4, 5]),
    (500, encoded 0 [4, 5]), (501, encoded 0 [4, 5]), (502, encoded 0 [4, 5]),
    (503, encoded 0 [4, 5]), (504, encoded 0 [4, 5]), (505, encoded 0 [4, 5]),
    (506, encoded 0 [4, 5]), (507, encoded 0 [4, 5]), (508, encoded 0 [1] ++ plain [1]),
    (509, plain [2]), (510, plain [3, 4])]

/-- The lists of the states, each block with its last state. -/
def rests : List (Nat × List (Nat × List (List (Expr Rule)))) :=
  [(40, rests1), (80, rests41), (120, rests81), (160, rests121), (200, rests161), (228, rests201),
    (490, rests451), (510, rests491)]

/-- The first and the last state of a block, and what is to be taken off for the state that has
the same lists. -/
def copies : List (Nat × Nat × Nat) :=
  [(1, 228, 0), (229, 242, 220), (243, 244, 238), (245, 450, 222), (451, 510, 0), (511, 512, 52),
    (513, 513, 58), (514, 560, 53)]

def restsOf (cs : Nat) : Lists :=
  ((copies.find? fun e => decide (e.1 ≤ cs) && decide (cs ≤ e.2.1)).bind fun e =>
    (rests.find? fun block => decide (cs - e.2.2 ≤ block.1)).bind fun block =>
      block.2.lookup (cs - e.2.2)).getD []

/-! ## The machine keeps to the lists -/

/-- The lists of the next state are left behind each byte of the range. -/
def leaves (cs : Nat) (r : Http.Range) : Bool :=
  (r.lo == 2 && r.hi == 2) ||
    match transition r.target with
    | none => true
    | some (_, cs') => !(restsOf cs').isEmpty && (restsOf cs').all fun k =>
        within (interval r.lo r.hi) (leaving k ((restsOf cs).flatMap (heads rfc3986 40)))

theorem rows_leave : ∀ block ∈ rows, (block.2.all fun row =>
    (restsOf row.1).isEmpty || row.2.all (leaves row.1)) = true := by
  intro block hblock
  simp only [rows, List.mem_cons, List.not_mem_nil, or_false] at hblock
  rcases hblock with rfl | rfl | rfl | rfl | rfl | rfl | rfl | rfl | rfl | rfl | rfl | rfl | rfl |
    rfl <;> decide +kernel

/-- A state from which the text may end has a list that may end. -/
theorem finals_end : ((List.range 110).all fun i =>
    (restsOf (uriParserFirstFinal + i)).isEmpty ||
      (restsOf (uriParserFirstFinal + i)).any (ends rfc3986 40)) = true := by
  decide +kernel

theorem leaves_of_state {cs cs' : Nat} {c : UInt8} (hcs : restsOf cs ≠ []) (hc : c ≠ 2)
    (h : state cs c = some cs') : restsOf cs' ≠ [] ∧ ∀ k ∈ restsOf cs',
      has (leaving k ((restsOf cs).flatMap (heads rfc3986 40))) c = true := by
  obtain ⟨⟨as, cs₁⟩, hnext, rfl⟩ := Option.map_eq_some_iff.mp h
  obtain ⟨block, hblock, ranges, hmem, r, hr, hcovers, htarget⟩ := exists_range hnext
  obtain ⟨-, hlo, hhi⟩ := covers_iff.mp hcovers
  have hrow := List.all_eq_true.mp (rows_leave block hblock) _ hmem
  have hempty : (restsOf cs).isEmpty = false := List.isEmpty_eq_false_iff.mpr hcs
  rw [hempty, Bool.false_or] at hrow
  have hleaves := List.all_eq_true.mp hrow r hr
  rw [leaves, htarget, Bool.or_eq_true, Bool.and_eq_true, beq_iff_eq, beq_iff_eq] at hleaves
  rcases hleaves with ⟨hlo2, hhi2⟩ | hleaves
  · have htwo : c.toNat = (2 : UInt8).toNat :=
      Nat.le_antisymm (hhi.trans_eq hhi2) (hlo2.symm.trans_le hlo)
    exact absurd (UInt8.toNat_inj.mp htwo) hc
  · simp only [Bool.and_eq_true, Bool.not_eq_true', List.isEmpty_eq_false_iff,
      List.all_eq_true] at hleaves
    exact ⟨hleaves.1, fun k hk => has_of_within (hleaves.2 k hk) (has_interval.mpr ⟨hlo, hhi⟩)⟩

theorem ends_of_final {cs : Nat} (hcs : restsOf cs ≠ []) (hfinal : uriParserFirstFinal ≤ cs) :
    ∃ k ∈ restsOf cs, ends rfc3986 40 k = true := by
  have hlt : cs < uriParserFirstFinal + 110 := by
    cases hfind : copies.find? fun e => decide (e.1 ≤ cs) && decide (cs ≤ e.2.1) with
    | none =>
        rw [restsOf, hfind] at hcs
        exact absurd rfl hcs
    | some e =>
        have hlast : copies.all (fun e => decide (e.2.1 ≤ 560)) = true := by decide
        have hmem := List.all_eq_true.mp hlast e (List.mem_of_find?_eq_some hfind)
        have hfound := List.find?_some (p := fun e : Nat × Nat × Nat =>
          decide (e.1 ≤ cs) && decide (cs ≤ e.2.1)) hfind
        have := of_decide_eq_true hmem
        have := of_decide_eq_true (Bool.and_eq_true_iff.mp hfound).2
        show cs < 451 + 110
        omega
  have hall := List.all_eq_true.mp finals_end (cs - uriParserFirstFinal)
    (List.mem_range.mpr (by omega))
  rw [Nat.add_sub_cancel' hfinal] at hall
  rcases Bool.or_eq_true_iff.mp hall with hempty | hany
  · exact absurd (List.isEmpty_iff.mp hempty) hcs
  · exact List.any_eq_true.mp hany

/-! ## References of RFC 3986 -/

/-- The text is a URI reference, with the bytes from 128 on in `pchar`. -/
def IsReference (text : List UInt8) : Prop :=
  Derives rfc3986 (.rule .uriReference) text

/-- The text has no control character of ASCII and no space. -/
def Printable (text : List UInt8) : Prop :=
  ∀ c ∈ text, 32 < c.toNat ∧ c.toNat ≠ 127

/-- The bytes of the rules. -/
def legal : Nat :=
  pcharBytes ||| byte 37 ||| slash ||| question ||| hash ||| byte 91 ||| byte 93

theorem rfc3986_only (r : Rule) : (rfc3986 r).only legal = true := by
  cases r <;> decide

theorem printable_of_isReference {text : List UInt8} (h : IsReference text) : Printable text := by
  intro c hc
  have hlegal := h.only rfc3986_only rfl c hc
  have hall : ∀ n < 256, has legal (UInt8.ofNat n) = true → 32 < n ∧ n ≠ 127 := by
    decide +kernel
  have hofNat : UInt8.ofNat c.toNat = c := UInt8.ofNat_toNat
  exact hall c.toNat c.toNat_lt (by rw [hofNat]; exact hlegal)

theorem isReference_of_create {text : List UInt8} {uri : Uri}
    (h : create text = some (some uri)) (htext : 2 ∉ text) : IsReference text := by
  obtain ⟨cs, hmoves, hfinal⟩ := moves_of_create h
  have hstart : restsOf uriParserStart = [[.rule .uriReference]] := by rfl
  obtain ⟨k, hk, hderives⟩ := derives_of_run (fun cs c cs' => leaves_of_state)
    (fun cs => ends_of_final) text uriParserStart cs (by simp [hstart])
    (fun c hc heq => htext (heq ▸ hc)) hmoves hfinal
  rw [hstart, List.mem_singleton] at hk
  subst hk
  exact derivesAll_singleton.mp hderives

/-- What is accepted is a reference of RFC 3986 if and only if it has no byte 2. -/
theorem reference_iff {text : List UInt8} {uri : Uri} (h : create text = some (some uri)) :
    IsReference text ∧ Printable text ↔ 2 ∉ text := by
  constructor
  · rintro ⟨-, hprintable⟩ hmem
    exact absurd (hprintable 2 hmem).1 (by decide)
  · intro htext
    have href := isReference_of_create h htext
    exact ⟨href, printable_of_isReference href⟩

/-- `h://h`. -/
theorem reference_iff_host : IsReference [104, 58, 47, 47, 104] ∧
    Printable [104, 58, 47, 47, 104] ↔ 2 ∉ ([104, 58, 47, 47, 104] : List UInt8) := by
  have hcreate : create [104, 58, 47, 47, 104] =
      some (some { scheme := [104], host := [104] }) := by decide
  exact reference_iff hcreate

/-- `//`, a byte 2 and `00.1.1.1`. -/
theorem reference_two : ¬∀ (text : List UInt8) (uri : Uri), create text = some (some uri) →
    IsReference text ∧ Printable text := by
  intro h
  have hcreate : create [47, 47, 2, 48, 48, 46, 49, 46, 49, 46, 49] =
      some (some { host := [2, 48, 48, 46, 49, 46, 49, 46, 49] }) := by decide
  exact absurd ((h _ _ hcreate).2 2 (by decide)).1 (by decide)

end CoLib.Uri
