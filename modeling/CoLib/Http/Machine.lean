/-
# `CoLib.Http.Machine` — the request machine of `http11_parser.cc`

`http_parser_execute` is generated from `http11_parser.rl`: a `switch` over the
state `cs` for each byte, whose cases go to `stN` (enter state `N`) or to `trK`
(run the actions of transition `K` and enter its state).  The tables below are
those cases: `rows` has, for every state, the ranges of bytes and where they go,
and `transitions` has the actions and the state of every `trK`.  A byte in no
range goes to `st0`, the error state.  The ranges of `^`, `{` and `}` that the
machine guards with `parser->uri_relaxed` are marked.

States 348 and 349 are entered only by transitions that run `done`, which
leaves the loop.
-/
import CoLib.Lib.Scanner

namespace CoLib.Http

/-- The actions of `http11_parser.rl`. -/
inductive Action where
  | mark
  | startField
  | writeField
  | startValue
  | writeValue
  | requestMethod
  | requestUri
  | fragment
  | startQuery
  | queryString
  | httpVersion
  | requestPath
  | done
  | xml
  | json
  deriving DecidableEq, Repr

/-- Where a `case` goes: `stN` or `trK`. -/
inductive Target where
  | st (n : Nat)
  | tr (k : Nat)
  deriving DecidableEq, Repr

/-- A range of bytes of one `case`, and whether `uri_relaxed` guards it. -/
structure Range where
  lo : Nat
  hi : Nat
  guarded : Bool
  target : Target
  deriving DecidableEq, Repr

def st (lo hi n : Nat) : Range := ⟨lo, hi, false, .st n⟩
def tr (lo hi k : Nat) : Range := ⟨lo, hi, false, .tr k⟩
def stRelaxed (c n : Nat) : Range := ⟨c, c, true, .st n⟩
def trRelaxed (c k : Nat) : Range := ⟨c, c, true, .tr k⟩

def Range.covers (uriRelaxed : Bool) (c : UInt8) (r : Range) : Bool :=
  r.lo ≤ c.toNat && c.toNat ≤ r.hi && (!r.guarded || uriRelaxed)

/-! ## The tables -/

/-- The transitions with actions. -/
def transitions : List (Nat × List Action × Nat) :=
  [
    (0, [.mark], 2),
    (2, [.mark], 194),
    (3, [.mark], 198),
    (4, [.requestMethod], 3),
    (6, [.mark, .requestPath, .requestUri], 4),
    (7, [.mark], 19),
    (8, [.mark, .requestPath, .requestUri], 20),
    (9, [.mark], 24),
    (10, [.mark], 33),
    (11, [.mark, .requestPath], 29),
    (12, [.mark], 173),
    (13, [.mark], 5),
    (21, [.httpVersion], 13),
    (22, [.httpVersion], 17),
    (23, [.startField], 14),
    (24, [.startField, .done], 348),
    (25, [.startField], 18),
    (27, [.writeField], 15),
    (28, [.startValue], 16),
    (29, [.startValue], 15),
    (30, [.startValue, .writeValue], 13),
    (31, [.startValue, .writeValue], 17),
    (33, [.writeValue], 13),
    (34, [.writeValue], 17),
    (36, [.done], 348),
    (37, [.requestPath, .requestUri], 4),
    (39, [.requestPath, .requestUri], 20),
    (42, [.requestPath], 29),
    (43, [.mark], 21),
    (44, [.mark, .fragment], 4),
    (45, [.mark], 22),
    (47, [.fragment], 4),
    (53, [.startQuery], 30),
    (54, [.startQuery, .queryString, .requestUri], 4),
    (55, [.startQuery, .queryString, .requestUri], 20),
    (56, [.startQuery], 31),
    (58, [.queryString, .requestUri], 4),
    (59, [.queryString, .requestUri], 20),
    (203, [.mark], 26),
    (204, [.mark], 27),
    (224, [.requestPath], 196),
    (227, [.xml, .done], 349),
    (228, [.requestPath], 199),
    (232, [.mark], 200),
    (235, [.json, .done], 349)]

/-- The switches of the states 1 to 49. -/
def rows1 : List (Nat × List Range) :=
  [
    (1, [tr 48 57 0, tr 60 60 2, tr 64 64 3, tr 65 90 0]),
    (2, [tr 32 32 4, st 48 57 175, st 65 90 175]),
    (3, [tr 32 32 6, tr 33 33 7, tr 35 35 8, tr 36 36 7, tr 37 37 9, tr 38 46 7, tr 47 47 10,
         tr 48 57 7, tr 59 59 7, tr 61 61 7, tr 63 63 11, tr 64 64 7, tr 65 90 12,
         trRelaxed 94 7, tr 95 95 7, tr 97 122 12, trRelaxed 123 7, trRelaxed 125 7, tr 126 126 7]),
    (4, [tr 72 72 13]),
    (5, [st 84 84 6]),
    (6, [st 84 84 7]),
    (7, [st 80 80 8]),
    (8, [st 47 47 9]),
    (9, [st 49 49 10]),
    (10, [st 46 46 11]),
    (11, [st 48 49 12]),
    (12, [tr 10 10 21, tr 13 13 22]),
    (13, [tr 1 8 23, tr 10 10 24, tr 11 12 23, tr 13 13 25, tr 14 31 23, tr 33 33 23,
          tr 35 39 23, tr 42 43 23, tr 45 46 23, tr 48 57 23, tr 65 90 23, tr 94 122 23,
          tr 124 124 23, tr 126 126 23]),
    (14, [st 1 8 14, st 10 31 14, st 33 33 14, st 35 39 14, st 42 43 14, st 45 46 14,
          st 48 57 14, tr 58 58 27, st 65 90 14, st 94 122 14, st 124 124 14, st 126 126 14]),
    (15, [tr 1 8 28, tr 9 9 29, tr 10 10 30, tr 11 12 28, tr 13 13 31, tr 14 31 28, tr 32 32 29,
          tr 33 126 28, tr 128 255 28]),
    (16, [st 1 9 16, tr 10 10 33, st 11 12 16, tr 13 13 34, st 14 126 16, st 128 255 16]),
    (17, [st 10 10 13]),
    (18, [st 1 8 14, tr 10 10 36, st 11 31 14, st 33 33 14, st 35 39 14, st 42 43 14,
          st 45 46 14, st 48 57 14, tr 58 58 27, st 65 90 14, st 94 122 14, st 124 124 14,
          st 126 126 14]),
    (19, [tr 32 32 37, st 33 33 19, tr 35 35 39, st 36 36 19, st 37 37 24, st 38 46 19,
          st 47 47 26, st 48 57 19, st 59 59 19, st 61 61 19, tr 63 63 42, st 64 90 19,
          stRelaxed 94 19, st 95 95 19, st 97 122 19, stRelaxed 123 19, stRelaxed 125 19,
          st 126 126 19]),
    (20, [tr 32 32 44, tr 33 33 43, tr 36 36 43, tr 37 37 45, tr 38 59 43, tr 61 61 43,
          tr 63 90 43, trRelaxed 94 43, tr 95 95 43, tr 97 122 43, trRelaxed 123 43,
          trRelaxed 125 43, tr 126 126 43, tr 128 255 43]),
    (21, [tr 32 32 47, st 33 33 21, st 36 36 21, st 37 37 22, st 38 59 21, st 61 61 21,
          st 63 90 21, stRelaxed 94 21, st 95 95 21, st 97 122 21, stRelaxed 123 21,
          stRelaxed 125 21, st 126 126 21, st 128 255 21]),
    (22, [st 48 57 23, st 65 70 23, st 97 102 23]),
    (23, [st 48 57 21, st 65 70 21, st 97 102 21]),
    (24, [st 48 57 25, st 65 70 25, st 97 102 25]),
    (25, [st 48 57 19, st 65 70 19, st 97 102 19]),
    (26, [tr 32 32 37, st 33 33 26, tr 35 35 39, st 36 36 26, st 37 37 27, st 38 59 26,
          st 61 61 26, tr 63 63 42, st 64 90 26, stRelaxed 94 26, st 95 95 26, st 97 122 26,
          stRelaxed 123 26, stRelaxed 125 26, st 126 126 26, st 128 255 26]),
    (27, [st 48 57 28, st 65 70 28, st 97 102 28]),
    (28, [st 48 57 26, st 65 70 26, st 97 102 26]),
    (29, [tr 32 32 54, tr 33 33 53, tr 35 35 55, tr 36 36 53, tr 37 37 56, tr 38 59 53,
          tr 61 61 53, tr 63 90 53, trRelaxed 94 53, tr 95 95 53, tr 97 122 53, trRelaxed 123 53,
          trRelaxed 125 53, tr 126 126 53, tr 128 255 53]),
    (30, [tr 32 32 58, st 33 33 30, tr 35 35 59, st 36 36 30, st 37 37 31, st 38 59 30,
          st 61 61 30, st 63 90 30, stRelaxed 94 30, st 95 95 30, st 97 122 30, stRelaxed 123 30,
          stRelaxed 125 30, st 126 126 30, st 128 255 30]),
    (31, [st 48 57 32, st 65 70 32, st 97 102 32]),
    (32, [st 48 57 30, st 65 70 30, st 97 102 30]),
    (33, [tr 32 32 37, st 33 33 26, tr 35 35 39, st 36 36 26, st 37 37 27, st 38 46 26,
          st 47 47 34, st 48 59 26, st 61 61 26, tr 63 63 42, st 64 90 26, stRelaxed 94 26,
          st 95 95 26, st 97 122 26, stRelaxed 123 26, stRelaxed 125 26, st 126 126 26,
          st 128 255 26]),
    (34, [tr 32 32 37, st 33 33 35, tr 35 35 39, st 36 36 35, st 37 37 36, st 38 46 35,
          st 47 47 26, st 48 57 35, st 58 58 38, st 59 59 35, st 61 61 35, tr 63 63 42,
          st 64 64 42, st 65 90 35, st 91 91 47, stRelaxed 94 35, st 95 95 35, st 97 122 35,
          stRelaxed 123 35, stRelaxed 125 35, st 126 126 35]),
    (35, [tr 32 32 37, st 33 33 35, tr 35 35 39, st 36 36 35, st 37 37 36, st 38 46 35,
          st 47 47 26, st 48 57 35, st 58 58 38, st 59 59 35, st 61 61 35, tr 63 63 42,
          st 64 64 42, st 65 90 35, stRelaxed 94 35, st 95 95 35, st 97 122 35, stRelaxed 123 35,
          stRelaxed 125 35, st 126 126 35]),
    (36, [st 48 57 37, st 65 70 37, st 97 102 37]),
    (37, [st 48 57 35, st 65 70 35, st 97 102 35]),
    (38, [tr 32 32 37, st 33 33 39, tr 35 35 39, st 36 36 39, st 37 37 40, st 38 46 39,
          st 47 47 26, st 48 57 38, st 58 59 39, st 61 61 39, tr 63 63 42, st 64 64 42,
          st 65 90 39, stRelaxed 94 39, st 95 95 39, st 97 122 39, stRelaxed 123 39,
          stRelaxed 125 39, st 126 126 39]),
    (39, [st 33 33 39, st 36 36 39, st 37 37 40, st 38 46 39, st 48 59 39, st 61 61 39,
          st 64 64 42, st 65 90 39, stRelaxed 94 39, st 95 95 39, st 97 122 39, stRelaxed 123 39,
          stRelaxed 125 39, st 126 126 39]),
    (40, [st 48 57 41, st 65 70 41, st 97 102 41]),
    (41, [st 48 57 39, st 65 70 39, st 97 102 39]),
    (42, [tr 32 32 37, st 33 33 43, tr 35 35 39, st 36 36 43, st 37 37 44, st 38 46 43,
          st 47 47 26, st 48 57 43, st 58 58 46, st 59 59 43, st 61 61 43, tr 63 63 42,
          st 65 90 43, st 91 91 47, stRelaxed 94 43, st 95 95 43, st 97 122 43, stRelaxed 123 43,
          stRelaxed 125 43, st 126 126 43]),
    (43, [tr 32 32 37, st 33 33 43, tr 35 35 39, st 36 36 43, st 37 37 44, st 38 46 43,
          st 47 47 26, st 48 57 43, st 58 58 46, st 59 59 43, st 61 61 43, tr 63 63 42,
          st 65 90 43, stRelaxed 94 43, st 95 95 43, st 97 122 43, stRelaxed 123 43,
          stRelaxed 125 43, st 126 126 43]),
    (44, [st 48 57 45, st 65 70 45, st 97 102 45]),
    (45, [st 48 57 43, st 65 70 43, st 97 102 43]),
    (46, [tr 32 32 37, tr 35 35 39, st 47 47 26, st 48 57 46, tr 63 63 42]),
    (47, [st 6 6 48, st 48 57 91, st 58 58 167, st 65 70 91, st 97 102 91, st 118 118 169]),
    (48, [st 48 57 49, st 65 70 49, st 97 102 49]),
    (49, [st 48 57 50, st 58 58 53, st 65 70 50, st 97 102 50])]

/-- The switches of the states 50 to 99. -/
def rows50 : List (Nat × List Range) :=
  [
    (50, [st 48 57 51, st 58 58 53, st 65 70 51, st 97 102 51]),
    (51, [st 48 57 52, st 58 58 53, st 65 70 52, st 97 102 52]),
    (52, [st 58 58 53]),
    (53, [st 48 48 54, st 49 49 84, st 50 50 87, st 51 57 54, st 65 70 90, st 97 102 90]),
    (54, [st 46 46 55, st 48 57 77, st 58 58 80, st 65 70 77, st 97 102 77]),
    (55, [st 48 48 56, st 49 49 72, st 50 50 74, st 51 57 56]),
    (56, [st 46 46 57]),
    (57, [st 48 48 58, st 49 49 67, st 50 50 69, st 51 57 58]),
    (58, [st 46 46 59]),
    (59, [st 48 48 60, st 49 49 62, st 50 50 64, st 51 57 60]),
    (60, [st 93 93 61]),
    (61, [tr 32 32 37, tr 35 35 39, st 47 47 26, st 58 58 46, tr 63 63 42]),
    (62, [st 48 57 63, st 93 93 61]),
    (63, [st 48 57 60, st 93 93 61]),
    (64, [st 48 48 65, st 53 53 66, st 93 93 61]),
    (65, [st 48 57 60]),
    (66, [st 48 48 60]),
    (67, [st 46 46 59, st 48 57 68]),
    (68, [st 46 46 59, st 48 57 58]),
    (69, [st 46 46 59, st 48 48 70, st 53 53 71]),
    (70, [st 48 57 58]),
    (71, [st 48 48 58]),
    (72, [st 46 46 57, st 48 57 73]),
    (73, [st 46 46 57, st 48 57 56]),
    (74, [st 46 46 57, st 48 48 75, st 53 53 76]),
    (75, [st 48 57 56]),
    (76, [st 48 48 56]),
    (77, [st 48 57 78, st 58 58 80, st 65 70 78, st 97 102 78]),
    (78, [st 48 57 79, st 58 58 80, st 65 70 79, st 97 102 79]),
    (79, [st 58 58 80]),
    (80, [st 48 57 81, st 65 70 81, st 97 102 81]),
    (81, [st 48 57 82, st 65 70 82, st 93 93 61, st 97 102 82]),
    (82, [st 48 57 83, st 65 70 83, st 93 93 61, st 97 102 83]),
    (83, [st 48 57 60, st 65 70 60, st 93 93 61, st 97 102 60]),
    (84, [st 46 46 55, st 48 57 85, st 58 58 80, st 65 70 77, st 97 102 77]),
    (85, [st 46 46 55, st 48 57 86, st 58 58 80, st 65 70 78, st 97 102 78]),
    (86, [st 46 46 55, st 48 57 79, st 58 58 80, st 65 70 79, st 97 102 79]),
    (87, [st 46 46 55, st 48 48 88, st 49 52 77, st 53 53 89, st 54 57 77, st 58 58 80,
          st 65 70 77, st 97 102 77]),
    (88, [st 48 57 86, st 58 58 80, st 65 70 78, st 97 102 78]),
    (89, [st 48 48 86, st 49 57 78, st 58 58 80, st 65 70 78, st 97 102 78]),
    (90, [st 48 57 77, st 58 58 80, st 65 70 77, st 97 102 77]),
    (91, [st 48 57 92, st 58 58 95, st 65 70 92, st 97 102 92]),
    (92, [st 48 57 93, st 58 58 95, st 65 70 93, st 97 102 93]),
    (93, [st 48 57 94, st 58 58 95, st 65 70 94, st 97 102 94]),
    (94, [st 58 58 95]),
    (95, [st 48 57 96, st 58 58 166, st 65 70 96, st 97 102 96]),
    (96, [st 48 57 97, st 58 58 100, st 65 70 97, st 97 102 97]),
    (97, [st 48 57 98, st 58 58 100, st 65 70 98, st 97 102 98]),
    (98, [st 48 57 99, st 58 58 100, st 65 70 99, st 97 102 99]),
    (99, [st 58 58 100])]

/-- The switches of the states 100 to 149. -/
def rows100 : List (Nat × List Range) :=
  [
    (100, [st 48 57 101, st 58 58 165, st 65 70 101, st 97 102 101]),
    (101, [st 48 57 102, st 58 58 105, st 65 70 102, st 97 102 102]),
    (102, [st 48 57 103, st 58 58 105, st 65 70 103, st 97 102 103]),
    (103, [st 48 57 104, st 58 58 105, st 65 70 104, st 97 102 104]),
    (104, [st 58 58 105]),
    (105, [st 48 57 106, st 58 58 164, st 65 70 106, st 97 102 106]),
    (106, [st 48 57 107, st 58 58 110, st 65 70 107, st 97 102 107]),
    (107, [st 48 57 108, st 58 58 110, st 65 70 108, st 97 102 108]),
    (108, [st 48 57 109, st 58 58 110, st 65 70 109, st 97 102 109]),
    (109, [st 58 58 110]),
    (110, [st 48 57 111, st 58 58 163, st 65 70 111, st 97 102 111]),
    (111, [st 48 57 112, st 58 58 115, st 65 70 112, st 97 102 112]),
    (112, [st 48 57 113, st 58 58 115, st 65 70 113, st 97 102 113]),
    (113, [st 48 57 114, st 58 58 115, st 65 70 114, st 97 102 114]),
    (114, [st 58 58 115]),
    (115, [st 48 57 116, st 58 58 151, st 65 70 116, st 97 102 116]),
    (116, [st 48 57 117, st 58 58 120, st 65 70 117, st 97 102 117]),
    (117, [st 48 57 118, st 58 58 120, st 65 70 118, st 97 102 118]),
    (118, [st 48 57 119, st 58 58 120, st 65 70 119, st 97 102 119]),
    (119, [st 58 58 120]),
    (120, [st 48 57 121, st 58 58 150, st 65 70 121, st 97 102 121]),
    (121, [st 48 57 122, st 58 58 125, st 65 70 122, st 97 102 122]),
    (122, [st 48 57 123, st 58 58 125, st 65 70 123, st 97 102 123]),
    (123, [st 48 57 124, st 58 58 125, st 65 70 124, st 97 102 124]),
    (124, [st 58 58 125]),
    (125, [st 48 57 121, st 58 58 126, st 65 70 121, st 97 102 121]),
    (126, [st 2 3 48, st 48 48 127, st 49 49 143, st 50 50 146, st 51 57 127, st 65 70 149,
           st 93 93 61, st 97 102 149]),
    (127, [st 46 46 55, st 48 57 128, st 58 58 131, st 65 70 128, st 93 93 61, st 97 102 128]),
    (128, [st 48 57 129, st 58 58 131, st 65 70 129, st 93 93 61, st 97 102 129]),
    (129, [st 48 57 130, st 58 58 131, st 65 70 130, st 93 93 61, st 97 102 130]),
    (130, [st 58 58 131, st 93 93 61]),
    (131, [st 48 48 132, st 49 49 136, st 50 50 139, st 51 57 132, st 65 70 142, st 97 102 142]),
    (132, [st 46 46 55, st 48 57 133, st 58 58 80, st 65 70 133, st 93 93 61, st 97 102 133]),
    (133, [st 48 57 134, st 58 58 80, st 65 70 134, st 93 93 61, st 97 102 134]),
    (134, [st 48 57 135, st 58 58 80, st 65 70 135, st 93 93 61, st 97 102 135]),
    (135, [st 58 58 80, st 93 93 61]),
    (136, [st 46 46 55, st 48 57 137, st 58 58 80, st 65 70 133, st 93 93 61, st 97 102 133]),
    (137, [st 46 46 55, st 48 57 138, st 58 58 80, st 65 70 134, st 93 93 61, st 97 102 134]),
    (138, [st 46 46 55, st 48 57 135, st 58 58 80, st 65 70 135, st 93 93 61, st 97 102 135]),
    (139, [st 46 46 55, st 48 48 140, st 49 52 133, st 53 53 141, st 54 57 133, st 58 58 80,
           st 65 70 133, st 93 93 61, st 97 102 133]),
    (140, [st 48 57 138, st 58 58 80, st 65 70 134, st 93 93 61, st 97 102 134]),
    (141, [st 48 48 138, st 49 57 134, st 58 58 80, st 65 70 134, st 93 93 61, st 97 102 134]),
    (142, [st 48 57 133, st 58 58 80, st 65 70 133, st 93 93 61, st 97 102 133]),
    (143, [st 46 46 55, st 48 57 144, st 58 58 131, st 65 70 128, st 93 93 61, st 97 102 128]),
    (144, [st 46 46 55, st 48 57 145, st 58 58 131, st 65 70 129, st 93 93 61, st 97 102 129]),
    (145, [st 46 46 55, st 48 57 130, st 58 58 131, st 65 70 130, st 93 93 61, st 97 102 130]),
    (146, [st 46 46 55, st 48 48 147, st 49 52 128, st 53 53 148, st 54 57 128, st 58 58 131,
           st 65 70 128, st 93 93 61, st 97 102 128]),
    (147, [st 48 57 145, st 58 58 131, st 65 70 129, st 93 93 61, st 97 102 129]),
    (148, [st 48 48 145, st 49 57 129, st 58 58 131, st 65 70 129, st 93 93 61, st 97 102 129]),
    (149, [st 48 57 128, st 58 58 131, st 65 70 128, st 93 93 61, st 97 102 128])]

/-- The switches of the states 150 to 199. -/
def rows150 : List (Nat × List Range) :=
  [
    (150, [st 2 3 48, st 48 48 127, st 49 49 143, st 50 50 146, st 51 57 127, st 65 70 149,
           st 97 102 149]),
    (151, [st 2 3 48, st 48 48 152, st 49 49 156, st 50 50 159, st 51 57 152, st 65 70 162,
           st 97 102 162]),
    (152, [st 46 46 55, st 48 57 153, st 58 58 131, st 65 70 153, st 97 102 153]),
    (153, [st 48 57 154, st 58 58 131, st 65 70 154, st 97 102 154]),
    (154, [st 48 57 155, st 58 58 131, st 65 70 155, st 97 102 155]),
    (155, [st 58 58 131]),
    (156, [st 46 46 55, st 48 57 157, st 58 58 131, st 65 70 153, st 97 102 153]),
    (157, [st 46 46 55, st 48 57 158, st 58 58 131, st 65 70 154, st 97 102 154]),
    (158, [st 46 46 55, st 48 57 155, st 58 58 131, st 65 70 155, st 97 102 155]),
    (159, [st 46 46 55, st 48 48 160, st 49 52 153, st 53 53 161, st 54 57 153, st 58 58 131,
           st 65 70 153, st 97 102 153]),
    (160, [st 48 57 158, st 58 58 131, st 65 70 154, st 97 102 154]),
    (161, [st 48 48 158, st 49 57 154, st 58 58 131, st 65 70 154, st 97 102 154]),
    (162, [st 48 57 153, st 58 58 131, st 65 70 153, st 97 102 153]),
    (163, [st 2 3 48, st 48 57 49, st 65 70 49, st 97 102 49]),
    (164, [st 2 3 48]),
    (165, [st 3 3 48]),
    (166, [st 4 4 48]),
    (167, [st 58 58 168]),
    (168, [st 2 5 48, st 48 48 127, st 49 49 143, st 50 50 146, st 51 57 127, st 65 70 149,
           st 93 93 61, st 97 102 149]),
    (169, [st 48 57 170, st 65 70 170, st 97 102 170]),
    (170, [st 46 46 171, st 48 57 170, st 65 70 170, st 97 102 170]),
    (171, [st 33 33 172, st 36 36 172, st 38 46 172, st 48 59 172, st 61 61 172, st 65 90 172,
           stRelaxed 94 172, st 95 95 172, st 97 122 172, stRelaxed 123 172, stRelaxed 125 172,
           st 126 126 172]),
    (172, [st 33 33 172, st 36 36 172, st 38 46 172, st 48 59 172, st 61 61 172, st 65 90 172,
           st 93 93 61, stRelaxed 94 172, st 95 95 172, st 97 122 172, stRelaxed 123 172,
           stRelaxed 125 172, st 126 126 172]),
    (173, [tr 32 32 37, st 33 33 19, tr 35 35 39, st 36 36 19, st 37 37 24, st 38 42 19,
           st 43 43 173, st 44 44 19, st 45 46 173, st 47 47 26, st 48 57 173, st 58 58 174,
           st 59 59 19, st 61 61 19, tr 63 63 42, st 64 64 19, st 65 90 173, stRelaxed 94 19,
           st 95 95 19, st 97 122 173, stRelaxed 123 19, stRelaxed 125 19, st 126 126 19]),
    (174, [tr 32 32 6, tr 33 33 203, tr 35 35 8, tr 36 36 203, tr 37 37 204, tr 38 46 203,
           tr 47 47 10, tr 48 59 203, tr 61 61 203, tr 63 63 11, tr 64 90 203, trRelaxed 94 203,
           tr 95 95 203, tr 97 122 203, trRelaxed 123 203, trRelaxed 125 203, tr 126 126 203,
           tr 128 255 203]),
    (175, [tr 32 32 4, st 48 57 176, st 65 90 176]),
    (176, [tr 32 32 4, st 48 57 177, st 65 90 177]),
    (177, [tr 32 32 4, st 48 57 178, st 65 90 178]),
    (178, [tr 32 32 4, st 48 57 179, st 65 90 179]),
    (179, [tr 32 32 4, st 48 57 180, st 65 90 180]),
    (180, [tr 32 32 4, st 48 57 181, st 65 90 181]),
    (181, [tr 32 32 4, st 48 57 182, st 65 90 182]),
    (182, [tr 32 32 4, st 48 57 183, st 65 90 183]),
    (183, [tr 32 32 4, st 48 57 184, st 65 90 184]),
    (184, [tr 32 32 4, st 48 57 185, st 65 90 185]),
    (185, [tr 32 32 4, st 48 57 186, st 65 90 186]),
    (186, [tr 32 32 4, st 48 57 187, st 65 90 187]),
    (187, [tr 32 32 4, st 48 57 188, st 65 90 188]),
    (188, [tr 32 32 4, st 48 57 189, st 65 90 189]),
    (189, [tr 32 32 4, st 48 57 190, st 65 90 190]),
    (190, [tr 32 32 4, st 48 57 191, st 65 90 191]),
    (191, [tr 32 32 4, st 48 57 192, st 65 90 192]),
    (192, [tr 32 32 4, st 48 57 193, st 65 90 193]),
    (193, [tr 32 32 4]),
    (194, [st 45 46 195, st 48 57 195, st 65 90 195, st 97 122 195]),
    (195, [tr 9 13 224, tr 32 32 224, st 45 46 195, tr 47 47 224, st 48 57 195, tr 62 62 224,
           st 65 90 195, st 97 122 195]),
    (196, [st 0 61 196, st 62 62 197, st 63 255 196]),
    (197, [tr 0 0 227, st 1 61 196, st 62 62 197, st 63 255 196]),
    (198, [tr 32 32 228, st 33 33 202, st 36 36 202, st 37 37 203, st 38 46 202, st 47 47 208,
           st 48 57 202, st 59 59 202, st 61 61 202, st 64 90 202, stRelaxed 94 202,
           st 95 95 202, st 97 122 202, stRelaxed 123 202, stRelaxed 125 202, st 126 126 202]),
    (199, [tr 123 123 232])]

/-- The switches of the states 200 to 249. -/
def rows200 : List (Nat × List Range) :=
  [
    (200, [st 0 124 200, st 125 125 201, st 126 255 200]),
    (201, [tr 0 0 235, st 1 124 200, st 125 125 201, st 126 255 200]),
    (202, [tr 32 32 228, st 33 33 202, st 36 36 202, st 37 37 203, st 38 46 202, st 47 47 205,
           st 48 57 202, st 59 59 202, st 61 61 202, st 64 90 202, stRelaxed 94 202,
           st 95 95 202, st 97 122 202, stRelaxed 123 202, stRelaxed 125 202, st 126 126 202]),
    (203, [st 48 57 204, st 65 70 204, st 97 102 204]),
    (204, [st 48 57 202, st 65 70 202, st 97 102 202]),
    (205, [tr 32 32 228, st 33 33 205, st 36 36 205, st 37 37 206, st 38 59 205, st 61 61 205,
           st 64 90 205, stRelaxed 94 205, st 95 95 205, st 97 122 205, stRelaxed 123 205,
           stRelaxed 125 205, st 126 126 205, st 128 255 205]),
    (206, [st 48 57 207, st 65 70 207, st 97 102 207]),
    (207, [st 48 57 205, st 65 70 205, st 97 102 205]),
    (208, [tr 32 32 228, st 33 33 205, st 36 36 205, st 37 37 206, st 38 46 205, st 47 47 209,
           st 48 59 205, st 61 61 205, st 64 90 205, stRelaxed 94 205, st 95 95 205,
           st 97 122 205, stRelaxed 123 205, stRelaxed 125 205, st 126 126 205, st 128 255 205]),
    (209, [tr 32 32 228, st 33 33 210, st 36 36 210, st 37 37 211, st 38 46 210, st 47 47 205,
           st 48 57 210, st 58 58 213, st 59 59 210, st 61 61 210, st 64 64 217, st 65 90 210,
           st 91 91 222, stRelaxed 94 210, st 95 95 210, st 97 122 210, stRelaxed 123 210,
           stRelaxed 125 210, st 126 126 210]),
    (210, [tr 32 32 228, st 33 33 210, st 36 36 210, st 37 37 211, st 38 46 210, st 47 47 205,
           st 48 57 210, st 58 58 213, st 59 59 210, st 61 61 210, st 64 64 217, st 65 90 210,
           stRelaxed 94 210, st 95 95 210, st 97 122 210, stRelaxed 123 210, stRelaxed 125 210,
           st 126 126 210]),
    (211, [st 48 57 212, st 65 70 212, st 97 102 212]),
    (212, [st 48 57 210, st 65 70 210, st 97 102 210]),
    (213, [tr 32 32 228, st 33 33 214, st 36 36 214, st 37 37 215, st 38 46 214, st 47 47 205,
           st 48 57 213, st 58 59 214, st 61 61 214, st 64 64 217, st 65 90 214,
           stRelaxed 94 214, st 95 95 214, st 97 122 214, stRelaxed 123 214, stRelaxed 125 214,
           st 126 126 214]),
    (214, [st 33 33 214, st 36 36 214, st 37 37 215, st 38 46 214, st 48 59 214, st 61 61 214,
           st 64 64 217, st 65 90 214, stRelaxed 94 214, st 95 95 214, st 97 122 214,
           stRelaxed 123 214, stRelaxed 125 214, st 126 126 214]),
    (215, [st 48 57 216, st 65 70 216, st 97 102 216]),
    (216, [st 48 57 214, st 65 70 214, st 97 102 214]),
    (217, [tr 32 32 228, st 33 33 218, st 36 36 218, st 37 37 219, st 38 46 218, st 47 47 205,
           st 48 57 218, st 58 58 221, st 59 59 218, st 61 61 218, st 65 90 218, st 91 91 222,
           stRelaxed 94 218, st 95 95 218, st 97 122 218, stRelaxed 123 218, stRelaxed 125 218,
           st 126 126 218]),
    (218, [tr 32 32 228, st 33 33 218, st 36 36 218, st 37 37 219, st 38 46 218, st 47 47 205,
           st 48 57 218, st 58 58 221, st 59 59 218, st 61 61 218, st 65 90 218,
           stRelaxed 94 218, st 95 95 218, st 97 122 218, stRelaxed 123 218, stRelaxed 125 218,
           st 126 126 218]),
    (219, [st 48 57 220, st 65 70 220, st 97 102 220]),
    (220, [st 48 57 218, st 65 70 218, st 97 102 218]),
    (221, [tr 32 32 228, st 47 47 205, st 48 57 221]),
    (222, [st 6 6 223, st 48 57 266, st 58 58 342, st 65 70 266, st 97 102 266, st 118 118 344]),
    (223, [st 48 57 224, st 65 70 224, st 97 102 224]),
    (224, [st 48 57 225, st 58 58 228, st 65 70 225, st 97 102 225]),
    (225, [st 48 57 226, st 58 58 228, st 65 70 226, st 97 102 226]),
    (226, [st 48 57 227, st 58 58 228, st 65 70 227, st 97 102 227]),
    (227, [st 58 58 228]),
    (228, [st 48 48 229, st 49 49 259, st 50 50 262, st 51 57 229, st 65 70 265, st 97 102 265]),
    (229, [st 46 46 230, st 48 57 252, st 58 58 255, st 65 70 252, st 97 102 252]),
    (230, [st 48 48 231, st 49 49 247, st 50 50 249, st 51 57 231]),
    (231, [st 46 46 232]),
    (232, [st 48 48 233, st 49 49 242, st 50 50 244, st 51 57 233]),
    (233, [st 46 46 234]),
    (234, [st 48 48 235, st 49 49 237, st 50 50 239, st 51 57 235]),
    (235, [st 93 93 236]),
    (236, [tr 32 32 228, st 47 47 205, st 58 58 221]),
    (237, [st 48 57 238, st 93 93 236]),
    (238, [st 48 57 235, st 93 93 236]),
    (239, [st 48 48 240, st 53 53 241, st 93 93 236]),
    (240, [st 48 57 235]),
    (241, [st 48 48 235]),
    (242, [st 46 46 234, st 48 57 243]),
    (243, [st 46 46 234, st 48 57 233]),
    (244, [st 46 46 234, st 48 48 245, st 53 53 246]),
    (245, [st 48 57 233]),
    (246, [st 48 48 233]),
    (247, [st 46 46 232, st 48 57 248]),
    (248, [st 46 46 232, st 48 57 231]),
    (249, [st 46 46 232, st 48 48 250, st 53 53 251])]

/-- The switches of the states 250 to 299. -/
def rows250 : List (Nat × List Range) :=
  [
    (250, [st 48 57 231]),
    (251, [st 48 48 231]),
    (252, [st 48 57 253, st 58 58 255, st 65 70 253, st 97 102 253]),
    (253, [st 48 57 254, st 58 58 255, st 65 70 254, st 97 102 254]),
    (254, [st 58 58 255]),
    (255, [st 48 57 256, st 65 70 256, st 97 102 256]),
    (256, [st 48 57 257, st 65 70 257, st 93 93 236, st 97 102 257]),
    (257, [st 48 57 258, st 65 70 258, st 93 93 236, st 97 102 258]),
    (258, [st 48 57 235, st 65 70 235, st 93 93 236, st 97 102 235]),
    (259, [st 46 46 230, st 48 57 260, st 58 58 255, st 65 70 252, st 97 102 252]),
    (260, [st 46 46 230, st 48 57 261, st 58 58 255, st 65 70 253, st 97 102 253]),
    (261, [st 46 46 230, st 48 57 254, st 58 58 255, st 65 70 254, st 97 102 254]),
    (262, [st 46 46 230, st 48 48 263, st 49 52 252, st 53 53 264, st 54 57 252, st 58 58 255,
           st 65 70 252, st 97 102 252]),
    (263, [st 48 57 261, st 58 58 255, st 65 70 253, st 97 102 253]),
    (264, [st 48 48 261, st 49 57 253, st 58 58 255, st 65 70 253, st 97 102 253]),
    (265, [st 48 57 252, st 58 58 255, st 65 70 252, st 97 102 252]),
    (266, [st 48 57 267, st 58 58 270, st 65 70 267, st 97 102 267]),
    (267, [st 48 57 268, st 58 58 270, st 65 70 268, st 97 102 268]),
    (268, [st 48 57 269, st 58 58 270, st 65 70 269, st 97 102 269]),
    (269, [st 58 58 270]),
    (270, [st 48 57 271, st 58 58 341, st 65 70 271, st 97 102 271]),
    (271, [st 48 57 272, st 58 58 275, st 65 70 272, st 97 102 272]),
    (272, [st 48 57 273, st 58 58 275, st 65 70 273, st 97 102 273]),
    (273, [st 48 57 274, st 58 58 275, st 65 70 274, st 97 102 274]),
    (274, [st 58 58 275]),
    (275, [st 48 57 276, st 58 58 340, st 65 70 276, st 97 102 276]),
    (276, [st 48 57 277, st 58 58 280, st 65 70 277, st 97 102 277]),
    (277, [st 48 57 278, st 58 58 280, st 65 70 278, st 97 102 278]),
    (278, [st 48 57 279, st 58 58 280, st 65 70 279, st 97 102 279]),
    (279, [st 58 58 280]),
    (280, [st 48 57 281, st 58 58 339, st 65 70 281, st 97 102 281]),
    (281, [st 48 57 282, st 58 58 285, st 65 70 282, st 97 102 282]),
    (282, [st 48 57 283, st 58 58 285, st 65 70 283, st 97 102 283]),
    (283, [st 48 57 284, st 58 58 285, st 65 70 284, st 97 102 284]),
    (284, [st 58 58 285]),
    (285, [st 48 57 286, st 58 58 338, st 65 70 286, st 97 102 286]),
    (286, [st 48 57 287, st 58 58 290, st 65 70 287, st 97 102 287]),
    (287, [st 48 57 288, st 58 58 290, st 65 70 288, st 97 102 288]),
    (288, [st 48 57 289, st 58 58 290, st 65 70 289, st 97 102 289]),
    (289, [st 58 58 290]),
    (290, [st 48 57 291, st 58 58 326, st 65 70 291, st 97 102 291]),
    (291, [st 48 57 292, st 58 58 295, st 65 70 292, st 97 102 292]),
    (292, [st 48 57 293, st 58 58 295, st 65 70 293, st 97 102 293]),
    (293, [st 48 57 294, st 58 58 295, st 65 70 294, st 97 102 294]),
    (294, [st 58 58 295]),
    (295, [st 48 57 296, st 58 58 325, st 65 70 296, st 97 102 296]),
    (296, [st 48 57 297, st 58 58 300, st 65 70 297, st 97 102 297]),
    (297, [st 48 57 298, st 58 58 300, st 65 70 298, st 97 102 298]),
    (298, [st 48 57 299, st 58 58 300, st 65 70 299, st 97 102 299]),
    (299, [st 58 58 300])]

/-- The switches of the states 300 to 348. -/
def rows300 : List (Nat × List Range) :=
  [
    (300, [st 48 57 296, st 58 58 301, st 65 70 296, st 97 102 296]),
    (301, [st 2 3 223, st 48 48 302, st 49 49 318, st 50 50 321, st 51 57 302, st 65 70 324,
           st 93 93 236, st 97 102 324]),
    (302, [st 46 46 230, st 48 57 303, st 58 58 306, st 65 70 303, st 93 93 236, st 97 102 303]),
    (303, [st 48 57 304, st 58 58 306, st 65 70 304, st 93 93 236, st 97 102 304]),
    (304, [st 48 57 305, st 58 58 306, st 65 70 305, st 93 93 236, st 97 102 305]),
    (305, [st 58 58 306, st 93 93 236]),
    (306, [st 48 48 307, st 49 49 311, st 50 50 314, st 51 57 307, st 65 70 317, st 97 102 317]),
    (307, [st 46 46 230, st 48 57 308, st 58 58 255, st 65 70 308, st 93 93 236, st 97 102 308]),
    (308, [st 48 57 309, st 58 58 255, st 65 70 309, st 93 93 236, st 97 102 309]),
    (309, [st 48 57 310, st 58 58 255, st 65 70 310, st 93 93 236, st 97 102 310]),
    (310, [st 58 58 255, st 93 93 236]),
    (311, [st 46 46 230, st 48 57 312, st 58 58 255, st 65 70 308, st 93 93 236, st 97 102 308]),
    (312, [st 46 46 230, st 48 57 313, st 58 58 255, st 65 70 309, st 93 93 236, st 97 102 309]),
    (313, [st 46 46 230, st 48 57 310, st 58 58 255, st 65 70 310, st 93 93 236, st 97 102 310]),
    (314, [st 46 46 230, st 48 48 315, st 49 52 308, st 53 53 316, st 54 57 308, st 58 58 255,
           st 65 70 308, st 93 93 236, st 97 102 308]),
    (315, [st 48 57 313, st 58 58 255, st 65 70 309, st 93 93 236, st 97 102 309]),
    (316, [st 48 48 313, st 49 57 309, st 58 58 255, st 65 70 309, st 93 93 236, st 97 102 309]),
    (317, [st 48 57 308, st 58 58 255, st 65 70 308, st 93 93 236, st 97 102 308]),
    (318, [st 46 46 230, st 48 57 319, st 58 58 306, st 65 70 303, st 93 93 236, st 97 102 303]),
    (319, [st 46 46 230, st 48 57 320, st 58 58 306, st 65 70 304, st 93 93 236, st 97 102 304]),
    (320, [st 46 46 230, st 48 57 305, st 58 58 306, st 65 70 305, st 93 93 236, st 97 102 305]),
    (321, [st 46 46 230, st 48 48 322, st 49 52 303, st 53 53 323, st 54 57 303, st 58 58 306,
           st 65 70 303, st 93 93 236, st 97 102 303]),
    (322, [st 48 57 320, st 58 58 306, st 65 70 304, st 93 93 236, st 97 102 304]),
    (323, [st 48 48 320, st 49 57 304, st 58 58 306, st 65 70 304, st 93 93 236, st 97 102 304]),
    (324, [st 48 57 303, st 58 58 306, st 65 70 303, st 93 93 236, st 97 102 303]),
    (325, [st 2 3 223, st 48 48 302, st 49 49 318, st 50 50 321, st 51 57 302, st 65 70 324,
           st 97 102 324]),
    (326, [st 2 3 223, st 48 48 327, st 49 49 331, st 50 50 334, st 51 57 327, st 65 70 337,
           st 97 102 337]),
    (327, [st 46 46 230, st 48 57 328, st 58 58 306, st 65 70 328, st 97 102 328]),
    (328, [st 48 57 329, st 58 58 306, st 65 70 329, st 97 102 329]),
    (329, [st 48 57 330, st 58 58 306, st 65 70 330, st 97 102 330]),
    (330, [st 58 58 306]),
    (331, [st 46 46 230, st 48 57 332, st 58 58 306, st 65 70 328, st 97 102 328]),
    (332, [st 46 46 230, st 48 57 333, st 58 58 306, st 65 70 329, st 97 102 329]),
    (333, [st 46 46 230, st 48 57 330, st 58 58 306, st 65 70 330, st 97 102 330]),
    (334, [st 46 46 230, st 48 48 335, st 49 52 328, st 53 53 336, st 54 57 328, st 58 58 306,
           st 65 70 328, st 97 102 328]),
    (335, [st 48 57 333, st 58 58 306, st 65 70 329, st 97 102 329]),
    (336, [st 48 48 333, st 49 57 329, st 58 58 306, st 65 70 329, st 97 102 329]),
    (337, [st 48 57 328, st 58 58 306, st 65 70 328, st 97 102 328]),
    (338, [st 2 3 223, st 48 57 224, st 65 70 224, st 97 102 224]),
    (339, [st 2 3 223]),
    (340, [st 3 3 223]),
    (341, [st 4 4 223]),
    (342, [st 58 58 343]),
    (343, [st 2 5 223, st 48 48 302, st 49 49 318, st 50 50 321, st 51 57 302, st 65 70 324,
           st 93 93 236, st 97 102 324]),
    (344, [st 48 57 345, st 65 70 345, st 97 102 345]),
    (345, [st 46 46 346, st 48 57 345, st 65 70 345, st 97 102 345]),
    (346, [st 33 33 347, st 36 36 347, st 38 46 347, st 48 59 347, st 61 61 347, st 65 90 347,
           stRelaxed 94 347, st 95 95 347, st 97 122 347, stRelaxed 123 347, stRelaxed 125 347,
           st 126 126 347]),
    (347, [st 33 33 347, st 36 36 347, st 38 46 347, st 48 59 347, st 61 61 347, st 65 90 347,
           st 93 93 236, stRelaxed 94 347, st 95 95 347, st 97 122 347, stRelaxed 123 347,
           stRelaxed 125 347, st 126 126 347]),
    (348, [st 1 8 14, st 10 31 14, st 33 33 14, st 35 39 14, st 42 43 14, st 45 46 14,
           st 48 57 14, tr 58 58 27, st 65 90 14, st 94 122 14, st 124 124 14, st 126 126 14])]

/-- The switch of every state. -/
def rows : List (Nat × List Range) :=
  rows1 ++ rows50 ++ rows100 ++ rows150 ++ rows200 ++ rows250 ++ rows300

/-! ## The machine -/

/-- `http_parser_start` and `http_parser_first_final`; the error state is `0`. -/
def httpParserStart : Nat := 1
def httpParserFirstFinal : Nat := 348
def httpParserError : Nat := 0

def Target.transition : Target → Option (List Action × Nat)
  | .st n => some ([], n)
  | .tr k => transitions.lookup k

/-- One byte of the machine: the actions and the next state, `none` for `st0`. -/
def next (uriRelaxed : Bool) (cs : Nat) (c : UInt8) : Option (List Action × Nat) :=
  (rows.lookup cs).bind fun row =>
    (row.find? (Range.covers uriRelaxed c)).bind fun r => r.target.transition

/-- The machine as a scanner table. -/
def machine (uriRelaxed : Bool) : Lib.Scanner.Table Nat Action where
  next := next uriRelaxed
  final cs := httpParserFirstFinal ≤ cs

/-- A range whose transition calls `request_method` holds the blank only. -/
def Range.methodAtBlank (_cs : Nat) (r : Range) : Bool :=
  match r.target.transition with
  | some (acts, _) => !acts.contains .requestMethod || (r.lo == 32 && r.hi == 32)
  | none => true

theorem rows_methodAtBlank :
    rows.all (fun row => row.2.all (Range.methodAtBlank row.1)) = true := by
  decide +kernel

/-- What a check finds at every range of the table holds of the range a byte is
in. -/
theorem next_of_rows {ok : Nat → Range → Bool}
    (hrows : rows.all (fun row => row.2.all (ok row.1)) = true) {uriRelaxed : Bool} {cs : Nat}
    {c : UInt8} {dest : List Action × Nat} (h : next uriRelaxed cs c = some dest) :
    ∃ r : Range, ok cs r = true ∧ r.covers uriRelaxed c = true ∧
      r.target.transition = some dest := by
  obtain ⟨row, hrow, h⟩ := Option.bind_eq_some_iff.mp h
  obtain ⟨r, hr, h⟩ := Option.bind_eq_some_iff.mp h
  obtain ⟨l, l', hsplit, -⟩ := List.lookup_eq_some_iff.mp hrow
  have hmem : (cs, row) ∈ rows := hsplit ▸ List.mem_append_right _ List.mem_cons_self
  refine ⟨r, ?_, List.find?_some hr, h⟩
  exact List.all_eq_true.mp (List.all_eq_true.mp hrows _ hmem) r (List.mem_of_find?_eq_some hr)

/-- `request_method` is called at a blank. -/
theorem next_requestMethod {uriRelaxed : Bool} {cs cs' : Nat} {c : UInt8} {acts : List Action}
    (h : next uriRelaxed cs c = some (acts, cs')) (hm : .requestMethod ∈ acts) : c = 32 := by
  obtain ⟨r, hblank, hcov, htr⟩ := next_of_rows rows_methodAtBlank h
  simp only [Range.methodAtBlank, htr, List.contains_iff_mem.mpr hm, Bool.not_true,
    Bool.false_or, Bool.and_eq_true, beq_iff_eq] at hblank
  simp only [Range.covers, hblank.1, hblank.2, Bool.and_eq_true, decide_eq_true_eq] at hcov
  exact UInt8.toNat_inj.mp (Nat.le_antisymm hcov.1.2 hcov.1.1)

end CoLib.Http
