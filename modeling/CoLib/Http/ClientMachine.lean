/-
# `CoLib.Http.ClientMachine` — the response machine of `httpclient_parser.cc`

`httpclient_parser_execute` is generated from `httpclient_parser.rl`, in the same way as
the request machine.  In the grammar a header line is a transfer encoding, a `Connection:
close`, a content length or a field of any name; the alternatives are followed side by
side, so that the transitions of one line run the actions of several of them.

A `char` is signed: the comparisons of the switches are with bytes from -128 on, and
`*p` from 128 on is one of the bytes below 0.
-/
import CoLib.Http.Machine

namespace CoLib.Http

/-- The actions of `httpclient_parser.rl`. -/
inductive ClientAction where
  | mark
  | startField
  | writeField
  | startValue
  | writeContentLen
  | writeConnectionClose
  | writeValue
  | reasonPhrase
  | statusCode
  | httpVersion
  | chunkSize
  | transChunked
  | done
  deriving DecidableEq, Repr

/-! ## The tables -/

/-- The transitions with actions. -/
def clientTransitions : List (Nat × List ClientAction × Nat) :=
  [
    (0, [.mark], 2),
    (2, [.mark], 8),
    (3, [.chunkSize, .done], 120),
    (4, [.chunkSize], 3),
    (6, [.chunkSize], 4),
    (7, [.done], 120),
    (8, [.startField], 5),
    (9, [.writeField, .startValue, .writeValue, .done], 120),
    (10, [.writeField, .startValue, .writeValue], 3),
    (12, [.writeField, .startValue, .writeValue], 4),
    (13, [.writeField, .startValue], 6),
    (14, [.startValue], 7),
    (15, [.writeValue, .done], 120),
    (16, [.writeValue], 3),
    (18, [.writeValue], 4),
    (26, [.httpVersion], 16),
    (27, [.mark], 17),
    (28, [.statusCode], 18),
    (30, [.mark], 19),
    (32, [.reasonPhrase], 20),
    (33, [.reasonPhrase], 24),
    (35, [.startField], 21),
    (36, [.startField], 25),
    (37, [.startField], 44),
    (39, [.writeField], 22),
    (40, [.startValue], 23),
    (41, [.startValue], 22),
    (42, [.startValue, .writeValue], 20),
    (43, [.startValue, .writeValue], 24),
    (45, [.writeValue], 20),
    (46, [.writeValue], 24),
    (58, [.writeField], 35),
    (59, [.startValue], 35),
    (60, [.startValue, .writeValue], 36),
    (61, [.startValue, .writeValue], 95),
    (62, [.startValue], 96),
    (64, [.done], 122),
    (66, [.startField], 90),
    (74, [.writeConnectionClose, .done], 120),
    (75, [.writeConnectionClose], 3),
    (76, [.writeConnectionClose, .startField], 21),
    (77, [.writeConnectionClose, .startField], 25),
    (78, [.writeConnectionClose, .startField], 44),
    (95, [.writeField], 61),
    (96, [.startValue], 61),
    (97, [.startValue, .writeValue], 62),
    (98, [.startValue, .writeValue], 80),
    (99, [.startValue], 81),
    (101, [.done], 121),
    (103, [.startValue, .startField], 73),
    (104, [.startValue], 64),
    (111, [.writeValue, .transChunked], 20),
    (112, [.writeValue], 71),
    (113, [.transChunked], 20),
    (136, [.writeValue], 43),
    (137, [.writeValue], 88),
    (148, [.writeField], 112),
    (149, [.startValue], 112),
    (150, [.startValue, .writeValue], 113),
    (151, [.startValue, .writeValue], 118),
    (152, [.startValue], 119),
    (154, [.done], 123),
    (156, [.startValue, .startField], 117),
    (157, [.startValue], 115),
    (158, [.writeContentLen, .writeValue], 20),
    (159, [.writeContentLen, .writeValue], 24)]

/-- The switches of the states 1 to 60. -/
def clientRows1 : List (Nat × List Range) :=
  [
    (1, [tr 48 57 0, tr 65 70 0, tr 72 72 2, tr 97 102 0]),
    (2, [tr 10 10 3, tr 13 13 4, st 48 57 2, tr 59 59 6, st 65 70 2, st 97 102 2]),
    (3, [tr 10 10 7]),
    (4, [tr 33 33 8, tr 35 39 8, tr 42 43 8, tr 45 46 8, tr 48 57 8, tr 65 90 8, tr 94 122 8,
         tr 124 124 8, tr 126 126 8]),
    (5, [tr 10 10 9, tr 13 13 10, st 33 33 5, st 35 39 5, st 42 43 5, st 45 46 5, st 48 57 5,
         tr 59 59 12, tr 61 61 13, st 65 90 5, st 94 122 5, st 124 124 5, st 126 126 5]),
    (6, [tr 33 33 14, tr 35 39 14, tr 42 43 14, tr 45 46 14, tr 48 57 14, tr 65 90 14,
         tr 94 122 14, tr 124 124 14, tr 126 126 14]),
    (7, [tr 10 10 15, tr 13 13 16, st 33 33 7, st 35 39 7, st 42 43 7, st 45 46 7, st 48 57 7,
         tr 59 59 18, st 65 90 7, st 94 122 7, st 124 124 7, st 126 126 7]),
    (8, [st 84 84 9]),
    (9, [st 84 84 10]),
    (10, [st 80 80 11]),
    (11, [st 47 47 12]),
    (12, [st 48 57 13]),
    (13, [st 46 46 14, st 48 57 13]),
    (14, [st 48 57 15]),
    (15, [tr 32 32 26, st 48 57 15]),
    (16, [tr 48 57 27]),
    (17, [tr 32 32 28, st 48 57 17]),
    (18, [tr 0 9 30, tr 11 255 30]),
    (19, [st 0 9 19, tr 10 10 32, st 11 12 19, tr 13 13 33, st 14 255 19]),
    (20, [tr 10 10 7, st 13 13 3, tr 33 33 35, tr 35 39 35, tr 42 43 35, tr 45 46 35,
          tr 48 57 35, tr 65 66 35, tr 67 67 36, tr 68 83 35, tr 84 84 37, tr 85 90 35,
          tr 94 98 35, tr 99 99 36, tr 100 115 35, tr 116 116 37, tr 117 122 35, tr 124 124 35,
          tr 126 126 35]),
    (21, [st 33 33 21, st 35 39 21, st 42 43 21, st 45 46 21, st 48 57 21, tr 58 58 39,
          st 65 90 21, st 94 122 21, st 124 124 21, st 126 126 21]),
    (22, [tr 0 8 40, tr 9 9 41, tr 10 10 42, tr 11 12 41, tr 13 13 43, tr 14 31 40, tr 32 32 41,
          tr 33 255 40]),
    (23, [st 0 9 23, tr 10 10 45, st 11 12 23, tr 13 13 46, st 14 255 23]),
    (24, [st 10 10 20]),
    (25, [st 33 33 21, st 35 39 21, st 42 43 21, st 45 46 21, st 48 57 21, tr 58 58 39,
          st 65 78 21, st 79 79 26, st 80 90 21, st 94 110 21, st 111 111 26, st 112 122 21,
          st 124 124 21, st 126 126 21]),
    (26, [st 33 33 21, st 35 39 21, st 42 43 21, st 45 46 21, st 48 57 21, tr 58 58 39,
          st 65 77 21, st 78 78 27, st 79 90 21, st 94 109 21, st 110 110 27, st 111 122 21,
          st 124 124 21, st 126 126 21]),
    (27, [st 33 33 21, st 35 39 21, st 42 43 21, st 45 46 21, st 48 57 21, tr 58 58 39,
          st 65 77 21, st 78 78 28, st 79 83 21, st 84 84 101, st 85 90 21, st 94 109 21,
          st 110 110 28, st 111 115 21, st 116 116 101, st 117 122 21, st 124 124 21,
          st 126 126 21]),
    (28, [st 33 33 21, st 35 39 21, st 42 43 21, st 45 46 21, st 48 57 21, tr 58 58 39,
          st 65 68 21, st 69 69 29, st 70 90 21, st 94 100 21, st 101 101 29, st 102 122 21,
          st 124 124 21, st 126 126 21]),
    (29, [st 33 33 21, st 35 39 21, st 42 43 21, st 45 46 21, st 48 57 21, tr 58 58 39,
          st 65 66 21, st 67 67 30, st 68 90 21, st 94 98 21, st 99 99 30, st 100 122 21,
          st 124 124 21, st 126 126 21]),
    (30, [st 33 33 21, st 35 39 21, st 42 43 21, st 45 46 21, st 48 57 21, tr 58 58 39,
          st 65 83 21, st 84 84 31, st 85 90 21, st 94 115 21, st 116 116 31, st 117 122 21,
          st 124 124 21, st 126 126 21]),
    (31, [st 33 33 21, st 35 39 21, st 42 43 21, st 45 46 21, st 48 57 21, tr 58 58 39,
          st 65 72 21, st 73 73 32, st 74 90 21, st 94 104 21, st 105 105 32, st 106 122 21,
          st 124 124 21, st 126 126 21]),
    (32, [st 33 33 21, st 35 39 21, st 42 43 21, st 45 46 21, st 48 57 21, tr 58 58 39,
          st 65 78 21, st 79 79 33, st 80 90 21, st 94 110 21, st 111 111 33, st 112 122 21,
          st 124 124 21, st 126 126 21]),
    (33, [st 33 33 21, st 35 39 21, st 42 43 21, st 45 46 21, st 48 57 21, tr 58 58 39,
          st 65 77 21, st 78 78 34, st 79 90 21, st 94 109 21, st 110 110 34, st 111 122 21,
          st 124 124 21, st 126 126 21]),
    (34, [st 33 33 21, st 35 39 21, st 42 43 21, st 45 46 21, st 48 57 21, tr 58 58 58,
          st 65 90 21, st 94 122 21, st 124 124 21, st 126 126 21]),
    (35, [tr 0 8 40, tr 9 9 59, tr 10 10 60, tr 11 12 59, tr 13 13 61, tr 14 31 40, tr 32 32 59,
          tr 33 66 40, tr 67 67 62, tr 68 98 40, tr 99 99 62, tr 100 255 40]),
    (36, [st 9 9 37, tr 10 10 64, st 11 12 37, st 13 13 89, st 32 32 37, tr 33 33 35,
          tr 35 39 35, tr 42 43 35, tr 45 46 35, tr 48 57 35, tr 65 66 35, tr 67 67 66,
          tr 68 83 35, tr 84 84 37, tr 85 90 35, tr 94 98 35, tr 99 99 66, tr 100 115 35,
          tr 116 116 37, tr 117 122 35, tr 124 124 35, tr 126 126 35]),
    (37, [st 9 13 37, st 32 32 37, st 67 67 38, st 99 99 38]),
    (38, [st 76 76 39, st 108 108 39]),
    (39, [st 79 79 40, st 111 111 40]),
    (40, [st 83 83 41, st 115 115 41]),
    (41, [st 69 69 42, st 101 101 42]),
    (42, [st 10 10 43, st 13 13 88]),
    (43, [tr 10 10 74, tr 13 13 75, tr 33 33 76, tr 35 39 76, tr 42 43 76, tr 45 46 76,
          tr 48 57 76, tr 65 66 76, tr 67 67 77, tr 68 83 76, tr 84 84 78, tr 85 90 76,
          tr 94 98 76, tr 99 99 77, tr 100 115 76, tr 116 116 78, tr 117 122 76, tr 124 124 76,
          tr 126 126 76]),
    (44, [st 33 33 21, st 35 39 21, st 42 43 21, st 45 46 21, st 48 57 21, tr 58 58 39,
          st 65 81 21, st 82 82 45, st 83 90 21, st 94 113 21, st 114 114 45, st 115 122 21,
          st 124 124 21, st 126 126 21]),
    (45, [st 33 33 21, st 35 39 21, st 42 43 21, st 45 46 21, st 48 57 21, tr 58 58 39,
          st 65 65 46, st 66 90 21, st 94 96 21, st 97 97 46, st 98 122 21, st 124 124 21,
          st 126 126 21]),
    (46, [st 33 33 21, st 35 39 21, st 42 43 21, st 45 46 21, st 48 57 21, tr 58 58 39,
          st 65 77 21, st 78 78 47, st 79 90 21, st 94 109 21, st 110 110 47, st 111 122 21,
          st 124 124 21, st 126 126 21]),
    (47, [st 33 33 21, st 35 39 21, st 42 43 21, st 45 46 21, st 48 57 21, tr 58 58 39,
          st 65 82 21, st 83 83 48, st 84 90 21, st 94 114 21, st 115 115 48, st 116 122 21,
          st 124 124 21, st 126 126 21]),
    (48, [st 33 33 21, st 35 39 21, st 42 43 21, st 45 46 21, st 48 57 21, tr 58 58 39,
          st 65 69 21, st 70 70 49, st 71 90 21, st 94 101 21, st 102 102 49, st 103 122 21,
          st 124 124 21, st 126 126 21]),
    (49, [st 33 33 21, st 35 39 21, st 42 43 21, st 45 46 21, st 48 57 21, tr 58 58 39,
          st 65 68 21, st 69 69 50, st 70 90 21, st 94 100 21, st 101 101 50, st 102 122 21,
          st 124 124 21, st 126 126 21]),
    (50, [st 33 33 21, st 35 39 21, st 42 43 21, st 45 46 21, st 48 57 21, tr 58 58 39,
          st 65 81 21, st 82 82 51, st 83 90 21, st 94 113 21, st 114 114 51, st 115 122 21,
          st 124 124 21, st 126 126 21]),
    (51, [st 33 33 21, st 35 39 21, st 42 43 21, st 45 45 52, st 46 46 21, st 48 57 21,
          tr 58 58 39, st 65 90 21, st 94 122 21, st 124 124 21, st 126 126 21]),
    (52, [st 33 33 21, st 35 39 21, st 42 43 21, st 45 46 21, st 48 57 21, tr 58 58 39,
          st 65 68 21, st 69 69 53, st 70 90 21, st 94 100 21, st 101 101 53, st 102 122 21,
          st 124 124 21, st 126 126 21]),
    (53, [st 33 33 21, st 35 39 21, st 42 43 21, st 45 46 21, st 48 57 21, tr 58 58 39,
          st 65 77 21, st 78 78 54, st 79 90 21, st 94 109 21, st 110 110 54, st 111 122 21,
          st 124 124 21, st 126 126 21]),
    (54, [st 33 33 21, st 35 39 21, st 42 43 21, st 45 46 21, st 48 57 21, tr 58 58 39,
          st 65 66 21, st 67 67 55, st 68 90 21, st 94 98 21, st 99 99 55, st 100 122 21,
          st 124 124 21, st 126 126 21]),
    (55, [st 33 33 21, st 35 39 21, st 42 43 21, st 45 46 21, st 48 57 21, tr 58 58 39,
          st 65 78 21, st 79 79 56, st 80 90 21, st 94 110 21, st 111 111 56, st 112 122 21,
          st 124 124 21, st 126 126 21]),
    (56, [st 33 33 21, st 35 39 21, st 42 43 21, st 45 46 21, st 48 57 21, tr 58 58 39,
          st 65 67 21, st 68 68 57, st 69 90 21, st 94 99 21, st 100 100 57, st 101 122 21,
          st 124 124 21, st 126 126 21]),
    (57, [st 33 33 21, st 35 39 21, st 42 43 21, st 45 46 21, st 48 57 21, tr 58 58 39,
          st 65 72 21, st 73 73 58, st 74 90 21, st 94 104 21, st 105 105 58, st 106 122 21,
          st 124 124 21, st 126 126 21]),
    (58, [st 33 33 21, st 35 39 21, st 42 43 21, st 45 46 21, st 48 57 21, tr 58 58 39,
          st 65 77 21, st 78 78 59, st 79 90 21, st 94 109 21, st 110 110 59, st 111 122 21,
          st 124 124 21, st 126 126 21]),
    (59, [st 33 33 21, st 35 39 21, st 42 43 21, st 45 46 21, st 48 57 21, tr 58 58 39,
          st 65 70 21, st 71 71 60, st 72 90 21, st 94 102 21, st 103 103 60, st 104 122 21,
          st 124 124 21, st 126 126 21]),
    (60, [st 33 33 21, st 35 39 21, st 42 43 21, st 45 46 21, st 48 57 21, tr 58 58 95,
          st 65 90 21, st 94 122 21, st 124 124 21, st 126 126 21])]

/-- The switches of the states 61 to 123. -/
def clientRows61 : List (Nat × List Range) :=
  [
    (61, [tr 0 8 40, tr 9 9 96, tr 10 10 97, tr 11 12 96, tr 13 13 98, tr 14 31 40, tr 32 32 96,
          tr 33 66 40, tr 67 67 99, tr 68 98 40, tr 99 99 99, tr 100 255 40]),
    (62, [st 9 9 63, tr 10 10 101, st 11 12 63, st 13 13 72, st 32 32 63, tr 33 33 35,
          tr 35 39 35, tr 42 43 35, tr 45 46 35, tr 48 57 35, tr 65 66 35, tr 67 67 103,
          tr 68 83 35, tr 84 84 37, tr 85 90 35, tr 94 98 35, tr 99 99 103, tr 100 115 35,
          tr 116 116 37, tr 117 122 35, tr 124 124 35, tr 126 126 35]),
    (63, [st 9 13 63, st 32 32 63, tr 67 67 104, tr 99 99 104]),
    (64, [st 72 72 65, st 104 104 65]),
    (65, [st 85 85 66, st 117 117 66]),
    (66, [st 78 78 67, st 110 110 67]),
    (67, [st 75 75 68, st 107 107 68]),
    (68, [st 69 69 69, st 101 101 69]),
    (69, [st 68 68 70, st 100 100 70]),
    (70, [tr 10 10 111, tr 13 13 112]),
    (71, [tr 10 10 113]),
    (72, [st 9 9 63, tr 10 10 101, st 11 13 63, st 32 32 63, tr 67 67 104, tr 99 99 104]),
    (73, [st 33 33 21, st 35 39 21, st 42 43 21, st 45 46 21, st 48 57 21, tr 58 58 39,
          st 65 71 21, st 72 72 74, st 73 78 21, st 79 79 26, st 80 90 21, st 94 103 21,
          st 104 104 74, st 105 110 21, st 111 111 26, st 112 122 21, st 124 124 21,
          st 126 126 21]),
    (74, [st 33 33 21, st 35 39 21, st 42 43 21, st 45 46 21, st 48 57 21, tr 58 58 39,
          st 65 84 21, st 85 85 75, st 86 90 21, st 94 116 21, st 117 117 75, st 118 122 21,
          st 124 124 21, st 126 126 21]),
    (75, [st 33 33 21, st 35 39 21, st 42 43 21, st 45 46 21, st 48 57 21, tr 58 58 39,
          st 65 77 21, st 78 78 76, st 79 90 21, st 94 109 21, st 110 110 76, st 111 122 21,
          st 124 124 21, st 126 126 21]),
    (76, [st 33 33 21, st 35 39 21, st 42 43 21, st 45 46 21, st 48 57 21, tr 58 58 39,
          st 65 74 21, st 75 75 77, st 76 90 21, st 94 106 21, st 107 107 77, st 108 122 21,
          st 124 124 21, st 126 126 21]),
    (77, [st 33 33 21, st 35 39 21, st 42 43 21, st 45 46 21, st 48 57 21, tr 58 58 39,
          st 65 68 21, st 69 69 78, st 70 90 21, st 94 100 21, st 101 101 78, st 102 122 21,
          st 124 124 21, st 126 126 21]),
    (78, [st 33 33 21, st 35 39 21, st 42 43 21, st 45 46 21, st 48 57 21, tr 58 58 39,
          st 65 67 21, st 68 68 79, st 69 90 21, st 94 99 21, st 100 100 79, st 101 122 21,
          st 124 124 21, st 126 126 21]),
    (79, [tr 10 10 111, tr 13 13 112, st 33 33 21, st 35 39 21, st 42 43 21, st 45 46 21,
          st 48 57 21, tr 58 58 39, st 65 90 21, st 94 122 21, st 124 124 21, st 126 126 21]),
    (80, [st 9 9 63, st 10 10 62, st 11 13 63, st 32 32 63, tr 67 67 104, tr 99 99 104]),
    (81, [st 0 9 23, tr 10 10 45, st 11 12 23, tr 13 13 46, st 14 71 23, st 72 72 82,
          st 73 103 23, st 104 104 82, st 105 255 23]),
    (82, [st 0 9 23, tr 10 10 45, st 11 12 23, tr 13 13 46, st 14 84 23, st 85 85 83,
          st 86 116 23, st 117 117 83, st 118 255 23]),
    (83, [st 0 9 23, tr 10 10 45, st 11 12 23, tr 13 13 46, st 14 77 23, st 78 78 84,
          st 79 109 23, st 110 110 84, st 111 255 23]),
    (84, [st 0 9 23, tr 10 10 45, st 11 12 23, tr 13 13 46, st 14 74 23, st 75 75 85,
          st 76 106 23, st 107 107 85, st 108 255 23]),
    (85, [st 0 9 23, tr 10 10 45, st 11 12 23, tr 13 13 46, st 14 68 23, st 69 69 86,
          st 70 100 23, st 101 101 86, st 102 255 23]),
    (86, [st 0 9 23, tr 10 10 45, st 11 12 23, tr 13 13 46, st 14 67 23, st 68 68 87,
          st 69 99 23, st 100 100 87, st 101 255 23]),
    (87, [st 0 9 23, tr 10 10 111, st 11 12 23, tr 13 13 112, st 14 255 23]),
    (88, [st 10 10 43]),
    (89, [st 9 9 37, tr 10 10 64, st 11 13 37, st 32 32 37, st 67 67 38, st 99 99 38]),
    (90, [st 33 33 21, st 35 39 21, st 42 43 21, st 45 46 21, st 48 57 21, tr 58 58 39,
          st 65 75 21, st 76 76 91, st 77 78 21, st 79 79 26, st 80 90 21, st 94 107 21,
          st 108 108 91, st 109 110 21, st 111 111 26, st 112 122 21, st 124 124 21,
          st 126 126 21]),
    (91, [st 33 33 21, st 35 39 21, st 42 43 21, st 45 46 21, st 48 57 21, tr 58 58 39,
          st 65 78 21, st 79 79 92, st 80 90 21, st 94 110 21, st 111 111 92, st 112 122 21,
          st 124 124 21, st 126 126 21]),
    (92, [st 33 33 21, st 35 39 21, st 42 43 21, st 45 46 21, st 48 57 21, tr 58 58 39,
          st 65 82 21, st 83 83 93, st 84 90 21, st 94 114 21, st 115 115 93, st 116 122 21,
          st 124 124 21, st 126 126 21]),
    (93, [st 33 33 21, st 35 39 21, st 42 43 21, st 45 46 21, st 48 57 21, tr 58 58 39,
          st 65 68 21, st 69 69 94, st 70 90 21, st 94 100 21, st 101 101 94, st 102 122 21,
          st 124 124 21, st 126 126 21]),
    (94, [st 10 10 43, st 13 13 88, st 33 33 21, st 35 39 21, st 42 43 21, st 45 46 21,
          st 48 57 21, tr 58 58 39, st 65 90 21, st 94 122 21, st 124 124 21, st 126 126 21]),
    (95, [st 9 9 37, st 10 10 36, st 11 13 37, st 32 32 37, st 67 67 38, st 99 99 38]),
    (96, [st 0 9 23, tr 10 10 45, st 11 12 23, tr 13 13 46, st 14 75 23, st 76 76 97,
          st 77 107 23, st 108 108 97, st 109 255 23]),
    (97, [st 0 9 23, tr 10 10 45, st 11 12 23, tr 13 13 46, st 14 78 23, st 79 79 98,
          st 80 110 23, st 111 111 98, st 112 255 23]),
    (98, [st 0 9 23, tr 10 10 45, st 11 12 23, tr 13 13 46, st 14 82 23, st 83 83 99,
          st 84 114 23, st 115 115 99, st 116 255 23]),
    (99, [st 0 9 23, tr 10 10 45, st 11 12 23, tr 13 13 46, st 14 68 23, st 69 69 100,
          st 70 100 23, st 101 101 100, st 102 255 23]),
    (100, [st 0 9 23, tr 10 10 136, st 11 12 23, tr 13 13 137, st 14 255 23]),
    (101, [st 33 33 21, st 35 39 21, st 42 43 21, st 45 46 21, st 48 57 21, tr 58 58 39,
           st 65 68 21, st 69 69 102, st 70 90 21, st 94 100 21, st 101 101 102, st 102 122 21,
           st 124 124 21, st 126 126 21]),
    (102, [st 33 33 21, st 35 39 21, st 42 43 21, st 45 46 21, st 48 57 21, tr 58 58 39,
           st 65 77 21, st 78 78 103, st 79 90 21, st 94 109 21, st 110 110 103, st 111 122 21,
           st 124 124 21, st 126 126 21]),
    (103, [st 33 33 21, st 35 39 21, st 42 43 21, st 45 46 21, st 48 57 21, tr 58 58 39,
           st 65 83 21, st 84 84 104, st 85 90 21, st 94 115 21, st 116 116 104, st 117 122 21,
           st 124 124 21, st 126 126 21]),
    (104, [st 33 33 21, st 35 39 21, st 42 43 21, st 45 45 105, st 46 46 21, st 48 57 21,
           tr 58 58 39, st 65 90 21, st 94 122 21, st 124 124 21, st 126 126 21]),
    (105, [st 33 33 21, st 35 39 21, st 42 43 21, st 45 46 21, st 48 57 21, tr 58 58 39,
           st 65 75 21, st 76 76 106, st 77 90 21, st 94 107 21, st 108 108 106, st 109 122 21,
           st 124 124 21, st 126 126 21]),
    (106, [st 33 33 21, st 35 39 21, st 42 43 21, st 45 46 21, st 48 57 21, tr 58 58 39,
           st 65 68 21, st 69 69 107, st 70 90 21, st 94 100 21, st 101 101 107, st 102 122 21,
           st 124 124 21, st 126 126 21]),
    (107, [st 33 33 21, st 35 39 21, st 42 43 21, st 45 46 21, st 48 57 21, tr 58 58 39,
           st 65 77 21, st 78 78 108, st 79 90 21, st 94 109 21, st 110 110 108, st 111 122 21,
           st 124 124 21, st 126 126 21]),
    (108, [st 33 33 21, st 35 39 21, st 42 43 21, st 45 46 21, st 48 57 21, tr 58 58 39,
           st 65 70 21, st 71 71 109, st 72 90 21, st 94 102 21, st 103 103 109, st 104 122 21,
           st 124 124 21, st 126 126 21]),
    (109, [st 33 33 21, st 35 39 21, st 42 43 21, st 45 46 21, st 48 57 21, tr 58 58 39,
           st 65 83 21, st 84 84 110, st 85 90 21, st 94 115 21, st 116 116 110, st 117 122 21,
           st 124 124 21, st 126 126 21]),
    (110, [st 33 33 21, st 35 39 21, st 42 43 21, st 45 46 21, st 48 57 21, tr 58 58 39,
           st 65 71 21, st 72 72 111, st 73 90 21, st 94 103 21, st 104 104 111, st 105 122 21,
           st 124 124 21, st 126 126 21]),
    (111, [st 33 33 21, st 35 39 21, st 42 43 21, st 45 46 21, st 48 57 21, tr 58 58 148,
           st 65 90 21, st 94 122 21, st 124 124 21, st 126 126 21]),
    (112, [tr 0 8 40, tr 9 9 149, tr 10 10 150, tr 11 12 149, tr 13 13 151, tr 14 31 40,
           tr 32 32 149, tr 33 47 40, tr 48 57 152, tr 58 255 40]),
    (113, [st 9 9 114, tr 10 10 154, st 11 12 114, st 13 13 116, st 32 32 114, tr 33 33 35,
           tr 35 39 35, tr 42 43 35, tr 45 46 35, tr 48 57 156, tr 65 66 35, tr 67 67 36,
           tr 68 83 35, tr 84 84 37, tr 85 90 35, tr 94 98 35, tr 99 99 36, tr 100 115 35,
           tr 116 116 37, tr 117 122 35, tr 124 124 35, tr 126 126 35]),
    (114, [st 9 13 114, st 32 32 114, tr 48 57 157]),
    (115, [tr 10 10 158, tr 13 13 159, st 48 57 115]),
    (116, [st 9 9 114, tr 10 10 154, st 11 13 114, st 32 32 114, tr 48 57 157]),
    (117, [tr 10 10 158, tr 13 13 159, st 33 33 21, st 35 39 21, st 42 43 21, st 45 46 21,
           st 48 57 117, tr 58 58 39, st 65 90 21, st 94 122 21, st 124 124 21, st 126 126 21]),
    (118, [st 9 9 114, st 10 10 113, st 11 13 114, st 32 32 114, tr 48 57 157]),
    (119, [st 0 9 23, tr 10 10 158, st 11 12 23, tr 13 13 159, st 14 47 23, st 48 57 119,
           st 58 255 23]),
    (121, [st 9 13 63, st 32 32 63, tr 67 67 104, tr 99 99 104]),
    (122, [st 9 13 37, st 32 32 37, st 67 67 38, st 99 99 38]),
    (123, [st 9 13 114, st 32 32 114, tr 48 57 157])]

/-- The switch of every state. -/
def clientRows : List (Nat × List Range) :=
  clientRows1 ++ clientRows61

/-! ## The machine -/

/-- `httpclient_parser_start` and `httpclient_parser_first_final`; the error state is `0`. -/
def httpclientParserStart : Nat := 1
def httpclientParserFirstFinal : Nat := 120
def httpclientParserError : Nat := 0

def Target.clientTransition : Target → Option (List ClientAction × Nat)
  | .st n => some ([], n)
  | .tr k => clientTransitions.lookup k

/-- One byte of the machine: the actions and the next state, `none` for `st0`. -/
def clientNext (cs : Nat) (c : UInt8) : Option (List ClientAction × Nat) :=
  (clientRows.lookup cs).bind fun row =>
    (row.find? (Range.covers false c)).bind fun r => r.target.clientTransition

/-- The machine as a scanner table.  The states from 120 on are entered by transitions that
run `done`, which leaves the loop. -/
def clientMachine : Lib.Scanner.Table Nat ClientAction where
  next := clientNext
  final cs := httpclientParserFirstFinal ≤ cs

end CoLib.Http
