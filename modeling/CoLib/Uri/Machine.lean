/-
# `CoLib.Uri.Machine` — the machine of `uri.cc`

The scanning loop of `Uri::Create` is generated from `uri.rl`, in the same way as the
machines of the HTTP parsers: a `switch` over the state `cs` for each byte, whose cases go
to `stN` or to `trK`.  `rows` has the ranges of bytes of every state, `transitions` the
actions and the state of every `trK`, and `eofActions` the actions of the states where the
text may end.  A byte in no range goes to `st0`, the error state.

A `char` is signed: a byte from 128 on is below every byte that a comparison names, and
takes the branch that is left.
-/
import CoLib.Http.Machine

namespace CoLib.Uri

open Http (Range st tr)

/-- The actions of `uri.rl`. -/
inductive Action where
  | marku
  | markh
  | saveScheme
  | savePort
  | saveUserinfo
  | saveHost
  | savePath
  | saveQuery
  | saveFragment
  deriving DecidableEq, Repr

/-! ## The tables -/

/-- The transitions with actions. -/
def transitions : List (Nat × List Action × Nat) :=
  [
    (38, [.saveUserinfo], 469),
    (263, [.saveUserinfo], 522),
    (461, [.marku], 508),
    (462, [.marku], 454),
    (463, [.marku], 1),
    (466, [.marku], 457),
    (467, [.marku, .saveQuery], 453),
    (468, [.marku], 7),
    (469, [.saveQuery], 453),
    (472, [.markh], 9),
    (473, [.markh], 467),
    (474, [.markh, .saveHost], 453),
    (475, [.markh], 31),
    (476, [.markh, .saveHost], 455),
    (477, [.markh], 490),
    (478, [.markh], 504),
    (479, [.markh], 506),
    (480, [.markh], 505),
    (481, [.markh, .saveHost], 468),
    (482, [.markh, .saveHost], 456),
    (483, [.markh, .saveUserinfo], 469),
    (484, [.markh], 38),
    (485, [.saveHost], 453),
    (486, [.saveHost], 455),
    (487, [.saveHost], 461),
    (488, [.saveHost], 456),
    (489, [.markh, .savePort], 453),
    (490, [.markh, .savePort], 455),
    (491, [.markh], 462),
    (492, [.markh, .savePort], 456),
    (493, [.savePort], 453),
    (494, [.savePort], 455),
    (496, [.savePort], 456),
    (499, [.saveHost], 468),
    (500, [.markh], 489),
    (501, [.markh], 470),
    (502, [.markh], 36),
    (503, [.markh], 471),
    (504, [.markh], 485),
    (505, [.markh], 487),
    (506, [.markh], 486),
    (507, [.markh, .saveHost], 461),
    (543, [.saveScheme], 509),
    (546, [.markh], 229),
    (547, [.markh], 520),
    (548, [.markh, .saveHost, .savePath], 453),
    (549, [.markh], 253),
    (550, [.markh, .saveHost], 513),
    (551, [.markh], 543),
    (552, [.markh], 557),
    (553, [.markh], 559),
    (554, [.markh], 558),
    (555, [.markh, .saveHost], 521),
    (556, [.markh, .saveHost, .savePath], 456),
    (557, [.markh, .saveUserinfo], 522),
    (558, [.markh], 260),
    (559, [.saveHost, .markh, .savePath], 453),
    (560, [.saveHost, .markh], 513),
    (561, [.saveHost], 514),
    (562, [.saveHost, .markh, .savePath], 456),
    (563, [.savePath], 453),
    (565, [.savePath], 456),
    (566, [.markh, .savePort, .savePath], 453),
    (567, [.markh, .savePort], 513),
    (568, [.markh], 515),
    (569, [.markh, .savePort, .savePath], 456),
    (570, [.savePort, .markh, .savePath], 453),
    (571, [.savePort, .markh], 513),
    (573, [.savePort, .markh, .savePath], 456),
    (576, [.saveHost], 521),
    (577, [.markh], 542),
    (578, [.markh], 523),
    (579, [.markh], 258),
    (580, [.markh], 524),
    (581, [.markh], 538),
    (582, [.markh], 540),
    (583, [.markh], 539),
    (584, [.markh, .saveHost], 514)]

/-- The actions at the end of the text, for the states from the first to the second. -/
def eofActions : List (Nat × Nat × List Action) :=
  [
    (453, 453, [.marku, .saveFragment]),
    (454, 454, [.saveFragment]),
    (456, 456, [.marku, .saveQuery]),
    (457, 457, [.saveQuery]),
    (459, 459, [.markh, .saveHost]),
    (460, 460, [.saveHost]),
    (461, 461, [.markh, .savePort]),
    (462, 462, [.savePort]),
    (463, 467, [.saveHost]),
    (468, 468, [.markh, .savePort]),
    (469, 469, [.markh, .saveHost]),
    (470, 488, [.saveHost]),
    (489, 489, [.savePort]),
    (490, 507, [.saveHost]),
    (511, 511, [.markh, .saveHost, .savePath]),
    (512, 512, [.saveHost, .markh, .savePath]),
    (513, 513, [.savePath]),
    (514, 514, [.markh, .savePort, .savePath]),
    (515, 515, [.savePort, .markh, .savePath]),
    (516, 520, [.saveHost, .markh, .savePath]),
    (521, 521, [.markh, .savePort, .savePath]),
    (522, 522, [.markh, .saveHost, .savePath]),
    (523, 541, [.saveHost, .markh, .savePath]),
    (542, 542, [.savePort, .markh, .savePath]),
    (543, 560, [.saveHost, .markh, .savePath])]

/-- The switches of the states 1 to 40. -/
def rows1 : List (Nat × List Range) :=
  [
    (1, [st 48 57 2, st 65 70 2, st 97 102 2]),
    (2, [st 48 57 454, st 65 70 454, st 97 102 454]),
    (3, [st 48 57 4, st 65 70 4, st 97 102 4]),
    (4, [st 48 57 452, st 65 70 452, st 97 102 452]),
    (5, [st 48 57 6, st 65 70 6, st 97 102 6]),
    (6, [st 48 57 455, st 65 70 455, st 97 102 455]),
    (7, [st 48 57 8, st 65 70 8, st 97 102 8]),
    (8, [st 48 57 457, st 65 70 457, st 97 102 457]),
    (9, [st 48 52 10]),
    (10, [st 48 57 11]),
    (11, [st 46 46 12]),
    (12, [st 2 2 13, st 48 48 15, st 49 49 27, st 50 50 29, st 51 57 28]),
    (13, [st 48 52 14]),
    (14, [st 48 57 15]),
    (15, [st 46 46 16]),
    (16, [st 2 2 17, st 48 48 19, st 49 49 23, st 50 50 25, st 51 57 24]),
    (17, [st 48 52 18]),
    (18, [st 48 57 19]),
    (19, [st 46 46 20]),
    (20, [st 2 2 21, st 48 48 460, st 49 49 463, st 50 50 465, st 51 57 464]),
    (21, [st 48 52 22]),
    (22, [st 48 57 460]),
    (23, [st 46 46 20, st 48 57 24]),
    (24, [st 46 46 20, st 48 57 19]),
    (25, [st 46 46 20, st 48 52 19, st 53 53 26, st 54 57 19]),
    (26, [st 46 46 20, st 48 53 19]),
    (27, [st 46 46 16, st 48 57 28]),
    (28, [st 46 46 16, st 48 57 15]),
    (29, [st 46 46 16, st 48 52 15, st 53 53 30, st 54 57 15]),
    (30, [st 46 46 16, st 48 53 15]),
    (31, [st 48 57 32, st 65 70 32, st 97 102 32]),
    (32, [st 48 57 467, st 65 70 467, st 97 102 467]),
    (33, [st 33 33 33, st 36 36 33, st 37 37 34, st 38 46 33, st 48 59 33, st 61 61 33,
          tr 64 64 38, st 65 90 33, st 95 95 33, st 97 122 33, st 126 126 33]),
    (34, [st 48 57 35, st 65 70 35, st 97 102 35]),
    (35, [st 48 57 33, st 65 70 33, st 97 102 33]),
    (36, [st 48 57 37, st 65 70 37, st 97 102 37]),
    (37, [st 48 57 470, st 65 70 470, st 97 102 470]),
    (38, [st 48 57 39, st 58 58 146, st 65 70 39, st 97 102 39, st 118 118 225]),
    (39, [st 48 57 40, st 58 58 43, st 65 70 40, st 97 102 40]),
    (40, [st 48 57 41, st 58 58 43, st 65 70 41, st 97 102 41])]

/-- The switches of the states 41 to 80. -/
def rows41 : List (Nat × List Range) :=
  [
    (41, [st 48 57 42, st 58 58 43, st 65 70 42, st 97 102 42]),
    (42, [st 58 58 43]),
    (43, [st 48 57 44, st 58 58 141, st 65 70 44, st 97 102 44]),
    (44, [st 48 57 45, st 58 58 48, st 65 70 45, st 97 102 45]),
    (45, [st 48 57 46, st 58 58 48, st 65 70 46, st 97 102 46]),
    (46, [st 48 57 47, st 58 58 48, st 65 70 47, st 97 102 47]),
    (47, [st 58 58 48]),
    (48, [st 48 57 49, st 58 58 136, st 65 70 49, st 97 102 49]),
    (49, [st 48 57 50, st 58 58 53, st 65 70 50, st 97 102 50]),
    (50, [st 48 57 51, st 58 58 53, st 65 70 51, st 97 102 51]),
    (51, [st 48 57 52, st 58 58 53, st 65 70 52, st 97 102 52]),
    (52, [st 58 58 53]),
    (53, [st 48 57 54, st 58 58 131, st 65 70 54, st 97 102 54]),
    (54, [st 48 57 55, st 58 58 58, st 65 70 55, st 97 102 55]),
    (55, [st 48 57 56, st 58 58 58, st 65 70 56, st 97 102 56]),
    (56, [st 48 57 57, st 58 58 58, st 65 70 57, st 97 102 57]),
    (57, [st 58 58 58]),
    (58, [st 48 57 59, st 58 58 126, st 65 70 59, st 97 102 59]),
    (59, [st 48 57 60, st 58 58 63, st 65 70 60, st 97 102 60]),
    (60, [st 48 57 61, st 58 58 63, st 65 70 61, st 97 102 61]),
    (61, [st 48 57 62, st 58 58 63, st 65 70 62, st 97 102 62]),
    (62, [st 58 58 63]),
    (63, [st 48 57 64, st 58 58 113, st 65 70 64, st 97 102 64]),
    (64, [st 48 57 65, st 58 58 68, st 65 70 65, st 97 102 65]),
    (65, [st 48 57 66, st 58 58 68, st 65 70 66, st 97 102 66]),
    (66, [st 48 57 67, st 58 58 68, st 65 70 67, st 97 102 67]),
    (67, [st 58 58 68]),
    (68, [st 2 2 69, st 48 48 96, st 49 49 104, st 50 50 107, st 51 57 110, st 58 58 111,
          st 65 70 112, st 97 102 112]),
    (69, [st 48 52 70]),
    (70, [st 48 57 71]),
    (71, [st 46 46 72]),
    (72, [st 2 2 73, st 48 48 75, st 49 49 92, st 50 50 94, st 51 57 93]),
    (73, [st 48 52 74]),
    (74, [st 48 57 75]),
    (75, [st 46 46 76]),
    (76, [st 2 2 77, st 48 48 79, st 49 49 88, st 50 50 90, st 51 57 89]),
    (77, [st 48 52 78]),
    (78, [st 48 57 79]),
    (79, [st 46 46 80]),
    (80, [st 2 2 81, st 48 48 83, st 49 49 84, st 50 50 86, st 51 57 85])]

/-- The switches of the states 81 to 120. -/
def rows81 : List (Nat × List Range) :=
  [
    (81, [st 48 52 82]),
    (82, [st 48 57 83]),
    (83, [st 93 93 460]),
    (84, [st 48 57 85, st 93 93 460]),
    (85, [st 48 57 83, st 93 93 460]),
    (86, [st 48 52 83, st 53 53 87, st 54 57 83, st 93 93 460]),
    (87, [st 48 53 83, st 93 93 460]),
    (88, [st 46 46 80, st 48 57 89]),
    (89, [st 46 46 80, st 48 57 79]),
    (90, [st 46 46 80, st 48 52 79, st 53 53 91, st 54 57 79]),
    (91, [st 46 46 80, st 48 53 79]),
    (92, [st 46 46 76, st 48 57 93]),
    (93, [st 46 46 76, st 48 57 75]),
    (94, [st 46 46 76, st 48 52 75, st 53 53 95, st 54 57 75]),
    (95, [st 46 46 76, st 48 53 75]),
    (96, [st 46 46 72, st 48 57 97, st 58 58 100, st 65 70 97, st 97 102 97]),
    (97, [st 48 57 98, st 58 58 100, st 65 70 98, st 97 102 98]),
    (98, [st 48 57 99, st 58 58 100, st 65 70 99, st 97 102 99]),
    (99, [st 58 58 100]),
    (100, [st 48 57 101, st 58 58 83, st 65 70 101, st 97 102 101]),
    (101, [st 48 57 102, st 65 70 102, st 93 93 460, st 97 102 102]),
    (102, [st 48 57 103, st 65 70 103, st 93 93 460, st 97 102 103]),
    (103, [st 48 57 83, st 65 70 83, st 93 93 460, st 97 102 83]),
    (104, [st 46 46 72, st 48 57 105, st 58 58 100, st 65 70 97, st 97 102 97]),
    (105, [st 46 46 72, st 48 57 106, st 58 58 100, st 65 70 98, st 97 102 98]),
    (106, [st 46 46 72, st 48 57 99, st 58 58 100, st 65 70 99, st 97 102 99]),
    (107, [st 46 46 72, st 48 52 108, st 53 53 109, st 54 57 108, st 58 58 100, st 65 70 97,
           st 97 102 97]),
    (108, [st 46 46 72, st 48 57 98, st 58 58 100, st 65 70 98, st 97 102 98]),
    (109, [st 46 46 72, st 48 53 106, st 54 57 98, st 58 58 100, st 65 70 98, st 97 102 98]),
    (110, [st 46 46 72, st 48 57 108, st 58 58 100, st 65 70 97, st 97 102 97]),
    (111, [st 48 57 101, st 65 70 101, st 97 102 101]),
    (112, [st 48 57 97, st 58 58 100, st 65 70 97, st 97 102 97]),
    (113, [st 2 2 69, st 48 48 114, st 49 49 118, st 50 50 121, st 51 57 124, st 65 70 125,
           st 97 102 125]),
    (114, [st 46 46 72, st 48 57 115, st 58 58 111, st 65 70 115, st 97 102 115]),
    (115, [st 48 57 116, st 58 58 111, st 65 70 116, st 97 102 116]),
    (116, [st 48 57 117, st 58 58 111, st 65 70 117, st 97 102 117]),
    (117, [st 58 58 111]),
    (118, [st 46 46 72, st 48 57 119, st 58 58 111, st 65 70 115, st 97 102 115]),
    (119, [st 46 46 72, st 48 57 120, st 58 58 111, st 65 70 116, st 97 102 116]),
    (120, [st 46 46 72, st 48 57 117, st 58 58 111, st 65 70 117, st 97 102 117])]

/-- The switches of the states 121 to 160. -/
def rows121 : List (Nat × List Range) :=
  [
    (121, [st 46 46 72, st 48 52 122, st 53 53 123, st 54 57 122, st 58 58 111, st 65 70 115,
           st 97 102 115]),
    (122, [st 46 46 72, st 48 57 116, st 58 58 111, st 65 70 116, st 97 102 116]),
    (123, [st 46 46 72, st 48 53 120, st 54 57 116, st 58 58 111, st 65 70 116, st 97 102 116]),
    (124, [st 46 46 72, st 48 57 122, st 58 58 111, st 65 70 115, st 97 102 115]),
    (125, [st 48 57 115, st 58 58 111, st 65 70 115, st 97 102 115]),
    (126, [st 48 57 127, st 65 70 127, st 97 102 127]),
    (127, [st 48 57 128, st 58 58 113, st 65 70 128, st 97 102 128]),
    (128, [st 48 57 129, st 58 58 113, st 65 70 129, st 97 102 129]),
    (129, [st 48 57 130, st 58 58 113, st 65 70 130, st 97 102 130]),
    (130, [st 58 58 113]),
    (131, [st 48 57 132, st 65 70 132, st 97 102 132]),
    (132, [st 48 57 133, st 58 58 126, st 65 70 133, st 97 102 133]),
    (133, [st 48 57 134, st 58 58 126, st 65 70 134, st 97 102 134]),
    (134, [st 48 57 135, st 58 58 126, st 65 70 135, st 97 102 135]),
    (135, [st 58 58 126]),
    (136, [st 48 57 137, st 65 70 137, st 97 102 137]),
    (137, [st 48 57 138, st 58 58 131, st 65 70 138, st 97 102 138]),
    (138, [st 48 57 139, st 58 58 131, st 65 70 139, st 97 102 139]),
    (139, [st 48 57 140, st 58 58 131, st 65 70 140, st 97 102 140]),
    (140, [st 58 58 131]),
    (141, [st 48 57 142, st 65 70 142, st 97 102 142]),
    (142, [st 48 57 143, st 58 58 136, st 65 70 143, st 97 102 143]),
    (143, [st 48 57 144, st 58 58 136, st 65 70 144, st 97 102 144]),
    (144, [st 48 57 145, st 58 58 136, st 65 70 145, st 97 102 145]),
    (145, [st 58 58 136]),
    (146, [st 58 58 147]),
    (147, [st 2 2 69, st 48 48 148, st 49 49 217, st 50 50 220, st 51 57 223, st 65 70 224,
           st 93 93 460, st 97 102 224]),
    (148, [st 46 46 72, st 48 57 149, st 58 58 152, st 65 70 149, st 93 93 460, st 97 102 149]),
    (149, [st 48 57 150, st 58 58 152, st 65 70 150, st 93 93 460, st 97 102 150]),
    (150, [st 48 57 151, st 58 58 152, st 65 70 151, st 93 93 460, st 97 102 151]),
    (151, [st 58 58 152, st 93 93 460]),
    (152, [st 2 2 69, st 48 48 153, st 49 49 209, st 50 50 212, st 51 57 215, st 65 70 216,
           st 97 102 216]),
    (153, [st 46 46 72, st 48 57 154, st 58 58 157, st 65 70 154, st 93 93 460, st 97 102 154]),
    (154, [st 48 57 155, st 58 58 157, st 65 70 155, st 93 93 460, st 97 102 155]),
    (155, [st 48 57 156, st 58 58 157, st 65 70 156, st 93 93 460, st 97 102 156]),
    (156, [st 58 58 157, st 93 93 460]),
    (157, [st 2 2 69, st 48 48 158, st 49 49 201, st 50 50 204, st 51 57 207, st 65 70 208,
           st 97 102 208]),
    (158, [st 46 46 72, st 48 57 159, st 58 58 162, st 65 70 159, st 93 93 460, st 97 102 159]),
    (159, [st 48 57 160, st 58 58 162, st 65 70 160, st 93 93 460, st 97 102 160]),
    (160, [st 48 57 161, st 58 58 162, st 65 70 161, st 93 93 460, st 97 102 161])]

/-- The switches of the states 161 to 200. -/
def rows161 : List (Nat × List Range) :=
  [
    (161, [st 58 58 162, st 93 93 460]),
    (162, [st 2 2 69, st 48 48 163, st 49 49 193, st 50 50 196, st 51 57 199, st 65 70 200,
           st 97 102 200]),
    (163, [st 46 46 72, st 48 57 164, st 58 58 167, st 65 70 164, st 93 93 460, st 97 102 164]),
    (164, [st 48 57 165, st 58 58 167, st 65 70 165, st 93 93 460, st 97 102 165]),
    (165, [st 48 57 166, st 58 58 167, st 65 70 166, st 93 93 460, st 97 102 166]),
    (166, [st 58 58 167, st 93 93 460]),
    (167, [st 2 2 69, st 48 48 168, st 49 49 185, st 50 50 188, st 51 57 191, st 65 70 192,
           st 97 102 192]),
    (168, [st 46 46 72, st 48 57 169, st 58 58 172, st 65 70 169, st 93 93 460, st 97 102 169]),
    (169, [st 48 57 170, st 58 58 172, st 65 70 170, st 93 93 460, st 97 102 170]),
    (170, [st 48 57 171, st 58 58 172, st 65 70 171, st 93 93 460, st 97 102 171]),
    (171, [st 58 58 172, st 93 93 460]),
    (172, [st 2 2 69, st 48 48 173, st 49 49 177, st 50 50 180, st 51 57 183, st 65 70 184,
           st 97 102 184]),
    (173, [st 46 46 72, st 48 57 174, st 58 58 111, st 65 70 174, st 93 93 460, st 97 102 174]),
    (174, [st 48 57 175, st 58 58 111, st 65 70 175, st 93 93 460, st 97 102 175]),
    (175, [st 48 57 176, st 58 58 111, st 65 70 176, st 93 93 460, st 97 102 176]),
    (176, [st 58 58 111, st 93 93 460]),
    (177, [st 46 46 72, st 48 57 178, st 58 58 111, st 65 70 174, st 93 93 460, st 97 102 174]),
    (178, [st 46 46 72, st 48 57 179, st 58 58 111, st 65 70 175, st 93 93 460, st 97 102 175]),
    (179, [st 46 46 72, st 48 57 176, st 58 58 111, st 65 70 176, st 93 93 460, st 97 102 176]),
    (180, [st 46 46 72, st 48 52 181, st 53 53 182, st 54 57 181, st 58 58 111, st 65 70 174,
           st 93 93 460, st 97 102 174]),
    (181, [st 46 46 72, st 48 57 175, st 58 58 111, st 65 70 175, st 93 93 460, st 97 102 175]),
    (182, [st 46 46 72, st 48 53 179, st 54 57 175, st 58 58 111, st 65 70 175, st 93 93 460,
           st 97 102 175]),
    (183, [st 46 46 72, st 48 57 181, st 58 58 111, st 65 70 174, st 93 93 460, st 97 102 174]),
    (184, [st 48 57 174, st 58 58 111, st 65 70 174, st 93 93 460, st 97 102 174]),
    (185, [st 46 46 72, st 48 57 186, st 58 58 172, st 65 70 169, st 93 93 460, st 97 102 169]),
    (186, [st 46 46 72, st 48 57 187, st 58 58 172, st 65 70 170, st 93 93 460, st 97 102 170]),
    (187, [st 46 46 72, st 48 57 171, st 58 58 172, st 65 70 171, st 93 93 460, st 97 102 171]),
    (188, [st 46 46 72, st 48 52 189, st 53 53 190, st 54 57 189, st 58 58 172, st 65 70 169,
           st 93 93 460, st 97 102 169]),
    (189, [st 46 46 72, st 48 57 170, st 58 58 172, st 65 70 170, st 93 93 460, st 97 102 170]),
    (190, [st 46 46 72, st 48 53 187, st 54 57 170, st 58 58 172, st 65 70 170, st 93 93 460,
           st 97 102 170]),
    (191, [st 46 46 72, st 48 57 189, st 58 58 172, st 65 70 169, st 93 93 460, st 97 102 169]),
    (192, [st 48 57 169, st 58 58 172, st 65 70 169, st 93 93 460, st 97 102 169]),
    (193, [st 46 46 72, st 48 57 194, st 58 58 167, st 65 70 164, st 93 93 460, st 97 102 164]),
    (194, [st 46 46 72, st 48 57 195, st 58 58 167, st 65 70 165, st 93 93 460, st 97 102 165]),
    (195, [st 46 46 72, st 48 57 166, st 58 58 167, st 65 70 166, st 93 93 460, st 97 102 166]),
    (196, [st 46 46 72, st 48 52 197, st 53 53 198, st 54 57 197, st 58 58 167, st 65 70 164,
           st 93 93 460, st 97 102 164]),
    (197, [st 46 46 72, st 48 57 165, st 58 58 167, st 65 70 165, st 93 93 460, st 97 102 165]),
    (198, [st 46 46 72, st 48 53 195, st 54 57 165, st 58 58 167, st 65 70 165, st 93 93 460,
           st 97 102 165]),
    (199, [st 46 46 72, st 48 57 197, st 58 58 167, st 65 70 164, st 93 93 460, st 97 102 164]),
    (200, [st 48 57 164, st 58 58 167, st 65 70 164, st 93 93 460, st 97 102 164])]

/-- The switches of the states 201 to 240. -/
def rows201 : List (Nat × List Range) :=
  [
    (201, [st 46 46 72, st 48 57 202, st 58 58 162, st 65 70 159, st 93 93 460, st 97 102 159]),
    (202, [st 46 46 72, st 48 57 203, st 58 58 162, st 65 70 160, st 93 93 460, st 97 102 160]),
    (203, [st 46 46 72, st 48 57 161, st 58 58 162, st 65 70 161, st 93 93 460, st 97 102 161]),
    (204, [st 46 46 72, st 48 52 205, st 53 53 206, st 54 57 205, st 58 58 162, st 65 70 159,
           st 93 93 460, st 97 102 159]),
    (205, [st 46 46 72, st 48 57 160, st 58 58 162, st 65 70 160, st 93 93 460, st 97 102 160]),
    (206, [st 46 46 72, st 48 53 203, st 54 57 160, st 58 58 162, st 65 70 160, st 93 93 460,
           st 97 102 160]),
    (207, [st 46 46 72, st 48 57 205, st 58 58 162, st 65 70 159, st 93 93 460, st 97 102 159]),
    (208, [st 48 57 159, st 58 58 162, st 65 70 159, st 93 93 460, st 97 102 159]),
    (209, [st 46 46 72, st 48 57 210, st 58 58 157, st 65 70 154, st 93 93 460, st 97 102 154]),
    (210, [st 46 46 72, st 48 57 211, st 58 58 157, st 65 70 155, st 93 93 460, st 97 102 155]),
    (211, [st 46 46 72, st 48 57 156, st 58 58 157, st 65 70 156, st 93 93 460, st 97 102 156]),
    (212, [st 46 46 72, st 48 52 213, st 53 53 214, st 54 57 213, st 58 58 157, st 65 70 154,
           st 93 93 460, st 97 102 154]),
    (213, [st 46 46 72, st 48 57 155, st 58 58 157, st 65 70 155, st 93 93 460, st 97 102 155]),
    (214, [st 46 46 72, st 48 53 211, st 54 57 155, st 58 58 157, st 65 70 155, st 93 93 460,
           st 97 102 155]),
    (215, [st 46 46 72, st 48 57 213, st 58 58 157, st 65 70 154, st 93 93 460, st 97 102 154]),
    (216, [st 48 57 154, st 58 58 157, st 65 70 154, st 93 93 460, st 97 102 154]),
    (217, [st 46 46 72, st 48 57 218, st 58 58 152, st 65 70 149, st 93 93 460, st 97 102 149]),
    (218, [st 46 46 72, st 48 57 219, st 58 58 152, st 65 70 150, st 93 93 460, st 97 102 150]),
    (219, [st 46 46 72, st 48 57 151, st 58 58 152, st 65 70 151, st 93 93 460, st 97 102 151]),
    (220, [st 46 46 72, st 48 52 221, st 53 53 222, st 54 57 221, st 58 58 152, st 65 70 149,
           st 93 93 460, st 97 102 149]),
    (221, [st 46 46 72, st 48 57 150, st 58 58 152, st 65 70 150, st 93 93 460, st 97 102 150]),
    (222, [st 46 46 72, st 48 53 219, st 54 57 150, st 58 58 152, st 65 70 150, st 93 93 460,
           st 97 102 150]),
    (223, [st 46 46 72, st 48 57 221, st 58 58 152, st 65 70 149, st 93 93 460, st 97 102 149]),
    (224, [st 48 57 149, st 58 58 152, st 65 70 149, st 93 93 460, st 97 102 149]),
    (225, [st 48 57 226, st 65 70 226, st 97 102 226]),
    (226, [st 46 46 227, st 48 57 226, st 65 70 226, st 97 102 226]),
    (227, [st 33 33 228, st 36 36 228, st 38 46 228, st 48 59 228, st 61 61 228, st 65 90 228,
           st 95 95 228, st 97 122 228, st 126 126 228]),
    (228, [st 33 33 228, st 36 36 228, st 38 46 228, st 48 59 228, st 61 61 228, st 65 90 228,
           st 93 93 460, st 95 95 228, st 97 122 228, st 126 126 228]),
    (229, [st 48 52 230]),
    (230, [st 48 57 231]),
    (231, [st 46 46 232]),
    (232, [st 2 2 233, st 48 48 235, st 49 49 249, st 50 50 251, st 51 57 250]),
    (233, [st 48 52 234]),
    (234, [st 48 57 235]),
    (235, [st 46 46 236]),
    (236, [st 2 2 237, st 48 48 239, st 49 49 245, st 50 50 247, st 51 57 246]),
    (237, [st 48 52 238]),
    (238, [st 48 57 239]),
    (239, [st 46 46 240]),
    (240, [st 2 2 241, st 48 48 512, st 49 49 516, st 50 50 518, st 51 57 517])]

/-- The switches of the states 241 to 280. -/
def rows241 : List (Nat × List Range) :=
  [
    (241, [st 48 52 242]),
    (242, [st 48 57 512]),
    (243, [st 48 57 244, st 65 70 244, st 97 102 244]),
    (244, [st 48 57 513, st 65 70 513, st 97 102 513]),
    (245, [st 46 46 240, st 48 57 246]),
    (246, [st 46 46 240, st 48 57 239]),
    (247, [st 46 46 240, st 48 52 239, st 53 53 248, st 54 57 239]),
    (248, [st 46 46 240, st 48 53 239]),
    (249, [st 46 46 236, st 48 57 250]),
    (250, [st 46 46 236, st 48 57 235]),
    (251, [st 46 46 236, st 48 52 235, st 53 53 252, st 54 57 235]),
    (252, [st 46 46 236, st 48 53 235]),
    (253, [st 48 57 254, st 65 70 254, st 97 102 254]),
    (254, [st 48 57 520, st 65 70 520, st 97 102 520]),
    (255, [st 33 33 255, st 36 36 255, st 37 37 256, st 38 46 255, st 48 59 255, st 61 61 255,
           tr 64 64 263, st 65 90 255, st 95 95 255, st 97 122 255, st 126 126 255]),
    (256, [st 48 57 257, st 65 70 257, st 97 102 257]),
    (257, [st 48 57 255, st 65 70 255, st 97 102 255]),
    (258, [st 48 57 259, st 65 70 259, st 97 102 259]),
    (259, [st 48 57 523, st 65 70 523, st 97 102 523]),
    (260, [st 48 57 261, st 58 58 368, st 65 70 261, st 97 102 261, st 118 118 447]),
    (261, [st 48 57 262, st 58 58 265, st 65 70 262, st 97 102 262]),
    (262, [st 48 57 263, st 58 58 265, st 65 70 263, st 97 102 263]),
    (263, [st 48 57 264, st 58 58 265, st 65 70 264, st 97 102 264]),
    (264, [st 58 58 265]),
    (265, [st 48 57 266, st 58 58 363, st 65 70 266, st 97 102 266]),
    (266, [st 48 57 267, st 58 58 270, st 65 70 267, st 97 102 267]),
    (267, [st 48 57 268, st 58 58 270, st 65 70 268, st 97 102 268]),
    (268, [st 48 57 269, st 58 58 270, st 65 70 269, st 97 102 269]),
    (269, [st 58 58 270]),
    (270, [st 48 57 271, st 58 58 358, st 65 70 271, st 97 102 271]),
    (271, [st 48 57 272, st 58 58 275, st 65 70 272, st 97 102 272]),
    (272, [st 48 57 273, st 58 58 275, st 65 70 273, st 97 102 273]),
    (273, [st 48 57 274, st 58 58 275, st 65 70 274, st 97 102 274]),
    (274, [st 58 58 275]),
    (275, [st 48 57 276, st 58 58 353, st 65 70 276, st 97 102 276]),
    (276, [st 48 57 277, st 58 58 280, st 65 70 277, st 97 102 277]),
    (277, [st 48 57 278, st 58 58 280, st 65 70 278, st 97 102 278]),
    (278, [st 48 57 279, st 58 58 280, st 65 70 279, st 97 102 279]),
    (279, [st 58 58 280]),
    (280, [st 48 57 281, st 58 58 348, st 65 70 281, st 97 102 281])]

/-- The switches of the states 281 to 320. -/
def rows281 : List (Nat × List Range) :=
  [
    (281, [st 48 57 282, st 58 58 285, st 65 70 282, st 97 102 282]),
    (282, [st 48 57 283, st 58 58 285, st 65 70 283, st 97 102 283]),
    (283, [st 48 57 284, st 58 58 285, st 65 70 284, st 97 102 284]),
    (284, [st 58 58 285]),
    (285, [st 48 57 286, st 58 58 335, st 65 70 286, st 97 102 286]),
    (286, [st 48 57 287, st 58 58 290, st 65 70 287, st 97 102 287]),
    (287, [st 48 57 288, st 58 58 290, st 65 70 288, st 97 102 288]),
    (288, [st 48 57 289, st 58 58 290, st 65 70 289, st 97 102 289]),
    (289, [st 58 58 290]),
    (290, [st 2 2 291, st 48 48 318, st 49 49 326, st 50 50 329, st 51 57 332, st 58 58 333,
           st 65 70 334, st 97 102 334]),
    (291, [st 48 52 292]),
    (292, [st 48 57 293]),
    (293, [st 46 46 294]),
    (294, [st 2 2 295, st 48 48 297, st 49 49 314, st 50 50 316, st 51 57 315]),
    (295, [st 48 52 296]),
    (296, [st 48 57 297]),
    (297, [st 46 46 298]),
    (298, [st 2 2 299, st 48 48 301, st 49 49 310, st 50 50 312, st 51 57 311]),
    (299, [st 48 52 300]),
    (300, [st 48 57 301]),
    (301, [st 46 46 302]),
    (302, [st 2 2 303, st 48 48 305, st 49 49 306, st 50 50 308, st 51 57 307]),
    (303, [st 48 52 304]),
    (304, [st 48 57 305]),
    (305, [st 93 93 512]),
    (306, [st 48 57 307, st 93 93 512]),
    (307, [st 48 57 305, st 93 93 512]),
    (308, [st 48 52 305, st 53 53 309, st 54 57 305, st 93 93 512]),
    (309, [st 48 53 305, st 93 93 512]),
    (310, [st 46 46 302, st 48 57 311]),
    (311, [st 46 46 302, st 48 57 301]),
    (312, [st 46 46 302, st 48 52 301, st 53 53 313, st 54 57 301]),
    (313, [st 46 46 302, st 48 53 301]),
    (314, [st 46 46 298, st 48 57 315]),
    (315, [st 46 46 298, st 48 57 297]),
    (316, [st 46 46 298, st 48 52 297, st 53 53 317, st 54 57 297]),
    (317, [st 46 46 298, st 48 53 297]),
    (318, [st 46 46 294, st 48 57 319, st 58 58 322, st 65 70 319, st 97 102 319]),
    (319, [st 48 57 320, st 58 58 322, st 65 70 320, st 97 102 320]),
    (320, [st 48 57 321, st 58 58 322, st 65 70 321, st 97 102 321])]

/-- The switches of the states 321 to 360. -/
def rows321 : List (Nat × List Range) :=
  [
    (321, [st 58 58 322]),
    (322, [st 48 57 323, st 58 58 305, st 65 70 323, st 97 102 323]),
    (323, [st 48 57 324, st 65 70 324, st 93 93 512, st 97 102 324]),
    (324, [st 48 57 325, st 65 70 325, st 93 93 512, st 97 102 325]),
    (325, [st 48 57 305, st 65 70 305, st 93 93 512, st 97 102 305]),
    (326, [st 46 46 294, st 48 57 327, st 58 58 322, st 65 70 319, st 97 102 319]),
    (327, [st 46 46 294, st 48 57 328, st 58 58 322, st 65 70 320, st 97 102 320]),
    (328, [st 46 46 294, st 48 57 321, st 58 58 322, st 65 70 321, st 97 102 321]),
    (329, [st 46 46 294, st 48 52 330, st 53 53 331, st 54 57 330, st 58 58 322, st 65 70 319,
           st 97 102 319]),
    (330, [st 46 46 294, st 48 57 320, st 58 58 322, st 65 70 320, st 97 102 320]),
    (331, [st 46 46 294, st 48 53 328, st 54 57 320, st 58 58 322, st 65 70 320, st 97 102 320]),
    (332, [st 46 46 294, st 48 57 330, st 58 58 322, st 65 70 319, st 97 102 319]),
    (333, [st 48 57 323, st 65 70 323, st 97 102 323]),
    (334, [st 48 57 319, st 58 58 322, st 65 70 319, st 97 102 319]),
    (335, [st 2 2 291, st 48 48 336, st 49 49 340, st 50 50 343, st 51 57 346, st 65 70 347,
           st 97 102 347]),
    (336, [st 46 46 294, st 48 57 337, st 58 58 333, st 65 70 337, st 97 102 337]),
    (337, [st 48 57 338, st 58 58 333, st 65 70 338, st 97 102 338]),
    (338, [st 48 57 339, st 58 58 333, st 65 70 339, st 97 102 339]),
    (339, [st 58 58 333]),
    (340, [st 46 46 294, st 48 57 341, st 58 58 333, st 65 70 337, st 97 102 337]),
    (341, [st 46 46 294, st 48 57 342, st 58 58 333, st 65 70 338, st 97 102 338]),
    (342, [st 46 46 294, st 48 57 339, st 58 58 333, st 65 70 339, st 97 102 339]),
    (343, [st 46 46 294, st 48 52 344, st 53 53 345, st 54 57 344, st 58 58 333, st 65 70 337,
           st 97 102 337]),
    (344, [st 46 46 294, st 48 57 338, st 58 58 333, st 65 70 338, st 97 102 338]),
    (345, [st 46 46 294, st 48 53 342, st 54 57 338, st 58 58 333, st 65 70 338, st 97 102 338]),
    (346, [st 46 46 294, st 48 57 344, st 58 58 333, st 65 70 337, st 97 102 337]),
    (347, [st 48 57 337, st 58 58 333, st 65 70 337, st 97 102 337]),
    (348, [st 48 57 349, st 65 70 349, st 97 102 349]),
    (349, [st 48 57 350, st 58 58 335, st 65 70 350, st 97 102 350]),
    (350, [st 48 57 351, st 58 58 335, st 65 70 351, st 97 102 351]),
    (351, [st 48 57 352, st 58 58 335, st 65 70 352, st 97 102 352]),
    (352, [st 58 58 335]),
    (353, [st 48 57 354, st 65 70 354, st 97 102 354]),
    (354, [st 48 57 355, st 58 58 348, st 65 70 355, st 97 102 355]),
    (355, [st 48 57 356, st 58 58 348, st 65 70 356, st 97 102 356]),
    (356, [st 48 57 357, st 58 58 348, st 65 70 357, st 97 102 357]),
    (357, [st 58 58 348]),
    (358, [st 48 57 359, st 65 70 359, st 97 102 359]),
    (359, [st 48 57 360, st 58 58 353, st 65 70 360, st 97 102 360]),
    (360, [st 48 57 361, st 58 58 353, st 65 70 361, st 97 102 361])]

/-- The switches of the states 361 to 400. -/
def rows361 : List (Nat × List Range) :=
  [
    (361, [st 48 57 362, st 58 58 353, st 65 70 362, st 97 102 362]),
    (362, [st 58 58 353]),
    (363, [st 48 57 364, st 65 70 364, st 97 102 364]),
    (364, [st 48 57 365, st 58 58 358, st 65 70 365, st 97 102 365]),
    (365, [st 48 57 366, st 58 58 358, st 65 70 366, st 97 102 366]),
    (366, [st 48 57 367, st 58 58 358, st 65 70 367, st 97 102 367]),
    (367, [st 58 58 358]),
    (368, [st 58 58 369]),
    (369, [st 2 2 291, st 48 48 370, st 49 49 439, st 50 50 442, st 51 57 445, st 65 70 446,
           st 93 93 512, st 97 102 446]),
    (370, [st 46 46 294, st 48 57 371, st 58 58 374, st 65 70 371, st 93 93 512, st 97 102 371]),
    (371, [st 48 57 372, st 58 58 374, st 65 70 372, st 93 93 512, st 97 102 372]),
    (372, [st 48 57 373, st 58 58 374, st 65 70 373, st 93 93 512, st 97 102 373]),
    (373, [st 58 58 374, st 93 93 512]),
    (374, [st 2 2 291, st 48 48 375, st 49 49 431, st 50 50 434, st 51 57 437, st 65 70 438,
           st 97 102 438]),
    (375, [st 46 46 294, st 48 57 376, st 58 58 379, st 65 70 376, st 93 93 512, st 97 102 376]),
    (376, [st 48 57 377, st 58 58 379, st 65 70 377, st 93 93 512, st 97 102 377]),
    (377, [st 48 57 378, st 58 58 379, st 65 70 378, st 93 93 512, st 97 102 378]),
    (378, [st 58 58 379, st 93 93 512]),
    (379, [st 2 2 291, st 48 48 380, st 49 49 423, st 50 50 426, st 51 57 429, st 65 70 430,
           st 97 102 430]),
    (380, [st 46 46 294, st 48 57 381, st 58 58 384, st 65 70 381, st 93 93 512, st 97 102 381]),
    (381, [st 48 57 382, st 58 58 384, st 65 70 382, st 93 93 512, st 97 102 382]),
    (382, [st 48 57 383, st 58 58 384, st 65 70 383, st 93 93 512, st 97 102 383]),
    (383, [st 58 58 384, st 93 93 512]),
    (384, [st 2 2 291, st 48 48 385, st 49 49 415, st 50 50 418, st 51 57 421, st 65 70 422,
           st 97 102 422]),
    (385, [st 46 46 294, st 48 57 386, st 58 58 389, st 65 70 386, st 93 93 512, st 97 102 386]),
    (386, [st 48 57 387, st 58 58 389, st 65 70 387, st 93 93 512, st 97 102 387]),
    (387, [st 48 57 388, st 58 58 389, st 65 70 388, st 93 93 512, st 97 102 388]),
    (388, [st 58 58 389, st 93 93 512]),
    (389, [st 2 2 291, st 48 48 390, st 49 49 407, st 50 50 410, st 51 57 413, st 65 70 414,
           st 97 102 414]),
    (390, [st 46 46 294, st 48 57 391, st 58 58 394, st 65 70 391, st 93 93 512, st 97 102 391]),
    (391, [st 48 57 392, st 58 58 394, st 65 70 392, st 93 93 512, st 97 102 392]),
    (392, [st 48 57 393, st 58 58 394, st 65 70 393, st 93 93 512, st 97 102 393]),
    (393, [st 58 58 394, st 93 93 512]),
    (394, [st 2 2 291, st 48 48 395, st 49 49 399, st 50 50 402, st 51 57 405, st 65 70 406,
           st 97 102 406]),
    (395, [st 46 46 294, st 48 57 396, st 58 58 333, st 65 70 396, st 93 93 512, st 97 102 396]),
    (396, [st 48 57 397, st 58 58 333, st 65 70 397, st 93 93 512, st 97 102 397]),
    (397, [st 48 57 398, st 58 58 333, st 65 70 398, st 93 93 512, st 97 102 398]),
    (398, [st 58 58 333, st 93 93 512]),
    (399, [st 46 46 294, st 48 57 400, st 58 58 333, st 65 70 396, st 93 93 512, st 97 102 396]),
    (400, [st 46 46 294, st 48 57 401, st 58 58 333, st 65 70 397, st 93 93 512, st 97 102 397])]

/-- The switches of the states 401 to 440. -/
def rows401 : List (Nat × List Range) :=
  [
    (401, [st 46 46 294, st 48 57 398, st 58 58 333, st 65 70 398, st 93 93 512, st 97 102 398]),
    (402, [st 46 46 294, st 48 52 403, st 53 53 404, st 54 57 403, st 58 58 333, st 65 70 396,
           st 93 93 512, st 97 102 396]),
    (403, [st 46 46 294, st 48 57 397, st 58 58 333, st 65 70 397, st 93 93 512, st 97 102 397]),
    (404, [st 46 46 294, st 48 53 401, st 54 57 397, st 58 58 333, st 65 70 397, st 93 93 512,
           st 97 102 397]),
    (405, [st 46 46 294, st 48 57 403, st 58 58 333, st 65 70 396, st 93 93 512, st 97 102 396]),
    (406, [st 48 57 396, st 58 58 333, st 65 70 396, st 93 93 512, st 97 102 396]),
    (407, [st 46 46 294, st 48 57 408, st 58 58 394, st 65 70 391, st 93 93 512, st 97 102 391]),
    (408, [st 46 46 294, st 48 57 409, st 58 58 394, st 65 70 392, st 93 93 512, st 97 102 392]),
    (409, [st 46 46 294, st 48 57 393, st 58 58 394, st 65 70 393, st 93 93 512, st 97 102 393]),
    (410, [st 46 46 294, st 48 52 411, st 53 53 412, st 54 57 411, st 58 58 394, st 65 70 391,
           st 93 93 512, st 97 102 391]),
    (411, [st 46 46 294, st 48 57 392, st 58 58 394, st 65 70 392, st 93 93 512, st 97 102 392]),
    (412, [st 46 46 294, st 48 53 409, st 54 57 392, st 58 58 394, st 65 70 392, st 93 93 512,
           st 97 102 392]),
    (413, [st 46 46 294, st 48 57 411, st 58 58 394, st 65 70 391, st 93 93 512, st 97 102 391]),
    (414, [st 48 57 391, st 58 58 394, st 65 70 391, st 93 93 512, st 97 102 391]),
    (415, [st 46 46 294, st 48 57 416, st 58 58 389, st 65 70 386, st 93 93 512, st 97 102 386]),
    (416, [st 46 46 294, st 48 57 417, st 58 58 389, st 65 70 387, st 93 93 512, st 97 102 387]),
    (417, [st 46 46 294, st 48 57 388, st 58 58 389, st 65 70 388, st 93 93 512, st 97 102 388]),
    (418, [st 46 46 294, st 48 52 419, st 53 53 420, st 54 57 419, st 58 58 389, st 65 70 386,
           st 93 93 512, st 97 102 386]),
    (419, [st 46 46 294, st 48 57 387, st 58 58 389, st 65 70 387, st 93 93 512, st 97 102 387]),
    (420, [st 46 46 294, st 48 53 417, st 54 57 387, st 58 58 389, st 65 70 387, st 93 93 512,
           st 97 102 387]),
    (421, [st 46 46 294, st 48 57 419, st 58 58 389, st 65 70 386, st 93 93 512, st 97 102 386]),
    (422, [st 48 57 386, st 58 58 389, st 65 70 386, st 93 93 512, st 97 102 386]),
    (423, [st 46 46 294, st 48 57 424, st 58 58 384, st 65 70 381, st 93 93 512, st 97 102 381]),
    (424, [st 46 46 294, st 48 57 425, st 58 58 384, st 65 70 382, st 93 93 512, st 97 102 382]),
    (425, [st 46 46 294, st 48 57 383, st 58 58 384, st 65 70 383, st 93 93 512, st 97 102 383]),
    (426, [st 46 46 294, st 48 52 427, st 53 53 428, st 54 57 427, st 58 58 384, st 65 70 381,
           st 93 93 512, st 97 102 381]),
    (427, [st 46 46 294, st 48 57 382, st 58 58 384, st 65 70 382, st 93 93 512, st 97 102 382]),
    (428, [st 46 46 294, st 48 53 425, st 54 57 382, st 58 58 384, st 65 70 382, st 93 93 512,
           st 97 102 382]),
    (429, [st 46 46 294, st 48 57 427, st 58 58 384, st 65 70 381, st 93 93 512, st 97 102 381]),
    (430, [st 48 57 381, st 58 58 384, st 65 70 381, st 93 93 512, st 97 102 381]),
    (431, [st 46 46 294, st 48 57 432, st 58 58 379, st 65 70 376, st 93 93 512, st 97 102 376]),
    (432, [st 46 46 294, st 48 57 433, st 58 58 379, st 65 70 377, st 93 93 512, st 97 102 377]),
    (433, [st 46 46 294, st 48 57 378, st 58 58 379, st 65 70 378, st 93 93 512, st 97 102 378]),
    (434, [st 46 46 294, st 48 52 435, st 53 53 436, st 54 57 435, st 58 58 379, st 65 70 376,
           st 93 93 512, st 97 102 376]),
    (435, [st 46 46 294, st 48 57 377, st 58 58 379, st 65 70 377, st 93 93 512, st 97 102 377]),
    (436, [st 46 46 294, st 48 53 433, st 54 57 377, st 58 58 379, st 65 70 377, st 93 93 512,
           st 97 102 377]),
    (437, [st 46 46 294, st 48 57 435, st 58 58 379, st 65 70 376, st 93 93 512, st 97 102 376]),
    (438, [st 48 57 376, st 58 58 379, st 65 70 376, st 93 93 512, st 97 102 376]),
    (439, [st 46 46 294, st 48 57 440, st 58 58 374, st 65 70 371, st 93 93 512, st 97 102 371]),
    (440, [st 46 46 294, st 48 57 441, st 58 58 374, st 65 70 372, st 93 93 512, st 97 102 372])]

/-- The switches of the states 441 to 480. -/
def rows441 : List (Nat × List Range) :=
  [
    (441, [st 46 46 294, st 48 57 373, st 58 58 374, st 65 70 373, st 93 93 512, st 97 102 373]),
    (442, [st 46 46 294, st 48 52 443, st 53 53 444, st 54 57 443, st 58 58 374, st 65 70 371,
           st 93 93 512, st 97 102 371]),
    (443, [st 46 46 294, st 48 57 372, st 58 58 374, st 65 70 372, st 93 93 512, st 97 102 372]),
    (444, [st 46 46 294, st 48 53 441, st 54 57 372, st 58 58 374, st 65 70 372, st 93 93 512,
           st 97 102 372]),
    (445, [st 46 46 294, st 48 57 443, st 58 58 374, st 65 70 371, st 93 93 512, st 97 102 371]),
    (446, [st 48 57 371, st 58 58 374, st 65 70 371, st 93 93 512, st 97 102 371]),
    (447, [st 48 57 448, st 65 70 448, st 97 102 448]),
    (448, [st 46 46 449, st 48 57 448, st 65 70 448, st 97 102 448]),
    (449, [st 33 33 450, st 36 36 450, st 38 46 450, st 48 59 450, st 61 61 450, st 65 90 450,
           st 95 95 450, st 97 122 450, st 126 126 450]),
    (450, [st 33 33 450, st 36 36 450, st 38 46 450, st 48 59 450, st 61 61 450, st 65 90 450,
           st 93 93 512, st 95 95 450, st 97 122 450, st 126 126 450]),
    (451, [st 33 33 452, st 35 35 453, st 36 36 452, st 37 37 3, st 38 46 452, st 47 47 458,
           st 48 57 452, st 59 59 452, st 61 61 452, st 63 63 456, st 64 64 452, tr 65 90 461,
           st 95 95 452, tr 97 122 461, st 126 126 452, st 128 255 452]),
    (452, [st 33 33 452, st 35 35 453, st 36 36 452, st 37 37 3, st 38 46 452, st 47 47 455,
           st 48 57 452, st 59 59 452, st 61 61 452, st 63 63 456, st 64 90 452, st 95 95 452,
           st 97 122 452, st 126 126 452, st 128 255 452]),
    (453, [tr 33 33 462, tr 36 36 462, tr 37 37 463, tr 38 59 462, tr 61 61 462, tr 63 90 462,
           tr 95 95 462, tr 97 122 462, tr 126 126 462, tr 128 255 462]),
    (454, [st 33 33 454, st 36 36 454, st 37 37 1, st 38 59 454, st 61 61 454, st 63 90 454,
           st 95 95 454, st 97 122 454, st 126 126 454, st 128 255 454]),
    (455, [st 33 33 455, st 35 35 453, st 36 36 455, st 37 37 5, st 38 59 455, st 61 61 455,
           st 63 63 456, st 64 90 455, st 95 95 455, st 97 122 455, st 126 126 455,
           st 128 255 455]),
    (456, [tr 33 33 466, tr 35 35 467, tr 36 36 466, tr 37 37 468, tr 38 59 466, tr 61 61 466,
           tr 63 90 466, tr 95 95 466, tr 97 122 466, tr 126 126 466, tr 128 255 466]),
    (457, [st 33 33 457, tr 35 35 469, st 36 36 457, st 37 37 7, st 38 59 457, st 61 61 457,
           st 63 90 457, st 95 95 457, st 97 122 457, st 126 126 457, st 128 255 457]),
    (458, [st 33 33 455, st 35 35 453, st 36 36 455, st 37 37 5, st 38 46 455, st 47 47 459,
           st 48 59 455, st 61 61 455, st 63 63 456, st 64 90 455, st 95 95 455, st 97 122 455,
           st 126 126 455, st 128 255 455]),
    (459, [tr 2 2 472, tr 33 33 473, tr 35 35 474, tr 36 36 473, tr 37 37 475, tr 38 46 473,
           tr 47 47 476, tr 48 48 477, tr 49 49 478, tr 50 50 479, tr 51 57 480, tr 58 58 481,
           tr 59 59 473, tr 61 61 473, tr 63 63 482, tr 64 64 483, tr 65 90 473, tr 91 91 484,
           tr 95 95 473, tr 97 122 473, tr 126 126 473]),
    (460, [tr 35 35 485, tr 47 47 486, tr 58 58 487, tr 63 63 488]),
    (461, [tr 35 35 489, tr 47 47 490, tr 48 57 491, tr 63 63 492]),
    (462, [tr 35 35 493, tr 47 47 494, st 48 57 462, tr 63 63 496]),
    (463, [tr 35 35 485, tr 47 47 486, st 48 57 464, tr 58 58 487, tr 63 63 488]),
    (464, [tr 35 35 485, tr 47 47 486, st 48 57 460, tr 58 58 487, tr 63 63 488]),
    (465, [tr 35 35 485, tr 47 47 486, st 48 52 460, st 53 53 466, st 54 57 460, tr 58 58 487,
           tr 63 63 488]),
    (466, [tr 35 35 485, tr 47 47 486, st 48 53 460, tr 58 58 487, tr 63 63 488]),
    (467, [st 33 33 467, tr 35 35 485, st 36 36 467, st 37 37 31, st 38 46 467, tr 47 47 486,
           st 48 57 467, tr 58 58 499, st 59 59 467, st 61 61 467, tr 63 63 488, tr 64 64 38,
           st 65 90 467, st 95 95 467, st 97 122 467, st 126 126 467]),
    (468, [st 33 33 33, tr 35 35 489, st 36 36 33, st 37 37 34, st 38 46 33, tr 47 47 490,
           tr 48 57 500, st 58 59 33, st 61 61 33, tr 63 63 492, tr 64 64 38, st 65 90 33,
           st 95 95 33, st 97 122 33, st 126 126 33]),
    (469, [tr 2 2 472, tr 33 33 501, tr 35 35 474, tr 36 36 501, tr 37 37 502, tr 38 46 501,
           tr 47 47 476, tr 48 48 503, tr 49 49 504, tr 50 50 505, tr 51 57 506, tr 58 58 507,
           tr 59 59 501, tr 61 61 501, tr 63 63 482, tr 65 90 501, tr 91 91 484, tr 95 95 501,
           tr 97 122 501, tr 126 126 501]),
    (470, [st 33 33 470, tr 35 35 485, st 36 36 470, st 37 37 36, st 38 46 470, tr 47 47 486,
           st 48 57 470, tr 58 58 487, st 59 59 470, st 61 61 470, tr 63 63 488, st 65 90 470,
           st 95 95 470, st 97 122 470, st 126 126 470]),
    (471, [st 33 33 470, tr 35 35 485, st 36 36 470, st 37 37 36, st 38 45 470, st 46 46 472,
           tr 47 47 486, st 48 57 470, tr 58 58 487, st 59 59 470, st 61 61 470, tr 63 63 488,
           st 65 90 470, st 95 95 470, st 97 122 470, st 126 126 470]),
    (472, [st 2 2 13, st 33 33 470, tr 35 35 485, st 36 36 470, st 37 37 36, st 38 46 470,
           tr 47 47 486, st 48 48 473, st 49 49 481, st 50 50 483, st 51 57 482, tr 58 58 487,
           st 59 59 470, st 61 61 470, tr 63 63 488, st 65 90 470, st 95 95 470, st 97 122 470,
           st 126 126 470]),
    (473, [st 33 33 470, tr 35 35 485, st 36 36 470, st 37 37 36, st 38 45 470, st 46 46 474,
           tr 47 47 486, st 48 57 470, tr 58 58 487, st 59 59 470, st 61 61 470, tr 63 63 488,
           st 65 90 470, st 95 95 470, st 97 122 470, st 126 126 470]),
    (474, [st 2 2 17, st 33 33 470, tr 35 35 485, st 36 36 470, st 37 37 36, st 38 46 470,
           tr 47 47 486, st 48 48 475, st 49 49 477, st 50 50 479, st 51 57 478, tr 58 58 487,
           st 59 59 470, st 61 61 470, tr 63 63 488, st 65 90 470, st 95 95 470, st 97 122 470,
           st 126 126 470]),
    (475, [st 33 33 470, tr 35 35 485, st 36 36 470, st 37 37 36, st 38 45 470, st 46 46 476,
           tr 47 47 486, st 48 57 470, tr 58 58 487, st 59 59 470, st 61 61 470, tr 63 63 488,
           st 65 90 470, st 95 95 470, st 97 122 470, st 126 126 470]),
    (476, [st 2 2 21, st 33 33 470, tr 35 35 485, st 36 36 470, st 37 37 36, st 38 46 470,
           tr 47 47 486, st 48 57 470, tr 58 58 487, st 59 59 470, st 61 61 470, tr 63 63 488,
           st 65 90 470, st 95 95 470, st 97 122 470, st 126 126 470]),
    (477, [st 33 33 470, tr 35 35 485, st 36 36 470, st 37 37 36, st 38 45 470, st 46 46 476,
           tr 47 47 486, st 48 57 478, tr 58 58 487, st 59 59 470, st 61 61 470, tr 63 63 488,
           st 65 90 470, st 95 95 470, st 97 122 470, st 126 126 470]),
    (478, [st 33 33 470, tr 35 35 485, st 36 36 470, st 37 37 36, st 38 45 470, st 46 46 476,
           tr 47 47 486, st 48 57 475, tr 58 58 487, st 59 59 470, st 61 61 470, tr 63 63 488,
           st 65 90 470, st 95 95 470, st 97 122 470, st 126 126 470]),
    (479, [st 33 33 470, tr 35 35 485, st 36 36 470, st 37 37 36, st 38 45 470, st 46 46 476,
           tr 47 47 486, st 48 52 475, st 53 53 480, st 54 57 475, tr 58 58 487, st 59 59 470,
           st 61 61 470, tr 63 63 488, st 65 90 470, st 95 95 470, st 97 122 470, st 126 126 470]),
    (480, [st 33 33 470, tr 35 35 485, st 36 36 470, st 37 37 36, st 38 45 470, st 46 46 476,
           tr 47 47 486, st 48 53 475, st 54 57 470, tr 58 58 487, st 59 59 470, st 61 61 470,
           tr 63 63 488, st 65 90 470, st 95 95 470, st 97 122 470, st 126 126 470])]

/-- The switches of the states 481 to 520. -/
def rows481 : List (Nat × List Range) :=
  [
    (481, [st 33 33 470, tr 35 35 485, st 36 36 470, st 37 37 36, st 38 45 470, st 46 46 474,
           tr 47 47 486, st 48 57 482, tr 58 58 487, st 59 59 470, st 61 61 470, tr 63 63 488,
           st 65 90 470, st 95 95 470, st 97 122 470, st 126 126 470]),
    (482, [st 33 33 470, tr 35 35 485, st 36 36 470, st 37 37 36, st 38 45 470, st 46 46 474,
           tr 47 47 486, st 48 57 473, tr 58 58 487, st 59 59 470, st 61 61 470, tr 63 63 488,
           st 65 90 470, st 95 95 470, st 97 122 470, st 126 126 470]),
    (483, [st 33 33 470, tr 35 35 485, st 36 36 470, st 37 37 36, st 38 45 470, st 46 46 474,
           tr 47 47 486, st 48 52 473, st 53 53 484, st 54 57 473, tr 58 58 487, st 59 59 470,
           st 61 61 470, tr 63 63 488, st 65 90 470, st 95 95 470, st 97 122 470, st 126 126 470]),
    (484, [st 33 33 470, tr 35 35 485, st 36 36 470, st 37 37 36, st 38 45 470, st 46 46 474,
           tr 47 47 486, st 48 53 473, st 54 57 470, tr 58 58 487, st 59 59 470, st 61 61 470,
           tr 63 63 488, st 65 90 470, st 95 95 470, st 97 122 470, st 126 126 470]),
    (485, [st 33 33 470, tr 35 35 485, st 36 36 470, st 37 37 36, st 38 45 470, st 46 46 472,
           tr 47 47 486, st 48 57 486, tr 58 58 487, st 59 59 470, st 61 61 470, tr 63 63 488,
           st 65 90 470, st 95 95 470, st 97 122 470, st 126 126 470]),
    (486, [st 33 33 470, tr 35 35 485, st 36 36 470, st 37 37 36, st 38 45 470, st 46 46 472,
           tr 47 47 486, st 48 57 471, tr 58 58 487, st 59 59 470, st 61 61 470, tr 63 63 488,
           st 65 90 470, st 95 95 470, st 97 122 470, st 126 126 470]),
    (487, [st 33 33 470, tr 35 35 485, st 36 36 470, st 37 37 36, st 38 45 470, st 46 46 472,
           tr 47 47 486, st 48 52 471, st 53 53 488, st 54 57 471, tr 58 58 487, st 59 59 470,
           st 61 61 470, tr 63 63 488, st 65 90 470, st 95 95 470, st 97 122 470, st 126 126 470]),
    (488, [st 33 33 470, tr 35 35 485, st 36 36 470, st 37 37 36, st 38 45 470, st 46 46 472,
           tr 47 47 486, st 48 53 471, st 54 57 470, tr 58 58 487, st 59 59 470, st 61 61 470,
           tr 63 63 488, st 65 90 470, st 95 95 470, st 97 122 470, st 126 126 470]),
    (489, [st 33 33 33, tr 35 35 493, st 36 36 33, st 37 37 34, st 38 46 33, tr 47 47 494,
           st 48 57 489, st 58 59 33, st 61 61 33, tr 63 63 496, tr 64 64 38, st 65 90 33,
           st 95 95 33, st 97 122 33, st 126 126 33]),
    (490, [st 33 33 467, tr 35 35 485, st 36 36 467, st 37 37 31, st 38 45 467, st 46 46 491,
           tr 47 47 486, st 48 57 467, tr 58 58 499, st 59 59 467, st 61 61 467, tr 63 63 488,
           tr 64 64 38, st 65 90 467, st 95 95 467, st 97 122 467, st 126 126 467]),
    (491, [st 2 2 13, st 33 33 467, tr 35 35 485, st 36 36 467, st 37 37 31, st 38 46 467,
           tr 47 47 486, st 48 48 492, st 49 49 500, st 50 50 502, st 51 57 501, tr 58 58 499,
           st 59 59 467, st 61 61 467, tr 63 63 488, tr 64 64 38, st 65 90 467, st 95 95 467,
           st 97 122 467, st 126 126 467]),
    (492, [st 33 33 467, tr 35 35 485, st 36 36 467, st 37 37 31, st 38 45 467, st 46 46 493,
           tr 47 47 486, st 48 57 467, tr 58 58 499, st 59 59 467, st 61 61 467, tr 63 63 488,
           tr 64 64 38, st 65 90 467, st 95 95 467, st 97 122 467, st 126 126 467]),
    (493, [st 2 2 17, st 33 33 467, tr 35 35 485, st 36 36 467, st 37 37 31, st 38 46 467,
           tr 47 47 486, st 48 48 494, st 49 49 496, st 50 50 498, st 51 57 497, tr 58 58 499,
           st 59 59 467, st 61 61 467, tr 63 63 488, tr 64 64 38, st 65 90 467, st 95 95 467,
           st 97 122 467, st 126 126 467]),
    (494, [st 33 33 467, tr 35 35 485, st 36 36 467, st 37 37 31, st 38 45 467, st 46 46 495,
           tr 47 47 486, st 48 57 467, tr 58 58 499, st 59 59 467, st 61 61 467, tr 63 63 488,
           tr 64 64 38, st 65 90 467, st 95 95 467, st 97 122 467, st 126 126 467]),
    (495, [st 2 2 21, st 33 33 467, tr 35 35 485, st 36 36 467, st 37 37 31, st 38 46 467,
           tr 47 47 486, st 48 57 467, tr 58 58 499, st 59 59 467, st 61 61 467, tr 63 63 488,
           tr 64 64 38, st 65 90 467, st 95 95 467, st 97 122 467, st 126 126 467]),
    (496, [st 33 33 467, tr 35 35 485, st 36 36 467, st 37 37 31, st 38 45 467, st 46 46 495,
           tr 47 47 486, st 48 57 497, tr 58 58 499, st 59 59 467, st 61 61 467, tr 63 63 488,
           tr 64 64 38, st 65 90 467, st 95 95 467, st 97 122 467, st 126 126 467]),
    (497, [st 33 33 467, tr 35 35 485, st 36 36 467, st 37 37 31, st 38 45 467, st 46 46 495,
           tr 47 47 486, st 48 57 494, tr 58 58 499, st 59 59 467, st 61 61 467, tr 63 63 488,
           tr 64 64 38, st 65 90 467, st 95 95 467, st 97 122 467, st 126 126 467]),
    (498, [st 33 33 467, tr 35 35 485, st 36 36 467, st 37 37 31, st 38 45 467, st 46 46 495,
           tr 47 47 486, st 48 52 494, st 53 53 499, st 54 57 494, tr 58 58 499, st 59 59 467,
           st 61 61 467, tr 63 63 488, tr 64 64 38, st 65 90 467, st 95 95 467, st 97 122 467,
           st 126 126 467]),
    (499, [st 33 33 467, tr 35 35 485, st 36 36 467, st 37 37 31, st 38 45 467, st 46 46 495,
           tr 47 47 486, st 48 53 494, st 54 57 467, tr 58 58 499, st 59 59 467, st 61 61 467,
           tr 63 63 488, tr 64 64 38, st 65 90 467, st 95 95 467, st 97 122 467, st 126 126 467]),
    (500, [st 33 33 467, tr 35 35 485, st 36 36 467, st 37 37 31, st 38 45 467, st 46 46 493,
           tr 47 47 486, st 48 57 501, tr 58 58 499, st 59 59 467, st 61 61 467, tr 63 63 488,
           tr 64 64 38, st 65 90 467, st 95 95 467, st 97 122 467, st 126 126 467]),
    (501, [st 33 33 467, tr 35 35 485, st 36 36 467, st 37 37 31, st 38 45 467, st 46 46 493,
           tr 47 47 486, st 48 57 492, tr 58 58 499, st 59 59 467, st 61 61 467, tr 63 63 488,
           tr 64 64 38, st 65 90 467, st 95 95 467, st 97 122 467, st 126 126 467]),
    (502, [st 33 33 467, tr 35 35 485, st 36 36 467, st 37 37 31, st 38 45 467, st 46 46 493,
           tr 47 47 486, st 48 52 492, st 53 53 503, st 54 57 492, tr 58 58 499, st 59 59 467,
           st 61 61 467, tr 63 63 488, tr 64 64 38, st 65 90 467, st 95 95 467, st 97 122 467,
           st 126 126 467]),
    (503, [st 33 33 467, tr 35 35 485, st 36 36 467, st 37 37 31, st 38 45 467, st 46 46 493,
           tr 47 47 486, st 48 53 492, st 54 57 467, tr 58 58 499, st 59 59 467, st 61 61 467,
           tr 63 63 488, tr 64 64 38, st 65 90 467, st 95 95 467, st 97 122 467, st 126 126 467]),
    (504, [st 33 33 467, tr 35 35 485, st 36 36 467, st 37 37 31, st 38 45 467, st 46 46 491,
           tr 47 47 486, st 48 57 505, tr 58 58 499, st 59 59 467, st 61 61 467, tr 63 63 488,
           tr 64 64 38, st 65 90 467, st 95 95 467, st 97 122 467, st 126 126 467]),
    (505, [st 33 33 467, tr 35 35 485, st 36 36 467, st 37 37 31, st 38 45 467, st 46 46 491,
           tr 47 47 486, st 48 57 490, tr 58 58 499, st 59 59 467, st 61 61 467, tr 63 63 488,
           tr 64 64 38, st 65 90 467, st 95 95 467, st 97 122 467, st 126 126 467]),
    (506, [st 33 33 467, tr 35 35 485, st 36 36 467, st 37 37 31, st 38 45 467, st 46 46 491,
           tr 47 47 486, st 48 52 490, st 53 53 507, st 54 57 490, tr 58 58 499, st 59 59 467,
           st 61 61 467, tr 63 63 488, tr 64 64 38, st 65 90 467, st 95 95 467, st 97 122 467,
           st 126 126 467]),
    (507, [st 33 33 467, tr 35 35 485, st 36 36 467, st 37 37 31, st 38 45 467, st 46 46 491,
           tr 47 47 486, st 48 53 490, st 54 57 467, tr 58 58 499, st 59 59 467, st 61 61 467,
           tr 63 63 488, tr 64 64 38, st 65 90 467, st 95 95 467, st 97 122 467, st 126 126 467]),
    (508, [st 33 33 452, st 35 35 453, st 36 36 452, st 37 37 3, st 38 42 452, st 43 43 508,
           st 44 44 452, st 45 46 508, st 47 47 455, st 48 57 508, tr 58 58 543, st 59 59 452,
           st 61 61 452, st 63 63 456, st 64 64 452, st 65 90 508, st 95 95 452, st 97 122 508,
           st 126 126 452, st 128 255 452]),
    (509, [st 33 33 455, st 35 35 453, st 36 36 455, st 37 37 5, st 38 46 455, st 47 47 510,
           st 48 59 455, st 61 61 455, st 63 63 456, st 64 90 455, st 95 95 455, st 97 122 455,
           st 126 126 455, st 128 255 455]),
    (510, [st 33 33 455, st 35 35 453, st 36 36 455, st 37 37 5, st 38 46 455, st 47 47 511,
           st 48 59 455, st 61 61 455, st 63 63 456, st 64 90 455, st 95 95 455, st 97 122 455,
           st 126 126 455, st 128 255 455]),
    (511, [tr 2 2 546, tr 33 33 547, tr 35 35 548, tr 36 36 547, tr 37 37 549, tr 38 46 547,
           tr 47 47 550, tr 48 48 551, tr 49 49 552, tr 50 50 553, tr 51 57 554, tr 58 58 555,
           tr 59 59 547, tr 61 61 547, tr 63 63 556, tr 64 64 557, tr 65 90 547, tr 91 91 558,
           tr 95 95 547, tr 97 122 547, tr 126 126 547]),
    (512, [tr 35 35 559, tr 47 47 560, tr 58 58 561, tr 63 63 562]),
    (513, [st 33 33 513, tr 35 35 563, st 36 36 513, st 37 37 243, st 38 59 513, st 61 61 513,
           tr 63 63 565, st 64 90 513, st 95 95 513, st 97 122 513, st 126 126 513,
           st 128 255 513]),
    (514, [tr 35 35 566, tr 47 47 567, tr 48 57 568, tr 63 63 569]),
    (515, [tr 35 35 570, tr 47 47 571, st 48 57 515, tr 63 63 573]),
    (516, [tr 35 35 559, tr 47 47 560, st 48 57 517, tr 58 58 561, tr 63 63 562]),
    (517, [tr 35 35 559, tr 47 47 560, st 48 57 512, tr 58 58 561, tr 63 63 562]),
    (518, [tr 35 35 559, tr 47 47 560, st 48 52 512, st 53 53 519, st 54 57 512, tr 58 58 561,
           tr 63 63 562]),
    (519, [tr 35 35 559, tr 47 47 560, st 48 53 512, tr 58 58 561, tr 63 63 562]),
    (520, [st 33 33 520, tr 35 35 559, st 36 36 520, st 37 37 253, st 38 46 520, tr 47 47 560,
           st 48 57 520, tr 58 58 576, st 59 59 520, st 61 61 520, tr 63 63 562, tr 64 64 263,
           st 65 90 520, st 95 95 520, st 97 122 520, st 126 126 520])]

/-- The switches of the states 521 to 560. -/
def rows521 : List (Nat × List Range) :=
  [
    (521, [st 33 33 255, tr 35 35 566, st 36 36 255, st 37 37 256, st 38 46 255, tr 47 47 567,
           tr 48 57 577, st 58 59 255, st 61 61 255, tr 63 63 569, tr 64 64 263, st 65 90 255,
           st 95 95 255, st 97 122 255, st 126 126 255]),
    (522, [tr 2 2 546, tr 33 33 578, tr 35 35 548, tr 36 36 578, tr 37 37 579, tr 38 46 578,
           tr 47 47 550, tr 48 48 580, tr 49 49 581, tr 50 50 582, tr 51 57 583, tr 58 58 584,
           tr 59 59 578, tr 61 61 578, tr 63 63 556, tr 65 90 578, tr 91 91 558, tr 95 95 578,
           tr 97 122 578, tr 126 126 578]),
    (523, [st 33 33 523, tr 35 35 559, st 36 36 523, st 37 37 258, st 38 46 523, tr 47 47 560,
           st 48 57 523, tr 58 58 561, st 59 59 523, st 61 61 523, tr 63 63 562, st 65 90 523,
           st 95 95 523, st 97 122 523, st 126 126 523]),
    (524, [st 33 33 523, tr 35 35 559, st 36 36 523, st 37 37 258, st 38 45 523, st 46 46 525,
           tr 47 47 560, st 48 57 523, tr 58 58 561, st 59 59 523, st 61 61 523, tr 63 63 562,
           st 65 90 523, st 95 95 523, st 97 122 523, st 126 126 523]),
    (525, [st 2 2 233, st 33 33 523, tr 35 35 559, st 36 36 523, st 37 37 258, st 38 46 523,
           tr 47 47 560, st 48 48 526, st 49 49 534, st 50 50 536, st 51 57 535, tr 58 58 561,
           st 59 59 523, st 61 61 523, tr 63 63 562, st 65 90 523, st 95 95 523, st 97 122 523,
           st 126 126 523]),
    (526, [st 33 33 523, tr 35 35 559, st 36 36 523, st 37 37 258, st 38 45 523, st 46 46 527,
           tr 47 47 560, st 48 57 523, tr 58 58 561, st 59 59 523, st 61 61 523, tr 63 63 562,
           st 65 90 523, st 95 95 523, st 97 122 523, st 126 126 523]),
    (527, [st 2 2 237, st 33 33 523, tr 35 35 559, st 36 36 523, st 37 37 258, st 38 46 523,
           tr 47 47 560, st 48 48 528, st 49 49 530, st 50 50 532, st 51 57 531, tr 58 58 561,
           st 59 59 523, st 61 61 523, tr 63 63 562, st 65 90 523, st 95 95 523, st 97 122 523,
           st 126 126 523]),
    (528, [st 33 33 523, tr 35 35 559, st 36 36 523, st 37 37 258, st 38 45 523, st 46 46 529,
           tr 47 47 560, st 48 57 523, tr 58 58 561, st 59 59 523, st 61 61 523, tr 63 63 562,
           st 65 90 523, st 95 95 523, st 97 122 523, st 126 126 523]),
    (529, [st 2 2 241, st 33 33 523, tr 35 35 559, st 36 36 523, st 37 37 258, st 38 46 523,
           tr 47 47 560, st 48 57 523, tr 58 58 561, st 59 59 523, st 61 61 523, tr 63 63 562,
           st 65 90 523, st 95 95 523, st 97 122 523, st 126 126 523]),
    (530, [st 33 33 523, tr 35 35 559, st 36 36 523, st 37 37 258, st 38 45 523, st 46 46 529,
           tr 47 47 560, st 48 57 531, tr 58 58 561, st 59 59 523, st 61 61 523, tr 63 63 562,
           st 65 90 523, st 95 95 523, st 97 122 523, st 126 126 523]),
    (531, [st 33 33 523, tr 35 35 559, st 36 36 523, st 37 37 258, st 38 45 523, st 46 46 529,
           tr 47 47 560, st 48 57 528, tr 58 58 561, st 59 59 523, st 61 61 523, tr 63 63 562,
           st 65 90 523, st 95 95 523, st 97 122 523, st 126 126 523]),
    (532, [st 33 33 523, tr 35 35 559, st 36 36 523, st 37 37 258, st 38 45 523, st 46 46 529,
           tr 47 47 560, st 48 52 528, st 53 53 533, st 54 57 528, tr 58 58 561, st 59 59 523,
           st 61 61 523, tr 63 63 562, st 65 90 523, st 95 95 523, st 97 122 523, st 126 126 523]),
    (533, [st 33 33 523, tr 35 35 559, st 36 36 523, st 37 37 258, st 38 45 523, st 46 46 529,
           tr 47 47 560, st 48 53 528, st 54 57 523, tr 58 58 561, st 59 59 523, st 61 61 523,
           tr 63 63 562, st 65 90 523, st 95 95 523, st 97 122 523, st 126 126 523]),
    (534, [st 33 33 523, tr 35 35 559, st 36 36 523, st 37 37 258, st 38 45 523, st 46 46 527,
           tr 47 47 560, st 48 57 535, tr 58 58 561, st 59 59 523, st 61 61 523, tr 63 63 562,
           st 65 90 523, st 95 95 523, st 97 122 523, st 126 126 523]),
    (535, [st 33 33 523, tr 35 35 559, st 36 36 523, st 37 37 258, st 38 45 523, st 46 46 527,
           tr 47 47 560, st 48 57 526, tr 58 58 561, st 59 59 523, st 61 61 523, tr 63 63 562,
           st 65 90 523, st 95 95 523, st 97 122 523, st 126 126 523]),
    (536, [st 33 33 523, tr 35 35 559, st 36 36 523, st 37 37 258, st 38 45 523, st 46 46 527,
           tr 47 47 560, st 48 52 526, st 53 53 537, st 54 57 526, tr 58 58 561, st 59 59 523,
           st 61 61 523, tr 63 63 562, st 65 90 523, st 95 95 523, st 97 122 523, st 126 126 523]),
    (537, [st 33 33 523, tr 35 35 559, st 36 36 523, st 37 37 258, st 38 45 523, st 46 46 527,
           tr 47 47 560, st 48 53 526, st 54 57 523, tr 58 58 561, st 59 59 523, st 61 61 523,
           tr 63 63 562, st 65 90 523, st 95 95 523, st 97 122 523, st 126 126 523]),
    (538, [st 33 33 523, tr 35 35 559, st 36 36 523, st 37 37 258, st 38 45 523, st 46 46 525,
           tr 47 47 560, st 48 57 539, tr 58 58 561, st 59 59 523, st 61 61 523, tr 63 63 562,
           st 65 90 523, st 95 95 523, st 97 122 523, st 126 126 523]),
    (539, [st 33 33 523, tr 35 35 559, st 36 36 523, st 37 37 258, st 38 45 523, st 46 46 525,
           tr 47 47 560, st 48 57 524, tr 58 58 561, st 59 59 523, st 61 61 523, tr 63 63 562,
           st 65 90 523, st 95 95 523, st 97 122 523, st 126 126 523]),
    (540, [st 33 33 523, tr 35 35 559, st 36 36 523, st 37 37 258, st 38 45 523, st 46 46 525,
           tr 47 47 560, st 48 52 524, st 53 53 541, st 54 57 524, tr 58 58 561, st 59 59 523,
           st 61 61 523, tr 63 63 562, st 65 90 523, st 95 95 523, st 97 122 523, st 126 126 523]),
    (541, [st 33 33 523, tr 35 35 559, st 36 36 523, st 37 37 258, st 38 45 523, st 46 46 525,
           tr 47 47 560, st 48 53 524, st 54 57 523, tr 58 58 561, st 59 59 523, st 61 61 523,
           tr 63 63 562, st 65 90 523, st 95 95 523, st 97 122 523, st 126 126 523]),
    (542, [st 33 33 255, tr 35 35 570, st 36 36 255, st 37 37 256, st 38 46 255, tr 47 47 571,
           st 48 57 542, st 58 59 255, st 61 61 255, tr 63 63 573, tr 64 64 263, st 65 90 255,
           st 95 95 255, st 97 122 255, st 126 126 255]),
    (543, [st 33 33 520, tr 35 35 559, st 36 36 520, st 37 37 253, st 38 45 520, st 46 46 544,
           tr 47 47 560, st 48 57 520, tr 58 58 576, st 59 59 520, st 61 61 520, tr 63 63 562,
           tr 64 64 263, st 65 90 520, st 95 95 520, st 97 122 520, st 126 126 520]),
    (544, [st 2 2 233, st 33 33 520, tr 35 35 559, st 36 36 520, st 37 37 253, st 38 46 520,
           tr 47 47 560, st 48 48 545, st 49 49 553, st 50 50 555, st 51 57 554, tr 58 58 576,
           st 59 59 520, st 61 61 520, tr 63 63 562, tr 64 64 263, st 65 90 520, st 95 95 520,
           st 97 122 520, st 126 126 520]),
    (545, [st 33 33 520, tr 35 35 559, st 36 36 520, st 37 37 253, st 38 45 520, st 46 46 546,
           tr 47 47 560, st 48 57 520, tr 58 58 576, st 59 59 520, st 61 61 520, tr 63 63 562,
           tr 64 64 263, st 65 90 520, st 95 95 520, st 97 122 520, st 126 126 520]),
    (546, [st 2 2 237, st 33 33 520, tr 35 35 559, st 36 36 520, st 37 37 253, st 38 46 520,
           tr 47 47 560, st 48 48 547, st 49 49 549, st 50 50 551, st 51 57 550, tr 58 58 576,
           st 59 59 520, st 61 61 520, tr 63 63 562, tr 64 64 263, st 65 90 520, st 95 95 520,
           st 97 122 520, st 126 126 520]),
    (547, [st 33 33 520, tr 35 35 559, st 36 36 520, st 37 37 253, st 38 45 520, st 46 46 548,
           tr 47 47 560, st 48 57 520, tr 58 58 576, st 59 59 520, st 61 61 520, tr 63 63 562,
           tr 64 64 263, st 65 90 520, st 95 95 520, st 97 122 520, st 126 126 520]),
    (548, [st 2 2 241, st 33 33 520, tr 35 35 559, st 36 36 520, st 37 37 253, st 38 46 520,
           tr 47 47 560, st 48 57 520, tr 58 58 576, st 59 59 520, st 61 61 520, tr 63 63 562,
           tr 64 64 263, st 65 90 520, st 95 95 520, st 97 122 520, st 126 126 520]),
    (549, [st 33 33 520, tr 35 35 559, st 36 36 520, st 37 37 253, st 38 45 520, st 46 46 548,
           tr 47 47 560, st 48 57 550, tr 58 58 576, st 59 59 520, st 61 61 520, tr 63 63 562,
           tr 64 64 263, st 65 90 520, st 95 95 520, st 97 122 520, st 126 126 520]),
    (550, [st 33 33 520, tr 35 35 559, st 36 36 520, st 37 37 253, st 38 45 520, st 46 46 548,
           tr 47 47 560, st 48 57 547, tr 58 58 576, st 59 59 520, st 61 61 520, tr 63 63 562,
           tr 64 64 263, st 65 90 520, st 95 95 520, st 97 122 520, st 126 126 520]),
    (551, [st 33 33 520, tr 35 35 559, st 36 36 520, st 37 37 253, st 38 45 520, st 46 46 548,
           tr 47 47 560, st 48 52 547, st 53 53 552, st 54 57 547, tr 58 58 576, st 59 59 520,
           st 61 61 520, tr 63 63 562, tr 64 64 263, st 65 90 520, st 95 95 520, st 97 122 520,
           st 126 126 520]),
    (552, [st 33 33 520, tr 35 35 559, st 36 36 520, st 37 37 253, st 38 45 520, st 46 46 548,
           tr 47 47 560, st 48 53 547, st 54 57 520, tr 58 58 576, st 59 59 520, st 61 61 520,
           tr 63 63 562, tr 64 64 263, st 65 90 520, st 95 95 520, st 97 122 520, st 126 126 520]),
    (553, [st 33 33 520, tr 35 35 559, st 36 36 520, st 37 37 253, st 38 45 520, st 46 46 546,
           tr 47 47 560, st 48 57 554, tr 58 58 576, st 59 59 520, st 61 61 520, tr 63 63 562,
           tr 64 64 263, st 65 90 520, st 95 95 520, st 97 122 520, st 126 126 520]),
    (554, [st 33 33 520, tr 35 35 559, st 36 36 520, st 37 37 253, st 38 45 520, st 46 46 546,
           tr 47 47 560, st 48 57 545, tr 58 58 576, st 59 59 520, st 61 61 520, tr 63 63 562,
           tr 64 64 263, st 65 90 520, st 95 95 520, st 97 122 520, st 126 126 520]),
    (555, [st 33 33 520, tr 35 35 559, st 36 36 520, st 37 37 253, st 38 45 520, st 46 46 546,
           tr 47 47 560, st 48 52 545, st 53 53 556, st 54 57 545, tr 58 58 576, st 59 59 520,
           st 61 61 520, tr 63 63 562, tr 64 64 263, st 65 90 520, st 95 95 520, st 97 122 520,
           st 126 126 520]),
    (556, [st 33 33 520, tr 35 35 559, st 36 36 520, st 37 37 253, st 38 45 520, st 46 46 546,
           tr 47 47 560, st 48 53 545, st 54 57 520, tr 58 58 576, st 59 59 520, st 61 61 520,
           tr 63 63 562, tr 64 64 263, st 65 90 520, st 95 95 520, st 97 122 520, st 126 126 520]),
    (557, [st 33 33 520, tr 35 35 559, st 36 36 520, st 37 37 253, st 38 45 520, st 46 46 544,
           tr 47 47 560, st 48 57 558, tr 58 58 576, st 59 59 520, st 61 61 520, tr 63 63 562,
           tr 64 64 263, st 65 90 520, st 95 95 520, st 97 122 520, st 126 126 520]),
    (558, [st 33 33 520, tr 35 35 559, st 36 36 520, st 37 37 253, st 38 45 520, st 46 46 544,
           tr 47 47 560, st 48 57 543, tr 58 58 576, st 59 59 520, st 61 61 520, tr 63 63 562,
           tr 64 64 263, st 65 90 520, st 95 95 520, st 97 122 520, st 126 126 520]),
    (559, [st 33 33 520, tr 35 35 559, st 36 36 520, st 37 37 253, st 38 45 520, st 46 46 544,
           tr 47 47 560, st 48 52 543, st 53 53 560, st 54 57 543, tr 58 58 576, st 59 59 520,
           st 61 61 520, tr 63 63 562, tr 64 64 263, st 65 90 520, st 95 95 520, st 97 122 520,
           st 126 126 520]),
    (560, [st 33 33 520, tr 35 35 559, st 36 36 520, st 37 37 253, st 38 45 520, st 46 46 544,
           tr 47 47 560, st 48 53 543, st 54 57 520, tr 58 58 576, st 59 59 520, st 61 61 520,
           tr 63 63 562, tr 64 64 263, st 65 90 520, st 95 95 520, st 97 122 520, st 126 126 520])]

/-- The switch of every state: each block with its last state. -/
def rows : List (Nat × List (Nat × List Range)) :=
  [(40, rows1), (80, rows41), (120, rows81), (160, rows121), (200, rows161), (240, rows201),
    (280, rows241), (320, rows281), (360, rows321), (400, rows361), (440, rows401), (480, rows441),
    (520, rows481), (560, rows521)]

/-! ## The machine -/

/-- `uri_parser_start` and `uri_parser_first_final`; the error state is `0`. -/
def uriParserStart : Nat := 451
def uriParserFirstFinal : Nat := 451
def uriParserError : Nat := 0

def transition : Http.Target → Option (List Action × Nat)
  | .st n => some ([], n)
  | .tr k => transitions.lookup k

/-- The switch of a state. -/
def row (cs : Nat) : Option (List Range) :=
  (rows.find? fun block => decide (cs ≤ block.1)).bind fun block => block.2.lookup cs

/-- One byte of the machine: the actions and the next state, `none` for `st0`. -/
def next (cs : Nat) (c : UInt8) : Option (List Action × Nat) :=
  (row cs).bind fun ranges =>
    (ranges.find? (Range.covers false c)).bind fun r => transition r.target

/-- The actions of a state at the end of the text. -/
def eof (cs : Nat) : List Action :=
  ((eofActions.find? fun e => e.1 ≤ cs && cs ≤ e.2.1).map fun e => e.2.2).getD []

/-- The machine as a scanner table.  No state leaves the loop before the text ends. -/
def machine : Lib.Scanner.Table Nat Action where
  next := next
  final _ := false

/-- A byte that is not refused is in a range of the switch. -/
theorem exists_range {cs : Nat} {c : UInt8} {dest : List Action × Nat}
    (h : next cs c = some dest) : ∃ block ∈ rows, ∃ ranges, (cs, ranges) ∈ block.2 ∧
      ∃ r ∈ ranges, r.covers false c = true ∧ transition r.target = some dest := by
  obtain ⟨ranges, hranges, h⟩ := Option.bind_eq_some_iff.mp h
  obtain ⟨r, hr, h⟩ := Option.bind_eq_some_iff.mp h
  obtain ⟨block, hblock, hlookup⟩ := Option.bind_eq_some_iff.mp hranges
  obtain ⟨l, l', hsplit, -⟩ := List.lookup_eq_some_iff.mp hlookup
  have hmem : (cs, ranges) ∈ block.2 := hsplit ▸ List.mem_append_right _ List.mem_cons_self
  exact ⟨block, List.mem_of_find?_eq_some hblock, ranges, hmem, r,
    List.mem_of_find?_eq_some hr, List.find?_some hr, h⟩

/-- A byte that a range covers is one of its interval. -/
theorem covers_iff {r : Range} {c : UInt8} : r.covers false c = true ↔
    r.guarded = false ∧ r.lo ≤ c.toNat ∧ c.toNat ≤ r.hi := by
  simp only [Range.covers, Bool.or_false, Bool.and_eq_true, decide_eq_true_eq,
    Bool.not_eq_true']
  exact and_comm

end CoLib.Uri
