/-
# `CoLib.Uri.Grammar` — the grammar of `uri.rl`, and that of RFC 3986

`uriRl` has the rules of `uri.rl` as they are written there.  In a Ragel grammar a number
outside quotes is the byte with that number; `dec_octet` has such a `2`.

`rfc3986` is the grammar that `uri.rl` names, with the bytes from 128 on in `pchar`, as
`uri.rl` has them.  It differs from `uriRl` in four rules.
-/
import CoLib.Lib.Grammar

namespace CoLib.Uri

open Lib.Grammar

/-! ## Classes of bytes -/

def alpha : Nat := interval 65 90 ||| interval 97 122
def digit : Nat := interval 48 57
def xdigit : Nat := digit ||| interval 65 70 ||| interval 97 102

/-- `! $ & ' ( ) * + , ; =` -/
def subDelims : Nat :=
  byte 33 ||| byte 36 ||| interval 38 44 ||| byte 59 ||| byte 61

/-- Letters, digits and `- . _ ~`. -/
def unreserved : Nat :=
  alpha ||| digit ||| interval 45 46 ||| byte 95 ||| byte 126

/-- `any -- ascii`. -/
def nonAscii : Nat := interval 128 255

def colon : Nat := byte 58
def slash : Nat := byte 47
def question : Nat := byte 63
def hash : Nat := byte 35
def atSign : Nat := byte 64
def dot : Nat := byte 46

/-- The bytes of `pchar` that are not encoded. -/
def pcharBytes : Nat :=
  nonAscii ||| unreserved ||| subDelims ||| colon ||| atSign

/-- The same, without the colon. -/
def pcharNcBytes : Nat :=
  nonAscii ||| unreserved ||| subDelims ||| atSign

/-! ## The rules -/

/-- The rules of `uri.rl`. -/
inductive Rule where
  | pctEncoded
  | scheme
  | userinfo
  | decOctet
  | ipv4Address
  | h16
  | ls32
  | ipv6Address
  | ipvFuture
  | ipLiteral
  | regName
  | host
  | port
  | authority
  | pchar
  | segmentNz
  | segmentNzNc
  | pathAbempty
  | pathAbsolute
  | pathNoscheme
  | pathRootless
  | pathEmpty
  | query
  | fragment
  | hierPart
  | relativePart
  | relativeRef
  | uri
  | uriReference
  deriving DecidableEq, Repr

/-- The expressions of a list, one behind the other. -/
def seqs : List (Expr Rule) → Expr Rule
  | [] => .eps
  | [e] => e
  | e :: es => .seq e (seqs es)

/-- The alternatives of a list. -/
def alts : List (Expr Rule) → Expr Rule
  | [] => .bytes 0
  | [e] => e
  | e :: es => .alt e (alts es)

/-- `e+`. -/
def plus (e : Expr Rule) : Expr Rule := .seq e (.star e)

/-- `e?`. -/
def optional (e : Expr Rule) : Expr Rule := .upTo 1 e

/-- `h16 ":"`. -/
def h16Colon : Expr Rule := .seq (.rule .h16) (.bytes colon)

/-- `segment`. -/
def segment : Expr Rule := .star (.rule .pchar)

/-- `"/" segment`. -/
def slashSegment : Expr Rule := .seq (.bytes slash) segment

/-- `":" ":"` in front of `n` times `h16 ":"` and `last`. -/
def doubleColon (n : Nat) (last : List (Expr Rule)) : List (Expr Rule) :=
  [.bytes colon, .bytes colon] ++ List.replicate n h16Colon ++ last

/-- `pchar - ":"`. -/
def pcharNc : Expr Rule := .alt (.bytes pcharNcBytes) (.rule .pctEncoded)

/-- `dec_octet`, with the first byte of the numbers from 200 to 249. -/
def decOctet (two : Nat) : Expr Rule :=
  alts [.bytes digit,
    seqs [.bytes (interval 49 57), .bytes digit],
    seqs [.bytes (byte 49), .bytes digit, .bytes digit],
    seqs [.bytes two, .bytes (interval 48 52), .bytes digit],
    seqs [.bytes (byte 50), .bytes (byte 53), .bytes (interval 48 53)]]

/-- `IPvFuture`, with its first byte. -/
def ipvFuture (v : Nat) : Expr Rule :=
  seqs [.bytes v, plus (.bytes xdigit), .bytes dot,
    plus (.bytes (unreserved ||| subDelims ||| colon))]

/-- `IPv6address`; `groups n` stands for the groups that may come in front of an `h16` and
the double colon. -/
def ipv6Address (groups : Nat → List (Expr Rule)) : Expr Rule :=
  let front n := optional (seqs (groups n ++ [.rule .h16]))
  alts [seqs (List.replicate 6 h16Colon ++ [.rule .ls32]),
    seqs (doubleColon 5 [.rule .ls32]),
    seqs (front 0 :: doubleColon 4 [.rule .ls32]),
    seqs (front 1 :: doubleColon 3 [.rule .ls32]),
    seqs (front 2 :: doubleColon 2 [.rule .ls32]),
    seqs (front 3 :: doubleColon 1 [.rule .ls32]),
    seqs (front 4 :: doubleColon 0 [.rule .ls32]),
    seqs (front 5 :: doubleColon 0 [.rule .h16]),
    seqs (front 6 :: doubleColon 0 [])]

/-- `"?" query` and `"#" fragment`, where they are there. -/
def tail : List (Expr Rule) :=
  [optional (seqs [.bytes question, .rule .query]),
    optional (seqs [.bytes hash, .rule .fragment])]

/-- `"//" authority path_abempty`. -/
def netPath : Expr Rule :=
  seqs [.bytes slash, .bytes slash, .rule .authority, .rule .pathAbempty]

/-- The grammar of `uri.rl`. -/
def uriRl : Rule → Expr Rule
  | .pctEncoded => seqs [.bytes (byte 37), .bytes xdigit, .bytes xdigit]
  | .scheme =>
      seqs [.bytes alpha, .star (.bytes (alpha ||| digit ||| byte 43 ||| interval 45 46))]
  | .userinfo => .star (.alt (.bytes (unreserved ||| subDelims ||| colon)) (.rule .pctEncoded))
  | .decOctet => decOctet (byte 2)
  | .ipv4Address =>
      seqs [.rule .decOctet, .bytes dot, .rule .decOctet, .bytes dot, .rule .decOctet,
        .bytes dot, .rule .decOctet]
  | .h16 => seqs [.bytes xdigit, .upTo 3 (.bytes xdigit)]
  | .ls32 => .alt (seqs [.rule .h16, .bytes colon, .rule .h16]) (.rule .ipv4Address)
  | .ipv6Address => ipv6Address fun n => List.replicate n h16Colon
  | .ipvFuture => ipvFuture (byte 118)
  | .ipLiteral =>
      seqs [.bytes (byte 91), .alt (.rule .ipv6Address) (.rule .ipvFuture), .bytes (byte 93)]
  | .regName => .star (.alt (.bytes (unreserved ||| subDelims)) (.rule .pctEncoded))
  | .host => alts [.rule .ipLiteral, .rule .ipv4Address, .rule .regName]
  | .port => .star (.bytes digit)
  | .authority =>
      seqs [optional (seqs [.rule .userinfo, .bytes atSign]), .rule .host,
        optional (seqs [.bytes colon, .rule .port])]
  | .pchar => .alt (.bytes pcharBytes) (.rule .pctEncoded)
  | .segmentNz => plus (.rule .pchar)
  | .segmentNzNc => plus pcharNc
  | .pathAbempty => seqs [optional slashSegment, .star slashSegment]
  | .pathAbsolute =>
      seqs [.bytes slash, optional (seqs [.rule .segmentNz, .star slashSegment])]
  | .pathNoscheme => seqs [.rule .segmentNzNc, .star slashSegment]
  | .pathRootless => seqs [.rule .segmentNz, .star slashSegment]
  | .pathEmpty => .eps
  | .query => .star (.alt (.rule .pchar) (.bytes (slash ||| question)))
  | .fragment => .star (.alt (.rule .pchar) (.bytes (slash ||| question)))
  | .hierPart => alts [netPath, .rule .pathAbsolute, .rule .pathRootless, .rule .pathEmpty]
  | .relativePart => alts [netPath, .rule .pathAbsolute, .rule .pathNoscheme, .rule .pathEmpty]
  | .relativeRef => seqs (.rule .relativePart :: tail)
  | .uri => seqs ([.rule .scheme, .bytes colon, .rule .hierPart] ++ tail)
  | .uriReference => .alt (.rule .uri) (.rule .relativeRef)

/-- The grammar of RFC 3986, with the bytes from 128 on in `pchar`: `dec-octet` has the digit
`2`, a literal `v` stands for both cases, any number of groups up to `n` comes in front of
the double colon, and `path-abempty` is a repetition. -/
def rfc3986 : Rule → Expr Rule
  | .decOctet => decOctet (byte 50)
  | .ipv6Address => ipv6Address fun n => [.upTo n h16Colon]
  | .ipvFuture => ipvFuture (byte 86 ||| byte 118)
  | .pathAbempty => .star slashSegment
  | r => uriRl r

end CoLib.Uri
