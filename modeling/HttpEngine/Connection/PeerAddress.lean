import HttpEngine.Text.Numeral
import HttpEngine.Text.Split
/-!
# Addresses of peers

A peer is named by the **address** of its end of the connection: a host of four octets or of eight
groups of sixteen bits, and a port. In a host of groups one gap `::` stands for one or more groups
of zero, and the last two groups may be written as four octets.

Many texts denote one address, and each address has one written form: no leading zeros, hexadecimal
letters in lower case, and the first of the longest runs of two or more zero groups as the gap.
-/

namespace HttpEngine

open Text

/-- The address of a peer. -/
inductive PeerAddress where
  | v4 (octets : List Nat) (port : Nat)
  /-- A scope of zero stands for no scope. -/
  | v6 (groups : List Nat) (scope port : Nat)
  deriving DecidableEq, Repr

namespace PeerAddress

/-! ### Reading -/

/-- The number below a bound that one or more digits denote, leading zeros allowed. -/
def readDigits (base bound : Nat) (cs : List Char) : Option Nat :=
  match cs with
  | [] => none
  | cs => ((cs.mapM (digitIn base)).map (ofDigits base)).filter (· < bound)

/-- An octet in decimal, without leading zeros. -/
def readOctet (cs : List Char) : Option Nat :=
  if cs.head? = some '0' ∧ 1 < cs.length then none else readDigits 10 0x100 cs

/-- Four octets with points between them. -/
def readOctets (cs : List Char) : Option (List Nat) :=
  ((cs.splitOn '.').mapM readOctet).filter (·.length == 4)

/-- A group of one to four hexadecimal digits. -/
def readGroup (cs : List Char) : Option Nat :=
  if cs.length ≤ 4 then readDigits 16 0x10000 cs else none

/-- The two groups that four octets fill. -/
def groupsOfOctets : List Nat → List Nat
  | [a, b, c, d] => [a * 0x100 + b, c * 0x100 + d]
  | _ => []

/-- The groups of a text without a gap, which colons separate. Only the last piece of the text may
hold octets. -/
def groupsOfPieces : List (List Char) → Option (List Nat)
  | [] => some []
  | [last] => ((readGroup last).map ([·])) <|> (readOctets last).map groupsOfOctets
  | piece :: rest => do return (← readGroup piece) :: (← groupsOfPieces rest)

/-- The pieces between colons, of which an empty text has none. -/
def pieces (cs : List Char) : List (List Char) :=
  if cs.isEmpty then [] else cs.splitOn ':'

/-- The text before and after the first gap. -/
def cutGap : List Char → Option (List Char × List Char)
  | ':' :: ':' :: rest => some ([], rest)
  | c :: rest => (cutGap rest).map fun (before, after) => (c :: before, after)
  | [] => none

/-- The eight groups with a gap between the groups before and after it, which has to stand for one
at least. -/
def fillGap (front back : List Nat) : Option (List Nat) :=
  if front.length + back.length < 8 then
    some (front ++ List.replicate (8 - front.length - back.length) 0 ++ back)
  else none

/-- The eight groups of a host. Octets do not stand before a gap. -/
def readGroups (cs : List Char) : Option (List Nat) :=
  match cutGap cs with
  | none => (groupsOfPieces (pieces cs)).filter (·.length == 8)
  | some (before, after) => do
    fillGap (← (pieces before).mapM readGroup) (← groupsOfPieces (pieces after))

/-- A port in decimal, leading zeros allowed. -/
def readPort (cs : List Char) : Option Nat := readDigits 10 0x10000 cs

/-- The address that a text denotes: `octets:port`, `[groups]:port` or `[groups%scope]:port`. -/
def ofText? (text : String) : Option PeerAddress :=
  match text.toList with
  | '[' :: cs => do
    let (inside, after) ← cutAt ']' cs
    let (host, scope) := (cutAt '%' inside).getD (inside, ['0'])
    match after with
    | ':' :: port =>
      return .v6 (← readGroups host) (← readDigits 10 0x100000000 scope) (← readPort port)
    | _ => none
  | cs => do
    let (host, port) ← cutAt ':' cs
    return .v4 (← readOctets host) (← readPort port)

/-! ### Writing -/

/-- Octets with points between them. -/
def octetsText (octets : List Nat) : String := ".".intercalate (octets.map decimal)

/-- Groups with colons between them. -/
def groupList (groups : List Nat) : String :=
  ":".intercalate (groups.map fun g => String.ofList (Nat.toDigits 16 g))

/-- The number of zeros that groups start with. -/
def zerosAtStart (groups : List Nat) : Nat := (groups.takeWhile (· == 0)).length

/-- The start and the length of the first of the longest runs of zero groups. -/
def longestZeros (groups : List Nat) : Nat × Nat :=
  (List.range groups.length).foldl
    (fun best i =>
      let run := zerosAtStart (groups.drop i)
      if best.2 < run then (i, run) else best)
    (0, 0)

/-- A host of groups as it is written. One that embeds four octets shows them. -/
def groupsText : List Nat → String
  | [0, 0, 0, 0, 0, 0xffff, high, low] =>
    "::ffff:" ++ octetsText [high / 0x100, high % 0x100, low / 0x100, low % 0x100]
  | groups =>
    let (start, run) := longestZeros groups
    if 1 < run then groupList (groups.take start) ++ "::" ++ groupList (groups.drop (start + run))
    else groupList groups

/-- An address as it is written. -/
def text : PeerAddress → String
  | v4 octets port => octetsText octets ++ ":" ++ decimal port
  | v6 groups scope port =>
    let zone := if scope = 0 then "" else "%" ++ decimal scope
    "[" ++ groupsText groups ++ zone ++ "]:" ++ decimal port

/-- The name of a peer for the log. One without a known address is called by its connection. -/
def name (peer : Option PeerAddress) : String := (peer.map text).getD "connection"

end PeerAddress

end HttpEngine
