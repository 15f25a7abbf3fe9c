/-!
# Bytes that may not be UTF-8

A byte string is cut into characters and broken pieces. A broken piece is the
longest start of a character that cannot be completed, or a single byte that
starts none. Displaying a byte string writes U+FFFD for each broken piece.
-/
namespace ClassicAlgorithms.Text

inductive Utf8Piece where
  | char (c : Char)
  | broken (bytes : List UInt8)
deriving DecidableEq

/-- A character of which some bytes have been read. -/
structure Unfinished where
  /-- The bytes read, last first. -/
  bytes : List UInt8
  /-- How many continuation bytes are due. -/
  due : Nat
  /-- The range in which the next byte has to lie. -/
  low : Nat
  high : Nat
  /-- The bits read so far. -/
  value : Nat
deriving DecidableEq

/-- The first byte of a character of several bytes. The narrowed ranges shut out
overlong forms, surrogates and numbers above U+10FFFF. -/
def Unfinished.ofLead? (b : UInt8) : Option Unfinished :=
  let n := b.toNat
  if 0xC2 ≤ n ∧ n ≤ 0xDF then some ⟨[b], 1, 0x80, 0xBF, n - 0xC0⟩
  else if 0xE0 ≤ n ∧ n ≤ 0xEF then
    some ⟨[b], 2, if n = 0xE0 then 0xA0 else 0x80, if n = 0xED then 0x9F else 0xBF, n - 0xE0⟩
  else if 0xF0 ≤ n ∧ n ≤ 0xF4 then
    some ⟨[b], 3, if n = 0xF0 then 0x90 else 0x80, if n = 0xF4 then 0x8F else 0xBF, n - 0xF0⟩
  else none

/-- A byte where a character may start. -/
def firstByte (b : UInt8) : List Utf8Piece × Option Unfinished :=
  if b.toNat < 0x80 then ([.char (Char.ofNat b.toNat)], none)
  else match Unfinished.ofLead? b with
    | some u => ([], some u)
    | none => ([.broken [b]], none)

/-- A byte after the start of a character. If it does not continue the
character, the start is broken and the byte is judged afresh. -/
def Unfinished.nextByte (u : Unfinished) (b : UInt8) : List Utf8Piece × Option Unfinished :=
  if u.low ≤ b.toNat ∧ b.toNat ≤ u.high then
    let value := u.value * 0x40 + (b.toNat - 0x80)
    if u.due ≤ 1 then ([.char (Char.ofNat value)], none)
    else ([], some ⟨b :: u.bytes, u.due - 1, 0x80, 0xBF, value⟩)
  else
    let (pieces, pending) := firstByte b
    (.broken u.bytes.reverse :: pieces, pending)

/-- The pieces of a byte string behind a character that may be unfinished. -/
def utf8PiecesFrom (pending : Option Unfinished) : List UInt8 → List Utf8Piece
  | [] =>
    match pending with
    | some u => [.broken u.bytes.reverse]
    | none => []
  | b :: rest =>
    let (pieces, pending) := match pending with
      | some u => u.nextByte b
      | none => firstByte b
    pieces ++ utf8PiecesFrom pending rest

def utf8Pieces (bytes : List UInt8) : List Utf8Piece := utf8PiecesFrom none bytes

/-- A byte string as text that can be shown. -/
def displayUtf8 (bytes : List UInt8) : String :=
  String.ofList ((utf8Pieces bytes).map fun
    | .char c => c
    | .broken _ => Char.ofNat 0xFFFD)

end ClassicAlgorithms.Text
