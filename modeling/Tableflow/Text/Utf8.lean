/-!
Bytes as text. What is valid UTF-8 is read as characters; a byte that starts no valid character is
kept as it is, so that nothing is lost.
-/

namespace Tableflow.Text

inductive Symbol where
  | char (c : Char)
  | byte (b : UInt8)
  deriving DecidableEq

namespace Symbol

def width : Symbol → Nat
  | char c => c.utf8Size
  | byte _ => 1

def bytes : Symbol → List UInt8
  | char c => (String.singleton c).toUTF8.toList
  | byte b => [b]

def char? : Symbol → Option Char
  | char c => some c
  | byte _ => none

end Symbol

def isTail (n : Nat) : Bool := n / 64 == 2

/-- The code point of a first byte and its tails, of which six bits each count. -/
def codePoint (start : Nat) (tails : List Nat) : Nat :=
  tails.foldl (fun code tail => code * 64 + tail % 64) start

/-- The character that the bytes start with, in its shortest encoding. -/
def headChar? (bytes : List UInt8) : Option Char :=
  match bytes.map UInt8.toNat with
  | [] => none
  | a :: rest =>
    let take (count start least : Nat) : Option Char :=
      let tails := rest.take count
      let code := codePoint start tails
      if tails.length == count && tails.all isTail && least ≤ code && code < 0x110000 &&
          !(0xD800 ≤ code && code < 0xE000) then
        some (Char.ofNat code)
      else none
    if a < 0x80 then some (Char.ofNat a)
    else if a / 32 = 6 then take 1 (a % 32) 0x80
    else if a / 16 = 14 then take 2 (a % 16) 0x800
    else if a / 8 = 30 then take 3 (a % 8) 0x10000
    else none

/-- The symbols of bytes of which the first `skip` belong to a character already read. -/
def scan (skip : Nat) : List UInt8 → List Symbol
  | [] => []
  | b :: rest =>
    match skip with
    | skip + 1 => scan skip rest
    | 0 =>
      match headChar? (b :: rest.take 3) with
      | some c => .char c :: scan (c.utf8Size - 1) rest
      | none => .byte b :: scan 0 rest

/-- The symbols of bytes; only characters if all is valid. -/
def symbols (bytes : ByteArray) : List Symbol :=
  match String.fromUTF8? bytes with
  | some text => text.toList.map .char
  | none => scan 0 bytes.toList

/-- The characters of symbols that came from different places in the bytes, or the number of bytes
before the first that is no part of a valid character. -/
def assemble (field : List Symbol) : Except Nat (List Char) :=
  let joined :=
    if field.all fun s => s.char?.isSome then field else scan 0 (field.flatMap Symbol.bytes)
  let valid := joined.takeWhile fun s => s.char?.isSome
  if valid.length = joined.length then .ok (joined.filterMap Symbol.char?)
  else .error (valid.foldl (fun size s => size + s.width) 0)

end Tableflow.Text
