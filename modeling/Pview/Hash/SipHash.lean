import Pview.Foundation.LittleEndian

/-!
# Hashing unified symbol resolutions

`siphash.cc` with its buffers as lists of bytes: a read or a write outside of a
buffer, and an assertion that does not hold, is `none`.  The loop over the input
compares pointers for inequality and runs on fuel.
-/

namespace Pview.Hash

open Foundation

@[ext]
structure SipState where
  v0 : Word
  v1 : Word
  v2 : Word
  v3 : Word
  deriving DecidableEq, Repr

def cROUNDS : Nat := 2

def dROUNDS : Nat := 4

def rotl (x : Word) (b : Nat) : Word := x <<< b ||| x >>> (64 - b)

/-- `SIPROUND`, assignment by assignment. -/
def sipRound (s : SipState) : SipState :=
  let v0 := s.v0 + s.v1
  let v1 := rotl s.v1 13
  let v1 := v1 ^^^ v0
  let v0 := rotl v0 32
  let v2 := s.v2 + s.v3
  let v3 := rotl s.v3 16
  let v3 := v3 ^^^ v2
  let v0 := v0 + v3
  let v3 := rotl v3 21
  let v3 := v3 ^^^ v0
  let v2 := v2 + v1
  let v1 := rotl v1 17
  let v1 := v1 ^^^ v2
  let v2 := rotl v2 32
  { v0 := v0, v1 := v1, v2 := v2, v3 := v3 }

def sipRounds : Nat → SipState → SipState
  | 0, s => s
  | n + 1, s => sipRounds n (sipRound s)

/-- `U8TO64_LE` at position `p` of a buffer. -/
def u8to64Le (buffer : List Byte) (p : Nat) : Option Word := do
  let b0 ← buffer[p]?
  let b1 ← buffer[p + 1]?
  let b2 ← buffer[p + 2]?
  let b3 ← buffer[p + 3]?
  let b4 ← buffer[p + 4]?
  let b5 ← buffer[p + 5]?
  let b6 ← buffer[p + 6]?
  let b7 ← buffer[p + 7]?
  return b0.setWidth 64 ||| b1.setWidth 64 <<< 8 ||| b2.setWidth 64 <<< 16 |||
    b3.setWidth 64 <<< 24 ||| b4.setWidth 64 <<< 32 |||
    b5.setWidth 64 <<< 40 ||| b6.setWidth 64 <<< 48 ||| b7.setWidth 64 <<< 56

def writeByte (buffer : List Byte) (p : Nat) (b : Byte) : Option (List Byte) :=
  if p < buffer.length then some (buffer.set p b) else none

def u32to8Le (buffer : List Byte) (p : Nat) (v : BitVec 32) :
    Option (List Byte) := do
  let buffer ← writeByte buffer p (v.setWidth 8)
  let buffer ← writeByte buffer (p + 1) ((v >>> 8).setWidth 8)
  let buffer ← writeByte buffer (p + 2) ((v >>> 16).setWidth 8)
  writeByte buffer (p + 3) ((v >>> 24).setWidth 8)

def u64to8Le (buffer : List Byte) (p : Nat) (v : Word) :
    Option (List Byte) := do
  let buffer ← u32to8Le buffer p (v.setWidth 32)
  u32to8Le buffer (p + 4) ((v >>> 32).setWidth 32)

/-- `for (; in != end; in += 8)`, from `pos` on. -/
def blockLoop : Nat → List Byte → Nat → Nat → SipState →
    Option (Nat × SipState)
  | 0, _, _, _, _ => none
  | fuel + 1, input, pos, stop, s =>
      if pos ≠ stop then do
        let m ← u8to64Le input pos
        let s := { s with v3 := s.v3 ^^^ m }
        let s := sipRounds cROUNDS s
        let s := { s with v0 := s.v0 ^^^ m }
        blockLoop fuel input (pos + 8) stop s
      else
        some (pos, s)

/-- `switch (left)`, where case `i + 1` falls through to case `i`. -/
def switchLeft (input : List Byte) (pos : Nat) : Nat → Word → Option Word
  | 0, b => some b
  | i + 1, b => do
      let c ← input[pos + i]?
      switchLeft input pos i (b ||| c.setWidth 64 <<< (8 * i))

def siphash (fuel : Nat) (input : List Byte) (inlen : Nat) (k : List Byte)
    (out : List Byte) (outlen : Nat) : Option (Int × List Byte) := do
  guard (outlen = 8 ∨ outlen = 16)
  let k0 ← u8to64Le k 0
  let k1 ← u8to64Le k 8
  let stop := inlen - inlen % 8
  let left := inlen &&& 7
  let b := BitVec.ofNat 64 inlen <<< 56
  let s : SipState :=
    { v0 := 0x736f6d6570736575 ^^^ k0
      v1 := 0x646f72616e646f6d ^^^ k1
      v2 := 0x6c7967656e657261 ^^^ k0
      v3 := 0x7465646279746573 ^^^ k1 }
  let s := if outlen = 16 then { s with v1 := s.v1 ^^^ 0xee } else s
  let (pos, s) ← blockLoop fuel input 0 stop s
  let b ← switchLeft input pos left b
  let s := { s with v3 := s.v3 ^^^ b }
  let s := sipRounds cROUNDS s
  let s := { s with v0 := s.v0 ^^^ b }
  let s := if outlen = 16 then { s with v2 := s.v2 ^^^ 0xee }
    else { s with v2 := s.v2 ^^^ 0xff }
  let s := sipRounds dROUNDS s
  let b := s.v0 ^^^ s.v1 ^^^ s.v2 ^^^ s.v3
  let out ← u64to8Le out 0 b
  if outlen = 8 then
    return (0, out)
  let s := { s with v1 := s.v1 ^^^ 0xdd }
  let s := sipRounds dROUNDS s
  let b := s.v0 ^^^ s.v1 ^^^ s.v2 ^^^ s.v3
  let out ← u64to8Le out 8 b
  return (0, out)

def usrKey : List Byte :=
  [0xd0, 0xe5, 0x4d, 0x61, 0x74, 0x63, 0x68, 0x52,
    0x61, 0x79, 0xea, 0x70, 0xca, 0x70, 0xf0, 0x0d]

/-- `hash_usr`.  The union of the result and of the digest's bytes starts with
whatever `ret` holds on the stack, and is read as a number at the end. -/
def hashUsr (fuel : Nat) (ret : Word) (s : List Byte) : Option Word := do
  let (_, out) ← siphash fuel s s.length usrKey (leBytes 8 ret) 8
  u8to64Le out 0

end Pview.Hash
