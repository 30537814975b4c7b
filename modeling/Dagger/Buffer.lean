import Dagger.Kernel

/-! # `Buffer<N>`

The I/O buffer of `src/Buffer.h`: a vector of bytes laid out as

    / discarded / readable / writable /

and cut by `readIndex` and `writeIndex`.  An operation is `none` where an assertion fails
or a byte outside the vector would be touched.  Sizes are natural numbers: the vector never
reaches the range of `size_t`.

`memcpy` copies the source bytes as they were before the call. -/

namespace Dagger

structure Buffer (N : ℕ) where
  vec : List Byte
  readIndex : ℕ
  writeIndex : ℕ
deriving DecidableEq, Repr

/-! ### The vector -/

/-- `vec_.resize(newSize)`. -/
def resize (v : List Byte) (newSize : ℕ) : List Byte :=
  v.take newSize ++ List.replicate (newSize - v.length) 0

/-- The bytes `[i, i + n)` of `v`. -/
def slice (v : List Byte) (i n : ℕ) : Option (List Byte) :=
  if i + n ≤ v.length then some ((v.drop i).take n) else none

/-- `memcpy(&v[dst], src, src.length)`. -/
def memcpy (v : List Byte) (dst : ℕ) (src : List Byte) : Option (List Byte) :=
  if dst + src.length ≤ v.length then some (v.take dst ++ src ++ v.drop (dst + src.length))
  else none

/-- `memmem`: the offset of the first occurrence of `str`. -/
def memmem (str : List Byte) : List Byte → Option ℕ
  | [] => if str = [] then some 0 else none
  | b :: bs => if str.isPrefixOf (b :: bs) then some 0 else (memmem str bs).map (· + 1)

namespace Buffer

variable {N : ℕ}

/-- `Buffer()`. -/
def make (N : ℕ) : Buffer N := ⟨List.replicate N 0, 0, 0⟩

def readableBytes (b : Buffer N) : ℕ := b.writeIndex - b.readIndex
def writableBytes (b : Buffer N) : ℕ := b.vec.length - b.writeIndex
def discardableBytes (b : Buffer N) : ℕ := b.readIndex
def totalSize (b : Buffer N) : ℕ := b.vec.length

/-- The readable bytes, from `peek()` on. -/
def readable (b : Buffer N) : List Byte := (b.vec.drop b.readIndex).take b.readableBytes

/-- The opening of `append` and `readFromSocket`: when the tail is too short for `len` bytes,
reuse the discarded space if that alone is enough and grow the vector otherwise, and move
the readable bytes to the front. -/
def makeRoom (b : Buffer N) (len : ℕ) : Option (Buffer N) :=
  if b.writableBytes < len then do
    let vec := if len ≤ b.discardableBytes then b.vec
      else resize b.vec (max (b.vec.length * 2) (len + b.readableBytes))
    let vec ← if 0 < b.readableBytes then do
        let src ← slice vec b.readIndex b.readableBytes
        memcpy vec 0 src
      else some vec
    some { vec, readIndex := 0, writeIndex := b.readableBytes }
  else some b

/-- Stores `s` at `writeIndex_`. -/
def fill (b : Buffer N) (s : List Byte) : Option (Buffer N) := do
  let vec ← memcpy b.vec b.writeIndex s
  some { b with vec, writeIndex := b.writeIndex + s.length }

def append (b : Buffer N) (s : List Byte) : Option (Buffer N) := do
  let b ← b.makeRoom s.length
  let b ← b.fill s
  if b.writeIndex ≤ b.totalSize then some b else none

/-- The number `readFromSocket` returns when `::read` failed. -/
def readError : Errno → ℤ
  | .EINTR => 1
  | .EAGAIN => 1
  | _ => -1

/-- `script` lists the results of the successive `::read` calls; when it is used up the
socket has nothing more to deliver (`EAGAIN`).  A read that fills its request is followed by
a recursive call for twice as much, whose result is dropped. -/
def readFromSocket : List ReadResult → ℕ → Buffer N → Option (Buffer N × ℤ)
  | script, maxBytes, b => do
    let b ← b.makeRoom maxBytes
    if b.writableBytes < maxBytes then none
    else match script with
      | [] => some (b, readError .EAGAIN)
      | .error e :: _ => some (b, readError e)
      | .data bs :: script => do
          let b ← b.fill bs
          if bs.length = maxBytes then
            let (b, _) ← readFromSocket script (maxBytes * 2) b
            some (b, bs.length)
          else some (b, bs.length)

/-- `n` is the result of `::write(connfd, peek(), min(readableBytes(), maxBytes))`. -/
def writeToSocket (b : Buffer N) (maxBytes : ℕ) (n : ℤ) : Option (Buffer N × ℤ) :=
  if 0 ≤ n ∧ n ≤ maxBytes then some ({ b with readIndex := b.readIndex + n.toNat }, n) else none

/-- Returns the offset of the retrieved bytes in the vector, `none` for `nullptr`. -/
def retrieve (b : Buffer N) (len : ℕ) : Option (Buffer N × Option ℕ) :=
  if len ≤ b.readableBytes then
    if b.writeIndex < b.readIndex + len then some (b, none)
    else some ({ b with readIndex := b.readIndex + len }, some b.readIndex)
  else none

def retrieveAll (b : Buffer N) : Option (Buffer N × Option ℕ) := b.retrieve b.readableBytes

/-- The offset from `peek()` of the first occurrence of `str` in the readable bytes. -/
def findStr (b : Buffer N) (str : List Byte) : Option ℕ := memmem str b.readable

end Buffer

end Dagger
