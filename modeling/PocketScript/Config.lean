import PocketScript.Image
import PocketScript.Program

/-!
# Configuration

What an environment is given when it is made; nothing in it grows beyond that later. A host may pass
a configuration as bytes: every number is a little endian word of eight bytes, and the pools come
first, behind their number.
-/

namespace PocketScript

/-- The sizes of an environment. -/
structure Config where
  /-- The block size and the number of blocks of each pool of the heap. -/
  pools : List (Nat × Nat) := [(64, 32), (128, 16), (512, 4)]
  /-- The values that the stack holds. -/
  stackSize : Nat := 256
  maxCallDepth : Nat := 32
  /-- The bytes that loaded programs may take. -/
  codeSpace : Nat := 32768
  limits : CompileLimits := {}
  deriving DecidableEq, Repr

namespace Config

def wordSize : Nat := 8

def writeWords (words : List Nat) : List UInt8 :=
  words.flatMap (ByteOrder.little.write wordSize)

/-- The configuration as bytes. -/
def write (config : Config) : List UInt8 :=
  writeWords
    (config.pools.length :: config.pools.flatMap (fun (size, count) => [size, count]) ++
      [config.stackSize, config.maxCallDepth, config.codeSpace, config.limits.maxLocals,
        config.limits.maxExprDepth, config.limits.maxConstants])

/-- Reads a word, and gives it with the bytes behind it. -/
def readWord (bytes : List UInt8) : Option (Nat × List UInt8) :=
  let word := bytes.take wordSize
  if word.length = wordSize then some (ByteOrder.little.read word, bytes.drop wordSize) else none

/-- Reads so many pools; `read` holds those before, last first. -/
def readPools (read : List (Nat × Nat)) : Nat → List UInt8 →
    Option (List (Nat × Nat) × List UInt8)
  | 0, bytes => some (read.reverse, bytes)
  | count + 1, bytes => do
      let (size, bytes) ← readWord bytes
      let (blocks, bytes) ← readWord bytes
      readPools ((size, blocks) :: read) count bytes

/-- Reads a configuration. There must be bytes for all of it, and more do not matter. -/
def read? (bytes : List UInt8) : Option Config := do
  let (poolCount, bytes) ← readWord bytes
  let (pools, bytes) ← readPools [] poolCount bytes
  let (stackSize, bytes) ← readWord bytes
  let (maxCallDepth, bytes) ← readWord bytes
  let (codeSpace, bytes) ← readWord bytes
  let (maxLocals, bytes) ← readWord bytes
  let (maxExprDepth, bytes) ← readWord bytes
  let (maxConstants, _) ← readWord bytes
  pure
    { pools, stackSize, maxCallDepth, codeSpace
      limits := { maxLocals, maxExprDepth, maxConstants } }

end Config

end PocketScript
