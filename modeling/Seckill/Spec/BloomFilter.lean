import Seckill.Lib.Bits

/-!
# The Bloom filter (`service/BloomFilter.h`)

`bitsCount` bits in 64-bit words and `hashes` positions for each element, by double
hashing. What `create` computes in doubles from the expected count and the error
rate, the number of bits and of hashes, is its argument (`Shape`).
-/

namespace Seckill

/-- A filter. The words cover the bits, so that no index is outside of them. -/
structure BloomFilter where
  bits : Array UInt64
  bitsCount : UInt64
  hashes : ℕ
  added : ℕ
  covers : bitsCount.toNat ≤ 64 * bits.size

namespace BloomFilter

/-- The numbers `create` arrives at. `(bits + 63) / 64` words are allocated, and the
sum does not wrap. -/
structure Shape where
  bitsCount : UInt64
  hashes : ℕ
  fits : bitsCount.toNat + 63 < 2 ^ 64

theorem Shape.covers (p : Shape) : p.bitsCount.toNat ≤ 64 * ((p.bitsCount + 63) / 64).toNat := by
  have hsum : (p.bitsCount + 63).toNat = p.bitsCount.toNat + 63 := by
    rw [UInt64.toNat_add]
    exact Nat.mod_eq_of_lt p.fits
  rw [UInt64.toNat_div, hsum, show (64 : UInt64).toNat = 64 from rfl]
  omega

def create (p : Shape) : BloomFilter :=
  ⟨Array.replicate ((p.bitsCount + 63) / 64).toNat 0, p.bitsCount, p.hashes, 0, by
    rw [Array.size_replicate]
    exact p.covers⟩

def ready (f : BloomFilter) : Bool := f.bitsCount > 0

def splitmix64 (x : UInt64) : UInt64 :=
  let x := x + 0x9e3779b97f4a7c15
  let x := (x ^^^ (x >>> 30)) * 0xbf58476d1ce4e5b9
  let x := (x ^^^ (x >>> 27)) * 0x94d049bb133111eb
  x ^^^ (x >>> 31)

/-- The second hash, which is not zero. -/
def h2 (x : UInt64) : UInt64 :=
  let h := splitmix64 (x ^^^ 0x94d049bb133111eb)
  if h = 0 then 1 else h

/-- The `i`-th position of `x`. -/
def index (f : BloomFilter) (x : UInt64) (i : ℕ) : UInt64 := (splitmix64 x + i.toUInt64 * h2 x) % f.bitsCount

def setBit (f : BloomFilter) (idx : UInt64) : BloomFilter :=
  { f with
    bits := f.bits.modify (idx >>> 6).toNat (· ||| Bits.mask idx)
    covers := by
      rw [Array.size_modify]
      exact f.covers }

def testBit (f : BloomFilter) (idx : UInt64) : Bool := f.bits.getD (idx >>> 6).toNat 0 &&& Bits.mask idx ≠ 0

def add (f : BloomFilter) (x : UInt64) : BloomFilter :=
  if ¬f.ready then f
  else { ((List.range f.hashes).map (f.index x)).foldl setBit f with added := f.added + 1 }

/-- `false`: certainly not in the set. A filter that is not ready lets everything pass. -/
def maybeContains (f : BloomFilter) (x : UInt64) : Bool :=
  if ¬f.ready then true else ((List.range f.hashes).map (f.index x)).all f.testBit

end BloomFilter

/-- `SeckillService::bloomAllows`: whether the published filter, if there is one,
lets an id through. -/
def bloomAllows (bloom : Option BloomFilter) (skuId : Int64) : Bool :=
  match bloom with
  | none => true
  | some cur => if ¬cur.ready then true else cur.maybeContains skuId.toUInt64

end Seckill
