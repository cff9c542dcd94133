import Seckill.Lib.Bits

/-!
# The in-flight gate (`service/InflightGuard.h`)

`tryAcquire key` marks a key as being processed and says whether it was free;
`release key` clears the mark. A key's mark is an element of a hash set
(`mutex`, `spin`: the two differ only in the lock around the same critical
section) or one bit of a bitmap (`atomic`).

Both operations are partial: a division by zero (`shards = 0`, `bits = 0`) or
an index outside the allocated arrays is undefined in the source and has no
result here. `size_t` and the keys are 64-bit words that wrap. `acquired` and
`rejected` are numbers of calls; the atomic counters of the source are these modulo
`2 ^ 64` (`acquiredCounter`, `rejectedCounter`).
-/

namespace Seckill

/-- `InflightGuard::Mode`. -/
inductive Mode
  | none | mutex | spin | atomic
  deriving DecidableEq, Repr

/-- `InflightGuard`. `sets` are the shards' hash sets, `bitmap` the atomic words;
the lock around each shard makes every operation one step. -/
structure InflightGuard where
  mode : Mode
  shards : UInt64
  bits : UInt64
  words : UInt64
  sets : Array (List UInt64)
  bitmap : Array UInt64
  acquired : ℕ
  rejected : ℕ

/-- The mix of the two ids into one 64-bit key. -/
def makeKey (userId skuId : Int64) : UInt64 :=
  let h : UInt64 := userId.toUInt64 * 0x9E3779B97F4A7C15
  let h : UInt64 := h ^^^ (skuId.toUInt64 + 0x9E3779B97F4A7C15 + (h <<< (6 : UInt64)) + (h >>> (2 : UInt64)))
  let h : UInt64 := h ^^^ (h >>> (29 : UInt64))
  let h : UInt64 := h * 0xBF58476D1CE4E5B9
  h ^^^ (h >>> (32 : UInt64))

namespace InflightGuard

/-- The constructor: only the arrays of the chosen mode are allocated. -/
def new (mode : Mode) (shards bits : UInt64) : InflightGuard :=
  match mode with
  | .none => ⟨.none, shards, bits, 0, #[], #[], 0, 0⟩
  | .mutex | .spin => ⟨mode, shards, bits, 0, Array.replicate shards.toNat [], #[], 0, 0⟩
  | .atomic =>
    let words := (bits + 63) / 64
    ⟨.atomic, shards, bits, words, #[], Array.replicate words.toNat 0, 0, 0⟩

/-- The shard of a key. -/
def shard (g : InflightGuard) (key : UInt64) : ℕ := (key % g.shards).toNat

/-- The bitmap word of a key. -/
def word (g : InflightGuard) (key : UInt64) : ℕ := ((key % g.bits) >>> 6).toNat

def countAcquired (g : InflightGuard) : InflightGuard := { g with acquired := g.acquired + 1 }

def countRejected (g : InflightGuard) : InflightGuard := { g with rejected := g.rejected + 1 }

/-- What `acquired()` answers. -/
def acquiredCounter (g : InflightGuard) : UInt64 := g.acquired.toUInt64

/-- What `rejected()` answers. -/
def rejectedCounter (g : InflightGuard) : UInt64 := g.rejected.toUInt64

/-- Mark the key. `true`: the key was free, the caller holds a token for it. -/
def tryAcquire (g : InflightGuard) (key : UInt64) : Option (InflightGuard × Bool) :=
  match g.mode with
  | .none => some (g.countAcquired, true)
  | .mutex | .spin =>
    if g.shards = 0 then none
    else g.sets[g.shard key]?.map fun set =>
      if set.contains key then (g.countRejected, false)
      else ({ g with sets := g.sets.setIfInBounds (g.shard key) (key :: set) }.countAcquired, true)
  | .atomic =>
    if g.bits = 0 then none
    else g.bitmap[g.word key]?.map fun before =>
      -- `fetch_or` stores the word whether or not the bit was free
      let g' := { g with bitmap := g.bitmap.setIfInBounds (g.word key) (before ||| Bits.mask key) }
      if before &&& Bits.mask key = 0 then (g'.countAcquired, true) else (g'.countRejected, false)

/-- Clear the key's mark (run by the deleter of the last token copy). -/
def release (g : InflightGuard) (key : UInt64) : Option InflightGuard :=
  match g.mode with
  | .none => some g
  | .mutex | .spin =>
    if g.shards = 0 then none
    else g.sets[g.shard key]?.map fun set =>
      { g with sets := g.sets.setIfInBounds (g.shard key) (set.filter (· ≠ key)) }
  | .atomic =>
    if g.bits = 0 then none
    else g.bitmap[g.word key]?.map fun before =>
      { g with bitmap := g.bitmap.setIfInBounds (g.word key) (before &&& ~~~Bits.mask key) }

/-- The key's in-flight mark, as `tryAcquire` reads it. -/
def marked (g : InflightGuard) (key : UInt64) : Bool :=
  match g.mode with
  | .none => false
  | .mutex | .spin => (g.sets.getD (g.shard key) []).contains key
  | .atomic => Bits.bitAt g.bitmap (g.word key) (key.toNat % 64)

/-- The mark a key uses: the key itself, or its position in the bitmap. -/
def slot (g : InflightGuard) (key : UInt64) : ℕ :=
  match g.mode with
  | .none | .mutex | .spin => key.toNat
  | .atomic => 64 * g.word key + key.toNat % 64

end InflightGuard

end Seckill
