import Seckill.Lib.Bits
import Seckill.Spec.Jwt

/-!
# base64url

`base64UrlDecode_encode`: decoding gives back what was encoded, for every length.
Three bytes are four characters (`encode_three`), and the decoder is back at no
bits pending after them (`decodeLoop_four`); what its accumulator still holds above
these bits is never read. The two tails of one and of two bytes end the input.

`dot_not_mem_encode`: no encoded text has the dot that separates the parts of a token,
nor any other character that is not in the alphabet (`base64Url_roundtrip`).
-/

namespace Seckill

/-! ## The alphabet -/

/-- The alphabet's character for a value below 64. -/
def digit (v : ℕ) : UInt8 := kB64UrlAlphabet.getD v 0

theorem idxOf_digit : ∀ v < 64, kB64UrlAlphabet.idxOf? (digit v) = some v := by decide

theorem digit_mem : ∀ v < 64, digit v ∈ kB64UrlAlphabet := by decide

theorem alphabet_plain : ∀ c ∈ kB64UrlAlphabet, c ≠ 46 ∧ c ≠ 61 ∧ c ≠ 43 ∧ c ≠ 47 := by
  decide +kernel

/-- The alphabet's character for six bits of `n`. -/
def sixBits (n k : ℕ) : UInt8 := digit (n / 2 ^ k % 64)

theorem sextet_eq (chunk : UInt32) {k : ℕ} (hk : k < 32) :
    sextet chunk k.toUInt32 = sixBits chunk.toNat k := by
  unfold sextet sixBits digit
  rw [show (0x3f : UInt32) = (2 ^ 6 - 1 : ℕ).toUInt32 from rfl, Bits.toNat_and_low _ (by decide),
    Bits.toNat_shiftRight _ hk]
  rfl

/-! ## Decoding -/

/-- The accumulator with six more bits. -/
def push (acc : UInt32) (v : ℕ) : UInt32 := (acc <<< 6) ||| v.toUInt32

theorem push_toNat (acc : UInt32) {v : ℕ} (hv : v < 64) : (push acc v).toNat = acc.toNat * 64 % 2 ^ 32 + v := by
  have h : v.toUInt32.toNat = v := Bits.toNat_toUInt32 (by omega)
  have hshift : (acc <<< 6).toNat = acc.toNat * 64 % 2 ^ 32 := Bits.toNat_shiftLeft acc (k := 6) (by decide)
  unfold push
  rw [Bits.toNat_or_of_lt 6 (by rw [hshift]; omega) (by rw [h]; omega), hshift, h]

/-- The byte that is put out at `k` pending bits. -/
theorem byte_eq (acc : UInt32) {k : ℕ} (hk : k < 32) :
    ((acc >>> k.toUInt32) &&& 0xff).toUInt8 = (acc.toNat / 2 ^ k).toUInt8 := by
  apply UInt8.toNat_inj.1
  rw [UInt32.toNat_toUInt8, show (0xff : UInt32) = (2 ^ 8 - 1 : ℕ).toUInt32 from rfl, Bits.toNat_and_low _ (by decide),
    Bits.toNat_shiftRight _ hk]
  simp

theorem decodeLoop_push (acc : UInt32) (bits : ℕ) {v : ℕ} (hv : v < 64) (rest : Bytes) (hbits : bits + 6 < 8) :
    decodeLoop acc bits (digit v :: rest) = decodeLoop (push acc v) (bits + 6) rest := by
  rw [decodeLoop, idxOf_digit v hv]
  simp only [ge_iff_le, Nat.not_le.2 hbits, if_false]
  rfl

theorem decodeLoop_emit (acc : UInt32) (bits : ℕ) {v : ℕ} (hv : v < 64) (rest : Bytes) (hbits : 8 ≤ bits + 6)
    (hlt : bits < 32) :
    decodeLoop acc bits (digit v :: rest) =
      (decodeLoop (push acc v) (bits - 2) rest).map fun out => ((push acc v).toNat / 2 ^ (bits - 2)).toUInt8 :: out := by
  rw [decodeLoop, idxOf_digit v hv, ← byte_eq _ (by omega)]
  simp only [ge_iff_le, hbits, if_true]
  rfl

/-- Four characters of the alphabet are three bytes, whatever is left in the accumulator. -/
theorem decodeLoop_four (acc : UInt32) {v₀ v₁ v₂ v₃ : ℕ} (h₀ : v₀ < 64) (h₁ : v₁ < 64) (h₂ : v₂ < 64) (h₃ : v₃ < 64)
    (rest : Bytes) :
    ∃ acc', decodeLoop acc 0 (digit v₀ :: digit v₁ :: digit v₂ :: digit v₃ :: rest) =
      (decodeLoop acc' 0 rest).map fun out =>
        (v₀ * 4 + v₁ / 16).toUInt8 :: (v₁ * 16 + v₂ / 4).toUInt8 :: (v₂ * 64 + v₃).toUInt8 :: out := by
  -- 6 and 12 bits, a byte out, 4 and 10, a byte, 2 and 8, a byte
  refine ⟨push (push (push (push acc v₀) v₁) v₂) v₃, ?_⟩
  rw [decodeLoop_push acc 0 h₀ _ (by decide), decodeLoop_emit _ _ h₁ _ (by decide) (by decide),
    decodeLoop_emit _ _ h₂ _ (by decide) (by decide), decodeLoop_emit _ _ h₃ _ (by decide) (by decide),
    Option.map_map, Option.map_map]
  congr 1
  funext out
  simp only [Function.comp_apply, List.cons.injEq, and_true, ← UInt8.toNat_inj, Nat.toUInt8_eq, UInt8.toNat_ofNat',
    push_toNat _ h₀, push_toNat _ h₁, push_toNat _ h₂, push_toNat _ h₃]
  omega

/-- The tail of one byte. -/
theorem decodeLoop_two (acc : UInt32) {v₀ v₁ : ℕ} (h₀ : v₀ < 64) (h₁ : v₁ < 64) :
    decodeLoop acc 0 [digit v₀, digit v₁] = some [(v₀ * 4 + v₁ / 16).toUInt8] := by
  rw [decodeLoop_push acc 0 h₀ _ (by decide), decodeLoop_emit _ _ h₁ _ (by decide) (by decide), decodeLoop,
    Option.map_some]
  simp only [Option.some.injEq, List.cons.injEq, and_true, ← UInt8.toNat_inj, Nat.toUInt8_eq, UInt8.toNat_ofNat',
    push_toNat _ h₀, push_toNat _ h₁]
  omega

/-- The tail of two bytes. -/
theorem decodeLoop_three (acc : UInt32) {v₀ v₁ v₂ : ℕ} (h₀ : v₀ < 64) (h₁ : v₁ < 64) (h₂ : v₂ < 64) :
    decodeLoop acc 0 [digit v₀, digit v₁, digit v₂] =
      some [(v₀ * 4 + v₁ / 16).toUInt8, (v₁ * 16 + v₂ / 4).toUInt8] := by
  rw [decodeLoop_push acc 0 h₀ _ (by decide), decodeLoop_emit _ _ h₁ _ (by decide) (by decide),
    decodeLoop_emit _ _ h₂ _ (by decide) (by decide), decodeLoop, Option.map_some, Option.map_some]
  simp only [Option.some.injEq, List.cons.injEq, and_true, ← UInt8.toNat_inj, Nat.toUInt8_eq, UInt8.toNat_ofNat',
    push_toNat _ h₀, push_toNat _ h₁, push_toNat _ h₂]
  omega

/-! ## Encoding -/

theorem chunk_one (a : UInt8) : (a.toUInt32 <<< 16).toNat = a.toNat * 65536 := by
  have h := Bits.toNat_shiftLeft a.toUInt32 (k := 16) (by decide)
  have ha := a.toNat_lt
  rw [UInt8.toNat_toUInt32] at h
  refine h.trans ?_
  omega

theorem chunk_two (a b : UInt8) :
    ((a.toUInt32 <<< 16) ||| (b.toUInt32 <<< 8)).toNat = a.toNat * 65536 + b.toNat * 256 := by
  have h := Bits.toNat_shiftLeft b.toUInt32 (k := 8) (by decide)
  have hb := b.toNat_lt
  rw [UInt8.toNat_toUInt32] at h
  have hshift : (b.toUInt32 <<< 8).toNat = b.toNat * 256 := h.trans (by omega)
  rw [Bits.toNat_or_of_lt 16 (by rw [chunk_one]; omega) (by rw [hshift]; omega), chunk_one, hshift]

theorem chunk_three (a b c : UInt8) :
    ((a.toUInt32 <<< 16) ||| (b.toUInt32 <<< 8) ||| c.toUInt32).toNat =
      a.toNat * 65536 + b.toNat * 256 + c.toNat := by
  have hc := c.toNat_lt
  rw [Bits.toNat_or_of_lt 8 (by rw [chunk_two]; omega) (by rw [UInt8.toNat_toUInt32]; omega), chunk_two,
    UInt8.toNat_toUInt32]

theorem toUInt8_eq {n : ℕ} {a : UInt8} (h : n % 256 = a.toNat) : n.toUInt8 = a := by
  rw [← UInt8.toNat_inj, Nat.toUInt8_eq, UInt8.toNat_ofNat']
  exact h

theorem encode_three (a b c : UInt8) (raw : Bytes) {n : ℕ} (hn : n = a.toNat * 65536 + b.toNat * 256 + c.toNat) :
    base64UrlEncode (a :: b :: c :: raw) =
      sixBits n 18 :: sixBits n 12 :: sixBits n 6 :: sixBits n 0 :: base64UrlEncode raw := by
  have h := fun k hk => sextet_eq ((a.toUInt32 <<< 16) ||| (b.toUInt32 <<< 8) ||| c.toUInt32) (k := k) hk
  rw [chunk_three, ← hn] at h
  rw [base64UrlEncode]
  exact congrArg₂ _ (h 18 (by decide)) (congrArg₂ _ (h 12 (by decide)) (congrArg₂ _ (h 6 (by decide))
    (congrArg (· :: _) (h 0 (by decide)))))

theorem encode_two (a b : UInt8) {n : ℕ} (hn : n = a.toNat * 65536 + b.toNat * 256) :
    base64UrlEncode [a, b] = [sixBits n 18, sixBits n 12, sixBits n 6] := by
  have h := fun k hk => sextet_eq ((a.toUInt32 <<< 16) ||| (b.toUInt32 <<< 8)) (k := k) hk
  rw [chunk_two, ← hn] at h
  rw [base64UrlEncode]
  exact congrArg₂ _ (h 18 (by decide)) (congrArg₂ _ (h 12 (by decide)) (congrArg (· :: _) (h 6 (by decide))))

theorem encode_one (a : UInt8) {n : ℕ} (hn : n = a.toNat * 65536) :
    base64UrlEncode [a] = [sixBits n 18, sixBits n 12] := by
  have h := fun k hk => sextet_eq (a.toUInt32 <<< 16) (k := k) hk
  rw [chunk_one, ← hn] at h
  rw [base64UrlEncode]
  exact congrArg₂ _ (h 18 (by decide)) (congrArg (· :: _) (h 12 (by decide)))

/-! ## There and back -/

theorem decodeLoop_encode (raw : Bytes) (acc : UInt32) : decodeLoop acc 0 (base64UrlEncode raw) = some raw := by
  have hlt : ∀ n, n % 64 < 64 := fun n => Nat.mod_lt n (by decide)
  -- three bytes a round, whatever the rounds before left in the accumulator
  induction raw using base64UrlEncode.induct generalizing acc with
  | case1 a b c raw ih =>
    have ha := a.toNat_lt
    have hb := b.toNat_lt
    have hc := c.toNat_lt
    rw [encode_three a b c raw rfl]
    obtain ⟨acc', h⟩ := decodeLoop_four acc (hlt _) (hlt _) (hlt _) (hlt _) (base64UrlEncode raw)
    refine h.trans ?_
    rw [ih, Option.map_some, toUInt8_eq (a := a) (by omega), toUInt8_eq (a := b) (by omega),
      toUInt8_eq (a := c) (by omega)]
  | case2 a b =>
    have ha := a.toNat_lt
    have hb := b.toNat_lt
    rw [encode_two a b rfl]
    refine (decodeLoop_three acc (hlt _) (hlt _) (hlt _)).trans ?_
    rw [toUInt8_eq (a := a) (by omega), toUInt8_eq (a := b) (by omega)]
  | case3 a =>
    have ha := a.toNat_lt
    rw [encode_one a rfl]
    refine (decodeLoop_two acc (hlt _) (hlt _)).trans ?_
    rw [toUInt8_eq (a := a) (by omega)]
  | case4 => rfl

/-- **Decoding gives back what was encoded.** -/
theorem base64UrlDecode_encode (raw : Bytes) : base64UrlDecode (base64UrlEncode raw) = some raw :=
  decodeLoop_encode raw 0

theorem sixBits_mem (n k : ℕ) : sixBits n k ∈ kB64UrlAlphabet := digit_mem _ (Nat.mod_lt _ (by decide))

/-- **An encoded text is one over the alphabet.** -/
theorem encode_alphabet (raw : Bytes) : ∀ c ∈ base64UrlEncode raw, c ∈ kB64UrlAlphabet := by
  induction raw using base64UrlEncode.induct with
  | case1 a b c raw ih =>
    rw [encode_three a b c raw rfl]
    simp only [List.forall_mem_cons]
    exact ⟨sixBits_mem _ _, sixBits_mem _ _, sixBits_mem _ _, sixBits_mem _ _, ih⟩
  | case2 a b =>
    rw [encode_two a b rfl]
    simp only [List.forall_mem_cons]
    exact ⟨sixBits_mem _ _, sixBits_mem _ _, sixBits_mem _ _, List.forall_mem_nil _⟩
  | case3 a =>
    rw [encode_one a rfl]
    simp only [List.forall_mem_cons]
    exact ⟨sixBits_mem _ _, sixBits_mem _ _, List.forall_mem_nil _⟩
  | case4 => exact List.forall_mem_nil _

/-- **No encoded text has a dot.** -/
theorem dot_not_mem_encode (raw : Bytes) : 46 ∉ base64UrlEncode raw :=
  fun hdot => (alphabet_plain 46 (encode_alphabet raw 46 hdot)).1 rfl

/-- Four characters for three bytes, and one more than the bytes of a tail. -/
theorem encode_length (raw : Bytes) : (base64UrlEncode raw).length = (4 * raw.length + 2) / 3 := by
  induction raw using base64UrlEncode.induct with
  | case1 a b c raw ih =>
    rw [encode_three a b c raw rfl]
    simp only [List.length_cons, ih]
    omega
  | case2 a b =>
    rw [encode_two a b rfl]
    simp
  | case3 a =>
    rw [encode_one a rfl]
    simp
  | case4 => rfl

/-- **There and back**, for every byte string, with a 32-bit accumulator that wraps: the
decoder gives back what was encoded, the text has characters of the alphabet only (none of
`.`, `=`, `+` and `/`), and its length is that of the bytes by four thirds, rounded up. -/
theorem base64Url_roundtrip (raw : Bytes) :
    base64UrlDecode (base64UrlEncode raw) = some raw ∧
      (∀ c ∈ base64UrlEncode raw, c ∈ kB64UrlAlphabet ∧ c ≠ 46 ∧ c ≠ 61 ∧ c ≠ 43 ∧ c ≠ 47) ∧
      (base64UrlEncode raw).length = (4 * raw.length + 2) / 3 :=
  ⟨base64UrlDecode_encode raw,
    fun c hc => ⟨encode_alphabet raw c hc, alphabet_plain c (encode_alphabet raw c hc)⟩, encode_length raw⟩

theorem encode_ne_nil {raw : Bytes} (h : raw ≠ []) : base64UrlEncode raw ≠ [] := by
  intro henc
  have hback := base64UrlDecode_encode raw
  rw [henc] at hback
  exact h (Option.some.inj hback).symm

end Seckill
