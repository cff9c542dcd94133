import Mathlib.Data.List.Nodup
import Seckill.Proof.Tokens

/-!
# What the decoder accepts

`base64UrlDecode` turns away foreign characters and nothing else: the bits of a last
character that make no byte are dropped, and so is a single character after the last
group. Encoding what was decoded clears these (`encode_decode`), so that a text is its own
encoding when there are none (`Canonical`), and the signature of a token has four
spellings (`verify_spellings`).
-/

namespace Seckill

/-! ## Characters and values -/

/-- The value of a character of the alphabet. -/
def value (c : UInt8) : ℕ := (kB64UrlAlphabet.idxOf? c).getD 0

theorem value_digit {v : ℕ} (hv : v < 64) : value (digit v) = v := by
  unfold value
  rw [idxOf_digit v hv]
  rfl

theorem digit_inj {v w : ℕ} (hv : v < 64) (hw : w < 64) : digit v = digit w ↔ v = w := by
  constructor
  · intro h
    rw [← value_digit hv, h, value_digit hw]
  · intro h
    rw [h]

theorem eq_digit : ∀ c ∈ kB64UrlAlphabet, value c < 64 ∧ digit (value c) = c := by decide +kernel

theorem value_lt (c : UInt8) : value c < 64 := by
  by_cases hc : c ∈ kB64UrlAlphabet
  · exact (eq_digit c hc).1
  · unfold value
    rw [List.idxOf?_eq_none_iff.2 hc]
    decide

theorem exists_digit {c : UInt8} (hc : c ∈ kB64UrlAlphabet) : ∃ v < 64, c = digit v :=
  ⟨value c, (eq_digit c hc).1, (eq_digit c hc).2.symm⟩

/-! ## What is dropped -/

/-- A text without the bits that make no byte. -/
def trim : Bytes → Bytes
  | a :: b :: c :: d :: rest => a :: b :: c :: d :: trim rest
  | [a, b, c] => [a, b, digit (value c / 4 * 4)]
  | [a, b] => [a, digit (value b / 16 * 16)]
  | [_] => []
  | [] => []

/-- **There are no such bits.** -/
def Canonical (s : Bytes) : Prop :=
  s.length % 4 ≠ 1 ∧ (s.length % 4 = 2 → ∀ c ∈ s.getLast?, value c % 16 = 0) ∧
    (s.length % 4 = 3 → ∀ c ∈ s.getLast?, value c % 4 = 0)

theorem decodeLoop_isSome (s : Bytes) (acc : UInt32) (bits : ℕ) :
    (decodeLoop acc bits s).isSome = true ↔ ∀ c ∈ s, c ∈ kB64UrlAlphabet := by
  induction s generalizing acc bits with
  | nil => exact iff_of_true rfl (List.forall_mem_nil _)
  | cons c s ih =>
    rw [List.forall_mem_cons, decodeLoop]
    by_cases hc : c ∈ kB64UrlAlphabet
    · obtain ⟨v, hv, rfl⟩ := exists_digit hc
      rw [idxOf_digit v hv]
      dsimp only
      split
      · rw [Option.isSome_map, ih]
        exact ⟨fun h => ⟨hc, h⟩, fun h => h.2⟩
      · rw [ih]
        exact ⟨fun h => ⟨hc, h⟩, fun h => h.2⟩
    · have hnone : kB64UrlAlphabet.idxOf? c = none := List.idxOf?_eq_none_iff.2 hc
      rw [hnone]
      exact iff_of_false Bool.false_ne_true fun h => hc h.1

/-- **The decoder accepts every text over the alphabet.** -/
theorem base64UrlDecode_isSome (s : Bytes) :
    (base64UrlDecode s).isSome = true ↔ ∀ c ∈ s, c ∈ kB64UrlAlphabet := decodeLoop_isSome s 0 0

/-! ## Encoding what was decoded -/

theorem sixBits_eq {n k v : ℕ} (h : n / 2 ^ k % 64 = v) : sixBits n k = digit v := by
  unfold sixBits
  rw [h]

theorem toNat_byte (n : ℕ) : n.toUInt8.toNat = n % 256 := by
  rw [Nat.toUInt8_eq, UInt8.toNat_ofNat']

section

variable {v₀ v₁ v₂ v₃ : ℕ} (h₀ : v₀ < 64) (h₁ : v₁ < 64) (h₂ : v₂ < 64) (h₃ : v₃ < 64)

include h₀ h₁

theorem encode_group (h₂ : v₂ < 64) (h₃ : v₃ < 64) (out : Bytes) :
    base64UrlEncode ((v₀ * 4 + v₁ / 16).toUInt8 :: (v₁ * 16 + v₂ / 4).toUInt8 :: (v₂ * 64 + v₃).toUInt8 :: out) =
      digit v₀ :: digit v₁ :: digit v₂ :: digit v₃ :: base64UrlEncode out := by
  rw [encode_three _ _ _ out rfl, toNat_byte, toNat_byte, toNat_byte, sixBits_eq (v := v₀) (by omega),
    sixBits_eq (v := v₁) (by omega), sixBits_eq (v := v₂) (by omega), sixBits_eq (v := v₃) (by omega)]

/-- Two bytes leave two bits of the third character. -/
theorem encode_tail_two (h₂ : v₂ < 64) :
    base64UrlEncode [(v₀ * 4 + v₁ / 16).toUInt8, (v₁ * 16 + v₂ / 4).toUInt8] =
      [digit v₀, digit v₁, digit (v₂ / 4 * 4)] := by
  rw [encode_two _ _ rfl, toNat_byte, toNat_byte, sixBits_eq (v := v₀) (by omega), sixBits_eq (v := v₁) (by omega),
    sixBits_eq (v := v₂ / 4 * 4) (by omega)]

/-- One byte leaves four bits of the second. -/
theorem encode_tail_one :
    base64UrlEncode [(v₀ * 4 + v₁ / 16).toUInt8] = [digit v₀, digit (v₁ / 16 * 16)] := by
  rw [encode_one _ rfl, toNat_byte, sixBits_eq (v := v₀) (by omega), sixBits_eq (v := v₁ / 16 * 16) (by omega)]

end

theorem encode_decodeLoop (s : Bytes) (acc : UInt32) {x : Bytes} (h : decodeLoop acc 0 s = some x) :
    base64UrlEncode x = trim s := by
  have hall := (decodeLoop_isSome s acc 0).1 (Option.isSome_of_eq_some h)
  -- four characters a round, whatever the rounds before left in the accumulator
  induction s using trim.induct generalizing acc x with
  | case1 a b c d rest ih =>
    simp only [List.forall_mem_cons] at hall
    obtain ⟨ha, hb, hc, hd, hrest⟩ := hall
    obtain ⟨v₀, h₀, rfl⟩ := exists_digit ha
    obtain ⟨v₁, h₁, rfl⟩ := exists_digit hb
    obtain ⟨v₂, h₂, rfl⟩ := exists_digit hc
    obtain ⟨v₃, h₃, rfl⟩ := exists_digit hd
    obtain ⟨acc', hfour⟩ := decodeLoop_four acc h₀ h₁ h₂ h₃ rest
    rw [hfour] at h
    obtain ⟨out, hout, rfl⟩ := Option.map_eq_some_iff.1 h
    rw [trim, ← ih acc' hout hrest]
    exact encode_group h₀ h₁ h₂ h₃ out
  | case2 a b c =>
    simp only [List.forall_mem_cons] at hall
    obtain ⟨ha, hb, hc, -⟩ := hall
    obtain ⟨v₀, h₀, rfl⟩ := exists_digit ha
    obtain ⟨v₁, h₁, rfl⟩ := exists_digit hb
    obtain ⟨v₂, h₂, rfl⟩ := exists_digit hc
    rw [decodeLoop_three acc h₀ h₁ h₂, Option.some.injEq] at h
    rw [← h, trim, value_digit h₂]
    exact encode_tail_two h₀ h₁ h₂
  | case3 a b =>
    simp only [List.forall_mem_cons] at hall
    obtain ⟨ha, hb, -⟩ := hall
    obtain ⟨v₀, h₀, rfl⟩ := exists_digit ha
    obtain ⟨v₁, h₁, rfl⟩ := exists_digit hb
    rw [decodeLoop_two acc h₀ h₁, Option.some.injEq] at h
    rw [← h, trim, value_digit h₁]
    exact encode_tail_one h₀ h₁
  | case4 a =>
    simp only [List.forall_mem_cons] at hall
    obtain ⟨v₀, h₀, rfl⟩ := exists_digit hall.1
    rw [decodeLoop_push acc 0 h₀ _ (by decide), decodeLoop, Option.some.injEq] at h
    rw [← h]
    rfl
  | case5 =>
    cases h
    rfl

/-- **Encoding what was decoded** gives the text back, but for what was dropped. -/
theorem encode_decode {s x : Bytes} (h : base64UrlDecode s = some x) : base64UrlEncode x = trim s :=
  encode_decodeLoop s 0 h

/-- What decodes to `x`: the texts over the alphabet that differ from its encoding in what
is dropped. -/
theorem decode_iff {s x : Bytes} :
    base64UrlDecode s = some x ↔ (∀ c ∈ s, c ∈ kB64UrlAlphabet) ∧ trim s = base64UrlEncode x := by
  constructor
  · intro h
    exact ⟨(base64UrlDecode_isSome s).1 (Option.isSome_of_eq_some h), (encode_decode h).symm⟩
  · rintro ⟨hall, htrim⟩
    obtain ⟨y, hy⟩ := Option.isSome_iff_exists.1 ((base64UrlDecode_isSome s).2 hall)
    have hsame : base64UrlEncode y = base64UrlEncode x := (encode_decode hy).trans htrim
    have hback := base64UrlDecode_encode y
    rw [hsame, base64UrlDecode_encode] at hback
    rw [hy, Option.some.inj hback]

/-! ## Texts that are their own encoding -/

theorem canonical_group (a b c d : UInt8) (rest : Bytes) : Canonical (a :: b :: c :: d :: rest) ↔ Canonical rest := by
  have hlen : (a :: b :: c :: d :: rest).length % 4 = rest.length % 4 := Nat.add_mod_right rest.length 4
  unfold Canonical
  rw [hlen]
  cases rest with
  | nil => simp
  | cons e rest => simp only [List.getLast?_cons_cons]

/-- **Nothing is dropped of a canonical text**, and of no other. -/
theorem trim_eq_iff {s : Bytes} (hall : ∀ c ∈ s, c ∈ kB64UrlAlphabet) : trim s = s ↔ Canonical s := by
  induction s using trim.induct with
  | case1 a b c d rest ih =>
    simp only [List.forall_mem_cons] at hall
    rw [trim, canonical_group, ← ih hall.2.2.2.2]
    simp
  | case2 a b c =>
    obtain ⟨v, hv, rfl⟩ := exists_digit (hall c (by simp))
    rw [trim, value_digit hv, List.cons.injEq, List.cons.injEq, List.cons.injEq, digit_inj (by omega) hv]
    simp [Canonical, value_digit hv]
    omega
  | case3 a b =>
    obtain ⟨v, hv, rfl⟩ := exists_digit (hall b (by simp))
    rw [trim, value_digit hv, List.cons.injEq, List.cons.injEq, digit_inj (by omega) hv]
    simp [Canonical, value_digit hv]
    omega
  | case4 a => simp [trim, Canonical]
  | case5 => simp [trim, Canonical]

/-! ## Spellings -/

theorem trim_length (s : Bytes) : (trim s).length = s.length - if s.length % 4 = 1 then 1 else 0 := by
  induction s using trim.induct with
  | case1 a b c d rest ih =>
    simp only [trim, List.length_cons, ih]
    split <;> split <;> omega
  | case2 a b c => rfl
  | case3 a b => rfl
  | case4 a => rfl
  | case5 => rfl

theorem trim_snoc {front : Bytes} (h : front.length % 4 = 2) (c : UInt8) :
    trim (front ++ [c]) = front ++ [digit (value c / 4 * 4)] := by
  induction front using trim.induct with
  | case1 a b d e rest ih =>
    simp only [List.cons_append, trim]
    rw [ih ((Nat.add_mod_right rest.length 4).symm.trans h)]
  | case2 a b d => simp at h
  | case3 a b => rfl
  | case4 a => simp at h
  | case5 => simp at h

/-- The texts that differ from `s` in the last two bits of the last character only. -/
def spellings (s : Bytes) : List Bytes :=
  (List.range 4).map fun w => s.dropLast ++ [digit (value (s.getLastD 0) / 4 * 4 + w)]

theorem mem_spellings_snoc {front s : Bytes} {v : ℕ} (hv : v < 64) :
    s ∈ spellings (front ++ [digit v]) ↔ ∃ w < 4, s = front ++ [digit (v / 4 * 4 + w)] := by
  unfold spellings
  rw [List.mem_map, List.dropLast_concat, List.getLastD_concat, value_digit hv]
  constructor
  · rintro ⟨w, hw, rfl⟩
    exact ⟨w, List.mem_range.1 hw, rfl⟩
  · rintro ⟨w, hw, rfl⟩
    exact ⟨w, List.mem_range.2 hw, rfl⟩

/-- There are four of them. -/
theorem spellings_nodup (s : Bytes) : (spellings s).Nodup := by
  unfold spellings
  refine List.Nodup.map_on ?_ List.nodup_range
  intro v hv w hw heq
  rw [List.mem_range] at hv hw
  have hlast := value_lt (s.getLastD 0)
  rw [List.append_cancel_left_eq, List.cons.injEq, digit_inj (by omega) (by omega)] at heq
  omega

/-- A text whose length leaves three ends with a character of the alphabet. -/
theorem exists_snoc {s : Bytes} (hlen : s.length % 4 = 3) (hall : ∀ c ∈ s, c ∈ kB64UrlAlphabet) :
    ∃ front v, front.length % 4 = 2 ∧ v < 64 ∧ s = front ++ [digit v] := by
  have hne : s ≠ [] := by
    rintro rfl
    cases hlen
  have hlast := List.dropLast_concat_getLast hne
  obtain ⟨v, hv, hdigit⟩ := exists_digit (hall _ (List.getLast_mem hne))
  refine ⟨s.dropLast, v, ?_, hv, ?_⟩
  · rw [List.length_dropLast]
    omega
  · rw [← hdigit, hlast]

/-- **What decodes to two bytes after the last three** has four spellings. -/
theorem decode_iff_spellings {s x : Bytes} (hx : x.length % 3 = 2) :
    base64UrlDecode s = some x ↔ s ∈ spellings (base64UrlEncode x) := by
  have hlen : (base64UrlEncode x).length % 4 = 3 := by
    rw [encode_length]
    omega
  obtain ⟨front, v, hfront, hv, henc⟩ := exists_snoc hlen (encode_alphabet x)
  -- the encoder leaves these two bits clear
  have hclear : v / 4 * 4 = v := by
    have htrim := encode_decode (base64UrlDecode_encode x)
    rw [henc, trim_snoc hfront, value_digit hv, List.append_cancel_left_eq, List.cons.injEq, digit_inj hv (by omega)] at htrim
    exact htrim.1.symm
  rw [decode_iff, henc, mem_spellings_snoc hv]
  constructor
  · rintro ⟨hall, htrim⟩
    have hsame := trim_length s
    rw [htrim, ← henc] at hsame
    obtain ⟨front', v', hfront', hv', rfl⟩ := exists_snoc (s := s) (by split at hsame <;> omega) hall
    rw [trim_snoc hfront', value_digit hv'] at htrim
    obtain ⟨rfl, hlast⟩ := List.append_inj' htrim rfl
    rw [List.cons.injEq, digit_inj (by omega) hv] at hlast
    refine ⟨v' % 4, Nat.mod_lt _ (by decide), ?_⟩
    rw [show v / 4 * 4 + v' % 4 = v' by omega]
  · rintro ⟨w, hw, rfl⟩
    have hvw : v / 4 * 4 + w < 64 := by omega
    refine ⟨?_, ?_⟩
    · intro c hc
      rcases List.mem_append.1 hc with hc | hc
      · exact encode_alphabet x c (by rw [henc]; exact List.mem_append_left _ hc)
      · rw [List.mem_singleton.1 hc]
        exact digit_mem _ hvw
    · rw [trim_snoc hfront, value_digit hvw, show (v / 4 * 4 + w) / 4 * 4 = v by omega]

namespace Jwt

variable {j : Jwt}

/-- What `verify` reads of the third segment is what it decodes to. -/
theorem verify_congr {h p g g' : Bytes} (hsplit : split (h ++ 46 :: (p ++ 46 :: g)) = some (h, p, g))
    (hsplit' : split (h ++ 46 :: (p ++ 46 :: g')) = some (h, p, g')) (hdecode : base64UrlDecode g' = base64UrlDecode g)
    (now clock : ℤ) :
    j.verify (h ++ 46 :: (p ++ 46 :: g')) now clock = j.verify (h ++ 46 :: (p ++ 46 :: g)) now clock := by
  unfold verify verifySignature
  rw [hsplit, hsplit']
  dsimp only
  rw [hdecode]

/-- The third segment of a verified token decodes to the MAC of what is before it. -/
theorem verify_some {h p g : Bytes} {now clock : ℤ} {claims : JwtClaims} (hdots : 46 ∉ h ∧ 46 ∉ p)
    (hverify : j.verify (h ++ 46 :: (p ++ 46 :: g)) now clock = .ok (some claims)) :
    split (h ++ 46 :: (p ++ 46 :: g)) = some (h, p, g) ∧
      base64UrlDecode g = some (j.hmacSha256 j.secret (h ++ 46 :: p)) := by
  unfold verify at hverify
  obtain ⟨payload, hpayload, hverify⟩ := bind_ok.1 hverify
  cases payload with
  | none => cases hverify
  | some payload =>
    obtain ⟨h', p', g', sig, hsplit, hsig, hmac, -⟩ := verifySignature_some hpayload
    obtain ⟨htoken, ⟨hh', hp', -⟩, -⟩ := split_eq_some.1 hsplit
    obtain ⟨rfl, hrest⟩ := Fields.first_inj hdots.1 hh' htoken
    obtain ⟨rfl, rfl⟩ := Fields.first_inj hdots.2 hp' hrest
    exact ⟨hsplit, hmac ▸ hsig⟩

/-- **The four tokens of a signed content.** If one token with these first two segments is
verified, then four are, with the same claims. -/
theorem verify_spellings {h p g : Bytes} {now clock : ℤ} {claims : JwtClaims}
    (hmac : ∀ m, (j.hmacSha256 j.secret m).length = 32) (hdots : 46 ∉ h ∧ 46 ∉ p)
    (hverify : j.verify (h ++ 46 :: (p ++ 46 :: g)) now clock = .ok (some claims)) (g' : Bytes) (claims' : JwtClaims) :
    j.verify (h ++ 46 :: (p ++ 46 :: g')) now clock = .ok (some claims') ↔
      g' ∈ spellings (base64UrlEncode (j.hmacSha256 j.secret (h ++ 46 :: p))) ∧ claims' = claims := by
  obtain ⟨hsplit, hsig⟩ := verify_some hdots hverify
  have hspellings : ∀ s, base64UrlDecode s = some (j.hmacSha256 j.secret (h ++ 46 :: p)) ↔
      s ∈ spellings (base64UrlEncode (j.hmacSha256 j.secret (h ++ 46 :: p))) :=
    fun s => decode_iff_spellings (by rw [hmac])
  constructor
  · intro hverify'
    obtain ⟨hsplit', hsig'⟩ := verify_some hdots hverify'
    rw [verify_congr hsplit hsplit' (hsig'.trans hsig.symm), hverify] at hverify'
    cases hverify'
    exact ⟨(hspellings g').1 hsig', rfl⟩
  · rintro ⟨hg', rfl⟩
    have hsig' := (hspellings g').2 hg'
    have hne : g' ≠ [] := by
      rintro rfl
      have hlen := hmac (h ++ 46 :: p)
      rw [← Option.some.inj hsig'] at hlen
      cases hlen
    have hdot : 46 ∉ g' := fun hmem => (alphabet_plain 46 ((decode_iff.1 hsig').1 46 hmem)).1 rfl
    obtain ⟨-, -, hh, hp, -⟩ := split_eq_some.1 hsplit
    have hsplit' := split_eq_some.2 ⟨rfl, ⟨hdots.1, hdots.2, hdot⟩, hh, hp, hne⟩
    rw [verify_congr hsplit hsplit' (hsig'.trans hsig.symm), hverify]

/-- **What the decoder accepts, and how often a content can be signed.** It accepts the
texts over the alphabet, whatever their length and last bits; such a text is the encoding
of what it decodes to exactly if it is canonical. So of a secret and the first two segments
of a token, if any third is verified, four are: they differ in the last two bits of the last
character, and the claims are the same. -/
theorem base64Url_accepts (j : Jwt) (hmac : ∀ m, (j.hmacSha256 j.secret m).length = 32) :
    (∀ s, (base64UrlDecode s).isSome = true ↔ ∀ c ∈ s, c ∈ kB64UrlAlphabet) ∧
      (∀ s x, base64UrlDecode s = some x → (base64UrlEncode x = s ↔ Canonical s)) ∧
      ∀ h p g now clock claims, 46 ∉ h ∧ 46 ∉ p →
        j.verify (h ++ 46 :: (p ++ 46 :: g)) now clock = .ok (some claims) →
        (spellings (base64UrlEncode (j.hmacSha256 j.secret (h ++ 46 :: p)))).Nodup ∧
          (spellings (base64UrlEncode (j.hmacSha256 j.secret (h ++ 46 :: p)))).length = 4 ∧
          ∀ g' claims', j.verify (h ++ 46 :: (p ++ 46 :: g')) now clock = .ok (some claims') ↔
            g' ∈ spellings (base64UrlEncode (j.hmacSha256 j.secret (h ++ 46 :: p))) ∧ claims' = claims := by
  refine ⟨base64UrlDecode_isSome, ?_, ?_⟩
  · intro s x hx
    rw [encode_decode hx]
    exact trim_eq_iff (decode_iff.1 hx).1
  · intro h p g now clock claims hdots hverify
    exact ⟨spellings_nodup _, rfl, verify_spellings hmac hdots hverify⟩

theorem base64Url_accepts_sealed :
    ∃ four : List Bytes, four.Nodup ∧ four.length = 4 ∧
      ∀ g, sealedJwt.verify (sealedCall.input sealedJwt ++ 46 :: g) 1700003600 0 =
        .ok (some ⟨1, ascii "5f3a", ascii "seckill-cpp", 1700000000, 1700007200⟩) ↔ g ∈ four := by
  have hmac : ∀ m, (sealedJwt.hmacSha256 sealedJwt.secret m).length = 32 := by
    intro m
    unfold sealedJwt
    dsimp only
    split
    · exact UserService.flatMac_length m
    · rfl
  have hverify : sealedJwt.verify (sealedCall.input sealedJwt ++
      46 :: base64UrlEncode (sealedJwt.hmacSha256 sealedJwt.secret (sealedCall.input sealedJwt))) 1700003600 0 =
        .ok (some ⟨1, ascii "5f3a", ascii "seckill-cpp", 1700000000, 1700007200⟩) := by decide +kernel
  unfold Call.input signingInput at hverify ⊢
  simp only [List.append_assoc, List.cons_append] at hverify ⊢
  obtain ⟨hnodup, hlength, hiff⟩ := (base64Url_accepts sealedJwt hmac).2.2 _ _ _ _ _ _
    ⟨dot_not_mem_encode _, dot_not_mem_encode _⟩ hverify
  exact ⟨_, hnodup, hlength, fun g => (hiff g _).trans (and_iff_left rfl)⟩

/-- `AB` decodes to the zero byte, whose encoding is `AA`; and of two tokens with the same
first two segments both are verified. -/
theorem two_spellings :
    (base64UrlDecode (ascii "AB") = some [0] ∧ base64UrlEncode [0] = ascii "AA" ∧ ascii "AA" ≠ ascii "AB") ∧
      (∃ g g', g ≠ g' ∧ sealedJwt.sign 1 (ascii "5f3a") 1700000000 0 = sealedCall.input sealedJwt ++ 46 :: g ∧
        reencodedToken = sealedCall.input sealedJwt ++ 46 :: g') ∧
      sealedJwt.verify (sealedJwt.sign 1 (ascii "5f3a") 1700000000 0) 1700003600 0 =
        .ok (some ⟨1, ascii "5f3a", ascii "seckill-cpp", 1700000000, 1700007200⟩) ∧
      sealedJwt.verify reencodedToken 1700003600 0 =
        .ok (some ⟨1, ascii "5f3a", ascii "seckill-cpp", 1700000000, 1700007200⟩) := by
  refine ⟨by decide, ?_, by decide +kernel, by decide +kernel⟩
  refine ⟨ascii "d-l73Du9QK_l_VeW6K0J-2zPeBpRnyv_W-gNqMHG2NY", ascii "d-l73Du9QK_l_VeW6K0J-2zPeBpRnyv_W-gNqMHG2NZ", ?_⟩
  decide +kernel

end Jwt

end Seckill
