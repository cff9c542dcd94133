import Mathlib.Data.List.TakeDrop
import Mathlib.Data.List.TakeWhile
import Mathlib.Data.Set.Insert
import Seckill.Lib.Fields
import Seckill.Proof.Base64
import Seckill.Proof.Session

/-!
# Signed tokens

* `verify_sign`: a signed token is verified until its time is over, with the claims it
  was signed for.
* `verify_signed`: under an ideal MAC, what is verified was signed: the first two segments
  are those of a call of `sign`, and the claims are that call's.

Both rest on the parts undoing each other: `std::stoll` reads what `std::to_string`
wrote (`stoll_toString`), a token splits at its two dots and only there
(`split_eq_some`), and the bytes the signature covers determine the segments, as no
segment has a dot. The comparison of signatures, of any lengths, is equality
(`constantTimeEquals_eq`). That JSON written is read back is a hypothesis on the texts at
hand.
-/

namespace Seckill

/-! ## Decimal numbers -/

/-- The bytes of decimal digits. -/
def digits (l : List Char) : Bytes := l.map fun c => c.toNat.toUInt8

theorem digit_toNat {c : Char} (hc : c.isDigit = true) : c.toNat.toUInt8.toNat = c.toNat ∧ 48 ≤ c.toNat ∧ c.toNat ≤ 57 := by
  have h : 48 ≤ c.toNat ∧ c.toNat ≤ 57 := by
    simpa [Char.isDigit, UInt32.le_iff_toNat_le] using hc
  rw [Nat.toUInt8_eq, UInt8.toNat_ofNat']
  omega

theorem foldl_digits (l : List Char) (hl : ∀ c ∈ l, c.isDigit = true) (init : ℕ) :
    (digits l).foldl (fun (n : ℤ) c => 10 * n + (c.toNat - 48 : ℕ)) init = (Nat.ofDigitChars 10 l init : ℕ) := by
  unfold digits
  induction l generalizing init with
  | nil => simp
  | cons c l ih =>
    rw [List.forall_mem_cons] at hl
    rw [List.map_cons, List.foldl_cons, Nat.ofDigitChars_cons, ← ih hl.2, (digit_toNat hl.1).1]
    push_cast
    rfl

/-- `stoll` after the blanks and the sign. -/
def stollDigits (negative : Bool) (s : Bytes) : Option Int64 :=
  let digits := s.takeWhile fun c => 48 ≤ c && c ≤ 57
  let n : ℤ := digits.foldl (fun n c => 10 * n + (c.toNat - 48 : ℕ)) 0
  let n := if negative then -n else n
  if digits ≠ [] ∧ Json.isInt64 n then some (.ofInt n) else none

theorem stollDigits_digits (negative : Bool) (l : List Char) (hne : l ≠ []) (hl : ∀ c ∈ l, c.isDigit = true) {n : ℤ}
    (hn : n = if negative then -(Nat.ofDigitChars 10 l 0 : ℤ) else Nat.ofDigitChars 10 l 0) (h : Json.isInt64 n = true) :
    stollDigits negative (digits l) = some (.ofInt n) := by
  have htake : (digits l).takeWhile (fun c => 48 ≤ c && c ≤ 57) = digits l := by
    refine List.takeWhile_eq_self_iff.2 fun b hb => ?_
    obtain ⟨c, hc, rfl⟩ := List.mem_map.1 hb
    have := digit_toNat (hl c hc)
    simp only [Bool.and_eq_true, decide_eq_true_eq, UInt8.le_iff_toNat_le, this.1]
    exact this.2
  have hfold := foldl_digits l hl 0
  rw [Nat.cast_zero] at hfold
  have hdigits : digits l ≠ [] := by
    unfold digits
    simpa using hne
  unfold stollDigits
  dsimp only
  rw [htake, hfold, ← hn]
  exact if_pos ⟨hdigits, h⟩

/-- A text that begins with a digit has no blanks and no sign. -/
theorem stoll_of_digit {b : UInt8} (h : 48 ≤ b.toNat) (s : Bytes) : stoll (b :: s) = stollDigits false (b :: s) := by
  have hblank : ¬((b = 32 || (9 ≤ b && b ≤ 13)) = true) := by
    simp only [Bool.or_eq_true, Bool.and_eq_true, decide_eq_true_eq, UInt8.le_iff_toNat_le, ← UInt8.toNat_inj, UInt8.reduceToNat]
    omega
  have hminus : b ≠ 45 := fun hb => by simp [hb] at h
  have hplus : b ≠ 43 := fun hb => by simp [hb] at h
  have hdrop : (b :: s).dropWhile (fun c => c = 32 || (9 ≤ c && c ≤ 13)) = b :: s := List.dropWhile_cons_of_neg hblank
  unfold stoll
  rw [hdrop]
  dsimp only
  split
  next hb => exact absurd (List.cons.inj hb).1 hminus
  next hb => exact absurd (List.cons.inj hb).1 hplus
  next => rfl

theorem stoll_neg (s : Bytes) : stoll (45 :: s) = stollDigits true s := rfl

theorem isDigit_toDigits (m : ℕ) : ∀ c ∈ Nat.toDigits 10 m, c.isDigit = true :=
  fun _ hc => Nat.isDigit_of_mem_toDigits (by decide) (by decide) hc

theorem ascii_repr (m : ℕ) : ascii m.repr = digits (Nat.toDigits 10 m) := by
  unfold ascii digits
  rw [Nat.toList_repr]

/-- **`std::stoll` reads what `std::to_string` wrote.** -/
theorem stoll_toString (n : Int64) : stoll (ascii (toString n.toInt)) = some n := by
  have hread : ∀ negative m, (n.toInt = if negative then -(m : ℤ) else m) →
      stollDigits negative (digits (Nat.toDigits 10 m)) = some n := by
    intro negative m hm
    rw [stollDigits_digits negative _ Nat.toDigits_ne_nil (isDigit_toDigits m) (by rwa [Nat.ofDigitChars_ten_toDigits])
      (Json.isInt64_toInt n), Int64.ofInt_toInt]
  rw [Int.toString_eq_repr, Int.repr_eq_if]
  by_cases hn : 0 ≤ n.toInt
  · rw [if_pos hn, ascii_repr]
    have hval : n.toInt = ((n.toInt.toNat : ℕ) : ℤ) := (Int.toNat_of_nonneg hn).symm
    obtain ⟨c, l, hl⟩ := List.exists_cons_of_ne_nil (Nat.toDigits_ne_nil (n := n.toInt.toNat) (b := 10))
    have hc := isDigit_toDigits n.toInt.toNat c (by rw [hl]; exact List.mem_cons_self)
    have hstoll : stoll (digits (Nat.toDigits 10 n.toInt.toNat)) =
        stollDigits false (digits (Nat.toDigits 10 n.toInt.toNat)) := by
      rw [hl]
      exact stoll_of_digit (by rw [(digit_toNat hc).1]; exact (digit_toNat hc).2.1) (digits l)
    rw [hstoll]
    exact hread false _ (by simpa using hval)
  · rw [if_neg hn]
    have hval : n.toInt = -(((-n.toInt).toNat : ℕ) : ℤ) := by omega
    have hascii : ascii ("-" ++ (-n.toInt).toNat.repr) = 45 :: ascii (-n.toInt).toNat.repr := by
      unfold ascii
      rw [String.toList_append, List.map_append]
      rfl
    rw [hascii, ascii_repr, stoll_neg]
    exact hread true _ (by simpa using hval)

/-! ## Comparing -/

theorem foldl_diff (x y : ℕ → UInt8) (n : ℕ) (d : UInt8) :
    (List.range n).foldl (fun diff i => diff ||| (x i ^^^ y i)) d = 0 ↔ d = 0 ∧ ∀ i < n, x i = y i := by
  induction n with
  | zero => simp
  | succ n ih =>
    rw [List.range_succ, List.foldl_append, List.foldl_cons, List.foldl_nil, UInt8.or_eq_zero_iff, ih, UInt8.xor_eq_zero_iff,
      Nat.forall_lt_succ_right]
    exact and_assoc

theorem constantTimeEquals_eq (a b : Bytes) : constantTimeEquals a b = decide (a = b) := by
  unfold constantTimeEquals
  rw [decide_eq_decide, foldl_diff]
  constructor
  · rintro ⟨hlen, hsame⟩
    have hlen : a.length = b.length := by
      by_contra hne
      rw [if_neg hne] at hlen
      cases hlen
    refine List.ext_getElem hlen fun i hi hi' => ?_
    have h := hsame i (by omega)
    rwa [List.getD_eq_getElem _ _ hi, List.getD_eq_getElem _ _ hi'] at h
  · rintro rfl
    exact ⟨if_pos rfl, fun _ _ => rfl⟩

/-- **The comparison in constant time compares.** -/
theorem constantTimeEquals_iff (a b : Bytes) : constantTimeEquals a b = true ↔ a = b := by
  rw [constantTimeEquals_eq, decide_eq_true_eq]

/-! ## Segments -/

theorem span_dot (a s : Bytes) (ha : 46 ∉ a) : (a ++ 46 :: s).span (· ≠ 46) = (a, 46 :: s) := by
  rw [List.span_eq_takeWhile_dropWhile]
  have hall : ∀ b ∈ a, decide (b ≠ 46) = true := fun b hb => by
    rw [decide_eq_true_eq]
    rintro rfl
    exact ha hb
  rw [List.takeWhile_append_of_pos hall, List.dropWhile_append_of_pos hall]
  simp

/-- A list and what comes after the first dot. -/
theorem span_eq {s a rest : Bytes} {c : UInt8} (h : s.span (· ≠ 46) = (a, c :: rest)) :
    s = a ++ 46 :: rest ∧ 46 ∉ a := by
  rw [List.span_eq_takeWhile_dropWhile] at h
  obtain ⟨hleft, hright⟩ := Prod.mk.inj h
  have hc : c = 46 := by
    have := List.head?_dropWhile_not (fun b : UInt8 => decide (b ≠ 46)) s
    rw [hright] at this
    simpa using this
  refine ⟨?_, ?_⟩
  · rw [← hc, ← hright, ← hleft, List.takeWhile_append_dropWhile]
  · rw [← hleft]
    intro hmem
    have := List.mem_takeWhile_imp hmem
    simp at this

/-- **A token splits at its two dots**, and only there. -/
theorem split_eq_some {token h p g : Bytes} :
    Jwt.split token = some (h, p, g) ↔
      token = h ++ 46 :: (p ++ 46 :: g) ∧ (46 ∉ h ∧ 46 ∉ p ∧ 46 ∉ g) ∧ h ≠ [] ∧ p ≠ [] ∧ g ≠ [] := by
  constructor
  · intro heq
    unfold Jwt.split at heq
    split at heq
    next => cases heq
    next h' c rest hspan =>
      split at heq
      next => cases heq
      next p' c' g' hspan' =>
        split at heq
        next => cases heq
        next hbad =>
          have hsegments := Option.some.inj heq
          obtain ⟨rfl, hrest⟩ := Prod.mk.inj hsegments
          obtain ⟨rfl, rfl⟩ := Prod.mk.inj hrest
          obtain ⟨htoken, hh⟩ := span_eq hspan
          obtain ⟨hafter, hp⟩ := span_eq hspan'
          push Not at hbad
          exact ⟨by rw [htoken, hafter], ⟨hh, hp, hbad.1⟩, hbad.2⟩
  · rintro ⟨rfl, ⟨hh, hp, hg⟩, hne⟩
    unfold Jwt.split
    rw [span_dot _ _ hh]
    dsimp only
    rw [span_dot _ _ hp]
    dsimp only
    rw [if_neg]
    push Not
    exact ⟨hg, hne⟩

namespace Jwt

variable {j : Jwt} {token : Bytes} {userId : Int64} {jti : Bytes} {now t clock : ℤ}

/-! ## Signing and verifying -/

/-- What the signature of a token covers. -/
def signingInput (j : Jwt) (userId : Int64) (jti : Bytes) (t : ℤ) : Bytes :=
  base64UrlEncode (j.writeJson header) ++ 46 :: base64UrlEncode (j.writeJson (j.payload userId jti t))

theorem sign_eq (j : Jwt) (userId : Int64) (jti : Bytes) (now clock : ℤ) :
    j.sign userId jti now clock = base64UrlEncode (j.writeJson header) ++
      46 :: (base64UrlEncode (j.writeJson (j.payload userId jti (nowOr now clock))) ++
        46 :: base64UrlEncode (j.hmacSha256 j.secret (j.signingInput userId jti (nowOr now clock)))) := by
  have hdot : ascii "." = [46] := rfl
  unfold sign signingInput
  simp only [hdot, List.append_assoc, List.cons_append, List.nil_append]

/-- Part 4 of `verify` on the payload of a signed token. -/
theorem verifyPayload_payload (j : Jwt) (userId : Int64) (jti : Bytes) (t now : ℤ) :
    j.verifyPayload (j.payload userId jti t) now =
      if ¬Json.isInt64 (t + j.ttlSeconds) then .error "LargestUInt out of Int64 range"
      else if now ≥ t + j.ttlSeconds then .ok none
      else if ¬Json.isInt64 t then .error "LargestUInt out of Int64 range"
      else .ok (some ⟨userId, jti, j.issuer, t, t + j.ttlSeconds⟩) := by
  have hstoll := stoll_toString userId
  rw [Int.toString_eq_repr] at hstoll
  have hmember : (j.payload userId jti t).isMember "iss" = .ok true ∧ (j.payload userId jti t).isMember "exp" = .ok true ∧
      (j.payload userId jti t).isMember "sub" = .ok true ∧ (j.payload userId jti t).isMember "jti" = .ok true ∧
      (j.payload userId jti t).isMember "iat" = .ok true := ⟨rfl, rfl, rfl, rfl, rfl⟩
  have hfield : (j.payload userId jti t).field "iss" = .str j.issuer ∧
      (j.payload userId jti t).field "exp" = .int (t + j.ttlSeconds) ∧
      (j.payload userId jti t).field "sub" = .str (ascii (toString userId.toInt)) ∧
      (j.payload userId jti t).field "jti" = .str jti ∧ (j.payload userId jti t).field "iat" = .int t :=
    ⟨rfl, rfl, rfl, rfl, rfl⟩
  obtain ⟨h₁, h₂, h₃, h₄, h₅⟩ := hmember
  obtain ⟨f₁, f₂, f₃, f₄, f₅⟩ := hfield
  unfold verifyPayload
  rw [h₁, h₂, h₃, h₄, h₅, f₁, f₂, f₃, f₄, f₅]
  simp only [bind, Except.bind, pure, Except.pure, Json.asString, Json.asInt64]
  by_cases hexp : Json.isInt64 (t + j.ttlSeconds) = true
  · by_cases hnow : now ≥ t + j.ttlSeconds
    · simp [hexp, hnow]
    · by_cases hiat : Json.isInt64 t = true
      · simp [hexp, hnow, hiat, hstoll]
      · simp [hexp, hnow, hiat]
  · simp [hexp]

/-- Parts 1 to 3 of `verify`, on a token that splits. -/
theorem verifySignature_split {h p g : Bytes} (hsplit : split token = some (h, p, g))
    (hheader : (base64UrlDecode h).bind j.readJson = some header) {sig : Bytes} (hsig : base64UrlDecode g = some sig)
    (hmac : j.hmacSha256 j.secret (h ++ 46 :: p) = sig) :
    j.verifySignature token = .ok ((base64UrlDecode p).bind j.readJson) := by
  have hdot : h ++ ascii "." ++ p = h ++ 46 :: p := by
    rw [show ascii "." = [46] from rfl, List.append_assoc]
    rfl
  have hmember : header.isMember "alg" = .ok true := rfl
  have hfield : (header.field "alg").asString = .ok (ascii "HS256") := rfl
  unfold verifySignature
  rw [hsplit]
  dsimp only
  rw [hheader]
  dsimp only
  rw [hmember, hfield, hsig, hdot, hmac]
  simp [bind, Except.bind, pure, Except.pure, constantTimeEquals_eq]

/-- **A signed token is verified until its time is over**, with the claims it was signed
for: for every secret, issuer, user, jti and time, `HMAC-SHA256` being any function with
32 bytes of output, and JSON reading back what it wrote for this token. -/
theorem verify_sign (j : Jwt) (userId : Int64) (jti : Bytes) (now clock now' clock' : ℤ) (hpos : 0 < now)
    (hnow : Json.isInt64 now = true) (hexp : Json.isInt64 (now + j.ttlSeconds) = true) (hpos' : 0 < now')
    (hmac : ∀ m, (j.hmacSha256 j.secret m).length = 32) (hempty : j.readJson [] = none)
    (hheader : j.readJson (j.writeJson header) = some header)
    (hpayload : j.readJson (j.writeJson (j.payload userId jti now)) = some (j.payload userId jti now)) :
    j.verify (j.sign userId jti now clock) now' clock' =
      .ok (if now' < now + j.ttlSeconds then some ⟨userId, jti, j.issuer, now, now + j.ttlSeconds⟩ else none) := by
  have hne : ∀ {v : Json}, j.readJson (j.writeJson v) = some v → base64UrlEncode (j.writeJson v) ≠ [] := by
    intro v hv
    refine encode_ne_nil fun hw => ?_
    rw [hw, hempty] at hv
    cases hv
  have hsigne : base64UrlEncode (j.hmacSha256 j.secret (j.signingInput userId jti now)) ≠ [] := by
    refine encode_ne_nil fun hw => ?_
    have := hmac (j.signingInput userId jti now)
    rw [hw] at this
    cases this
  have htime : nowOr now clock = now := if_pos hpos
  have hsplit : split (j.sign userId jti now clock) = some (base64UrlEncode (j.writeJson header),
      base64UrlEncode (j.writeJson (j.payload userId jti now)),
      base64UrlEncode (j.hmacSha256 j.secret (j.signingInput userId jti now))) := by
    refine split_eq_some.2 ⟨?_, ⟨dot_not_mem_encode _, dot_not_mem_encode _, dot_not_mem_encode _⟩,
      hne hheader, hne hpayload, hsigne⟩
    rw [sign_eq, htime]
  have hsignature : j.verifySignature (j.sign userId jti now clock) = .ok (some (j.payload userId jti now)) := by
    rw [verifySignature_split hsplit (by rw [base64UrlDecode_encode]; exact hheader) (base64UrlDecode_encode _) rfl,
      base64UrlDecode_encode]
    exact congrArg _ hpayload
  unfold verify
  rw [hsignature]
  change j.verifyPayload (j.payload userId jti now) (nowOr now' clock') = _
  rw [show nowOr now' clock' = now' from if_pos hpos', verifyPayload_payload, if_neg (not_not.2 hexp),
    if_neg (not_not.2 hnow)]
  by_cases hlt : now' < now + j.ttlSeconds
  · rw [if_neg (by omega), if_pos hlt]
  · rw [if_pos (by omega), if_neg hlt]

/-- The token of user 1, verified an hour after it was signed. -/
theorem verify_sign_flat :
    UserService.flatJwt.verify (UserService.flatJwt.sign 1 (ascii "5f3a") 1700000000 0) 1700003600 0 =
      .ok (some ⟨1, ascii "5f3a", ascii "seckill-cpp", 1700000000, 1700007200⟩) := by
  exact verify_sign UserService.flatJwt 1 (ascii "5f3a") 1700000000 0 1700003600 0 (by decide) (by decide) (by decide)
    (by decide) UserService.flatMac_length (by decide +kernel) (by rfl) (by rfl)

/-! ## What was verified was signed -/

/-- A call of `sign`. -/
structure Call where
  userId : Int64
  jti : Bytes
  nowSeconds : ℤ
  clock : ℤ
  deriving DecidableEq

/-- The time the token is issued at. -/
def Call.time (c : Call) : ℤ := nowOr c.nowSeconds c.clock

/-- What the call computed the MAC on. -/
def Call.input (j : Jwt) (c : Call) : Bytes := j.signingInput c.userId c.jti c.time

/-- **An ideal MAC**, for the signature a token presents: a text whose MAC it is was
signed by one of the calls. -/
def Unforged (j : Jwt) (calls : Set Call) (token : Bytes) : Prop :=
  ∀ h p g sig, split token = some (h, p, g) → base64UrlDecode g = some sig →
    ∀ m, j.hmacSha256 j.secret m = sig → ∃ c ∈ calls, m = c.input j

/-- A token that gets past the signature presents the MAC of its first two segments. -/
theorem verifySignature_some {payload : Json} (h : j.verifySignature token = .ok (some payload)) :
    ∃ h p g sig, split token = some (h, p, g) ∧ base64UrlDecode g = some sig ∧
      j.hmacSha256 j.secret (h ++ 46 :: p) = sig ∧ (base64UrlDecode p).bind j.readJson = some payload := by
  unfold verifySignature at h
  split at h
  next => cases h
  next hd p g hsplit =>
    have hdot : hd ++ ascii "." ++ p = hd ++ 46 :: p := by
      rw [show ascii "." = [46] from rfl, List.append_assoc]
      rfl
    split at h
    next => cases h
    next =>
      obtain ⟨member, -, h⟩ := bind_ok.1 h
      split at h
      · cases h
      obtain ⟨alg, -, h⟩ := bind_ok.1 h
      split at h
      · cases h
      split at h
      next => cases h
      next sig hsig =>
        split at h
        · cases h
        rename_i hequal
        simp only [Bool.not_eq_true', Bool.not_eq_false, constantTimeEquals_eq, decide_eq_true_eq] at hequal
        exact ⟨hd, p, g, sig, hsplit, hsig, hdot ▸ hequal, Except.ok.inj h⟩

/-- The call of `sign` behind a token that was verified: the token's first two segments are
the header and the payload of that call. -/
theorem verify_call (j : Jwt) (calls : Set Call) (token : Bytes) (now clock : ℤ) (claims : JwtClaims)
    (hmac : Unforged j calls token)
    (hjson : ∀ c ∈ calls, j.readJson (j.writeJson (j.payload c.userId c.jti c.time)) = some (j.payload c.userId c.jti c.time))
    (h : j.verify token now clock = .ok (some claims)) :
    ∃ c ∈ calls, (∃ g, split token = some (base64UrlEncode (j.writeJson header),
        base64UrlEncode (j.writeJson (j.payload c.userId c.jti c.time)), g)) ∧
      claims = ⟨c.userId, c.jti, j.issuer, c.time, c.time + j.ttlSeconds⟩ ∧ nowOr now clock < c.time + j.ttlSeconds := by
  unfold verify at h
  obtain ⟨payload, hpayload, h⟩ := bind_ok.1 h
  cases payload with
  | none => cases h
  | some payload =>
    change j.verifyPayload payload (nowOr now clock) = .ok (some claims) at h
    obtain ⟨hd, p, g, sig, hsplit, hsig, hmacEq, hread⟩ := verifySignature_some hpayload
    obtain ⟨c, hc, hinput⟩ := hmac hd p g sig hsplit hsig _ hmacEq
    obtain ⟨-, ⟨hdot, -⟩, -⟩ := split_eq_some.1 hsplit
    -- the text a signature covers determines the segments
    obtain ⟨rfl, rfl⟩ := Fields.first_inj hdot (dot_not_mem_encode _) hinput
    -- the bytes the MAC covers are those that are decoded
    rw [base64UrlDecode_encode] at hread
    have hsame : j.payload c.userId c.jti c.time = payload := Option.some.inj ((hjson c hc).symm.trans hread)
    rw [← hsame, verifyPayload_payload] at h
    split at h
    · cases h
    split at h
    · cases h
    rename_i hlive
    split at h
    · cases h
    exact ⟨c, hc, ⟨g, hsplit⟩, (Option.some.inj (Except.ok.inj h)).symm, by omega⟩

/-- **What was verified was signed.** Under an ideal MAC, if a byte string is verified then its
first two segments are those that a call of `sign` produced, and the claims are that
call's: its user, jti and time, the issuer, and an expiry that is not reached. -/
theorem verify_signed (j : Jwt) (calls : Set Call) (token : Bytes) (now clock : ℤ) (claims : JwtClaims)
    (hmac : Unforged j calls token)
    (hjson : ∀ c ∈ calls, j.readJson (j.writeJson (j.payload c.userId c.jti c.time)) = some (j.payload c.userId c.jti c.time))
    (h : j.verify token now clock = .ok (some claims)) :
    ∃ c ∈ calls, (∃ hd p g g', split token = some (hd, p, g) ∧
        j.sign c.userId c.jti c.nowSeconds c.clock = hd ++ 46 :: (p ++ 46 :: g')) ∧
      claims = ⟨c.userId, c.jti, j.issuer, c.time, c.time + j.ttlSeconds⟩ ∧ nowOr now clock < c.time + j.ttlSeconds := by
  obtain ⟨c, hc, ⟨g, hsplit⟩, hclaims, hlive⟩ := verify_call j calls token now clock claims hmac hjson h
  exact ⟨c, hc, ⟨_, _, g, _, hsplit, sign_eq j c.userId c.jti c.nowSeconds c.clock⟩, hclaims, hlive⟩

/-- A MAC that knows one text. -/
def sealedJwt : Jwt :=
  let input := UserService.flatJwt.signingInput 1 (ascii "5f3a") 1700000000
  { UserService.flatJwt with
    hmacSha256 := fun secret m =>
      if m = input then UserService.flatJwt.hmacSha256 secret m else List.replicate 32 0 }

/-- The call that text is of. -/
def sealedCall : Call := ⟨1, ascii "5f3a", 1700000000, 0⟩

theorem sealedJwt_unforged {calls : Set Call} {c : Call} (hc : c ∈ calls) (hinput : c.input sealedJwt = sealedCall.input sealedJwt)
    (hsig : ((split token).bind fun p => base64UrlDecode p.2.2) =
      base64UrlDecode (ascii "d-l73Du9QK_l_VeW6K0J-2zPeBpRnyv_W-gNqMHG2NY")) :
    Unforged sealedJwt calls token := by
  intro h p g sig hs hdecode m hm
  rw [hs, Option.bind_some, hdecode] at hsig
  refine ⟨c, hc, ?_⟩
  rw [hinput]
  by_contra hne
  have hzero : sealedJwt.hmacSha256 sealedJwt.secret m = List.replicate 32 0 := if_neg hne
  have hdigest : base64UrlDecode (ascii "d-l73Du9QK_l_VeW6K0J-2zPeBpRnyv_W-gNqMHG2NY") ≠
      some (List.replicate 32 0) := by decide +kernel
  exact hdigest (hsig.symm.trans (congrArg some (hm.symm.trans hzero)))

/-- The token of the call, its last character with other bits where the signature has none. -/
def reencodedToken : Bytes := (sealedJwt.sign 1 (ascii "5f3a") 1700000000 0).dropLast ++ ascii "Z"

theorem verify_signed_reencoded :
    sealedJwt.verify reencodedToken 1700003600 0 = .ok (some ⟨1, ascii "5f3a", ascii "seckill-cpp", 1700000000, 1700007200⟩) ∧
      ∃ c ∈ ({sealedCall} : Set Call), ∃ hd p g g', split reencodedToken = some (hd, p, g) ∧
        sealedJwt.sign c.userId c.jti c.nowSeconds c.clock = hd ++ 46 :: (p ++ 46 :: g') := by
  have hverify : sealedJwt.verify reencodedToken 1700003600 0 =
      .ok (some ⟨1, ascii "5f3a", ascii "seckill-cpp", 1700000000, 1700007200⟩) := by decide +kernel
  have hmac : Unforged sealedJwt {sealedCall} reencodedToken :=
    sealedJwt_unforged (Set.mem_singleton sealedCall) rfl (by decide +kernel)
  have hjson : ∀ c ∈ ({sealedCall} : Set Call), sealedJwt.readJson (sealedJwt.writeJson (sealedJwt.payload c.userId c.jti c.time)) =
      some (sealedJwt.payload c.userId c.jti c.time) := by
    intro c hc
    rw [Set.mem_singleton_iff.1 hc]
    rfl
  obtain ⟨c, hc, hsegments, -⟩ := verify_signed sealedJwt {sealedCall} reencodedToken 1700003600 0 _ hmac hjson hverify
  exact ⟨hverify, c, hc, hsegments⟩

end Jwt

end Seckill
