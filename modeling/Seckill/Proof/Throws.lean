import Seckill.Proof.Jwt

/-!
# When `verify` throws

An accessor of jsoncpp throws on a value that is not of its kind (`IsRecord`, `IsText`,
`IsInteger`). `verify` calls one after the other on what it decoded, whatever that is:
it returns exactly if each it comes to is called on a value of its kind
(`verify_returns`). The header is decoded and read before the signature is checked.
-/

namespace Seckill

namespace Json

variable {v : Json} {key : String}

/-- The value has members: `isMember` and `operator[]` are for null and objects. -/
def IsRecord : Json → Prop
  | .null | .obj _ => True
  | _ => False

/-- The value has a text, for `asString`. -/
def IsText : Json → Prop
  | .arr _ | .obj _ => False
  | _ => True

/-- The value has an `int64_t`, for `asInt64`. -/
def IsInteger : Json → Prop
  | .null | .bool _ => True
  | .int n | .real _ (some n) => isInt64 n = true
  | _ => False

/-- The key is there. -/
def has (key : String) : Json → Bool
  | .obj fields => fields.any fun f => f.1 = ascii key
  | _ => false

theorem isMember_of_isRecord (h : v.IsRecord) (key : String) : v.isMember key = .ok (v.has key) := by
  cases v with
  | null => rfl
  | obj fields => rfl
  | _ => exact h.elim

theorem isMember_iff : (∃ b, v.isMember key = .ok b) ↔ v.IsRecord := by
  cases v <;> simp [isMember, IsRecord]

theorem isMember_throws (h : ¬v.IsRecord) (key : String) : ∃ what, v.isMember key = .error what := by
  cases v with
  | null => exact absurd trivial h
  | obj fields => exact absurd trivial h
  | _ => exact ⟨_, rfl⟩

/-- What is not there reads as null. -/
theorem field_of_not_has (h : v.has key = false) : v.field key = .null := by
  cases v with
  | obj fields =>
    have hnone : fields.find? (fun f => f.1 = ascii key) = none := by
      rw [List.find?_eq_none]
      intro f hf hkey
      exact absurd (List.any_eq_true.2 ⟨f, hf, hkey⟩) (by rw [show fields.any _ = false from h]; simp)
    simp only [field, hnone]
    rfl
  | _ => rfl

theorem asString_iff : (∃ s, v.asString = .ok s) ↔ v.IsText := by
  cases v <;> simp [asString, IsText]

theorem asInt64_iff : (∃ n, v.asInt64 = .ok n) ↔ v.IsInteger := by
  cases v with
  | int n => by_cases hn : isInt64 n = true <;> simp [asInt64, IsInteger, hn]
  | real text trunc =>
    cases trunc with
    | none => simp [asInt64, IsInteger]
    | some n => by_cases hn : isInt64 n = true <;> simp [asInt64, IsInteger, hn]
  | _ => simp [asInt64, IsInteger]

end Json

namespace Jwt

variable {j : Jwt} {payload : Json} {now : ℤ}

/-- The call returns: no exception leaves it. -/
def Returns {α : Type} (x : Except String α) : Prop := ∃ a, x = .ok a

theorem returns_bind {α β : Type} {x : Except String α} {f : α → Except String β} :
    Returns (x >>= f) ↔ ∃ a, x = .ok a ∧ Returns (f a) := by
  constructor
  · rintro ⟨b, hb⟩
    obtain ⟨a, ha, h⟩ := bind_ok.1 hb
    exact ⟨a, ha, b, h⟩
  · rintro ⟨a, ha, b, h⟩
    exact ⟨b, bind_ok.2 ⟨a, ha, h⟩⟩

/-- What is read is of its kind, and with what it is the rest returns. -/
theorem returns_read {α β : Type} {x : Except String α} {f : α → Except String β} {kind : Prop}
    (hx : (∃ a, x = .ok a) ↔ kind) : Returns (x >>= f) ↔ kind ∧ ∀ a, x = .ok a → Returns (f a) := by
  rw [returns_bind]
  constructor
  · rintro ⟨a, ha, h⟩
    refine ⟨hx.1 ⟨a, ha⟩, fun a' ha' => ?_⟩
    rw [ha] at ha'
    rwa [← Except.ok.inj ha']
  · rintro ⟨hkind, h⟩
    obtain ⟨a, ha⟩ := hx.2 hkind
    exact ⟨a, ha, h a ha⟩

/-- Of what it is the rest does not depend. -/
theorem returns_read_of {α β : Type} {x : Except String α} {f : α → Except String β} {kind rest : Prop}
    (hx : (∃ a, x = .ok a) ↔ kind) (hf : ∀ a, Returns (f a) ↔ rest) : Returns (x >>= f) ↔ kind ∧ rest := by
  rw [returns_read hx]
  refine and_congr_right fun hkind => ?_
  obtain ⟨a, ha⟩ := hx.2 hkind
  exact ⟨fun h => (hf a).1 (h a ha), fun h a _ => (hf a).2 h⟩

/-- A check that refuses does not throw. -/
theorem returns_unless {α : Type} {refused : Prop} [Decidable refused] {a : α} {x : Except String α} :
    Returns (if refused then pure a else x) ↔ (¬refused → Returns x) := by
  split
  next h => exact iff_of_true ⟨a, rfl⟩ fun hn => absurd h hn
  next h => exact ⟨fun hx _ => hx, fun hx => hx h⟩

/-- What `verifyPayload` comes to read is of the kind it reads it as: the four members of
an object, the issuer, the expiry of a token of this issuer, and the other claims of one
that has not expired. -/
def PayloadReadable (j : Jwt) (payload : Json) (now : ℤ) : Prop :=
  payload.IsRecord ∧ ((∀ key ∈ ["iss", "exp", "sub", "jti"], payload.has key = true) →
    (payload.field "iss").IsText ∧ ((payload.field "iss").asString = .ok j.issuer →
      (payload.field "exp").IsInteger ∧ ∀ expiresAt, (payload.field "exp").asInt64 = .ok expiresAt → now < expiresAt →
        (payload.field "jti").IsText ∧ (payload.field "iat").IsInteger ∧ (payload.field "sub").IsText))

theorem verifyPayload_returns : Returns (j.verifyPayload payload now) ↔ PayloadReadable j payload now := by
  unfold verifyPayload PayloadReadable
  by_cases hrecord : payload.IsRecord
  swap
  · obtain ⟨what, hwhat⟩ := Json.isMember_throws hrecord "iss"
    rw [hwhat]
    exact iff_of_false (fun ⟨b, hb⟩ => by cases hb) fun h => hrecord h.1
  have hmembers : ¬((!payload.has "iss" || !payload.has "exp" || !payload.has "sub" || !payload.has "jti") = true) ↔
      ∀ key ∈ ["iss", "exp", "sub", "jti"], payload.has key = true := by
    simp [and_assoc]
  simp only [Json.isMember_of_isRecord hrecord, returns_bind, Except.ok.injEq, exists_eq_left']
  -- on a record `isMember` does not throw, whichever of the four is asked for
  rw [returns_unless, returns_read Json.asString_iff, hmembers, and_iff_right hrecord]
  refine imp_congr_right fun _ => and_congr_right fun htext => ?_
  obtain ⟨iss, hiss⟩ := Json.asString_iff.2 htext
  simp only [hiss, Except.ok.injEq, forall_eq']
  rw [returns_unless, not_not, returns_read Json.asInt64_iff]
  refine imp_congr_right fun _ => and_congr_right fun _ => forall₂_congr fun expiresAt _ => ?_
  rw [returns_unless]
  refine imp_congr Int.not_le ?_
  -- the claims, read one after the other; without an `iat` it is null that is there
  have hsub {f : Bytes → Except String (Option JwtClaims)} (hf : ∀ sub, Returns (f sub)) :
      Returns ((payload.field "sub").asString >>= f) ↔ (payload.field "sub").IsText := by
    rw [returns_read Json.asString_iff]
    exact and_iff_left fun sub _ => hf sub
  change Returns ((payload.field "jti").asString >>= _) ↔ _
  refine returns_read_of Json.asString_iff fun jti => ?_
  change Returns (if payload.has "iat" = true then _ else _) ↔ _
  split
  next =>
    refine returns_read_of Json.asInt64_iff fun issuedAt => hsub fun sub => ?_
    split <;> exact ⟨_, rfl⟩
  next hiat =>
    rw [Json.field_of_not_has (eq_false_of_ne_true hiat)]
    refine (hsub fun sub => ?_).trans (and_iff_right trivial).symm
    split <;> exact ⟨_, rfl⟩

/-- The signature of the token is right. -/
def Signed (j : Jwt) (headerB64 payloadB64 sigB64 : Bytes) : Prop :=
  ∃ sig, base64UrlDecode sigB64 = some sig ∧
    constantTimeEquals (j.hmacSha256 j.secret (headerB64 ++ ascii "." ++ payloadB64)) sig = true

/-- What `verify` comes to read of a token with this header is of the kind it reads it as:
the header has members, its algorithm a text; and if that is HS256 and the signature
right, so is the payload. -/
def HeaderReadable (j : Jwt) (headerB64 payloadB64 sigB64 : Bytes) (header : Json) (now : ℤ) : Prop :=
  header.IsRecord ∧ (header.field "alg").IsText ∧
    ((header.field "alg").asString = .ok (ascii "HS256") → j.Signed headerB64 payloadB64 sigB64 →
      ∀ payload, (base64UrlDecode payloadB64).bind j.readJson = some payload → PayloadReadable j payload now)

/-- So is what it comes to read of the token. -/
def Readable (j : Jwt) (token : Bytes) (now : ℤ) : Prop :=
  ∀ headerB64 payloadB64 sigB64 header, split token = some (headerB64, payloadB64, sigB64) →
    (base64UrlDecode headerB64).bind j.readJson = some header → HeaderReadable j headerB64 payloadB64 sigB64 header now

theorem readable_iff {token headerB64 payloadB64 sigB64 : Bytes} {header : Json}
    (hsplit : split token = some (headerB64, payloadB64, sigB64))
    (hheader : (base64UrlDecode headerB64).bind j.readJson = some header) :
    Readable j token now ↔ HeaderReadable j headerB64 payloadB64 sigB64 header now := by
  constructor
  · intro h
    exact h _ _ _ _ hsplit hheader
  · intro h headerB64' payloadB64' sigB64' header' hsplit' hheader'
    rw [hsplit] at hsplit'
    cases hsplit'
    rw [hheader] at hheader'
    rw [← Option.some.inj hheader']
    exact h

/-- Parts 1 to 3 read the header only. -/
theorem verifySignature_returns {token headerB64 payloadB64 sigB64 : Bytes} {header : Json}
    (hsplit : split token = some (headerB64, payloadB64, sigB64))
    (hheader : (base64UrlDecode headerB64).bind j.readJson = some header) :
    Returns (j.verifySignature token) ↔ header.IsRecord ∧ (header.field "alg").IsText := by
  unfold verifySignature
  rw [hsplit]
  dsimp only
  rw [hheader]
  dsimp only
  rw [returns_read Json.isMember_iff]
  refine and_congr_right fun hrecord => ?_
  simp only [Json.isMember_of_isRecord hrecord, Except.ok.injEq, forall_eq']
  rw [returns_unless, returns_read Json.asString_iff]
  constructor
  · intro h
    by_cases hhas : header.has "alg" = true
    · exact (h (by simp [hhas])).1
    · -- without an algorithm nothing is read, and null is a text
      rw [Json.field_of_not_has (eq_false_of_ne_true hhas)]
      trivial
  · refine fun htext _ => ⟨htext, fun alg _ => returns_unless.2 fun _ => ?_⟩
    cases base64UrlDecode sigB64 with
    | none => exact ⟨none, rfl⟩
    | some sig => exact returns_unless.2 fun _ => ⟨_, rfl⟩

/-- They let a payload past whose header says HS256 and whose signature is right. -/
theorem verifySignature_payload {token headerB64 payloadB64 sigB64 : Bytes} {header payload : Json}
    (hsplit : split token = some (headerB64, payloadB64, sigB64))
    (hheader : (base64UrlDecode headerB64).bind j.readJson = some header) (hrecord : header.IsRecord) :
    j.verifySignature token = .ok (some payload) ↔ (header.field "alg").asString = .ok (ascii "HS256") ∧
      j.Signed headerB64 payloadB64 sigB64 ∧ (base64UrlDecode payloadB64).bind j.readJson = some payload := by
  unfold verifySignature
  rw [hsplit]
  dsimp only
  rw [hheader]
  dsimp only
  rw [Json.isMember_of_isRecord hrecord]
  change (if (!header.has "alg") = true then _ else _) = _ ↔ _
  by_cases hhas : header.has "alg" = true
  swap
  · -- no algorithm: it reads as the empty text
    rw [if_pos (by simp [hhas]), Json.field_of_not_has (eq_false_of_ne_true hhas)]
    exact iff_of_false (fun h => by cases h) fun h => by simp [Json.asString, ascii] at h
  rw [if_neg (by simp [hhas])]
  cases (header.field "alg").asString with
  | error what => exact iff_of_false (fun h => by cases h) fun h => by cases h.1
  | ok alg =>
  change (if alg ≠ ascii "HS256" then _ else _) = _ ↔ _
  rw [Except.ok.injEq]
  by_cases hhs256 : alg = ascii "HS256"
  swap
  · rw [if_pos hhs256]
    exact iff_of_false (fun h => by cases h) fun h => hhs256 h.1
  rw [if_neg (not_not.2 hhs256), and_iff_right hhs256]
  unfold Signed
  cases base64UrlDecode sigB64 with
  | none => exact iff_of_false (fun h => by cases h) fun ⟨⟨_, h, _⟩, _⟩ => by cases h
  | some sig =>
    dsimp only
    split
    next hwrong =>
      refine iff_of_false (fun h => by cases h) fun ⟨⟨sig', h, hright⟩, _⟩ => ?_
      rw [← Option.some.inj h] at hright
      rw [hright] at hwrong
      cases hwrong
    next hright =>
      rw [and_iff_right ⟨sig, rfl, eq_true_of_ne_false fun h => hright (by rw [h]; rfl)⟩]
      exact ⟨Except.ok.inj, congrArg Except.ok⟩

/-- **When no exception leaves `verify`**: exactly for the tokens whose header, and whose
payload if they are signed, are of the shape it expects. -/
theorem verify_returns (j : Jwt) (token : Bytes) (nowSeconds clock : ℤ) :
    (∃ r, j.verify token nowSeconds clock = .ok r) ↔ Readable j token (nowOr nowSeconds clock) := by
  change Returns _ ↔ _
  unfold verify
  cases hsplit : split token with
  | none =>
    have hrefused : j.verifySignature token = .ok none := by
      unfold verifySignature
      rw [hsplit]
      rfl
    rw [hrefused]
    exact iff_of_true ⟨none, rfl⟩ fun _ _ _ _ h => by rw [hsplit] at h; cases h
  | some parts =>
  obtain ⟨headerB64, payloadB64, sigB64⟩ := parts
  cases hheader : (base64UrlDecode headerB64).bind j.readJson with
  | none =>
    have hrefused : j.verifySignature token = .ok none := by
      unfold verifySignature
      rw [hsplit]
      dsimp only
      rw [hheader]
      rfl
    rw [hrefused]
    refine iff_of_true ⟨none, rfl⟩ fun _ _ _ _ h hh => ?_
    rw [hsplit] at h
    cases h
    rw [hheader] at hh
    cases hh
  | some header =>
  rw [readable_iff hsplit hheader, returns_read (verifySignature_returns hsplit hheader), and_assoc]
  refine and_congr_right fun hrecord => and_congr_right fun _ => ?_
  -- only a payload that gets past part 3 is read
  have hpast (payload : Json) : j.verifySignature token = .ok (some payload) ↔ _ :=
    verifySignature_payload hsplit hheader hrecord
  constructor
  · intro h halg hsigned payload hpayload
    rw [← verifyPayload_returns]
    exact h (some payload) ((hpast payload).2 ⟨halg, hsigned, hpayload⟩)
  · intro h r hr
    cases r with
    | none => exact ⟨none, rfl⟩
    | some payload =>
      obtain ⟨halg, hsigned, hpayload⟩ := (hpast payload).1 hr
      exact verifyPayload_returns.2 (h halg hsigned payload hpayload)

/-- A parser that knows the text `[]`. -/
def readArray (text : Bytes) : Option Json := if text = ascii "[]" then some (.arr []) else none

/-- A token whose header is the array `[]` makes `verify` throw, whoever made it. -/
theorem verify_returns_fails :
    ¬∃ r, (Jwt.mk (ascii "secret") (ascii "seckill-cpp") 7200 (fun _ _ => []) (fun _ => []) readArray).verify
      (ascii "W10.e30.AA") 1700000000 0 = .ok r := by
  rintro ⟨r, hr⟩
  have hthrows : ((Jwt.mk (ascii "secret") (ascii "seckill-cpp") 7200 (fun _ _ => []) (fun _ => []) readArray).verify
      (ascii "W10.e30.AA") 1700000000 0).toOption = none := by decide +kernel
  rw [hr] at hthrows
  cases hthrows

end Jwt

end Seckill
