import Seckill.Proof.Throws
import Seckill.Spec.Bundle

/-!
# What the configuration decodes to

The documentation names a section and a key for each knob, its type and its default.
`Documented` says of a bundle that every knob arrived: a value of its type that fits is
taken over, anything of another type is the default.

The code does that (`bundle_documented`) except for the three keys of the Bloom filter,
which it reads from the root of the document; and it returns at all only if every
section is null or an object and every number for an `int` is one
(`buildBundle_documented`).
-/

namespace Seckill

namespace Json

variable {v root : Json} {key : String}

/-- The value of a knob, null if it is missing. -/
def knob (cc : Json) (sec key : String) : Json := (cc.field sec).field key

/-- The value is no number, or `asInt` returns it. -/
def IsCfgInt : Json → Prop
  | .int n => isInt n = true
  | .real text (some n) => isInt n = true ∧ (isInt (n - 1) = true ∧ isInt (n + 1) = true ∨ text = wholeText n)
  | .real _ none => False
  | _ => True

/-! ## The readers -/

def strOr (default : Bytes) : Json → Bytes
  | .str s => s
  | _ => default

def boolOr (default : Bool) : Json → Bool
  | .bool b => b
  | _ => default

def intOr (default : ℤ) : Json → ℤ
  | .int n | .real _ (some n) => n
  | _ => default

/-- A reader asks for the key first. -/
theorem ofMember {α : Type} {f : Bool → Except String α} {a : α} :
    (root.isMember key >>= f) = .ok a ↔ root.IsRecord ∧ f (root.has key) = .ok a := by
  by_cases hrecord : root.IsRecord
  · simp [isMember_of_isRecord hrecord, bind_ok, hrecord]
  · obtain ⟨what, hwhat⟩ := isMember_throws hrecord key
    simp [hwhat, bind_ok, hrecord]

theorem index_ok {w : Json} : root.index key = .ok w ↔ root.IsRecord ∧ w = root.field key := by
  unfold index
  rw [ofMember]
  exact and_congr_right fun _ => ⟨fun h => (Except.ok.inj h).symm, fun h => by rw [h]; rfl⟩

theorem cfgStr_ok {d s : Bytes} : cfgStr root key d = .ok s ↔ root.IsRecord ∧ s = (root.field key).strOr d := by
  unfold cfgStr
  rw [ofMember]
  refine and_congr_right fun _ => ?_
  cases hhas : root.has key with
  | false => rw [field_of_not_has hhas]; simp [strOr, eq_comm, pure, Except.pure]
  | true => cases root.field key <;> simp [isString, asString, strOr, eq_comm, pure, Except.pure]

theorem cfgBool_ok {d b : Bool} : cfgBool root key d = .ok b ↔ root.IsRecord ∧ b = (root.field key).boolOr d := by
  unfold cfgBool
  rw [ofMember]
  refine and_congr_right fun _ => ?_
  cases hhas : root.has key with
  | false => rw [field_of_not_has hhas]; simp [boolOr, eq_comm, pure, Except.pure]
  | true => cases root.field key <;> simp [isBool, asBool, boolOr, eq_comm, pure, Except.pure]

theorem asInt_ok {n d : ℤ} (hnum : v.isNumeric = true) : v.asInt = .ok n ↔ v.IsCfgInt ∧ n = v.intOr d := by
  cases v with
  | int m => by_cases hm : isInt m = true <;> simp [asInt, IsCfgInt, intOr, hm, eq_comm]
  | real text trunc =>
    cases trunc with
    | none => simp [asInt, IsCfgInt]
    | some m =>
      simp only [asInt, IsCfgInt, intOr]
      split
      next hm => exact ⟨fun h => ⟨hm, (Except.ok.inj h).symm⟩, fun h => by rw [h.2]⟩
      next hm => exact iff_of_false (fun h => by cases h) fun h => hm h.1
  | _ => cases hnum

theorem isCfgInt_of_not_numeric (d : ℤ) (hnum : v.isNumeric = false) : v.IsCfgInt ∧ v.intOr d = d := by
  cases v with
  | int n => cases hnum
  | real text trunc => cases hnum
  | _ => exact ⟨trivial, rfl⟩

theorem cfgInt_ok {d n : ℤ} :
    cfgInt root key d = .ok n ↔ (root.IsRecord ∧ (root.field key).IsCfgInt) ∧ n = (root.field key).intOr d := by
  unfold cfgInt
  rw [ofMember, and_assoc]
  refine and_congr_right fun _ => ?_
  cases hhas : root.has key with
  | false => rw [field_of_not_has hhas]; simp [intOr, IsCfgInt, eq_comm, pure, Except.pure]
  | true =>
    cases hnum : (root.field key).isNumeric with
    | true => simpa using asInt_ok hnum
    | false =>
      simp [isCfgInt_of_not_numeric d hnum, eq_comm, pure, Except.pure]

end Json

/-! ## What the blocks return -/

section

variable {D : Type} (asDouble : Json → D) (redis : Bool) (cc : Json)

/-- The `int` knobs of the `cache` section. -/
def cacheInts : List String :=
  ["list_ttl_seconds", "detail_ttl_seconds", "null_ttl_seconds", "jitter_seconds", "double_delete_ms", "local_capacity"]

/-- The `int` knobs of the sections that need Redis. -/
def authInts : List (String × String) :=
  [("jwt", "ttl_seconds"), ("login_guard", "max_fail"), ("login_guard", "lock_seconds"),
    ("register_limit", "max_per_ip"), ("register_limit", "window_seconds"), ("sms", "code_ttl_seconds"),
    ("sms", "resend_interval_seconds"), ("sms", "daily_limit"), ("sms", "max_verify_attempts"),
    ("auth", "min_password_length")]

def authSections : List String := ["jwt", "login_guard", "register_limit", "sms", "auth"]

/-- `buildCache` does not throw. -/
def CacheReads (c : Json) : Prop := c.IsRecord ∧ ∀ key ∈ cacheInts, (c.field key).IsCfgInt

/-- Nor does `buildAuth`. -/
def AuthReads : Prop :=
  cc.IsRecord ∧ (∀ sec ∈ authSections, (cc.field sec).IsRecord) ∧ ∀ k ∈ authInts, (cc.knob k.1 k.2).IsCfgInt

def cacheOf (c : Json) : Bytes × Bytes × SkuCache.Config :=
  ((c.field "key_prefix").strOr (ascii "seckill"), (c.field "key_version").strOr (ascii "v1"),
    { enabled := redis && (c.field "enabled").boolOr true
      listTtlSeconds := (c.field "list_ttl_seconds").intOr 30
      detailTtlSeconds := (c.field "detail_ttl_seconds").intOr 60
      nullTtlSeconds := (c.field "null_ttl_seconds").intOr 60
      jitterSeconds := (c.field "jitter_seconds").intOr 30
      doubleDeleteMs := (c.field "double_delete_ms").intOr 0
      localEnabled := (c.field "local_enabled").boolOr false
      localCapacity := sizeT ((c.field "local_capacity").intOr 4096)
      invalidateOnOrder := parseInvalidateOnOrder ((c.field "invalidate_on_order").strOr (ascii "item")) })

def authOf : AuthConfig where
  secret := (cc.knob "jwt" "secret").strOr (ascii "seckill-cpp-dev-secret")
  issuer := (cc.knob "jwt" "issuer").strOr (ascii "seckill-cpp")
  ttlSeconds := (cc.knob "jwt" "ttl_seconds").intOr 7200
  guard := ⟨(cc.knob "login_guard" "max_fail").intOr 5, (cc.knob "login_guard" "lock_seconds").intOr 600⟩
  maxPerIp := (cc.knob "register_limit" "max_per_ip").intOr 5
  windowSeconds := (cc.knob "register_limit" "window_seconds").intOr 3600
  sms := ⟨(cc.knob "sms" "code_ttl_seconds").intOr 300, (cc.knob "sms" "resend_interval_seconds").intOr 60,
    (cc.knob "sms" "daily_limit").intOr 10, (cc.knob "sms" "max_verify_attempts").intOr 5⟩
  requireSmsOnRegister := (cc.knob "auth" "require_sms_on_register").boolOr true
  requireSmsOnLogin := (cc.knob "auth" "require_sms_on_login").boolOr false
  minPasswordLength := (cc.knob "auth" "min_password_length").intOr 6

/-- The double of an error rate. -/
def rateOr (v : Json) : D := if v.isNumeric then asDouble v else asDouble (.real (ascii "0.001") (some 0))

def bundleOf : AppBundle D where
  mode := parseLockMode ((cc.knob "seckill_lock" "mode").strOr (ascii "none"))
  shards := sizeT ((cc.knob "seckill_lock" "shards").intOr 64)
  bits := sizeT ((cc.knob "seckill_lock" "bits").intOr 65536)
  keyPrefix := (cacheOf redis (cc.field "cache")).1
  keyVersion := (cacheOf redis (cc.field "cache")).2.1
  cache := (cacheOf redis (cc.field "cache")).2.2
  bloomEnabled := (cc.field "bloom_enabled").boolOr false
  bloomCapacity := sizeT ((cc.field "bloom_capacity").intOr 500000)
  bloomErrorRate := rateOr asDouble (cc.field "bloom_error_rate")
  auth := if redis then some (authOf cc) else none

end

variable {D : Type} {asDouble : Json → D} {redis : Bool} {cc c : Json}

open Json

theorem pure_ok {α : Type} {a b : α} : (pure a : Except String α) = .ok b ↔ b = a :=
  ⟨fun h => (Except.ok.inj h).symm, fun h => by rw [h]; rfl⟩

/-- What is read is what the rest is given. -/
theorem exists_read {α : Type} {reads : Prop} {x : α} {rest : α → Prop} :
    (∃ a, (reads ∧ a = x) ∧ rest a) ↔ reads ∧ rest x := by
  constructor
  · rintro ⟨_, ⟨hreads, rfl⟩, hrest⟩
    exact ⟨hreads, hrest⟩
  · rintro ⟨hreads, hrest⟩
    exact ⟨x, ⟨hreads, rfl⟩, hrest⟩

theorem buildCache_ok {p : Bytes × Bytes × SkuCache.Config} :
    buildCache redis c = .ok p ↔ CacheReads c ∧ p = cacheOf redis c := by
  unfold buildCache CacheReads cacheInts
  simp only [bind_ok, cfgBool_ok, cfgInt_ok, cfgStr_ok, pure_ok, exists_read]
  constructor
  · rintro ⟨hrecord, ⟨-, hlist⟩, ⟨-, hdetail⟩, ⟨-, hnull⟩, ⟨-, hjitter⟩, ⟨-, hdelete⟩, -, ⟨-, hcapacity⟩, -, -, -, hp⟩
    exact ⟨⟨hrecord, by simp [hlist, hdetail, hnull, hjitter, hdelete, hcapacity]⟩, hp⟩
  · rintro ⟨⟨hrecord, hints⟩, hp⟩
    simp only [List.forall_mem_cons] at hints
    obtain ⟨hlist, hdetail, hnull, hjitter, hdelete, hcapacity, -⟩ := hints
    exact ⟨hrecord, ⟨hrecord, hlist⟩, ⟨hrecord, hdetail⟩, ⟨hrecord, hnull⟩, ⟨hrecord, hjitter⟩, ⟨hrecord, hdelete⟩,
      hrecord, ⟨hrecord, hcapacity⟩, hrecord, hrecord, hrecord, hp⟩

theorem buildAuth_ok {a : AuthConfig} : buildAuth cc = .ok a ↔ AuthReads cc ∧ a = authOf cc := by
  unfold buildAuth AuthReads authInts authSections
  simp only [bind_ok, index_ok, cfgBool_ok, cfgInt_ok, cfgStr_ok, pure_ok, exists_read]
  constructor
  · rintro ⟨hcc, hjwt, -, ⟨-, httl⟩, -, ⟨hguard, hfail⟩, ⟨-, hlock⟩, -, ⟨hlimit, hip⟩, ⟨-, hwindow⟩, -, ⟨hsms, hcode⟩,
      ⟨-, hresend⟩, ⟨-, hdaily⟩, ⟨-, hattempts⟩, -, hauth, -, ⟨-, hlength⟩, ha⟩
    refine ⟨⟨hcc, by simp [hjwt, hguard, hlimit, hsms, hauth], ?_⟩, ha⟩
    simp only [List.forall_mem_cons, List.not_mem_nil, false_imp_iff, implies_true, and_true]
    exact ⟨httl, hfail, hlock, hip, hwindow, hcode, hresend, hdaily, hattempts, hlength⟩
  · rintro ⟨⟨hcc, hsections, hints⟩, ha⟩
    simp only [List.forall_mem_cons] at hsections hints
    obtain ⟨hjwt, hguard, hlimit, hsms, hauth, -⟩ := hsections
    obtain ⟨httl, hfail, hlock, hip, hwindow, hcode, hresend, hdaily, hattempts, hlength, -⟩ := hints
    exact ⟨hcc, hjwt, hjwt, ⟨hjwt, httl⟩, hcc, ⟨hguard, hfail⟩, ⟨hguard, hlock⟩, hcc, ⟨hlimit, hip⟩, ⟨hlimit, hwindow⟩,
      hcc, ⟨hsms, hcode⟩, ⟨hsms, hresend⟩, ⟨hsms, hdaily⟩, ⟨hsms, hattempts⟩, hcc, hauth, hauth, ⟨hauth, hlength⟩, ha⟩

theorem bloomErrorRate_ok {d : D} :
    bloomErrorRate asDouble cc = .ok d ↔ cc.IsRecord ∧ d = rateOr asDouble (cc.field "bloom_error_rate") := by
  unfold bloomErrorRate rateOr
  rw [ofMember]
  refine and_congr_right fun _ => ?_
  cases hhas : cc.has "bloom_error_rate" with
  | false =>
    rw [field_of_not_has hhas]
    exact pure_ok
  | true =>
    cases (cc.field "bloom_error_rate").isNumeric with
    | true => exact pure_ok
    | false => exact pure_ok

/-- `buildBundle` does not throw: the sections it comes to are null or objects, the
numbers it reads as an `int` are one. -/
structure Reads (redis : Bool) (cc : Json) : Prop where
  record : cc.IsRecord
  lock : (cc.field "seckill_lock").IsRecord
  shards : (cc.knob "seckill_lock" "shards").IsCfgInt
  bits : (cc.knob "seckill_lock" "bits").IsCfgInt
  cache : CacheReads (cc.field "cache")
  bloomCapacity : (cc.field "bloom_capacity").IsCfgInt
  auth : redis = true → AuthReads cc

theorem buildBundle_ok {b : AppBundle D} :
    buildBundle asDouble redis cc = .ok b ↔ Reads redis cc ∧ b = bundleOf asDouble redis cc := by
  unfold buildBundle
  simp only [bind_ok, index_ok, cfgBool_ok, cfgInt_ok, cfgStr_ok, buildCache_ok, bloomErrorRate_ok, pure_ok, exists_read]
  constructor
  · rintro ⟨hcc, hlock, ⟨-, hshards⟩, ⟨-, hbits⟩, -, hcache, -, ⟨-, hcapacity⟩, -, auth, hauth, rfl⟩
    cases redis with
    | false =>
      rw [if_neg Bool.false_ne_true, pure_ok] at hauth
      exact ⟨⟨hcc, hlock, hshards, hbits, hcache, hcapacity, fun h => by cases h⟩, by rw [hauth]; rfl⟩
    | true =>
      -- the sections that need Redis
      rw [if_pos rfl, map_eq_pure_bind, bind_ok] at hauth
      obtain ⟨a, ha, hauth⟩ := hauth
      obtain ⟨hreads, rfl⟩ := buildAuth_ok.1 ha
      exact ⟨⟨hcc, hlock, hshards, hbits, hcache, hcapacity, fun _ => hreads⟩, by rw [pure_ok.1 hauth]; rfl⟩
  · rintro ⟨h, rfl⟩
    refine ⟨h.record, h.lock, ⟨h.lock, h.shards⟩, ⟨h.lock, h.bits⟩, h.record, h.cache, h.record,
      ⟨h.record, h.bloomCapacity⟩, h.record, if redis then some (authOf cc) else none, ?_, rfl⟩
    cases redis with
    | false => rfl
    | true =>
      rw [if_pos rfl, map_eq_pure_bind, bind_ok]
      exact ⟨authOf cc, buildAuth_ok.2 ⟨h.auth rfl, rfl⟩, rfl⟩

/-! ## The documented table -/

/-- What a knob gives, by its documented type and default: a value that fits is taken
over, one of another type is the default. -/
structure Decodes {α : Type} (kind : Json → Bool) (value : Json → Option α) (default : Option α) (v : Json) (a : α) :
    Prop where
  given : ∀ x, value v = some x → a = x
  default : kind v = false → ∀ d, default = some d → a = d

namespace Json

def text? : Json → Option Bytes
  | .str s => some s
  | _ => none

def flag? : Json → Option Bool
  | .bool b => some b
  | _ => none

/-- The whole number that the value is. -/
def whole? : Json → Option ℤ
  | .int n => some n
  | .real text (some n) => if text = wholeText n then some n else none
  | _ => none

/-- An `int`. -/
def int? (v : Json) : Option ℤ := v.whole?.filter isInt

/-- A `size_t`. -/
def size? (v : Json) : Option ℕ := (v.whole?.filter fun n => 0 ≤ n && n < 2 ^ 64).map Int.toNat

def lockMode? : Json → Option Mode
  | .str s =>
    if s = ascii "none" then some .none
    else if s = ascii "mutex" then some .mutex
    else if s = ascii "spin" then some .spin
    else if s = ascii "atomic" then some .atomic
    else none
  | _ => none

def invalidate? : Json → Option SkuCache.InvalidateOnOrder
  | .str s =>
    if s = ascii "item" then some .item
    else if s = ascii "all" then some .itemAndList
    else if s = ascii "none" then some .none
    else none
  | _ => none

variable {v : Json}

theorem decodes_str (code : Bytes) {d : Option Bytes} (hd : ∀ x, d = some x → code = x) :
    Decodes isString text? d v (v.strOr code) := by
  refine ⟨fun x hx => ?_, fun hkind x hx => ?_⟩
  · cases v with
    | str s => exact Option.some.inj hx
    | _ => cases hx
  · cases v with
    | str s => cases hkind
    | _ => exact hd x hx

/-- **What a knob decodes to**: its value, and the default without one. Of a value of the
right type that does not fit the documentation says nothing. -/
theorem decodes_iff {α : Type} {kind : Json → Bool} {value : Json → Option α} {d a : α}
    (hkind : kind v = false → value v = none) :
    Decodes kind value (some d) v a ↔ kind v = true ∧ value v = none ∨ a = (value v).getD d := by
  constructor
  · intro h
    cases hvalue : value v with
    | some x => exact Or.inr (h.given x hvalue)
    | none =>
      cases hk : kind v with
      | true => exact Or.inl ⟨rfl, rfl⟩
      | false => exact Or.inr (h.default hk d rfl)
  · intro h
    refine ⟨fun x hx => ?_, fun hk x hx => ?_⟩
    · rcases h with ⟨-, hnone⟩ | h
      · rw [hnone] at hx
        cases hx
      · rw [h, hx]
        rfl
    · rcases h with ⟨htrue, -⟩ | h
      · rw [hk] at htrue
        cases htrue
      · rw [h, hkind hk]
        exact Option.some.inj hx

theorem flag?_eq_none (h : v.isBool = false) : v.flag? = none := by
  cases v with
  | bool b => cases h
  | _ => rfl

theorem size?_eq_none (h : v.isNumeric = false) : v.size? = none := by
  cases v with
  | int n => cases h
  | real text trunc => cases h
  | _ => rfl

theorem lockMode?_eq_none (h : v.isString = false) : v.lockMode? = none := by
  cases v with
  | str s => cases h
  | _ => rfl

theorem invalidate?_eq_none (h : v.isString = false) : v.invalidate? = none := by
  cases v with
  | str s => cases h
  | _ => rfl

theorem boolOr_eq (d : Bool) : v.boolOr d = v.flag?.getD d := by
  cases v <;> rfl

theorem decodes_bool (d : Bool) : Decodes isBool flag? (some d) v (v.boolOr d) :=
  (decodes_iff flag?_eq_none).2 (Or.inr (boolOr_eq d))

theorem whole_intOr {n : ℤ} (d : ℤ) (h : v.whole? = some n) : v.intOr d = n := by
  cases v with
  | int m => exact Option.some.inj h
  | real text trunc =>
    cases trunc with
    | none => cases h
    | some m =>
      simp only [whole?] at h
      split at h
      · exact Option.some.inj h
      · cases h
  | _ => cases h

theorem decodes_int (d : ℤ) : Decodes isNumeric int? (some d) v (v.intOr d) := by
  refine ⟨fun x hx => whole_intOr d (Option.filter_eq_some_iff.1 hx).1, fun hkind x hx => ?_⟩
  rw [(isCfgInt_of_not_numeric d hkind).2]
  exact Option.some.inj hx

theorem sizeT_of_nonneg {n : ℤ} (h : 0 ≤ n) (hlt : n < 2 ^ 64) : sizeT n = n.toNat := by
  unfold sizeT
  rw [Int.emod_eq_of_lt h hlt]

theorem decodes_size (d : ℕ) (hd : d < 2 ^ 64) : Decodes isNumeric size? (some d) v (sizeT (v.intOr d)) := by
  refine ⟨fun x hx => ?_, fun hkind x hx => ?_⟩
  · obtain ⟨n, hn, rfl⟩ := Option.map_eq_some_iff.1 hx
    obtain ⟨hwhole, hfits⟩ := Option.filter_eq_some_iff.1 hn
    simp only [Bool.and_eq_true, decide_eq_true_eq] at hfits
    rw [whole_intOr d hwhole, sizeT_of_nonneg hfits.1 hfits.2]
  · rw [(isCfgInt_of_not_numeric d hkind).2, ← Option.some.inj hx, sizeT_of_nonneg (by omega) (by omega)]
    exact Int.toNat_natCast d

/-- A text outside the documented ones is the default as well. -/
theorem decodes_mode : Decodes isString lockMode? (some .none) v (parseLockMode (v.strOr (ascii "none"))) := by
  refine (decodes_iff lockMode?_eq_none).2 (Or.inr ?_)
  cases v with
  | str s =>
    -- the orders of the comparisons differ, the texts are distinct
    have hmutex : ascii "none" ≠ ascii "mutex" := by decide
    have hspin : ascii "none" ≠ ascii "spin" := by decide
    have hatomic : ascii "none" ≠ ascii "atomic" := by decide
    simp only [strOr, parseLockMode, lockMode?]
    grind
  | _ => rfl

theorem decodes_invalidate :
    Decodes isString invalidate? (some .item) v (parseInvalidateOnOrder (v.strOr (ascii "item"))) := by
  refine (decodes_iff invalidate?_eq_none).2 (Or.inr ?_)
  cases v with
  | str s =>
    have hitemAll : ascii "item" ≠ ascii "all" := by decide
    have hitemNone : ascii "item" ≠ ascii "none" := by decide
    have hallNone : ascii "all" ≠ ascii "none" := by decide
    simp only [strOr, parseInvalidateOnOrder, invalidate?]
    grind
  | _ => rfl

end Json

section

variable (asDouble : Json → D) (redis : Bool) (cc : Json)

/-- The value is a number, with this double. -/
def number? (v : Json) : Option D := if v.isNumeric then some (asDouble v) else none

/-- The sections that need Redis. (`jwt.secret` has no documented default.) -/
structure AuthDocumented (a : AuthConfig) : Prop where
  secret : Decodes isString text? none (cc.knob "jwt" "secret") a.secret
  issuer : Decodes isString text? (some (ascii "seckill-cpp")) (cc.knob "jwt" "issuer") a.issuer
  ttlSeconds : Decodes isNumeric int? (some 7200) (cc.knob "jwt" "ttl_seconds") a.ttlSeconds
  codeTtl : Decodes isNumeric int? (some 300) (cc.knob "sms" "code_ttl_seconds") a.sms.codeTtlSeconds
  resendInterval : Decodes isNumeric int? (some 60) (cc.knob "sms" "resend_interval_seconds") a.sms.resendIntervalSeconds
  dailyLimit : Decodes isNumeric int? (some 10) (cc.knob "sms" "daily_limit") a.sms.dailyLimit
  maxVerifyAttempts : Decodes isNumeric int? (some 5) (cc.knob "sms" "max_verify_attempts") a.sms.maxVerifyAttempts
  maxFail : Decodes isNumeric int? (some 5) (cc.knob "login_guard" "max_fail") a.guard.maxFail
  lockSeconds : Decodes isNumeric int? (some 600) (cc.knob "login_guard" "lock_seconds") a.guard.lockSeconds
  smsOnRegister : Decodes isBool flag? (some true) (cc.knob "auth" "require_sms_on_register") a.requireSmsOnRegister
  smsOnLogin : Decodes isBool flag? (some false) (cc.knob "auth" "require_sms_on_login") a.requireSmsOnLogin
  minPasswordLength : Decodes isNumeric int? (some 6) (cc.knob "auth" "min_password_length") a.minPasswordLength

/-- **The documented table.** -/
structure Documented (b : AppBundle D) : Prop where
  mode : Decodes isString lockMode? (some .none) (cc.knob "seckill_lock" "mode") b.mode
  shards : Decodes isNumeric size? (some 64) (cc.knob "seckill_lock" "shards") b.shards
  bits : Decodes isNumeric size? (some 65536) (cc.knob "seckill_lock" "bits") b.bits
  enabled : redis = true → Decodes isBool flag? (some true) (cc.knob "cache" "enabled") b.cache.enabled
  keyPrefix : Decodes isString text? (some (ascii "seckill")) (cc.knob "cache" "key_prefix") b.keyPrefix
  keyVersion : Decodes isString text? (some (ascii "v1")) (cc.knob "cache" "key_version") b.keyVersion
  listTtl : Decodes isNumeric int? (some 30) (cc.knob "cache" "list_ttl_seconds") b.cache.listTtlSeconds
  detailTtl : Decodes isNumeric int? (some 60) (cc.knob "cache" "detail_ttl_seconds") b.cache.detailTtlSeconds
  nullTtl : Decodes isNumeric int? (some 60) (cc.knob "cache" "null_ttl_seconds") b.cache.nullTtlSeconds
  jitter : Decodes isNumeric int? (some 30) (cc.knob "cache" "jitter_seconds") b.cache.jitterSeconds
  doubleDelete : Decodes isNumeric int? (some 0) (cc.knob "cache" "double_delete_ms") b.cache.doubleDeleteMs
  bloomEnabled : Decodes isBool flag? (some false) (cc.knob "cache" "bloom_enabled") b.bloomEnabled
  bloomCapacity : Decodes isNumeric size? (some 500000) (cc.knob "cache" "bloom_capacity") b.bloomCapacity
  bloomErrorRate : Decodes isNumeric (number? asDouble) (some (asDouble (.real (ascii "0.001") (some 0))))
    (cc.knob "cache" "bloom_error_rate") b.bloomErrorRate
  localEnabled : Decodes isBool flag? (some false) (cc.knob "cache" "local_enabled") b.cache.localEnabled
  localCapacity : Decodes isNumeric size? (some 4096) (cc.knob "cache" "local_capacity") b.cache.localCapacity
  invalidateOnOrder :
    Decodes isString invalidate? (some .item) (cc.knob "cache" "invalidate_on_order") b.cache.invalidateOnOrder
  auth : redis = true → ∃ a, b.auth = some a ∧ AuthDocumented cc a

/-- The Bloom filter's keys say the same at the root of the document, where they are
read, as in its `cache` section, where they are documented. -/
structure BloomAtRoot : Prop where
  enabled : cc.field "bloom_enabled" = .bool true ↔ cc.knob "cache" "bloom_enabled" = .bool true
  capacity : (cc.knob "cache" "bloom_capacity").isNumeric = true ∧ (cc.knob "cache" "bloom_capacity").size? = none ∨
    sizeT ((cc.field "bloom_capacity").intOr 500000) = ((cc.knob "cache" "bloom_capacity").size?).getD 500000
  errorRate : rateOr asDouble (cc.field "bloom_error_rate") = rateOr asDouble (cc.knob "cache" "bloom_error_rate")

end

theorem authOf_documented (cc : Json) : AuthDocumented cc (authOf cc) where
  secret := decodes_str _ fun x hx => by cases hx
  issuer := decodes_str _ fun x hx => Option.some.inj hx
  ttlSeconds := decodes_int 7200
  codeTtl := decodes_int 300
  resendInterval := decodes_int 60
  dailyLimit := decodes_int 10
  maxVerifyAttempts := decodes_int 5
  maxFail := decodes_int 5
  lockSeconds := decodes_int 600
  smsOnRegister := decodes_bool true
  smsOnLogin := decodes_bool false
  minPasswordLength := decodes_int 6

theorem bloomEnabled_iff {v w : Json} :
    Decodes isBool flag? (some false) v (w.boolOr false) ↔ (w = .bool true ↔ v = .bool true) := by
  -- off is the default, so only `true` switches it on
  have hon : ∀ u : Json, u.flag?.getD false = true ↔ u = .bool true := fun u => by
    cases u <;> simp [flag?]
  have hfits : ¬(v.isBool = true ∧ v.flag? = none) := by
    rintro ⟨hbool, hnone⟩
    cases v with
    | bool b => cases hnone
    | _ => cases hbool
  rw [decodes_iff flag?_eq_none, or_iff_right hfits, boolOr_eq, Bool.eq_iff_iff, hon w, hon v]

theorem bloomErrorRate_iff {v : Json} {d : D} :
    Decodes isNumeric (number? asDouble) (some (asDouble (.real (ascii "0.001") (some 0)))) v d ↔
      d = rateOr asDouble v := by
  rw [decodes_iff fun hno => if_neg (by simp [hno])]
  unfold number? rateOr
  cases v.isNumeric <;> simp

/-- **What arrives**: everything, and the Bloom filter's knobs if they are at the root. -/
theorem bundle_documented : Documented asDouble redis cc (bundleOf asDouble redis cc) ↔ BloomAtRoot asDouble cc := by
  constructor
  · intro h
    exact ⟨bloomEnabled_iff.1 h.bloomEnabled, (decodes_iff size?_eq_none).1 h.bloomCapacity, bloomErrorRate_iff.1 h.bloomErrorRate⟩
  · intro h
    exact {
      mode := decodes_mode
      shards := decodes_size 64 (by omega)
      bits := decodes_size 65536 (by omega)
      enabled := by rintro rfl; exact decodes_bool true
      keyPrefix := decodes_str _ fun x hx => Option.some.inj hx
      keyVersion := decodes_str _ fun x hx => Option.some.inj hx
      listTtl := decodes_int 30
      detailTtl := decodes_int 60
      nullTtl := decodes_int 60
      jitter := decodes_int 30
      doubleDelete := decodes_int 0
      bloomEnabled := bloomEnabled_iff.2 h.enabled
      bloomCapacity := (decodes_iff size?_eq_none).2 h.capacity
      bloomErrorRate := bloomErrorRate_iff.2 h.errorRate
      localEnabled := decodes_bool false
      localCapacity := decodes_size 4096 (by omega)
      invalidateOnOrder := decodes_invalidate
      auth := by rintro rfl; exact ⟨_, rfl, authOf_documented cc⟩ }

/-- **The configuration is decoded as documented**, whatever the document is, exactly if
nothing in it makes a reader throw and the Bloom filter's keys say the same at its root
as in its `cache` section. -/
theorem buildBundle_documented (asDouble : Json → D) (redis : Bool) (cc : Json) :
    (∃ b, buildBundle asDouble redis cc = .ok b ∧ Documented asDouble redis cc b) ↔
      Reads redis cc ∧ BloomAtRoot asDouble cc := by
  constructor
  · rintro ⟨b, hb, hdocumented⟩
    obtain ⟨hreads, rfl⟩ := buildBundle_ok.1 hb
    exact ⟨hreads, bundle_documented.1 hdocumented⟩
  · rintro ⟨hreads, hbloom⟩
    exact ⟨_, buildBundle_ok.2 ⟨hreads, rfl⟩, bundle_documented.2 hbloom⟩

/-- A filter that is switched on where it is documented. -/
def bloomDocument : Json := .obj [(ascii "cache", .obj [(ascii "bloom_enabled", .bool true)])]

/-- A daily limit that is no `int`. -/
def hugeDocument : Json := .obj [(ascii "sms", .obj [(ascii "daily_limit", .int 3000000000)])]

/-- A section that is no object. -/
def listDocument : Json := .obj [(ascii "cache", .arr [])]

/-- The first decodes to a filter that is off, the others make the decoding throw. -/
theorem buildBundle_documented_fails :
    (∃ b, buildBundle id true bloomDocument = .ok b ∧ b.bloomEnabled = false ∧ ¬Documented id true bloomDocument b) ∧
      (∃ what, buildBundle id true hugeDocument = .error what) ∧
      ∃ what, buildBundle id true listDocument = .error what := by
  refine ⟨?_, ⟨"LargestInt out of Int range", by rfl⟩,
    ⟨"in Json::Value::find(begin, end): requires objectValue or nullValue", by rfl⟩⟩
  refine ⟨bundleOf id true bloomDocument, by rfl, by rfl, fun h => ?_⟩
  have hon : false = true := h.bloomEnabled.given true (by rfl)
  cases hon

/-- Without any key, the services get the defaults they are modelled with. -/
example (hmacSha256 : Bytes → Bytes → Bytes) (writeJson : Json → Bytes) (readJson : Bytes → Option Json)
    (pbkdf2Hex : String → Bytes → Bytes) :
    (bundleOf asDouble true (.obj [])).cache = SkuCache.Config.default ∧
      (authOf (.obj [])).userService hmacSha256 writeJson readJson pbkdf2Hex = .default
        ⟨ascii "seckill-cpp-dev-secret", ascii "seckill-cpp", 7200, hmacSha256, writeJson, readJson⟩ pbkdf2Hex :=
  ⟨rfl, rfl⟩

end Seckill
