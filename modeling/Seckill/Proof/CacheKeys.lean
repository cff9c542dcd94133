import Mathlib.Data.Finset.Insert
import Seckill.Lib.Fields
import Seckill.Proof.Tokens
import Seckill.Spec.CacheKeys
import Seckill.Spec.SmsService

/-!
# Different keys are different strings

The strings are concatenated and nothing is escaped, so that the prefix and the version of
the cache can contain colons, and even the key of another module.

* The keys of the cache are read from the right (`key_inj`): the id, a number, has no
  colon, and the kind has none; what is left is the prefix and the version.
* The keys of the auth modules are read from the left (`Key.text_auth_inj`): no family's
  tag begins with another one's.
* A key of the cache has a `u`, which no key of the auth modules has (`Key.key_ne_text`).

So a `Key` stands for its string, for any prefix and version (`Key.text_inj`).
-/

namespace Seckill

/-! ## The bytes of ids -/

theorem ascii_inj {s t : String} (hs : ∀ c ∈ s.toList, c.toNat < 256) (ht : ∀ c ∈ t.toList, c.toNat < 256)
    (h : ascii s = ascii t) : s = t := by
  -- these bytes are read back
  have hback : ∀ u : String, (∀ c ∈ u.toList, c.toNat < 256) → (ascii u).map (fun b => Char.ofNat b.toNat) = u.toList := by
    intro u hu
    unfold ascii
    rw [List.map_map]
    refine (List.map_congr_left fun c hc => ?_).trans (List.map_id _)
    rw [Function.comp_apply, Nat.toUInt8_eq, UInt8.toNat_ofNat', Nat.mod_eq_of_lt (hu c hc), Char.ofNat_toNat]
    rfl
  rw [← String.toList_inj, ← hback s hs, ← hback t ht, h]

/-- A number is written with digits and a sign. -/
theorem mem_toString {n : ℤ} {b : UInt8} (hb : b ∈ ascii (toString n)) : b = 45 ∨ 48 ≤ b.toNat ∧ b.toNat ≤ 57 := by
  have hdigits : ∀ m : ℕ, b ∈ ascii m.repr → 48 ≤ b.toNat ∧ b.toNat ≤ 57 := by
    intro m hm
    rw [ascii_repr] at hm
    obtain ⟨c, hc, rfl⟩ := List.mem_map.1 hm
    have hdigit := digit_toNat (isDigit_toDigits m c hc)
    omega
  rw [Int.toString_eq_repr, Int.repr_eq_if] at hb
  split at hb
  · exact Or.inr (hdigits _ hb)
  · unfold ascii at hb
    rw [String.toList_append, List.map_append] at hb
    rcases List.mem_append.1 hb with hminus | hm
    · exact Or.inl (List.mem_singleton.1 hminus)
    · exact Or.inr (hdigits _ hm)

theorem toString_inj {n m : Int64} (h : ascii (toString n.toInt) = ascii (toString m.toInt)) : n = m := by
  have hback := stoll_toString n
  rw [h, stoll_toString] at hback
  exact (Option.some.inj hback).symm

/-! ## The keys of the cache -/

namespace CacheKeys

/-- What is before the last colon, and after it. -/
def front (c : CacheKeys) : SkuKey → Bytes
  | .list => c.base
  | .item _ => c.base ++ ascii ":item"
  | .stock _ => c.base ++ ascii ":stock"

def last : SkuKey → Bytes
  | .list => ascii "list"
  | .item skuId | .stock skuId => ascii (toString skuId.toInt)

theorem key_eq (c : CacheKeys) (k : SkuKey) : c.key k = c.front k ++ 58 :: last k := by
  cases k with
  | list => rfl
  | item skuId =>
    unfold key item front last
    rw [show ascii ":item:" = ascii ":item" ++ [58] from rfl]
    simp
  | stock skuId =>
    unfold key stock front last
    rw [show ascii ":stock:" = ascii ":stock" ++ [58] from rfl]
    simp

theorem colon_not_mem_last (k : SkuKey) : 58 ∉ last k := by
  have hnumber : ∀ n : ℤ, 58 ∉ ascii (toString n) := by
    intro n hn
    rcases mem_toString hn with hminus | hdigit
    · cases hminus
    · exact absurd hdigit.2 (by decide)
  cases k with
  | list => decide
  | item skuId => exact hnumber _
  | stock skuId => exact hnumber _

/-- `list` is no number. -/
theorem list_ne_toString (n : Int64) : ascii "list" ≠ ascii (toString n.toInt) := by
  intro h
  have hback := stoll_toString n
  rw [← h, show stoll (ascii "list") = none by decide] at hback
  cases hback

theorem base_inj {p v v' : Bytes} (h : (CacheKeys.mk p v).base = (CacheKeys.mk p v').base) : v = v' :=
  List.append_cancel_left h

/-- What is before the last colon has a colon, and after that the kind. -/
theorem item_ne_stock (s s' : Bytes) : s ++ ascii ":item" ≠ s' ++ ascii ":stock" := by
  intro h
  have hitem : 58 ∉ ascii "item" := by decide
  have hstock : 58 ∉ ascii "stock" := by decide
  have hkind := (Fields.last_inj hitem hstock h).2
  exact absurd hkind (by decide)

/-- **A key of the cache is one of its kind, its id and its version**, whatever the prefix is. -/
theorem key_inj {p v v' : Bytes} {k k' : SkuKey} (h : (CacheKeys.mk p v).key k = (CacheKeys.mk p v').key k') :
    k = k' ∧ v = v' := by
  rw [key_eq, key_eq] at h
  obtain ⟨hfront, hlast⟩ := Fields.last_inj (colon_not_mem_last k) (colon_not_mem_last k') h
  cases k with
  | list =>
    cases k' with
    | list => exact ⟨rfl, base_inj hfront⟩
    | item skuId => exact absurd hlast (list_ne_toString skuId)
    | stock skuId => exact absurd hlast (list_ne_toString skuId)
  | item skuId =>
    cases k' with
    | list => exact absurd hlast.symm (list_ne_toString skuId)
    | item skuId' => exact ⟨congrArg _ (toString_inj hlast), base_inj (List.append_cancel_right hfront)⟩
    | stock skuId' => exact absurd hfront (item_ne_stock _ _)
  | stock skuId =>
    cases k' with
    | list => exact absurd hlast.symm (list_ne_toString skuId)
    | item skuId' => exact absurd hfront.symm (item_ne_stock _ _)
    | stock skuId' => exact ⟨congrArg _ (toString_inj hlast), base_inj (List.append_cancel_right hfront)⟩

theorem u_mem_key (c : CacheKeys) (k : SkuKey) : 117 ∈ c.key k := by
  have hbase : 117 ∈ c.base := by
    unfold base
    refine List.mem_append_left _ (List.mem_append_right _ ?_)
    decide
  rw [key_eq]
  refine List.mem_append_left _ ?_
  cases k with
  | list => exact hbase
  | item skuId => exact List.mem_append_left _ hbase
  | stock skuId => exact List.mem_append_left _ hbase

end CacheKeys

/-! ## The keys of the auth modules -/

/-- The families of these keys. -/
inductive Family
  | sess | smsCode | smsCd | smsTry | smsDay | loginFail | loginLock | regIp
  deriving DecidableEq

instance : Fintype Family where
  elems := {.sess, .smsCode, .smsCd, .smsTry, .smsDay, .loginFail, .loginLock, .regIp}
  complete f := by cases f <;> decide

/-- What the keys of a family begin with. -/
def Family.tag : Family → Bytes
  | .sess => ascii "sess:"
  | .smsCode => ascii "sms:code:"
  | .smsCd => ascii "sms:cd:"
  | .smsTry => ascii "sms:try:"
  | .smsDay => ascii "sms:day:"
  | .loginFail => ascii "login:fail:"
  | .loginLock => ascii "login:lock:"
  | .regIp => ascii "reg:ip:"

theorem tag_prefixFree : Fields.PrefixFree Family.tag := by decide +kernel

theorem u_not_mem_tag : ∀ f : Family, 117 ∉ f.tag := by decide +kernel

namespace Key

/-- The family of a key that is not the cache's. -/
def family : Key → Option Family
  | .sess _ => some .sess
  | .smsCode _ => some .smsCode
  | .smsCd _ => some .smsCd
  | .smsTry _ => some .smsTry
  | .smsDay _ _ => some .smsDay
  | .loginFail _ => some .loginFail
  | .loginLock _ => some .loginLock
  | .regIp _ => some .regIp
  | .skuList | .skuItem _ => none

/-- What is behind the tag. -/
def id : Key → Bytes
  | .sess jti => jti
  | .smsCode phone | .smsCd phone | .smsTry phone | .loginFail phone | .loginLock phone => ascii phone
  | .smsDay phone day => ascii phone ++ 58 :: ascii day
  | .regIp ip => ascii ip
  | .skuList | .skuItem _ => []

/-- The code of a hex digit. -/
def IsHex (n : ℕ) : Prop := 48 ≤ n ∧ n ≤ 57 ∨ 65 ≤ n ∧ n ≤ 70 ∨ 97 ≤ n ∧ n ≤ 102

/-- **The ids are what they are checked or generated to be**: a jti of hex digits, a phone
that is accepted, a day of digits, and the characters of an IPv4 or IPv6 address. -/
def Valid : Key → Prop
  | .sess jti => ∀ b ∈ jti, IsHex b.toNat
  | .smsCode phone | .smsCd phone | .smsTry phone | .loginFail phone | .loginLock phone =>
    SmsService.isValidPhone phone = true
  | .smsDay phone day => SmsService.isValidPhone phone = true ∧ ∀ c ∈ day.toList, c.isDigit = true
  | .regIp ip => ∀ c ∈ ip.toList, IsHex c.toNat ∨ c = '.' ∨ c = ':'
  | .skuList | .skuItem _ => True

theorem text_eq (c : CacheKeys) {a : Key} {f : Family} (h : a.family = some f) : a.text c = f.tag ++ a.id := by
  cases a <;> cases h
  case smsDay phone day =>
    unfold text Family.tag id
    rw [show ascii ":" = [58] from rfl]
    simp
  all_goals rfl

/-! ### The ids -/

theorem phone_digits {phone : String} (h : SmsService.isValidPhone phone = true) :
    ∀ c ∈ phone.toList, c.isDigit = true := by
  unfold SmsService.isValidPhone at h
  rw [Bool.and_eq_true, List.all_eq_true] at h
  intro c hc
  have hrange := h.2 c hc
  simp only [Bool.and_eq_true, decide_eq_true_eq] at hrange
  unfold Char.isDigit
  simp only [Bool.and_eq_true, decide_eq_true_eq]
  exact hrange

/-- A text of digits is read back from its bytes, which have no colon and no `u`. -/
theorem digits_inj {s t : String} (hs : ∀ c ∈ s.toList, c.isDigit = true) (ht : ∀ c ∈ t.toList, c.isDigit = true)
    (h : ascii s = ascii t) : s = t := by
  refine ascii_inj (fun c hc => ?_) (fun c hc => ?_) h
  · have := (digit_toNat (hs c hc)).2.2
    omega
  · have := (digit_toNat (ht c hc)).2.2
    omega

theorem mem_digits {s : String} (hs : ∀ c ∈ s.toList, c.isDigit = true) {b : UInt8} (hb : b ∈ ascii s) :
    b.toNat ≤ 57 := by
  obtain ⟨c, hc, rfl⟩ := List.mem_map.1 hb
  have hdigit := digit_toNat (hs c hc)
  omega

theorem colon_not_mem {s : String} (hs : ∀ c ∈ s.toList, c.isDigit = true) : 58 ∉ ascii s :=
  fun hb => absurd (mem_digits hs hb) (by decide)

theorem u_not_mem_digits {s : String} (hs : ∀ c ∈ s.toList, c.isDigit = true) : 117 ∉ ascii s :=
  fun hb => absurd (mem_digits hs hb) (by decide)

/-- The characters of an address are not above `f`. -/
theorem address_le {ip : String} (h : (regIp ip).Valid) {c : Char} (hc : c ∈ ip.toList) : c.toNat ≤ 102 := by
  rcases h c hc with hhex | rfl | rfl
  · unfold IsHex at hhex
    omega
  · decide
  · decide

theorem u_not_mem_id {a : Key} (h : a.Valid) : 117 ∉ a.id := by
  cases a with
  | sess jti =>
    intro hu
    have hhex : IsHex 117 := h 117 hu
    unfold IsHex at hhex
    omega
  | smsCode phone | smsCd phone | smsTry phone | loginFail phone | loginLock phone =>
    exact u_not_mem_digits (phone_digits h)
  | smsDay phone day =>
    intro hu
    rcases List.mem_append.1 hu with hphone | hday
    · exact u_not_mem_digits (phone_digits h.1) hphone
    · rcases List.mem_cons.1 hday with hcolon | hday
      · cases hcolon
      · exact u_not_mem_digits h.2 hday
  | regIp ip =>
    intro hu
    obtain ⟨c, hc, hcu⟩ := List.mem_map.1 hu
    have hle := address_le h hc
    have hcode := congrArg UInt8.toNat hcu
    rw [Nat.toUInt8_eq, UInt8.toNat_ofNat', Nat.mod_eq_of_lt (by omega)] at hcode
    have : (117 : UInt8).toNat = 117 := rfl
    omega
  | skuList => exact List.not_mem_nil
  | skuItem skuId => exact List.not_mem_nil

/-- Within a family the id determines the key. -/
theorem id_inj {a b : Key} {f : Family} (ha : a.family = some f) (hb : b.family = some f) (va : a.Valid)
    (vb : b.Valid) (h : a.id = b.id) : a = b := by
  cases a <;> cases ha <;> cases b <;> cases hb
  case sess.refl.sess.refl jti jti' => exact congrArg sess h
  case smsDay.refl.smsDay.refl phone day phone' day' =>
    obtain ⟨hphone, hday⟩ :=
      Fields.first_inj (colon_not_mem (phone_digits va.1)) (colon_not_mem (phone_digits vb.1)) h
    rw [digits_inj (phone_digits va.1) (phone_digits vb.1) hphone, digits_inj va.2 vb.2 hday]
  case regIp.refl.regIp.refl ip ip' =>
    refine congrArg regIp (ascii_inj (fun c hc => ?_) (fun c hc => ?_) h)
    · have := address_le va hc
      omega
    · have := address_le vb hc
      omega
  -- the families with a phone for an id
  all_goals exact congrArg _ (digits_inj (phone_digits va) (phone_digits vb) h)

/-- **A key of the auth modules is one of its family and its id.** -/
theorem text_auth_inj {c c' : CacheKeys} {a b : Key} {f g : Family} (ha : a.family = some f) (hb : b.family = some g)
    (va : a.Valid) (vb : b.Valid) (h : a.text c = b.text c') : a = b := by
  rw [text_eq c ha, text_eq c' hb] at h
  obtain ⟨rfl, hid⟩ := tag_prefixFree.append_inj h
  exact id_inj ha hb va vb hid

/-- **No key of the cache is a key of the auth modules.** -/
theorem key_ne_text (c c' : CacheKeys) (k : SkuKey) {a : Key} {f : Family} (ha : a.family = some f) (va : a.Valid) :
    c.key k ≠ a.text c' := by
  intro h
  have hu := c.u_mem_key k
  rw [h, text_eq c' ha] at hu
  rcases List.mem_append.1 hu with htag | hid
  · exact u_not_mem_tag f htag
  · exact u_not_mem_id va hid

/-! ### All keys -/

/-- The kind and the id of a key of the cache. -/
def sku : Key → Option SkuKey
  | .skuList => some .list
  | .skuItem skuId => some (.item skuId)
  | _ => none

theorem sku_of_none {a : Key} (h : a.family = none) : ∃ k, a.sku = some k := by
  cases a <;> cases h
  case skuList.refl => exact ⟨_, rfl⟩
  case skuItem.refl skuId => exact ⟨_, rfl⟩

theorem text_of_sku (c : CacheKeys) {a : Key} {k : SkuKey} (h : a.sku = some k) : a.text c = c.key k := by
  cases a <;> cases h <;> rfl

theorem sku_inj {a b : Key} {k : SkuKey} (ha : a.sku = some k) (hb : b.sku = some k) : a = b := by
  cases a <;> cases ha <;> cases b <;> cases hb <;> rfl

/-- **A `Key` stands for its string**: with one prefix and one version, two keys with the
same string are the same. -/
theorem text_inj (c : CacheKeys) {a b : Key} (va : a.Valid) (vb : b.Valid) (h : a.text c = b.text c) : a = b := by
  cases ha : a.family with
  | some f =>
    cases hb : b.family with
    | some g => exact text_auth_inj ha hb va vb h
    | none =>
      obtain ⟨k, hk⟩ := sku_of_none hb
      exact absurd ((text_of_sku c hk).symm.trans h.symm) (key_ne_text c c k ha va)
  | none =>
    obtain ⟨k, hk⟩ := sku_of_none ha
    cases hb : b.family with
    | some g => exact absurd ((text_of_sku c hk).symm.trans h) (key_ne_text c c k hb vb)
    | none =>
      obtain ⟨k', hk'⟩ := sku_of_none hb
      rw [text_of_sku c hk, text_of_sku c hk'] at h
      obtain ⟨rfl, -⟩ := CacheKeys.key_inj h
      exact sku_inj hk hk'

/-- A key of the auth modules. -/
structure Auth (a : Key) : Prop where
  family : ∃ f, a.family = some f
  valid : a.Valid

end Key

/-- **Different keys are different strings.** For every prefix: the keys of the cache are
the same only with one kind, one id and one version, none of them is a key of the auth
modules, and two keys of these are the same only with one family and one id. -/
theorem keys_apart (p : Bytes) :
    (∀ v v' k k', (CacheKeys.mk p v).key k = (CacheKeys.mk p v').key k' ↔ k = k' ∧ v = v') ∧
      (∀ v c k (a : Key), a.Auth → (CacheKeys.mk p v).key k ≠ a.text c) ∧
      ∀ c c' (a b : Key), a.Auth → b.Auth → (a.text c = b.text c' ↔ a = b) := by
  refine ⟨fun v v' k k' => ⟨CacheKeys.key_inj, ?_⟩, fun v c k a ha => ?_, fun c c' a b ha hb => ⟨?_, ?_⟩⟩
  · rintro ⟨rfl, rfl⟩
    rfl
  · obtain ⟨⟨f, hf⟩, va⟩ := ha
    exact Key.key_ne_text _ c k hf va
  · obtain ⟨⟨f, hf⟩, va⟩ := ha
    obtain ⟨⟨g, hg⟩, vb⟩ := hb
    exact Key.text_auth_inj hf hg va vb
  · rintro rfl
    obtain ⟨⟨f, hf⟩, -⟩ := ha
    rw [Key.text_eq c hf, Key.text_eq c' hf]

/-- A prefix that is itself a key, a version with a colon, and two keys of one phone. -/
theorem keys_apart_nested :
    (CacheKeys.mk (ascii "sms:day:13800000000") (ascii "v1:item")).key (.item 1001) ≠
        (CacheKeys.mk (ascii "sms:day:13800000000") (ascii "v1")).key (.item 1001) ∧
      (CacheKeys.mk (ascii "sms:day:13800000000") (ascii "v1")).key .list ≠
        (Key.smsDay "13800000000" "20240101").text ⟨[], []⟩ ∧
      (Key.smsDay "13800000000" "20240101").text ⟨[], []⟩ ≠ (Key.smsCode "13800000000").text ⟨[], []⟩ := by
  have hday : (Key.smsDay "13800000000" "20240101").Auth := ⟨⟨_, rfl⟩, rfl, by simp⟩
  have hcode : (Key.smsCode "13800000000").Auth := ⟨⟨_, rfl⟩, rfl⟩
  obtain ⟨hkeys, hauth, hapart⟩ := keys_apart (ascii "sms:day:13800000000")
  refine ⟨fun h => ?_, hauth _ _ _ _ hday, fun h => ?_⟩
  · exact absurd ((hkeys _ _ _ _).1 h).2 (by decide)
  · exact absurd ((hapart _ _ _ _ hday hcode).1 h) (by decide)

end Seckill
