import Seckill.Proof.SeckillRequest
import Seckill.Proof.Tokens
import Seckill.Spec.Http

/-!
# What reaches the services

Each handler reads its request with a small grammar: `stoll` a path, `extractBearerToken`
a header, and `strings` the members of a body. The theorems say which requests call the
service, and with what, exactly: `handleDetail_calls`, `handleLogout_calls` and
`bodies_reach`. What a login answers comes back through the header (`login_logout`).
-/

namespace Seckill

/-! ## Numbers in a text -/

def isBlank (c : UInt8) : Bool := c = 32 || (9 ≤ c && c ≤ 13)

def isDigit (c : UInt8) : Bool := 48 ≤ c && c ≤ 57

/-- The number decimal digits stand for. -/
def decimal (ds : Bytes) : ℕ := ds.foldl (fun n c => 10 * n + (c.toNat - 48)) 0

/-- The text begins with these digits, and with no more. -/
structure Begins (s ds : Bytes) : Prop where
  ne_nil : ds ≠ []
  digits : ∀ c ∈ ds, isDigit c = true
  rest : ∃ rest, s = ds ++ rest ∧ ∀ c ∈ rest.head?, isDigit c = false

theorem foldl_decimal (ds : Bytes) :
    ds.foldl (fun (n : ℤ) c => 10 * n + (c.toNat - 48 : ℕ)) 0 = (decimal ds : ℕ) := by
  unfold decimal
  induction ds using List.reverseRecOn with
  | nil => rfl
  | append_singleton ds c ih =>
    rw [List.foldl_append, List.foldl_append, ih]
    rfl

theorem Begins.takeWhile {s ds : Bytes} (h : Begins s ds) : s.takeWhile isDigit = ds := by
  obtain ⟨rest, rfl, hrest⟩ := h.rest
  rw [List.takeWhile_append_of_pos h.digits]
  cases rest with
  | nil => rw [List.takeWhile_nil, List.append_nil]
  | cons c rest =>
    have hc := hrest c rfl
    rw [List.takeWhile_cons_of_neg (by simp [hc]), List.append_nil]

theorem begins_takeWhile {s : Bytes} (h : s.takeWhile isDigit ≠ []) : Begins s (s.takeWhile isDigit) := by
  refine ⟨h, fun c hc => List.mem_takeWhile_imp hc, s.dropWhile isDigit, (List.takeWhile_append_dropWhile).symm, ?_⟩
  intro c hc
  have hnot := List.head?_dropWhile_not isDigit s
  rw [hc] at hnot
  simpa using hnot

/-- **The digits of `stoll`**: some, and their number is in the range of `int64_t`. -/
theorem stollDigits_eq_some {negative : Bool} {s : Bytes} {n : Int64} :
    stollDigits negative s = some n ↔
      ∃ ds, Begins s ds ∧ n.toInt = if negative then -(decimal ds : ℤ) else (decimal ds : ℤ) := by
  set m : ℤ := if negative then -(decimal (s.takeWhile isDigit) : ℤ) else (decimal (s.takeWhile isDigit) : ℤ) with hm
  have hread : stollDigits negative s =
      if s.takeWhile isDigit ≠ [] ∧ Json.isInt64 m = true then some (.ofInt m) else none := by
    rw [hm, ← foldl_decimal]
    rfl
  rw [hread]
  constructor
  · intro h
    split at h
    next hboth =>
      refine ⟨_, begins_takeWhile hboth.1, ?_⟩
      rw [← Option.some.inj h, Json.toInt_ofInt hboth.2]
    next => cases h
  · rintro ⟨ds, hbegins, hn⟩
    rw [hbegins.takeWhile] at hm
    rw [← hn] at hm
    rw [hbegins.takeWhile, hm, if_pos ⟨hbegins.ne_nil, Json.isInt64_toInt n⟩, Int64.ofInt_toInt]

/-- `stoll` after the blanks. -/
def stollSign : Bytes → Option Int64
  | 45 :: rest => stollDigits true rest
  | 43 :: rest => stollDigits false rest
  | s => stollDigits false s

theorem stoll_eq (s : Bytes) : stoll s = stollSign (s.dropWhile isBlank) := by
  unfold stoll stollSign
  rw [show (fun c : UInt8 => decide (c = 32) || decide (9 ≤ c) && decide (c ≤ 13)) = isBlank from rfl]
  generalize s.dropWhile isBlank = w
  split
  next rest => rfl
  next rest => rfl
  next hminus hplus =>
    dsimp only
    split
    next rest => exact absurd rfl (hminus rest)
    next rest => exact absurd rfl (hplus rest)
    next => rfl

/-! ## The path -/

namespace SeckillController

/-- The path names the sku: blanks, a plus perhaps, and decimal digits; what follows them
does not matter. -/
def PathNames (skuIdStr : Bytes) (skuId : Int64) : Prop :=
  ∃ blanks sign s ds, skuIdStr = blanks ++ (sign ++ s) ∧ (∀ c ∈ blanks, isBlank c = true) ∧ (sign = [] ∨ sign = [43]) ∧
    Begins s ds ∧ (decimal ds : ℤ) = skuId.toInt

theorem isBlank_of_isDigit {c : UInt8} (h : isDigit c = true) : isBlank c = false ∧ c ≠ 45 ∧ c ≠ 43 := by
  unfold isDigit at h
  unfold isBlank
  simp only [Bool.and_eq_true, decide_eq_true_eq, UInt8.le_iff_toNat_le, UInt8.reduceToNat] at h
  simp only [Bool.or_eq_false_iff, Bool.and_eq_false_iff, decide_eq_false_iff_not, UInt8.le_iff_toNat_le, ne_eq,
    ← UInt8.toNat_inj, UInt8.reduceToNat]
  omega

theorem dropWhile_blanks {blanks s : Bytes} {c : UInt8} (hblanks : ∀ c ∈ blanks, isBlank c = true)
    (hc : isBlank c = false) : (blanks ++ c :: s).dropWhile isBlank = c :: s := by
  rw [List.dropWhile_append_of_pos hblanks, List.dropWhile_cons_of_neg (by simp [hc])]

/-- **The texts `stoll` makes a positive number of.** -/
theorem stoll_eq_some_iff {skuIdStr : Bytes} {skuId : Int64} (hpos : 0 < skuId.toInt) :
    stoll skuIdStr = some skuId ↔ PathNames skuIdStr skuId := by
  rw [stoll_eq]
  constructor
  · intro h
    have hsplit : skuIdStr = skuIdStr.takeWhile isBlank ++ skuIdStr.dropWhile isBlank :=
      (List.takeWhile_append_dropWhile).symm
    have hblanks : ∀ c ∈ skuIdStr.takeWhile isBlank, isBlank c = true := fun c hc => List.mem_takeWhile_imp hc
    generalize skuIdStr.dropWhile isBlank = w at h hsplit
    unfold stollSign at h
    split at h
    next rest =>
      -- a minus: the number is not positive
      obtain ⟨ds, -, hn⟩ := stollDigits_eq_some.1 h
      rw [if_pos rfl] at hn
      omega
    next rest =>
      obtain ⟨ds, hbegins, hn⟩ := stollDigits_eq_some.1 h
      exact ⟨_, [43], rest, ds, hsplit, hblanks, Or.inr rfl, hbegins, by simpa using hn.symm⟩
    next =>
      obtain ⟨ds, hbegins, hn⟩ := stollDigits_eq_some.1 h
      exact ⟨_, [], w, ds, hsplit, hblanks, Or.inl rfl, hbegins, by simpa using hn.symm⟩
  · rintro ⟨blanks, sign, s, ds, rfl, hblanks, hsign, hbegins, hn⟩
    have hread : stollDigits false s = some skuId := stollDigits_eq_some.2 ⟨ds, hbegins, by simpa using hn.symm⟩
    rcases hsign with rfl | rfl
    · obtain ⟨c, s', hs⟩ : ∃ c s', s = c :: s' := by
        obtain ⟨rest, hrest, -⟩ := hbegins.rest
        obtain ⟨c, ds', hds⟩ := List.exists_cons_of_ne_nil hbegins.ne_nil
        exact ⟨c, ds' ++ rest, by rw [hrest, hds, List.cons_append]⟩
      have hc : isDigit c = true := by
        obtain ⟨rest, hrest, -⟩ := hbegins.rest
        obtain ⟨c', ds', hds⟩ := List.exists_cons_of_ne_nil hbegins.ne_nil
        rw [hs, hds, List.cons_append] at hrest
        rw [(List.cons.inj hrest).1]
        exact hbegins.digits c' (by rw [hds]; exact List.mem_cons_self)
      obtain ⟨hblank, hminus, hplus⟩ := isBlank_of_isDigit hc
      rw [List.nil_append, hs, dropWhile_blanks hblanks hblank, ← hs]
      unfold stollSign
      split
      next => exact absurd (List.cons.inj hs).1.symm hminus
      next => exact absurd (List.cons.inj hs).1.symm hplus
      next => exact hread
    · rw [List.cons_append, List.nil_append, dropWhile_blanks hblanks (by decide)]
      exact hread

/-- **Which paths read a sku**: those that name a positive number of 64 bits. Every other
path is answered 400. -/
theorem handleDetail_calls (skuIdStr : Bytes) :
    (∀ skuId, handleDetail skuIdStr = .detailSku skuId ↔ 0 < skuId.toInt ∧ PathNames skuIdStr skuId) ∧
      ((¬∃ skuId : Int64, 0 < skuId.toInt ∧ PathNames skuIdStr skuId) →
        handleDetail skuIdStr = .replied (reply 400 "invalid skuId" 400)) := by
  have hle : ∀ n : Int64, n ≤ 0 ↔ ¬0 < n.toInt := fun n => by
    rw [Int64.le_iff_toInt_le]
    exact Int.not_lt.symm
  have hcalls : ∀ skuId, handleDetail skuIdStr = .detailSku skuId ↔ 0 < skuId.toInt ∧ PathNames skuIdStr skuId := by
    intro skuId
    unfold handleDetail
    dsimp only
    constructor
    · intro h
      split at h
      next => cases h
      next hpos =>
        rw [hle, not_not] at hpos
        cases hstoll : stoll skuIdStr with
        | none =>
          rw [hstoll] at hpos
          exact absurd hpos (by decide)
        | some n =>
          rw [hstoll] at h hpos
          cases h
          exact ⟨hpos, (stoll_eq_some_iff hpos).1 hstoll⟩
    · rintro ⟨hpos, hnames⟩
      rw [(stoll_eq_some_iff hpos).2 hnames, Option.getD_some, if_neg fun h => (hle skuId).1 h hpos]
  refine ⟨hcalls, fun hnone => ?_⟩
  cases h : handleDetail skuIdStr with
  | detailSku skuId => exact absurd ⟨skuId, (hcalls skuId).1 h⟩ hnone
  | replied r =>
    unfold handleDetail at h
    dsimp only at h
    split at h
    next => rw [← h]
    next => cases h

/-- A path that goes on after its digits reads sku 42; one without digits is refused. -/
theorem handleDetail_calls_garbage :
    handleDetail (ascii " +42;x") = .detailSku 42 ∧
      handleDetail (ascii "list") = .replied (reply 400 "invalid skuId" 400) := by
  have hlist : ∀ skuId, ¬(0 < skuId.toInt ∧ PathNames (ascii "list") skuId) := by
    rintro skuId ⟨hpos, hnames⟩
    have hstoll := (stoll_eq_some_iff hpos).2 hnames
    rw [show stoll (ascii "list") = none by decide] at hstoll
    cases hstoll
  have hbegins : Begins (ascii "42;x") (ascii "42") := by
    refine ⟨by decide, List.all_eq_true.1 rfl, ascii ";x", rfl, fun c hc => ?_⟩
    cases hc
    rfl
  have hnames : PathNames (ascii " +42;x") 42 :=
    ⟨[32], [43], ascii "42;x", ascii "42", rfl, List.all_eq_true.1 rfl, Or.inr rfl, hbegins, by decide⟩
  refine ⟨((handleDetail_calls (ascii " +42;x")).1 42).2 ⟨by decide, hnames⟩, ?_⟩
  exact (handleDetail_calls (ascii "list")).2 fun ⟨skuId, h⟩ => hlist skuId h

end SeckillController

/-! ## The header -/

namespace UserController

/-- Blanks at the end of a header's value. -/
def isTail (c : UInt8) : Bool := c = 32 || c = 13

/-- The header is `Bearer`, a blank, the token, and blanks perhaps. -/
def Bears (auth token : Bytes) : Prop :=
  ∃ tail, auth = kBearerPrefix ++ (token ++ tail) ∧ ∀ c ∈ tail, isTail c = true

/-- The token is not empty and does not end with a blank. -/
def IsToken (token : Bytes) : Prop := ∃ front c, token = front ++ [c] ∧ isTail c = false

theorem rdropWhile_token {token tail : Bytes} (htoken : IsToken token) (htail : ∀ c ∈ tail, isTail c = true) :
    (token ++ tail).rdropWhile isTail = token := by
  obtain ⟨front, c, rfl, hc⟩ := htoken
  unfold List.rdropWhile
  rw [List.reverse_append, List.dropWhile_append_of_pos fun c hc => htail c (List.mem_reverse.1 hc),
    List.reverse_append, List.reverse_singleton, List.singleton_append, List.dropWhile_cons_of_neg (by simp [hc]),
    List.reverse_cons, List.reverse_reverse]

theorem rdropWhile_split (s : Bytes) :
    (s.rdropWhile isTail ≠ [] → IsToken (s.rdropWhile isTail)) ∧
      ∃ tail, s = s.rdropWhile isTail ++ tail ∧ ∀ c ∈ tail, isTail c = true := by
  constructor
  · intro hne
    refine ⟨_, _, (List.dropLast_append_getLast hne).symm, ?_⟩
    simpa using List.rdropWhile_last_not isTail s hne
  · refine ⟨(s.reverse.takeWhile isTail).reverse, ?_, fun c hc => List.mem_takeWhile_imp (List.mem_reverse.1 hc)⟩
    rw [List.rdropWhile, ← List.reverse_append, List.takeWhile_append_dropWhile, List.reverse_reverse]

/-- **Which headers log out**, and of which token. -/
theorem handleLogout_calls (auth token : Bytes) :
    handleLogout auth = .logout token ↔ IsToken token ∧ Bears auth token := by
  have hcall : handleLogout auth = .logout token ↔ token ≠ [] ∧ extractBearerToken auth = token := by
    unfold handleLogout
    dsimp only
    constructor
    · intro h
      split at h
      next => cases h
      next hne =>
        cases h
        exact ⟨hne, rfl⟩
    · rintro ⟨hne, rfl⟩
      exact if_neg hne
  rw [hcall]
  unfold extractBearerToken
  constructor
  · rintro ⟨hne, h⟩
    split at h
    next => exact absurd h.symm hne
    next =>
      split at h
      next => exact absurd h.symm hne
      next hprefix =>
        change (auth.drop kBearerPrefix.length).rdropWhile isTail = token at h
        obtain ⟨htoken, tail, hsplit, htail⟩ := rdropWhile_split (auth.drop kBearerPrefix.length)
        rw [h] at htoken hsplit
        refine ⟨htoken hne, tail, ?_, htail⟩
        rw [← hsplit, ← not_not.1 hprefix, List.length_take_of_le (by omega), List.take_append_drop]
  · rintro ⟨htoken, tail, rfl, htail⟩
    have hne : token ≠ [] := by
      obtain ⟨front, c, rfl, -⟩ := htoken
      simp
    have hlen : 0 < token.length := List.length_pos_of_ne_nil hne
    refine ⟨hne, ?_⟩
    rw [if_neg (by simp only [List.length_append]; omega), List.take_left, if_neg (not_not.2 rfl), List.drop_left]
    exact rdropWhile_token htoken htail

/-- A signed token has no blanks. -/
theorem isToken_sign (j : Jwt) (userId : Int64) (jti : Bytes) (now clock : ℤ) :
    IsToken (j.sign userId jti now clock) := by
  have hplain : ∀ c ∈ kB64UrlAlphabet, isTail c = false := by
    have hall : (kB64UrlAlphabet.all fun c => !isTail c) = true := by decide
    intro c hc
    simpa using List.all_eq_true.1 hall c hc
  have hall : ∀ c ∈ j.sign userId jti now clock, isTail c = false := by
    intro c hc
    rw [Jwt.sign_eq] at hc
    simp only [List.mem_append, List.mem_cons] at hc
    rcases hc with hc | rfl | hc | rfl | hc
    · exact hplain c (encode_alphabet _ c hc)
    · rfl
    · exact hplain c (encode_alphabet _ c hc)
    · rfl
    · exact hplain c (encode_alphabet _ c hc)
  have hne : j.sign userId jti now clock ≠ [] := by
    rw [Jwt.sign_eq]
    simp
  exact ⟨_, _, (List.dropLast_append_getLast hne).symm, hall _ (List.getLast_mem hne)⟩

/-- **What a login answers logs out.** A header calls `logout` with a token exactly if it is
`Bearer`, a blank, the token and blanks, and the token is not empty and does not end with
one. So is the header a client makes of the type and the token in the answer to its login,
and it calls `logout` with the token that was signed. -/
theorem login_logout :
    (∀ auth token, handleLogout auth = .logout token ↔ IsToken token ∧ Bears auth token) ∧
      ∀ (j : Jwt) (userId : Int64) (jti : Bytes) (now clock : ℤ) (msg : String) (tail : Bytes),
        (∀ c ∈ tail, isTail c = true) → ∃ data type token,
          (login true (j.sign userId jti now clock) msg).data = some data ∧
            (data.field "tokenType").asString = .ok type ∧ (data.field "token").asString = .ok token ∧
            handleLogout (type ++ ascii " " ++ token ++ tail) = .logout (j.sign userId jti now clock) := by
  refine ⟨handleLogout_calls, fun j userId jti now clock msg tail htail => ?_⟩
  refine ⟨_, ascii "Bearer", j.sign userId jti now clock, rfl, rfl, rfl, ?_⟩
  exact (handleLogout_calls _ _).2 ⟨isToken_sign j userId jti now clock, tail, by
    rw [List.append_assoc, List.append_assoc]
    rfl, htail⟩

/-- User 1's token, and a carriage return after it. -/
theorem login_logout_sealed :
    (handleLogout (ascii "Bearer x  ") = .logout (ascii "x") ↔
        IsToken (ascii "x") ∧ Bears (ascii "Bearer x  ") (ascii "x")) ∧
      ∃ data type token, (login true (Jwt.sealedJwt.sign 1 (ascii "5f3a") 1700000000 0) "success").data = some data ∧
        (data.field "tokenType").asString = .ok type ∧ (data.field "token").asString = .ok token ∧
        handleLogout (type ++ ascii " " ++ token ++ [13]) =
          .logout (Jwt.sealedJwt.sign 1 (ascii "5f3a") 1700000000 0) :=
  ⟨login_logout.1 _ _, login_logout.2 Jwt.sealedJwt 1 (ascii "5f3a") 1700000000 0 "success" [13] (List.all_eq_true.1 rfl)⟩

end UserController

/-! ## The body -/

namespace Json

variable {v : Json}

/-- `isMember` of several fields does not throw on a value with members. -/
theorem hasAll_of_isRecord (h : v.IsRecord) (keys : List String) :
    v.hasAll keys = .ok (keys.all fun key => v.has key) := by
  induction keys with
  | nil => rfl
  | cons key keys ih =>
    unfold hasAll
    rw [isMember_of_isRecord h, ih, List.all_cons]
    cases v.has key <;> rfl

/-- The fields are there. -/
def HasAll (v : Json) (keys : List String) : Prop := ∀ key ∈ keys, v.has key = true

end Json

variable {α : Type} {required : List String} {refuse : α} {call : (String → Except String Bytes) → Except String α}
  {json : Option Json} {v : Json}

theorem strings_missing (h : v.IsRecord) (hall : ¬v.HasAll required) :
    strings (some v) required refuse call = .ok refuse := by
  have hfalse : (required.all fun key => v.has key) = false := by
    rw [← Bool.not_eq_true, List.all_eq_true]
    exact hall
  unfold strings
  dsimp only
  rw [Json.hasAll_of_isRecord h, hfalse]
  rfl

theorem strings_present (h : v.IsRecord) (hall : v.HasAll required) :
    strings (some v) required refuse call = call fun key => (v.field key).asString := by
  have htrue : (required.all fun key => v.has key) = true := List.all_eq_true.2 hall
  unfold strings
  dsimp only
  rw [Json.hasAll_of_isRecord h, htrue]
  rfl

theorem strings_throws (h : ¬v.IsRecord) (hne : required ≠ []) :
    ∃ what, strings (some v) required refuse call = .error what := by
  obtain ⟨key, keys, rfl⟩ := List.exists_cons_of_ne_nil hne
  obtain ⟨what, hwhat⟩ := Json.isMember_throws h key
  refine ⟨what, ?_⟩
  unfold strings Json.hasAll
  dsimp only
  rw [hwhat]
  rfl

/-- The body has members: one of the required is missing, or those that are read are texts. -/
def Fits (required read : List String) (v : Json) : Prop :=
  v.IsRecord ∧ (v.HasAll required → ∀ key ∈ read, (v.field key).IsText)

/-- The members of a body as texts, `asString` of each. -/
def Texts (v : Json) (read : List String) (texts : List Bytes) : Prop :=
  List.Forall₂ (fun key text => (v.field key).asString = .ok text) read texts

/-- **What a handler does with a body**: with the required members it calls its service with
the texts of those it reads, without one it refuses, and an exception leaves it exactly if
it cannot read a member, or the body has none. -/
structure Handles (required read : List String) (refuse : α) (calls : List Bytes → α)
    (handle : Option Json → Except String α) : Prop where
  none : handle none = .ok refuse
  missing : ∀ v : Json, v.IsRecord → ¬v.HasAll required → handle (some v) = .ok refuse
  calls : ∀ v texts, v.IsRecord → v.HasAll required → Texts v read texts → handle (some v) = .ok (calls texts)
  throws : ∀ v, (∃ what, handle (some v) = .error what) ↔ ¬Fits required read v

/-- Members that are texts can be read. -/
theorem exists_texts {read : List String} (h : ∀ key ∈ read, (v.field key).IsText) : ∃ texts, Texts v read texts := by
  induction read with
  | nil => exact ⟨[], .nil⟩
  | cons key read ih =>
    obtain ⟨htext, hrest⟩ := List.forall_mem_cons.1 h
    obtain ⟨text, htext⟩ := Json.asString_iff.2 htext
    obtain ⟨texts, hrest⟩ := ih hrest
    exact ⟨text :: texts, .cons htext hrest⟩

/-- The texts are read one after the other. -/
theorem mapM_texts {read : List String} :
    (∀ texts, Texts v read texts → (read.mapM fun key => (v.field key).asString) = .ok texts) ∧
      ((¬∀ key ∈ read, (v.field key).IsText) →
        ∃ what, (read.mapM fun key => (v.field key).asString) = .error what) := by
  induction read with
  | nil =>
    refine ⟨fun texts h => ?_, fun h => absurd (fun key hkey => absurd hkey List.not_mem_nil) h⟩
    cases h
    rfl
  | cons key read ih =>
    constructor
    · intro texts h
      cases h with
      | cons htext hrest =>
        rw [List.mapM_cons, htext]
        change (do let rest ← read.mapM fun key => (v.field key).asString; pure (_ :: rest)) = _
        rw [ih.1 _ hrest]
        rfl
    · intro h
      rw [List.mapM_cons]
      cases htext : (v.field key).asString with
      | error what => exact ⟨what, rfl⟩
      | ok text =>
        have hkey : (v.field key).IsText := Json.asString_iff.1 ⟨text, htext⟩
        obtain ⟨what, hwhat⟩ := ih.2 fun hall => h (List.forall_mem_cons.2 ⟨hkey, hall⟩)
        refine ⟨what, ?_⟩
        change (do let rest ← read.mapM fun key => (v.field key).asString; pure (text :: rest)) = _
        rw [hwhat]
        rfl

/-- **A handler that reads texts one after the other.** -/
theorem strings_handles {read : List String} {calls : List Bytes → α} {handle : Option Json → Except String α}
    {call : Option Json → (String → Except String Bytes) → Except String α} (hne : required ≠ [])
    (hhandle : ∀ json, handle json = strings json required refuse (call json))
    (hcall : ∀ v : Json, v.IsRecord → call (some v) (fun key => (v.field key).asString) =
      (read.mapM fun key => (v.field key).asString) >>= fun texts => .ok (calls texts)) :
    Handles required read refuse calls handle := by
  have hmissing : ∀ v : Json, v.IsRecord → ¬v.HasAll required → handle (some v) = .ok refuse := by
    intro v hrecord hall
    rw [hhandle, strings_missing hrecord hall]
  have hcalls : ∀ v texts, v.IsRecord → v.HasAll required → Texts v read texts →
      handle (some v) = .ok (calls texts) := by
    intro v texts hrecord hall htexts
    rw [hhandle, strings_present hrecord hall, hcall v hrecord, mapM_texts.1 texts htexts]
    rfl
  refine ⟨hhandle none, hmissing, hcalls, fun v => ⟨?_, fun hfits => ?_⟩⟩
  · -- a body that fits is refused, or its texts are read
    rintro ⟨what, hwhat⟩ ⟨hrecord, htexts⟩
    by_cases hall : v.HasAll required
    · obtain ⟨texts, htexts⟩ := exists_texts (htexts hall)
      rw [hcalls v texts hrecord hall htexts] at hwhat
      cases hwhat
    · rw [hmissing v hrecord hall] at hwhat
      cases hwhat
  · rw [hhandle]
    by_cases hrecord : v.IsRecord
    · have hall : v.HasAll required := by
        by_contra hall
        exact hfits ⟨hrecord, fun h => absurd h hall⟩
      obtain ⟨what, hwhat⟩ := mapM_texts.2 fun htexts => hfits ⟨hrecord, fun _ => htexts⟩
      rw [strings_present hrecord hall, hcall v hrecord, hwhat]
      exact ⟨what, rfl⟩
    · exact strings_throws hrecord hne

/-- **What the handlers of texts do with a body**: registration, login and the sending of a
code. A missing code is an empty one. -/
theorem bodies_reach :
    Handles ["phone", "password"] ["phone", "password", "code"]
        (.replied (UserController.jsonResp 400 400 "missing phone/password"))
        (fun texts => .registerUser (texts.getD 0 []) (texts.getD 1 []) (texts.getD 2 []))
        UserController.handleRegister ∧
      Handles ["phone", "password"] ["phone", "password"]
        (.replied (UserController.jsonResp 400 400 "missing phone/password"))
        (fun texts => .login (texts.getD 0 []) (texts.getD 1 [])) UserController.handleLogin ∧
      Handles ["phone"] ["phone"] (.replied (SmsController.resp 400 400 "missing phone"))
        (fun texts => .sendCode (texts.getD 0 [])) SmsController.handle := by
  refine ⟨strings_handles (by simp) (fun _ => rfl) fun v hrecord => ?_,
    strings_handles (by simp) (fun _ => rfl) fun v hrecord => ?_,
    strings_handles (by simp) (fun _ => rfl) fun v hrecord => ?_⟩
  · simp only [List.mapM_cons, List.mapM_nil, Option.getD_some, Json.isMember_of_isRecord hrecord]
    cases (v.field "phone").asString with
    | error what => rfl
    | ok phone =>
      cases (v.field "password").asString with
      | error what => rfl
      | ok password =>
        cases hhas : v.has "code" with
        | true => cases (v.field "code").asString <;> rfl
        | false =>
          rw [Json.field_of_not_has hhas]
          rfl
  · simp only [List.mapM_cons, List.mapM_nil]
    cases (v.field "phone").asString with
    | error what => rfl
    | ok phone => cases (v.field "password").asString <;> rfl
  · simp only [List.mapM_cons, List.mapM_nil]
    cases (v.field "phone").asString <;> rfl

end Seckill
