import Seckill.Proof.OrderAnswers
import Seckill.Proof.UserAnswers
import Seckill.Proof.WarmCache

/-!
# What the HTTP answers rest on

An `Exchange` is a request of one of the endpoints with everything that came from
outside: for an order, a registration or a login a run of its service, at any
interleaving, that ends with the step that answers; for a list or a detail the cache
and the outcomes of the commands. It is `Founded` if the status is 5xx, or the store
that knows the answer was consulted, did not fail and said so.

* `exchange_founded`: an exchange is founded, unless its failure was `Flattened`; an order
  of a sold item and a registration with another code are (`exchange_founded_refusals`).
* `outages`: a sku that exists is not found, a right code is invalid.
-/

namespace Seckill

open Machine SkuCache

/-! ## Reading skus -/

namespace SeckillService

variable {cfg : Config} {io : ReadIo} {select : Except String SkuTable} {c : SkuCache}

section

variable (cfg : Config) (bloom : Option BloomFilter) (skuId : Int64) (io : ReadIo) (select : Except String SkuTable)
  (c : SkuCache)

/-- **What a list must rest on**: a value of the cache, or the rows of the SELECT. -/
inductive ListRests : Answer → Prop
  | cached {value : String} {items : List Json} (h : c.tells cfg.cache io.get .skuList = some value)
      (hjson : cfg.json.fromJson value = some (.arr items)) : ListRests (true, .arr items)
  | rows {t : SkuTable} (h : select = .ok t) : ListRests (true, .arr ((t.first 100).map itemJson))

/-- **What a detail must rest on**: the filter, a value of the cache, or the SELECT. -/
inductive DetailRests : Answer → Prop
  | filtered (hon : cfg.cache.enabled = true ∧ cfg.bloomEnabled = true) (h : bloomAllows bloom skuId = false) :
    DetailRests (false, .null)
  | absentCached (h : c.tells cfg.cache io.get (.skuItem skuId) = some kNullValue) : DetailRests (false, .null)
  | cached {value : String} {fields : List (Bytes × Json)}
      (h : c.tells cfg.cache io.get (.skuItem skuId) = some value)
      (hjson : cfg.json.fromJson value = some (.obj fields)) : DetailRests (true, .obj fields)
  | absent {t : SkuTable} (h : select = .ok t) (hfind : t.find skuId = none) : DetailRests (false, .null)
  | row {t : SkuTable} {row : SkuRow} (h : select = .ok t) (hfind : t.find skuId = some row) :
    DetailRests (true, itemJson row)

/-- The filter, where it is asked, lets the sku pass, and the cache has neither the
sentinel nor an object. -/
structure DetailMiss : Prop where
  passes : cfg.cache.enabled = true → cfg.bloomEnabled = true → bloomAllows bloom skuId = true
  nil : c.tells cfg.cache io.get (.skuItem skuId) ≠ some kNullValue
  object : ∀ value fields, c.tells cfg.cache io.get (.skuItem skuId) = some value →
    cfg.json.fromJson value ≠ some (.obj fields)

/-- **A failure that is answered as a fact**: the SELECT after a miss. -/
def DetailFlattened : Prop := DetailMiss cfg bloom skuId io c ∧ ∃ what, select = .error what

end

theorem listLookup_rests {a : Answer} (h : (listLookup cfg io c).1 = some a) : ListRests cfg io select c a := by
  unfold listLookup at h
  have htells : (c.getList cfg.cache io.get).1 = c.tells cfg.cache io.get .skuList := get_tells _ _ _ _
  generalize c.getList cfg.cache io.get = got at h htells
  obtain ⟨hit, c₁⟩ := got
  cases hit with
  | none => cases h
  | some value =>
    dsimp only at h
    split at h
    · rename_i items hjson
      cases h
      exact .cached htells.symm hjson
    · cases h

/-- **A list is a server error or what a store said.** -/
theorem listSkus_rests (cfg : Config) (io : ReadIo) (select : Except String SkuTable) (c : SkuCache) :
    500 ≤ (SeckillController.listSkus (listSkus cfg io select c).1.1 (listSkus cfg io select c).1.2).status ∨
      ListRests cfg io select c (listSkus cfg io select c).1 := by
  have hdb : ∀ w c₁,
      500 ≤ (SeckillController.listSkus (queryListFromDb cfg w select io.write c₁).1.1
        (queryListFromDb cfg w select io.write c₁).1.2).status ∨
      ListRests cfg io select c (queryListFromDb cfg w select io.write c₁).1 := by
    intro w c₁
    cases hselect : select with
    | error what => exact Or.inl le_rfl
    | ok t => exact Or.inr (.rows rfl)
  unfold listSkus
  split
  · have hlookup : ∀ a, (listLookup cfg io c).1 = some a → ListRests cfg io select c a :=
      fun a => listLookup_rests
    generalize listLookup cfg io c = found at hlookup
    obtain ⟨a, c₁⟩ := found
    cases a with
    | none => exact hdb true c₁
    | some a => exact Or.inr (hlookup a rfl)
  · exact hdb false c

/-- What answers a detail without the database. -/
theorem detailLookup_rests (henabled : cfg.cache.enabled = true) (bloom : Option BloomFilter) (skuId : Int64)
    (io : ReadIo) (select : Except String SkuTable) (c : SkuCache) :
    (∃ a, (detailLookup cfg bloom skuId io c).1 = some a ∧ DetailRests cfg bloom skuId io select c a ∧
        ¬DetailMiss cfg bloom skuId io c) ∨
      (detailLookup cfg bloom skuId io c).1 = none ∧ DetailMiss cfg bloom skuId io c := by
  unfold detailLookup
  split
  · -- the filter turns it away
    rename_i hfilter
    have hrejects : cfg.bloomEnabled = true ∧ bloomAllows bloom skuId = false := by simpa using hfilter
    refine Or.inl ⟨_, rfl, .filtered ⟨henabled, hrejects.1⟩ hrejects.2, ?_⟩
    intro hmiss
    have hpasses := hmiss.passes henabled hrejects.1
    rw [hrejects.2] at hpasses
    cases hpasses
  · -- it does not, and the cache is asked
    rename_i hfilter
    have hpasses : cfg.bloomEnabled = true → bloomAllows bloom skuId = true := by simpa using hfilter
    have htells : (c.getDetail cfg.cache io.get skuId).1 = c.tells cfg.cache io.get (.skuItem skuId) := get_tells _ _ _ _
    generalize c.getDetail cfg.cache io.get skuId = got at htells ⊢
    obtain ⟨hit, c₁⟩ := got
    cases hit with
    | none =>
      refine Or.inr ⟨rfl, fun _ => hpasses, ?_, ?_⟩
      · rw [← htells]
        simp
      · rw [← htells]
        simp
    | some value =>
      dsimp only at htells ⊢
      split
      · rename_i hnil
        rw [hnil] at htells
        exact Or.inl ⟨_, rfl, .absentCached htells.symm, fun hmiss => hmiss.nil htells.symm⟩
      · rename_i hnil
        split
        · rename_i fields hjson
          exact Or.inl ⟨_, rfl, .cached htells.symm hjson, fun hmiss => hmiss.object value fields htells.symm hjson⟩
        · -- neither NIL nor an object: the database is asked
          rename_i hjson
          refine Or.inr ⟨rfl, fun _ => hpasses, ?_, ?_⟩
          · rw [← htells]
            simpa using hnil
          · intro value' fields heq
            rw [← htells] at heq
            cases heq
            exact hjson fields

theorem detailSku_cases (cfg : Config) (bloom : Option BloomFilter) (skuId : Int64) (io : ReadIo)
    (select : Except String SkuTable) (c : SkuCache) :
    DetailRests cfg bloom skuId io select c (detailSku cfg bloom skuId io select c).1 ∧
        ¬DetailMiss cfg bloom skuId io c ∨
      DetailMiss cfg bloom skuId io c ∧ ∃ w c₁,
        (detailSku cfg bloom skuId io select c).1 = (queryDetailFromDb cfg skuId w select io.write c₁).1 := by
  unfold detailSku
  split
  · rename_i henabled
    have hlookup := detailLookup_rests henabled bloom skuId io select c
    generalize detailLookup cfg bloom skuId io c = found at hlookup
    obtain ⟨hit, c₁⟩ := found
    rcases hlookup with ⟨a, ha, hrests, hmiss⟩ | ⟨ha, hmiss⟩
    · cases ha
      exact Or.inl ⟨hrests, hmiss⟩
    · cases ha
      exact Or.inr ⟨hmiss, true, c₁, rfl⟩
  · rename_i hdisabled
    have hnone : c.tells cfg.cache io.get (.skuItem skuId) = none := if_pos hdisabled
    refine Or.inr ⟨⟨fun henabled => absurd henabled hdisabled, ?_, ?_⟩, false, c, rfl⟩
    · rw [hnone]
      simp
    · rw [hnone]
      simp

/-- **A detail is what a store said, unless the SELECT after a miss failed.** -/
theorem detailSku_rests (cfg : Config) (bloom : Option BloomFilter) (skuId : Int64) (io : ReadIo)
    (select : Except String SkuTable) (c : SkuCache) :
    (500 ≤ (SeckillController.detailSku (detailSku cfg bloom skuId io select c).1.1
          (detailSku cfg bloom skuId io select c).1.2).status ∨
        DetailRests cfg bloom skuId io select c (detailSku cfg bloom skuId io select c).1) ↔
      ¬DetailFlattened cfg bloom skuId io select c := by
  rcases detailSku_cases cfg bloom skuId io select c with ⟨hrests, hmiss⟩ | ⟨hmiss, w, c₁, ha⟩
  · exact ⟨fun _ hflat => hmiss hflat.1, fun _ => Or.inr hrests⟩
  · rw [ha]
    cases hselect : select with
    | error what =>
      refine iff_of_false ?_ (not_not.2 ⟨hmiss, what, rfl⟩)
      rintro (h404 | hrests)
      · have hle : 500 ≤ 404 := h404
        omega
      · -- the answer is "not found", and nobody said so
        generalize hanswer : (queryDetailFromDb cfg skuId w (.error what) io.write c₁).1 = a at hrests
        cases hrests with
        | filtered hon hrejects =>
          have hpasses := hmiss.passes hon.1 hon.2
          rw [hrejects] at hpasses
          cases hpasses
        | absentCached h => exact hmiss.nil h
        | cached h hjson => cases hanswer
        | absent h hfind => cases h
        | row h hfind => cases h
    | ok t =>
      have hsound : ¬DetailFlattened cfg bloom skuId io (.ok t) c := by
        rintro ⟨-, what, heq⟩
        cases heq
      refine iff_of_true (Or.inr ?_) hsound
      rw [queryDetailFromDb_answer]
      cases hfind : t.find skuId with
      | none => exact .absent rfl hfind
      | some row => exact .row rfl hfind

end SeckillService

/-! ## The endpoints -/

/-- A step of the orders' run that answers. -/
structure OrderExchange where
  s₀ : State
  es : List Ev
  s : State
  e : Ev
  t : State
  r : ℕ
  ok : Bool
  msg : String
  idle : ∀ r, (s₀.req r).pc = .idle
  run : Machine.run step s₀ es = some s
  answers : step s e = some t ∧ (t.req r).answers = (s.req r).answers ++ [(ok, msg)]

/-- A call of `listSkus`. -/
structure ListExchange where
  cfg : SeckillService.Config
  io : SeckillService.ReadIo
  select : Except String SkuTable
  c : SkuCache

/-- A call of `detailSku`. -/
structure DetailExchange extends ListExchange where
  bloom : Option BloomFilter
  skuId : Int64

/-- A step of the users' run that answers a registration or a login. -/
structure UserExchange where
  cfg : UserService.Config
  s₀ : UserService.State
  es : List UserService.Ev
  s : UserService.State
  e : UserService.Ev
  t : UserService.State
  r : ℕ
  answer : UserService.Answer
  response : Response
  idle : ∀ r, s₀.req r = .idle
  run : Machine.run (UserService.step cfg) s₀ es = some s
  answers : UserService.step cfg s e = some t ∧ (s.req r).answer = none ∧ (t.req r).answer = some answer
  responds : UserController.respond answer = some response

/-- A request of one of the endpoints, up to its answer. -/
inductive Exchange
  | seckill (x : OrderExchange) | list (x : ListExchange) | detail (x : DetailExchange) | user (x : UserExchange)

namespace Exchange

/-- The status of the response. -/
def status : Exchange → ℕ
  | .seckill x => (SeckillController.seckill x.ok x.msg).status
  | .list x =>
    let a := (SeckillService.listSkus x.cfg x.io x.select x.c).1
    (SeckillController.listSkus a.1 a.2).status
  | .detail x =>
    let a := (SeckillService.detailSku x.cfg x.bloom x.skuId x.io x.select x.c).1
    (SeckillController.detailSku a.1 a.2).status
  | .user x => x.response.status

/-- What the response states was said by a store, in the answering step or before. -/
def Rests (counted : Prop) : Exchange → Prop
  | .seckill x => OrderRests (Learns x.s x.r x.e) (fun f => Past step x.s₀ x.es fun s e => Learns s x.r e f) x.ok x.msg
  | .list x => SeckillService.ListRests x.cfg x.io x.select x.c (SeckillService.listSkus x.cfg x.io x.select x.c).1
  | .detail x => SeckillService.DetailRests x.cfg x.bloom x.skuId x.io x.select x.c
      (SeckillService.detailSku x.cfg x.bloom x.skuId x.io x.select x.c).1
  | .user x => UserService.Rests counted (UserService.Said x.cfg x.s x.r x.e)
      (fun f => Past (UserService.step x.cfg) x.s₀ x.es fun s e => UserService.Said x.cfg s x.r e f) x.answer

/-- **The status is 5xx, or the response states what a store said.** -/
def Founded (counted : Prop) (x : Exchange) : Prop := 500 ≤ x.status ∨ x.Rests counted

/-- **An operation failed, and the response is a refusal that does not show it.** -/
def Flattened (counted : Prop) : Exchange → Prop
  | .seckill _ | .list _ => False
  | .detail x => SeckillService.DetailFlattened x.cfg x.bloom x.skuId x.io x.select x.c
  | .user x => UserService.Flattened x.cfg x.s x.r counted x.e

end Exchange

/-- **Every answer is founded, except where a failure was flattened.** `counted` is
whether the number in `WRONG_PASSWORD` is a fact. -/
theorem exchange_founded (counted : Prop) (x : Exchange) : x.Founded counted ↔ ¬x.Flattened counted := by
  cases x with
  | seckill x =>
    have hlearned := run_learned x.idle x.run x.r
    exact iff_of_true (answer_rests hlearned x.answers.1 x.answers.2) id
  | list x => exact iff_of_true (SeckillService.listSkus_rests x.cfg x.io x.select x.c) id
  | detail x => exact SeckillService.detailSku_rests x.cfg x.bloom x.skuId x.io x.select x.c
  | user x =>
    have hlearned := UserService.run_learned x.idle x.run x.r
    obtain ⟨hstep, hnone, ha⟩ := x.answers
    constructor
    · intro hfounded hflat
      obtain ⟨hstatus, hrests⟩ := UserService.flattened_unfounded hflat hstep hnone ha x.responds
      rcases hfounded with h500 | h
      · have hlt : x.response.status = 409 := hstatus
        have hle : 500 ≤ x.response.status := h500
        omega
      · exact hrests h
    · intro hflat
      rcases UserService.answered_accounted hnone ha hlearned hstep with h500 | hrests | h
      · exact Or.inl (h500 x.response x.responds)
      · exact Or.inr hrests
      · exact absurd h hflat

/-! ## Two refusals -/

/-- User `7` has the only item, and user `8`'s UPDATE finds none. -/
def soldToOther : List Ev := oneOrder 0 7 1 ++ [.call 1 8 1, .newTx 1 true, .update 1 none]

/-- Its callback answers. -/
def soldOut : OrderExchange where
  s₀ := .init oneItem [] (.new .mutex 64 65536)
  es := soldToOther
  s := (Machine.run step (.init oneItem [] (.new .mutex 64 65536)) soldToOther).get (by decide +kernel)
  e := .onUpdate 1
  t := (step ((Machine.run step (.init oneItem [] (.new .mutex 64 65536)) soldToOther).get (by decide +kernel))
    (.onUpdate 1)).get (by decide +kernel)
  r := 1
  ok := false
  msg := "SOLD_OUT"
  idle _ := rfl
  run := (Option.some_get _).symm
  answers := ⟨(Option.some_get _).symm, by decide +kernel⟩

/-- A registration with another code than the one that was sent, up to `verifyCode`. -/
def wrongCodeSent : List UserService.Ev :=
  [.sendCode "13800000000" "123456" "20260901" 3600 true,
    .registerUser 0 "13800000000" "password" "000000" "10.0.0.1", .regCheck 0 none]

/-- Its script compares the two. -/
def wrongCode : UserExchange where
  cfg := UserService.unsignedConfig
  s₀ := .init 0 [] 1
  es := wrongCodeSent
  s := (Machine.run (UserService.step UserService.unsignedConfig) (.init 0 [] 1) wrongCodeSent).get (by decide +kernel)
  e := .regVerify 0 none
  t := (UserService.step UserService.unsignedConfig
    ((Machine.run (UserService.step UserService.unsignedConfig) (.init 0 [] 1) wrongCodeSent).get (by decide +kernel))
    (.regVerify 0 none)).get (by decide +kernel)
  r := 0
  answer := .register false "CODE_WRONG"
  response := UserController.jsonResp 409 1 "CODE_WRONG"
  idle _ := rfl
  run := (Option.some_get _).symm
  answers := ⟨(Option.some_get _).symm, by decide +kernel, by decide +kernel⟩
  responds := rfl

/-- **A store said so**: the item is sold, and the code is another one. -/
theorem exchange_founded_refusals :
    (Exchange.seckill soldOut).status = 409 ∧ (Exchange.seckill soldOut).Rests True ∧
      (Exchange.user wrongCode).status = 409 ∧ (Exchange.user wrongCode).Rests True := by
  have horder : (Exchange.seckill soldOut).Founded True := (exchange_founded True _).2 id
  have hcode : ¬(Exchange.user wrongCode).Flattened True := by
    intro hflat
    have hpc : (wrongCode.s.req 0).pc = .regVerify "13800000000" "password" "000000" "10.0.0.1" := rfl
    have hreply : (exec none (SmsService.verifyScript wrongCode.cfg.sms "13800000000" "000000") wrongCode.s.redis).1 =
      .ok (-2, 1) := by decide +kernel
    have hstep : UserService.Flattened wrongCode.cfg wrongCode.s 0 True (.regVerify 0 none) := hflat
    cases hstep with
    | verify hpc' herr =>
      rw [hpc] at hpc'
      cases hpc'
      rw [hreply] at herr
      cases herr
  have huser := (exchange_founded True (.user wrongCode)).2 hcode
  refine ⟨rfl, horder.resolve_left ?_, rfl, huser.resolve_left ?_⟩
  · decide
  · decide

/-! ## Outages -/

/-- Sku 1 is in the table, not in the cache, and the SELECT fails. -/
def lostSku : DetailExchange where
  cfg := SeckillService.twoConfig
  io := ⟨none, none, SeckillService.healthy⟩
  select := .error "Lost connection to MySQL server during query"
  c := SeckillService.coldCache
  bloom := none
  skuId := 1

/-- A registration with the code that was sent, up to `verifyCode`. -/
def codeSent : List UserService.Ev :=
  [.sendCode "13800000000" "123456" "20260901" 3600 true,
    .registerUser 0 "13800000000" "password" "123456" "10.0.0.1", .regCheck 0 none]

/-- Its script fails. -/
def lostCode : UserExchange where
  cfg := UserService.unsignedConfig
  s₀ := .init 0 [] 1
  es := codeSent
  s := (Machine.run (UserService.step UserService.unsignedConfig) (.init 0 [] 1) codeSent).get (by decide +kernel)
  e := .regVerify 0 (some "connection lost")
  t := (UserService.step UserService.unsignedConfig
    ((Machine.run (UserService.step UserService.unsignedConfig) (.init 0 [] 1) codeSent).get (by decide +kernel))
    (.regVerify 0 (some "connection lost"))).get (by decide +kernel)
  r := 0
  answer := .register false "CODE_INVALID"
  response := UserController.jsonResp 409 1 "CODE_INVALID"
  idle _ := rfl
  run := (Option.some_get _).symm
  answers := ⟨(Option.some_get _).symm, by decide +kernel, by decide +kernel⟩
  responds := rfl

/-- **A sku that exists is not found, and a right code is invalid**: no store said so. -/
theorem exchange_flattened :
    ((Exchange.detail lostSku).status = 404 ∧ ¬(Exchange.detail lostSku).Founded False ∧
      (Exchange.detail { lostSku with select := .ok SeckillService.twoSkus }).status = 200) ∧
    ((Exchange.user lostCode).status = 409 ∧ ¬(Exchange.user lostCode).Founded False ∧
      ∃ t, UserService.step lostCode.cfg lostCode.s (.regVerify 0 none) = some t ∧ (t.req 0).answer = none) := by
  refine ⟨⟨by decide +kernel, ?_, by decide +kernel⟩, rfl, ?_, ?_⟩
  · intro hfounded
    have hmiss : SeckillService.DetailMiss lostSku.cfg lostSku.bloom lostSku.skuId lostSku.io lostSku.c := by
      have hnone : lostSku.c.tells lostSku.cfg.cache lostSku.io.get (.skuItem lostSku.skuId) = none := by
        decide +kernel
      refine ⟨fun _ hon => absurd hon (by decide), ?_, ?_⟩
      · rw [hnone]
        simp
      · rw [hnone]
        simp
    exact (SeckillService.detailSku_rests _ _ _ _ _ _).1 hfounded ⟨hmiss, _, rfl⟩
  · intro hfounded
    have hpc : (lostCode.s.req 0).pc = .regVerify "13800000000" "password" "123456" "10.0.0.1" := rfl
    have hflat : UserService.Flattened lostCode.cfg lostCode.s 0 False lostCode.e := .verify hpc rfl
    rcases hfounded with h500 | hrests
    · have hle : 500 ≤ 409 := h500
      omega
    · obtain ⟨hstep, hnone, ha⟩ := lostCode.answers
      exact (UserService.flattened_unfounded hflat hstep hnone ha lostCode.responds).2 hrests
  · exact ⟨_, rfl, rfl⟩

end Seckill
