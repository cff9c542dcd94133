import Seckill.Proof.Jwt
import Seckill.Proof.UserService

/-!
# A session that was logged out stays closed

`UserService::logout` answers `ok` whatever its `DEL` did: when Redis refuses the
command, `SessionStore::revoke` reports what it reports of a session that is gone.

* `logout_authenticate`: if a logout's `DEL` fails only where the session is gone
  already, then after `logout(token)` answered `ok`, every later
  `authenticate(token)` answers 0.
* `logout_authenticate_alive`: a logout whose `DEL` fails answers `ok`, and the
  token goes on authenticating.
-/

namespace Seckill.UserService

open Redis

section

variable (cfg : Config)

/-- The event draws this jti for a new session. -/
def Ev.Draws (jti : Bytes) : Ev → Prop
  | .loginHash _ _ jti' _ => jti' = jti
  | _ => False

/-- The event shows this jti: drawn, or in a token. -/
def Ev.Shows (jti : Bytes) : Ev → Prop
  | .loginHash _ _ jti' _ => jti' = jti
  | .logout _ token clock | .authenticate _ token clock =>
    ∃ claims, cfg.jwt.verify token 0 clock = .ok (some claims) ∧ claims.jti = jti
  | _ => False

/-- No jti is drawn that was seen before. -/
def FreshJtis (es : List Ev) : Prop := es.Pairwise fun e e' => ∀ jti, e.Shows cfg jti → ¬e'.Draws jti

/-- No login is about to save a session under this jti. -/
def NotSaving (jti : Bytes) (s : State) : Prop :=
  ∀ r phone userId token, (s.req r).pc ≠ .loginSave phone userId jti token

/-- A token is logged out after the login that issued it has saved its session: not
before its client has it. -/
def Presents (s : State) (e : Ev) : Prop :=
  ∀ r token clock claims, e = .logout r token clock → cfg.jwt.verify token 0 clock = .ok (some claims) →
    NotSaving claims.jti s

/-- **The condition on a step**: the `DEL` of a logout fails only where the session
is gone. -/
def Revokes (s : State) (e : Ev) : Prop :=
  ∀ r what jti, e = .revoke r (some what) → (s.req r).pc = .logoutRevoke jti → s.redis.find (.sess jti) = none

end

variable {cfg : Config} {s t : State} {e : Ev} {jti : Bytes}

/-! ## Steps -/

/-- A session is about to be saved only after its jti was drawn. -/
theorem notSaving_step (hs : NotSaving jti s) (h : step cfg s e = some t)
    (hdraw : ¬e.Draws jti) : NotSaving jti t := by
  intro r phone userId token hpc'
  rcases (step_effect h).req r with heq | hmove
  · rw [heq] at hpc'
    exact hs r phone userId token hpc'
  · generalize t.req r = q at hmove hpc'
    cases hmove with
    | right hpc hv =>
      injection hpc' with _ _ hjti
      exact hdraw hjti
    | reset _ => exact hs r phone userId token hpc'
    | _ => cases hpc'

/-- The `DEL` of a logout deletes the session, or fails where it is gone. -/
theorem revoke_gone {r : ℕ} {err : Option String} (hrev : Revokes s (.revoke r err))
    (hpc : (s.req r).pc = .logoutRevoke jti) (h : revokeStep s r err = some t) :
    t.redis.find (.sess jti) = none := by
  obtain ⟨jti', hpc', p, rfl, rfl⟩ := revokeStep_cases h
  rw [hpc, Pc.logoutRevoke.injEq] at hpc'
  subst hpc'
  cases err with
  | none => exact Store.find_put_self s.redis (.sess jti) none
  | some what => exact hrev r what jti rfl hpc

/-- A session that is gone, and not about to be saved, stays gone. -/
theorem gone_step (hs : NotSaving jti s) (hrev : Revokes s e) (hgone : s.redis.find (.sess jti) = none)
    (h : step cfg s e = some t) : t.redis.find (.sess jti) = none := by
  by_cases hw : e.writes s (.sess jti)
  · cases e with
    | save r err =>
      obtain ⟨phone, userId, jti', token, hpc, heq⟩ := hw
      injection heq with heq
      rw [← heq] at hpc
      exact absurd hpc (hs r phone userId token)
    | revoke r err =>
      obtain ⟨jti', hpc, heq⟩ := hw
      injection heq with heq
      rw [← heq] at hpc
      exact revoke_gone hrev hpc h
    | _ => simp [Ev.writes] at hw
  · cases hfind : t.redis.find (.sess jti) with
    | none => rfl
    | some x =>
      rw [find_step h hw hfind] at hgone
      cases hgone

/-- A request that is over keeps its answer. -/
theorem done_step {r : ℕ} (hr : (s.req r).pc = .done) (h : step cfg s e = some t) :
    (t.req r).pc = .done ∧ (t.req r).answer = (s.req r).answer := by
  rcases (step_effect h).req r with heq | hmove
  · rw [heq]
    exact ⟨hr, rfl⟩
  · generalize t.req r = q at hmove ⊢
    cases hmove with
    | stop a ha hends =>
      rw [hr] at hends
      cases e <;> exact hends.elim
    | reset _ => exact ⟨hr, rfl⟩
    | _ => simp_all

/-- A request that was not called has no answer. -/
def Uncalled (s : State) : Prop := ∀ r, (s.req r).pc = .idle → (s.req r).answer = none

theorem uncalled_step (s : State) (e : Ev) (t : State) (hs : Uncalled s) (h : step cfg s e = some t) : Uncalled t := by
  intro r hr
  rcases (step_effect h).req r with heq | hmove
  · rw [heq] at hr ⊢
    exact hs r hr
  · generalize t.req r = q at hmove hr ⊢
    cases hmove with
    | reset _ => exact hs r hr
    | _ => cases hr

/-! ## The logout and what comes after -/

/-- The logout `r` waits for its `DEL`, or the session is gone. -/
structure LoggingOut (jti : Bytes) (r : ℕ) (s : State) : Prop where
  notSaving : NotSaving jti s
  waits : (s.req r).pc = .logoutRevoke jti ∧ (s.req r).answer = none ∨ s.redis.find (.sess jti) = none

theorem loggingOut_step {r : ℕ} (hs : LoggingOut jti r s) (hrev : Revokes s e)
    (hdraw : ¬e.Draws jti) (h : step cfg s e = some t) :
    LoggingOut jti r t := by
  refine ⟨notSaving_step hs.notSaving h hdraw, ?_⟩
  rcases hs.waits with ⟨hpc, hanswer⟩ | hgone
  · rcases (step_effect h).req r with heq | hmove
    · left
      rw [heq]
      exact ⟨hpc, hanswer⟩
    · generalize t.req r = q at hmove ⊢
      cases hmove with
      | stop a ha hends =>
        rw [hpc] at hends
        cases e <;> exact hends.elim
      | reset _ => exact Or.inl ⟨hpc, hanswer⟩
      | revoked msg _ => exact Or.inr (revoke_gone hrev hpc h)
      | _ => simp_all
  · exact Or.inr (gone_step hs.notSaving hrev hgone h)

/-- The session is gone, and the authentication `r` is going to find out. -/
structure Refusing (jti : Bytes) (r : ℕ) (s : State) : Prop where
  notSaving : NotSaving jti s
  gone : s.redis.find (.sess jti) = none
  waits : (∃ userId, (s.req r).pc = .authExists jti userId ∧ (s.req r).answer = none) ∨
    (s.req r).pc = .done ∧ (s.req r).answer = some (.authenticate 0)

theorem refusing_step {r : ℕ} (hs : Refusing jti r s) (hrev : Revokes s e)
    (hdraw : ¬e.Draws jti) (h : step cfg s e = some t) : Refusing jti r t := by
  refine ⟨notSaving_step hs.notSaving h hdraw, gone_step hs.notSaving hrev hs.gone h, ?_⟩
  rcases hs.waits with ⟨userId, hpc, hanswer⟩ | ⟨hpc, hanswer⟩
  · rcases (step_effect h).req r with heq | hmove
    · left
      rw [heq]
      exact ⟨userId, hpc, hanswer⟩
    · generalize t.req r = q at hmove ⊢
      cases hmove with
      | stop a ha hends =>
        rw [hpc] at hends
        cases e <;> exact hends.elim
      | reset _ => exact Or.inl ⟨userId, hpc, hanswer⟩
      | @authenticated err jti' userId' hpc' =>
        right
        rw [hpc, Pc.authExists.injEq] at hpc'
        obtain ⟨rfl, rfl⟩ := hpc'
        -- an error counts as a session that is gone
        have hreply : SessionStore.onReply (exec err (exists_ (.sess jti)) s.redis).1 = false := by
          cases err with
          | none => simp [exec, exists_, hs.gone, SessionStore.onReply]
          | some what => rfl
        rw [hreply]
        exact ⟨rfl, rfl⟩
      | _ => simp_all
  · obtain ⟨hpc', hanswer'⟩ := done_step hpc h
    rw [hanswer] at hanswer'
    exact Or.inr ⟨hpc', hanswer'⟩

/-! ## Runs -/

/-- A jti that was seen is not drawn afterwards. -/
theorem FreshJtis.not_drawn {pre post : List Ev} (hfresh : FreshJtis cfg (pre ++ e :: post)) (he : e.Shows cfg jti) :
    ∀ e' ∈ post, ¬e'.Draws jti := by
  intro e' he'
  obtain ⟨-, hsuffix, -⟩ := List.pairwise_append.1 hfresh
  exact (List.pairwise_cons.1 hsuffix).1 e' he' jti he

/-- What steps keep that draw another jti, or none, and whose `DEL`s are in order. -/
theorem undrawn_run {I : State → Prop}
    (hI : ∀ s e t, I s → Revokes s e → ¬e.Draws jti → step cfg s e = some t → I t) {es : List Ev}
    (hs : I s) (hdraw : ∀ e ∈ es, ¬e.Draws jti) (hrev : Machine.Meets (step cfg) Revokes s es)
    (h : Machine.run (step cfg) s es = some t) : I t := by
  refine Machine.run_inv_of (C := fun s e => Revokes s e ∧ ¬e.Draws jti) (I := I) ?_ hs
    (Machine.meets_and hrev (Machine.meets_of_forall hdraw s)) h
  rintro s e t hs ⟨hrev, hdraw⟩ hst
  exact hI s e t hs hrev hdraw hst

/-- What was logged out is gone. -/
theorem logout_gone {r : ℕ} {token : Bytes} {clock : ℤ} {mid : List Ev} {s₁ u : State} {msg : String}
    (hs : Uncalled s) (hpresent : Presents cfg s (.logout r token clock))
    (hlogout : logoutStep cfg s r token clock = some s₁) (hmid : Machine.run (step cfg) s₁ mid = some u)
    (hrev : Machine.Meets (step cfg) Revokes s₁ mid)
    (hdraw : ∀ claims, cfg.jwt.verify token 0 clock = .ok (some claims) → ∀ e ∈ mid, ¬e.Draws claims.jti)
    (hok : (u.req r).answer = some (.logout true msg)) :
    ∃ claims, cfg.jwt.verify token 0 clock = .ok (some claims) ∧ NotSaving claims.jti u ∧
      u.redis.find (.sess claims.jti) = none := by
  obtain ⟨hidle, ⟨a, ha, rfl⟩ | ⟨claims, hv, rfl⟩⟩ := logoutStep_cases hlogout
  · -- a refused logout keeps its answer
    have hdone : ((s.set r ((s.req r).finish a)).req r).pc = .done ∧
        ((s.set r ((s.req r).finish a)).req r).answer = some a := by
      rw [State.set_req, if_pos rfl]
      exact ⟨rfl, rfl⟩
    have hkept : (u.req r).pc = .done ∧ (u.req r).answer = some a := by
      refine Machine.run_inv (I := fun v => (v.req r).pc = .done ∧ (v.req r).answer = some a) ?_ hdone hmid
      rintro v e v' ⟨hpc, hanswer⟩ hstep
      obtain ⟨hpc', hanswer'⟩ := done_step hpc hstep
      exact ⟨hpc', hanswer'.trans hanswer⟩
    rw [hok, Option.some.injEq] at hkept
    rw [← hkept.2] at ha
    rcases ha with ha | ha
    · cases ha
    · cases ha
  · have hstart : LoggingOut claims.jti r (s.set r ((s.req r).at (.logoutRevoke claims.jti))) := by
      refine ⟨notSaving_step (e := .logout r token clock) (hpresent r token clock claims rfl hv) hlogout
        id, Or.inl ?_⟩
      rw [State.set_req, if_pos rfl]
      exact ⟨rfl, hs r hidle⟩
    have hout : LoggingOut claims.jti r u := undrawn_run (I := LoggingOut claims.jti r)
      (fun s e t hs hrev hdraw h => loggingOut_step hs hrev hdraw h) hstart (hdraw claims hv) hrev hmid
    refine ⟨claims, hv, hout.notSaving, ?_⟩
    rcases hout.waits with ⟨-, hnone⟩ | hgone
    · rw [hok] at hnone
      cases hnone
    · exact hgone

/-- Where the session is gone, the token is refused. -/
theorem gone_authenticate {r : ℕ} {token : Bytes} {clock : ℤ} {post : List Ev} {u₁ w : State} {claims : JwtClaims}
    (hs : Uncalled s) (hnot : NotSaving claims.jti s) (hgone : s.redis.find (.sess claims.jti) = none)
    (hverify : cfg.jwt.verify token 0 clock = .ok none ∨ cfg.jwt.verify token 0 clock = .ok (some claims))
    (hauth : authenticateStep cfg s r token clock = some u₁) (hpost : Machine.run (step cfg) u₁ post = some w)
    (hrev : Machine.Meets (step cfg) Revokes u₁ post) (hdraw : ∀ e ∈ post, ¬e.Draws claims.jti) :
    ∀ a, (w.req r).answer = some a → a = .authenticate 0 := by
  have hnot' : NotSaving claims.jti u₁ := notSaving_step (e := .authenticate r token clock) hnot hauth id
  have hstart : Refusing claims.jti r u₁ := by
    obtain ⟨hidle, ⟨what, hv, -⟩ | ⟨-, rfl⟩ | ⟨claims', hv, rfl⟩⟩ := authenticateStep_cases hauth
    · rcases hverify with hverify | hverify
      · rw [hverify] at hv
        cases hv
      · rw [hverify] at hv
        cases hv
    · refine ⟨hnot', hgone, Or.inr ?_⟩
      rw [State.set_req, if_pos rfl]
      exact ⟨rfl, rfl⟩
    · rcases hverify with hverify | hverify
      · rw [hverify] at hv
        cases hv
      · rw [hverify, Except.ok.injEq, Option.some.injEq] at hv
        refine ⟨hnot', hgone, Or.inl ⟨claims.userId, ?_⟩⟩
        rw [State.set_req, if_pos rfl, hv]
        exact ⟨rfl, hs r hidle⟩
  have hend : Refusing claims.jti r w := undrawn_run (I := Refusing claims.jti r)
    (fun s e t hs hrev hdraw h => refusing_step hs hrev hdraw h) hstart hdraw hrev hpost
  intro a ha
  rcases hend.waits with ⟨userId, -, hnone⟩ | ⟨-, hrefused⟩
  · rw [hnone] at ha
    cases ha
  · rw [hrefused] at ha
    exact (Option.some.inj ha).symm

/-- **A session that was logged out stays closed.** In a run in which no jti is drawn
twice, tokens are logged out once their login has saved its session, and a logout's
`DEL` fails only where the session is gone: after `logout(token)` answered `ok`,
every later `authenticate(token)` answers 0. -/
theorem logout_authenticate (cfg : Config) (now : ℕ) (users : List User) (nextId : Int64) (es : List Ev)
    (hfresh : FreshJtis cfg es) (hpresent : Machine.Meets (step cfg) (Presents cfg) (.init now users nextId) es)
    (hrev : Machine.Meets (step cfg) Revokes (.init now users nextId) es) :
    ∀ pre r token clock mid r' clock' post rest u w msg,
      es = pre ++ .logout r token clock :: (mid ++ .authenticate r' token clock' :: (post ++ rest)) →
      Machine.run (step cfg) (.init now users nextId) (pre ++ .logout r token clock :: mid) = some u →
      (u.req r).answer = some (.logout true msg) →
      Machine.run (step cfg) u (.authenticate r' token clock' :: post) = some w →
      ∀ a, (w.req r').answer = some a → a = .authenticate 0 := by
  rintro pre r token clock mid r' clock' post rest u w msg rfl hu hok hw
  obtain ⟨s, hpre, hs⟩ := Machine.run_append.1 hu
  obtain ⟨s₁, hlogout, hmid⟩ := Machine.run_cons.1 hs
  obtain ⟨u₁, hauth, hpost⟩ := Machine.run_cons.1 hw
  have huncalled : Uncalled s := Machine.run_inv uncalled_step (fun _ _ => rfl) hpre
  have huncalled' : Uncalled u := Machine.run_inv uncalled_step (fun _ _ => rfl) hu
  -- the conditions, on the parts of the run
  have hplogout : Presents cfg s (.logout r token clock) := ((Machine.meets_append hpresent).2 s hpre).1
  have hrevs := ((Machine.meets_append hrev).2 s hpre).2 s₁ hlogout
  obtain ⟨hrmid, hrrest⟩ := Machine.meets_append hrevs
  obtain ⟨hrpost, -⟩ := Machine.meets_append ((hrrest u hmid).2 u₁ hauth)
  have hdraw : ∀ claims, cfg.jwt.verify token 0 clock = .ok (some claims) →
      ∀ e ∈ mid ++ .authenticate r' token clock' :: (post ++ rest), ¬e.Draws claims.jti :=
    fun claims hv => hfresh.not_drawn ⟨claims, hv, rfl⟩
  obtain ⟨claims, hv, hnot, hgone⟩ := logout_gone huncalled hplogout hlogout hmid hrmid
    (fun claims hv e he => hdraw claims hv e (by simp [he])) hok
  exact gone_authenticate huncalled' hnot hgone (cfg.jwt.verify_clock hv 0 clock') hauth hpost hrpost
    fun e he => hdraw claims hv e (by simp [he])

/-! ## Fixed inputs -/

/-- Strings and integers as JSON, for runs on fixed inputs. -/
def writeScalar : Json → Bytes
  | .str s => ascii "\"" ++ s ++ ascii "\""
  | .int n => ascii (toString n)
  | _ => ascii "null"

/-- JSON of one level. -/
def writeFlat : Json → Bytes
  | .obj fields =>
    let members := fields.map fun f => ascii "\"" ++ f.1 ++ ascii "\":" ++ writeScalar f.2
    ascii "\x7b" ++ (members.intersperse (ascii ",")).flatten ++ ascii "\x7d"
  | json => writeScalar json

/-- Payload segments of user 1's tokens, and the base64url of `HMAC-SHA256` under the default
secret of the texts that end with them: jti `5f3a` or none, issued at 1700000000 or a second
later. -/
def flatDigests : List (Bytes × Bytes) :=
  [(ascii "eyJleHAiOjE3MDAwMDcyMDAsImlhdCI6MTcwMDAwMDAwMCwiaXNzIjoic2Vja2lsbC1jcHAiLCJqdGkiOiI1ZjNhIiwic3ViIjoiMSJ9",
      ascii "d-l73Du9QK_l_VeW6K0J-2zPeBpRnyv_W-gNqMHG2NY"),
    (ascii "eyJleHAiOjE3MDAwMDcyMDEsImlhdCI6MTcwMDAwMDAwMSwiaXNzIjoic2Vja2lsbC1jcHAiLCJqdGkiOiI1ZjNhIiwic3ViIjoiMSJ9",
      ascii "qDX0BDN5T3S5Eu-RoaJg7AIGVcpS4TXG0Rf76OiwRtc"),
    (ascii "eyJleHAiOjE3MDAwMDcyMDAsImlhdCI6MTcwMDAwMDAwMCwiaXNzIjoic2Vja2lsbC1jcHAiLCJqdGkiOiIiLCJzdWIiOiIxIn0",
      ascii "qXdLtN3E7GXBMTxk2-um_ovFdE-J5Yi2X7Nls2bsmIA"),
    (ascii "eyJleHAiOjE3MDAwMDcyMDEsImlhdCI6MTcwMDAwMDAwMSwiaXNzIjoic2Vja2lsbC1jcHAiLCJqdGkiOiIiLCJzdWIiOiIxIn0",
      ascii "UTpQbxADLXY-iihUbKpdKdiDsAz56mPQ9nwaZvGjfWA")]

/-- `HMAC-SHA256` on those texts; no other is signed in these runs. -/
def flatMac (m : Bytes) : Bytes :=
  let found := flatDigests.find? fun d => ascii "eyJhbGciOiJIUzI1NiIsInR5cCI6IkpXVCJ9." ++ d.1 = m
  (found.bind fun d => base64UrlDecode d.2).getD (List.replicate 32 0)

theorem flatMac_length (m : Bytes) : (flatMac m).length = 32 := by
  have hdigests : ∀ d ∈ flatDigests, ((base64UrlDecode d.2).getD (List.replicate 32 0)).length = 32 := by
    decide +kernel
  unfold flatMac
  cases hfind : flatDigests.find? fun d => ascii "eyJhbGciOiJIUzI1NiIsInR5cCI6IkpXVCJ9." ++ d.1 = m with
  | none => rfl
  | some d => exact hdigests d (List.mem_of_find?_eq_some hfind)

/-- A JWT that writes and reads back the tokens of user 1. -/
def flatJwt : Jwt :=
  let jwt : Jwt := ⟨ascii "seckill-cpp-dev-secret", ascii "seckill-cpp", 7200, fun _ => flatMac, writeFlat,
    fun _ => none⟩
  { jwt with readJson := fun b =>
      [Jwt.header, jwt.payload 1 (ascii "5f3a") 1700000000].find? fun v => writeFlat v = b }

def flatConfig : Config := .default flatJwt saltedHash

def flatToken : Bytes := flatJwt.sign 1 (ascii "5f3a") 0 1700000000

example : flatToken = ascii "eyJhbGciOiJIUzI1NiIsInR5cCI6IkpXVCJ9" ++ ascii "." ++
    ascii "eyJleHAiOjE3MDAwMDcyMDAsImlhdCI6MTcwMDAwMDAwMCwiaXNzIjoic2Vja2lsbC1jcHAiLCJqdGkiOiI1ZjNhIiwic3ViIjoiMSJ9" ++
    ascii "." ++ ascii "d-l73Du9QK_l_VeW6K0J-2zPeBpRnyv_W-gNqMHG2NY" := by decide +kernel

/-- A login that succeeds. -/
def loggedIn : List Ev :=
  [.login 0 "13800000000" "rightpw", .checkLocked 0 none, .loginSelect 0 none,
    .loginHash 0 false (ascii "5f3a") 1700000000, .save 0 none, .saved 0]

/-- A logout whose `DEL` fails, and an authentication after it. -/
theorem logout_authenticate_alive :
    ∃ u w, Machine.run (step flatConfig) (.init 0 [onlyUser] 2)
        (loggedIn ++ [.logout 1 flatToken 1700000001, .revoke 1 (some "Connection refused")]) = some u ∧
      (u.req 0).answer = some (.login true flatToken "OK") ∧
      (u.req 1).answer = some (.logout true "ALREADY_LOGGED_OUT") ∧
      Machine.run (step flatConfig) u [.authenticate 2 flatToken 1700000002, .sessionExists 2 none] = some w ∧
      (w.req 2).answer = some (.authenticate 1) := by
  have hrun : ((Machine.run (step flatConfig) (.init 0 [onlyUser] 2)
      (loggedIn ++ [.logout 1 flatToken 1700000001, .revoke 1 (some "Connection refused")])).map fun u =>
        ((u.req 0).answer, (u.req 1).answer, (Machine.run (step flatConfig) u
          [.authenticate 2 flatToken 1700000002, .sessionExists 2 none]).map fun w => (w.req 2).answer)) =
      some (some (.login true flatToken "OK"), some (.logout true "ALREADY_LOGGED_OUT"),
        some (some (.authenticate 1))) := by decide +kernel
  obtain ⟨u, hu, hanswers⟩ := Option.map_eq_some_iff.1 hrun
  obtain ⟨hlogin, hanswers⟩ := Prod.mk.inj hanswers
  obtain ⟨hlogout, hanswers⟩ := Prod.mk.inj hanswers
  obtain ⟨w, hw, hauth⟩ := Option.map_eq_some_iff.1 hanswers
  exact ⟨u, w, hu, hlogin, hlogout, hw, hauth⟩

/-- A request is about to save a session whose jti it drew. -/
theorem saving_run {now : ℕ} {users : List User} {nextId : Int64} {es : List Ev} {r : ℕ} {phone : String}
    {userId : Int64} {token : Bytes} (h : Machine.run (step cfg) (.init now users nextId) es = some s)
    (hpc : (s.req r).pc = .loginSave phone userId jti token) :
    ∃ fails clock, .loginHash r fails jti clock ∈ es := by
  have htrace : ∀ r phone userId token, (s.req r).pc = .loginSave phone userId jti token →
      ∃ fails clock, .loginHash r fails jti clock ∈ es := by
    refine Machine.run_trace (I := fun es s => ∀ r phone userId token,
      (s.req r).pc = .loginSave phone userId jti token → ∃ fails clock, .loginHash r fails jti clock ∈ es) ?_ ?_ h
    · intro r phone userId token hpc
      cases hpc
    · intro es s e t _ ih hst r phone userId token hpc'
      rcases (step_effect hst).req r with heq | hmove
      · rw [heq] at hpc'
        obtain ⟨fails, clock, hmem⟩ := ih r phone userId token hpc'
        exact ⟨fails, clock, List.mem_append_left _ hmem⟩
      · generalize t.req r = q at hmove hpc'
        cases hmove with
        | right hpc hv =>
          injection hpc' with _ _ hjti
          rw [hjti]
          exact ⟨_, _, List.mem_append_right _ List.mem_cons_self⟩
        | reset _ =>
          obtain ⟨fails, clock, hmem⟩ := ih r phone userId token hpc'
          exact ⟨fails, clock, List.mem_append_left _ hmem⟩
        | _ => cases hpc'
  exact htrace r phone userId token hpc

/-- After that login, nobody is about to save a session. -/
theorem loggedIn_notSaving (jti : Bytes) (h : Machine.run (step flatConfig) (.init 0 [onlyUser] 2) loggedIn = some s) :
    NotSaving jti s := by
  intro r phone userId token hpc
  obtain ⟨fails, clock, hmem⟩ := saving_run h hpc
  have hzero : r = 0 := by
    simp only [loggedIn, List.mem_cons, reduceCtorEq, Ev.loginHash.injEq, List.not_mem_nil, or_false, false_or] at hmem
    exact hmem.1
  have hrun : ((Machine.run (step flatConfig) (.init 0 [onlyUser] 2) loggedIn).map fun s => (s.req 0).pc) =
      some .done := by rfl
  rw [h, Option.map_some, Option.some.injEq] at hrun
  rw [hzero, hrun] at hpc
  cases hpc

/-- The same with a `DEL` that works. -/
theorem logout_authenticate_refused :
    ∃ w, Machine.run (step flatConfig) (.init 0 [onlyUser] 2)
        (loggedIn ++ .logout 1 flatToken 1700000001 :: ([.revoke 1 none] ++
          .authenticate 2 flatToken 1700000002 :: ([.sessionExists 2 none] ++ []))) = some w ∧
      (w.req 2).answer = some (.authenticate 0) := by
  have hrun : ((Machine.run (step flatConfig) (.init 0 [onlyUser] 2)
      (loggedIn ++ .logout 1 flatToken 1700000001 :: [.revoke 1 none])).map fun u =>
        ((u.req 1).answer, (Machine.run (step flatConfig) u
          (.authenticate 2 flatToken 1700000002 :: [.sessionExists 2 none])).map fun w =>
            (w.req 2).answer.isSome)) =
      some (some (.logout true "OK"), some true) := by decide +kernel
  obtain ⟨u, hu, hanswers⟩ := Option.map_eq_some_iff.1 hrun
  obtain ⟨hok, hanswers⟩ := Prod.mk.inj hanswers
  obtain ⟨w, hw, hanswer⟩ := Option.map_eq_some_iff.1 hanswers
  obtain ⟨a, ha⟩ := Option.isSome_iff_exists.1 hanswer
  have hfresh : FreshJtis flatConfig (loggedIn ++ .logout 1 flatToken 1700000001 :: ([.revoke 1 none] ++
      .authenticate 2 flatToken 1700000002 :: ([.sessionExists 2 none] ++ []))) := by
    simp [FreshJtis, loggedIn, Ev.Shows, Ev.Draws]
  have hpresent : Machine.Meets (step flatConfig) (Presents flatConfig) (.init 0 [onlyUser] 2)
      (loggedIn ++ .logout 1 flatToken 1700000001 :: ([.revoke 1 none] ++
        .authenticate 2 flatToken 1700000002 :: ([.sessionExists 2 none] ++ []))) := by
    have hother : ∀ es : List Ev, (∀ e ∈ es, ∀ r token clock, e ≠ .logout r token clock) → ∀ s,
        Machine.Meets (step flatConfig) (Presents flatConfig) s es := by
      intro es hes s
      refine Machine.meets_imp (fun s e he r token clock claims heq => ?_) (Machine.meets_of_forall hes s)
      exact absurd heq (he r token clock)
    refine Machine.meets_of_append (hother _ (by simp [loggedIn]) _) fun s hs => ⟨?_, fun t _ => ?_⟩
    · exact fun _ _ _ claims _ _ => loggedIn_notSaving claims.jti hs
    · exact hother _ (by simp) t
  have hrev : Machine.Meets (step flatConfig) Revokes (.init 0 [onlyUser] 2)
      (loggedIn ++ .logout 1 flatToken 1700000001 :: ([.revoke 1 none] ++
        .authenticate 2 flatToken 1700000002 :: ([.sessionExists 2 none] ++ []))) := by
    refine Machine.meets_imp (C := fun _ e => ∀ r what, e ≠ .revoke r (some what))
      (fun s e he r what jti heq => absurd heq (he r what)) (Machine.meets_of_forall ?_ _)
    simp [loggedIn]
  have hzero : a = .authenticate 0 := logout_authenticate flatConfig 0 [onlyUser] 2 _ hfresh hpresent hrev
    loggedIn 1 flatToken 1700000001 [.revoke 1 none] 2 1700000002 [.sessionExists 2 none] [] u w "OK" rfl hu hok hw a ha
  refine ⟨w, ?_, by rw [ha, hzero]⟩
  have hall := Machine.run_append.2 ⟨u, hu, hw⟩
  simpa using hall

end Seckill.UserService
