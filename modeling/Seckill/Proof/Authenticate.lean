import Seckill.Proof.Tokens

/-!
# Who is authenticated

`authenticate_session`: an `authenticate` that answers user `u` stands on two things.
The token was signed by a login that compared the right password of the enabled
account `u`, and had not expired when it was verified (`verify_call`). And the
session of its jti was stored, and not deleted since (`Stored`). As no jti is drawn
twice, the login that signed and the login that stored are one (`stored_session`).
-/

namespace Seckill.UserService

open Redis Machine

variable {cfg : Config} {s₀ s t : State} {es : List Ev} {e : Ev} {r : ℕ} {jti : Bytes} {u : Int64} {clock : ℤ}

/-- The login `q` is about to compare the right password of user `u`, whose account is enabled. -/
def Compares (cfg : Config) (s : State) (q : ℕ) (u : Int64) : Prop :=
  ∃ phone password user, (s.req q).pc = .loginHash phone password user ∧ user ∈ s.users ∧ user.id = u ∧
    user.status = 1 ∧ cfg.verdict password user = some true

/-- The call of `sign` that a step makes. -/
def signs (cfg : Config) (s : State) : Ev → Option Jwt.Call
  | .loginHash q fails jti clock => match (s.req q).pc with
    | .loginHash _ password user =>
      if fails = false ∧ cfg.verdict password user = some true then some ⟨user.id, jti, 0, clock⟩ else none
    | _ => none
  | _ => none

/-- The calls of `sign` along a run. -/
def signed (cfg : Config) (s₀ : State) (es : List Ev) : Set Jwt.Call :=
  {c | Past (step cfg) s₀ es fun s e => signs cfg s e = some c}

/-- The step deletes the session of the jti. -/
def Deletes (jti : Bytes) (s : State) (e : Ev) : Prop := ∃ r, e = .revoke r none ∧ (s.req r).pc = .logoutRevoke jti

/-- A login of user `u` compared the right password of the enabled account, signed the jti
for it at `clock` and stored its session; no `DEL` of the session has taken effect since. -/
def Opened (cfg : Config) (s₀ : State) (es : List Ev) (u : Int64) (jti : Bytes) (clock : ℤ) : Prop :=
  ∃ a q b c v w, es = a ++ .loginHash q false jti clock :: (b ++ .save q none :: c) ∧
    run (step cfg) s₀ a = some v ∧ Compares cfg v q u ∧
    run (step cfg) s₀ (a ++ .loginHash q false jti clock :: (b ++ [.save q none])) = some w ∧
    w.redis.find (.sess jti) ≠ none ∧ ¬Past (step cfg) w c (Deletes jti)

/-- The session of the jti was stored by a login, and not deleted since. -/
def Stored (cfg : Config) (s₀ : State) (es : List Ev) (jti : Bytes) : Prop :=
  ∃ b q c v w phone u token, es = b ++ .save q none :: c ∧ run (step cfg) s₀ b = some v ∧
    (v.req q).pc = .loginSave phone u jti token ∧ step cfg v (.save q none) = some w ∧
    w.redis.find (.sess jti) ≠ none ∧ ¬Past (step cfg) w c (Deletes jti)

/-- What a run says about the points its requests are at, and about the sessions. -/
structure Trail (cfg : Config) (s₀ : State) (es : List Ev) (s : State) : Prop where
  selected : ∀ r phone password user, (s.req r).pc = .loginHash phone password user →
    user ∈ s.users ∧ user.status = 1
  saving : ∀ r phone u jti token, (s.req r).pc = .loginSave phone u jti token →
    ∃ clock, Past (step cfg) s₀ es fun v e => e = .loginHash r false jti clock ∧ Compares cfg v r u
  checking : ∀ r jti u, (s.req r).pc = .authExists jti u →
    ∃ d token clock rest claims, es = d ++ .authenticate r token clock :: rest ∧
      cfg.jwt.verify token 0 clock = .ok (some claims) ∧ claims.jti = jti ∧ claims.userId = u
  stored : ∀ jti, s.redis.find (.sess jti) ≠ none → Stored cfg s₀ es jti

/-! ## One step -/

theorem selected_step (h : ∀ r phone password user, (s.req r).pc = .loginHash phone password user →
      user ∈ s.users ∧ user.status = 1) (hs : step cfg s e = some t) {phone password : String} {user : User}
    (hpc : (t.req r).pc = .loginHash phone password user) : user ∈ t.users ∧ user.status = 1 := by
  have husers := (step_effect hs).users
  rcases (step_effect hs).req r with heq | hmove
  · rw [heq] at hpc
    exact ⟨husers.subset (h r phone password user hpc).1, (h r phone password user hpc).2⟩
  · generalize t.req r = q at hmove hpc
    cases hmove with
    | found hpc' huser hstatus =>
      injection hpc with _ _ hsame
      rw [← hsame]
      exact ⟨husers.subset (List.mem_of_find?_eq_some huser), hstatus⟩
    | reset _ => exact ⟨husers.subset (h r phone password user hpc).1, (h r phone password user hpc).2⟩
    | _ => cases hpc

theorem saving_step (hrun : run (step cfg) s₀ es = some s) (h : Trail cfg s₀ es s) (hs : step cfg s e = some t)
    {phone : String} {token : Bytes} (hpc : (t.req r).pc = .loginSave phone u jti token) :
    ∃ clock, Past (step cfg) s₀ (es ++ [e]) fun v e => e = .loginHash r false jti clock ∧ Compares cfg v r u := by
  rcases (step_effect hs).req r with heq | hmove
  · rw [heq] at hpc
    obtain ⟨clock, hpast⟩ := h.saving r phone u jti token hpc
    exact ⟨clock, hpast.snoc e⟩
  · generalize t.req r = q at hmove hpc
    cases hmove with
    | right hpc' hv =>
      injection hpc with _ hid hjti
      obtain ⟨hmem, hstatus⟩ := h.selected r _ _ _ hpc'
      rw [hjti]
      exact ⟨_, past_last hrun ⟨rfl, _, _, _, hpc', hmem, hid, hstatus, hv⟩⟩
    | reset _ =>
      obtain ⟨clock, hpast⟩ := h.saving r phone u jti token hpc
      exact ⟨clock, hpast.snoc _⟩
    | _ => cases hpc

theorem checking_step (h : Trail cfg s₀ es s) (hs : step cfg s e = some t) (hpc : (t.req r).pc = .authExists jti u) :
    ∃ d token clock rest claims, es ++ [e] = d ++ .authenticate r token clock :: rest ∧
      cfg.jwt.verify token 0 clock = .ok (some claims) ∧ claims.jti = jti ∧ claims.userId = u := by
  have hbefore : (s.req r).pc = .authExists jti u →
      ∃ d token clock rest claims, es ++ [e] = d ++ .authenticate r token clock :: rest ∧
        cfg.jwt.verify token 0 clock = .ok (some claims) ∧ claims.jti = jti ∧ claims.userId = u := by
    intro hpc
    obtain ⟨d, token, clock, rest, claims, rfl, hclaims⟩ := h.checking r jti u hpc
    exact ⟨d, token, clock, rest ++ [e], claims, by simp, hclaims⟩
  rcases (step_effect hs).req r with heq | hmove
  · rw [heq] at hpc
    exact hbefore hpc
  · generalize t.req r = q at hmove hpc
    cases hmove with
    | authenticate hpc' hv =>
      injection hpc with hjti hid
      exact ⟨es, _, _, [], _, rfl, hv, hjti, hid⟩
    | reset _ => exact hbefore hpc
    | _ => cases hpc

/-- A stored session is stored still after a step that does not delete it. -/
theorem Stored.snoc (h : Stored cfg s₀ es jti) (hrun : run (step cfg) s₀ es = some s) (he : ¬Deletes jti s e) :
    Stored cfg s₀ (es ++ [e]) jti := by
  obtain ⟨b, q, c, v, w, phone, u, token, rfl, hv, hpc, hw, hfind, hkept⟩ := h
  have hc := run_tail (run_rest hrun hv) hw
  exact ⟨b, q, c ++ [e], v, w, phone, u, token, by simp, hv, hpc, hw, hfind, not_past_snoc hkept hc he⟩

theorem stored_step (hrun : run (step cfg) s₀ es = some s) (h : Trail cfg s₀ es s) (hs : step cfg s e = some t)
    (hfind : t.redis.find (.sess jti) ≠ none) : Stored cfg s₀ (es ++ [e]) jti := by
  by_cases hwrites : e.writes s (.sess jti)
  swap
  · -- the session was there before, and the step is no `DEL`
    obtain ⟨x, hx⟩ := Option.ne_none_iff_exists'.1 hfind
    have hbefore : s.redis.find (.sess jti) ≠ none := by
      rw [find_step hs hwrites hx]
      exact Option.some_ne_none x
    refine (h.stored jti hbefore).snoc hrun ?_
    rintro ⟨r, rfl, hpc⟩
    exact hwrites ⟨jti, hpc, rfl⟩
  cases e with
  | save r err =>
    obtain ⟨phone, u, jti', token, hpc, hjti⟩ := hwrites
    obtain rfl := Key.sess.inj hjti
    cases err with
    | none => exact ⟨es, r, [], s, t, phone, u, token, rfl, hrun, hpc, hs, hfind, fun hpast => by
        obtain ⟨v, e, ⟨pre, post, hnil, -⟩, -⟩ := hpast
        simp at hnil⟩
    | some what =>
      obtain ⟨_, _, _, _, -, p, rfl, rfl⟩ := saveStep_cases hs
      exact (h.stored jti hfind).snoc hrun fun ⟨r, he, _⟩ => by cases he
  | revoke r err =>
    obtain ⟨jti', hpc, hjti⟩ := hwrites
    obtain rfl := Key.sess.inj hjti
    obtain ⟨jti', hpc', p, rfl, rfl⟩ := revokeStep_cases hs
    obtain rfl := Pc.logoutRevoke.inj (hpc.symm.trans hpc')
    cases err with
    | none => exact absurd (Store.find_put_self s.redis (.sess jti) none) hfind
    | some what => exact (h.stored jti hfind).snoc hrun fun ⟨r, he, _⟩ => by cases he
  | _ => simp [Ev.writes] at hwrites

theorem trail_run {now : ℕ} {users : List User} {nextId : Int64}
    (h : run (step cfg) (.init now users nextId) es = some s) : Trail cfg (.init now users nextId) es s := by
  refine run_trace (I := Trail cfg (.init now users nextId)) ?_ ?_ h
  · refine ⟨fun r _ _ _ hpc => ?_, fun r _ _ _ _ hpc => ?_, fun r _ _ hpc => ?_, fun jti hfind => ?_⟩
    · cases hpc
    · cases hpc
    · cases hpc
    · exact absurd rfl hfind
  · intro es s e t hrun h hs
    exact ⟨fun r _ _ _ hpc => selected_step h.selected hs hpc, fun r _ _ _ _ hpc => saving_step hrun h hs hpc,
      fun r _ _ hpc => checking_step h hs hpc, fun jti hfind => stored_step hrun h hs hfind⟩

/-! ## The login that signed, and the login that stored -/

theorem signs_some {c : Jwt.Call} (h : signs cfg s e = some c) :
    ∃ q, e = .loginHash q false c.jti c.clock ∧ c.nowSeconds = 0 ∧
      ∃ phone password user, (s.req q).pc = .loginHash phone password user ∧ c.userId = user.id := by
  unfold signs at h
  split at h
  next q fails jti clock =>
    split at h
    next phone password user hpc =>
      split at h
      next hright =>
        obtain rfl := Option.some.inj h
        rw [hright.1]
        exact ⟨q, rfl, rfl, phone, password, user, hpc, rfl⟩
      next => cases h
    next => cases h
  next => cases h

/-- **The session that is stored was opened by the login that signed its jti.** -/
theorem stored_session {now : ℕ} {users : List User} {nextId : Int64} {c : Jwt.Call}
    (hjti : es.Pairwise fun e e' => ∀ jti, e.Draws jti → ¬e'.Draws jti)
    (hstored : Stored cfg (.init now users nextId) es jti) {d rest : List Ev} (hes : es = d ++ rest)
    (hc : c ∈ signed cfg (.init now users nextId) d) (hcjti : c.jti = jti) :
    Opened cfg (.init now users nextId) es c.userId jti c.clock := by
  obtain ⟨b, q, f, v, w, phone, u, token, hsplit, hv, hpc, hw, hfind, hkept⟩ := hstored
  -- the login whose session it is drew the jti
  obtain ⟨clock, s₁, e₁, ⟨a, b', hb, hs₁⟩, rfl, hcompares⟩ := (trail_run hv).saving q phone u jti token hpc
  -- and so did the one that signed
  obtain ⟨s₂, e₂, ⟨a', d', hd, hs₂⟩, hsigns⟩ := hc
  obtain ⟨q', rfl, -, phone', password', user', hpc', hid⟩ := signs_some hsigns
  have hplace₁ : es = a ++ .loginHash q false jti clock :: (b' ++ .save q none :: f) := by
    rw [hsplit, hb]
    simp
  have hplace₂ : es = a' ++ .loginHash q' false c.jti c.clock :: (d' ++ rest) := by
    rw [hes, hd]
    simp
  obtain ⟨rfl, hsame, -⟩ := split_unique hjti hplace₁ hplace₂ (fun h => h jti rfl hcjti)
    fun h => h jti hcjti rfl
  obtain ⟨rfl, -, -, rfl⟩ := Ev.loginHash.inj hsame
  obtain rfl := Option.some.inj (hs₁.symm.trans hs₂)
  obtain ⟨phone'', password'', user'', hpc'', hmem, hid', hrest⟩ := hcompares
  rw [hpc', Pc.loginHash.injEq] at hpc''
  obtain ⟨-, rfl, rfl⟩ := hpc''
  refine ⟨a, q, b', f, s₁, w, hplace₁, hs₁, ⟨phone', _, user', hpc', hmem, hid.symm, hrest⟩, ?_, hfind, hkept⟩
  have hbefore : run (step cfg) (.init now users nextId) (b ++ [.save q none]) = some w := run_snoc.2 ⟨v, hv, hw⟩
  rw [hb] at hbefore
  simpa using hbefore

/-- **Who is authenticated has a session.** In every run of logins, logouts and
authentications, whichever Redis commands fail, under an ideal MAC and with no jti
drawn twice: when `EXISTS` was evaluated, `authenticate` answers `u ≠ 0` only if a login
of user `u` compared the right password of the enabled account, signed the jti of the
token and stored the session, if no `DEL` of it took effect since, and if the token had
not expired when it was verified. A command that fails makes it answer 0. -/
theorem authenticate_session (cfg : Config) (now : ℕ) (users : List User) (nextId : Int64) (es : List Ev)
    (hjti : es.Pairwise fun e e' => ∀ jti, e.Draws jti → ¬e'.Draws jti)
    (hmac : ∀ d r token clock rest, es = d ++ .authenticate r token clock :: rest →
      Jwt.Unforged cfg.jwt (signed cfg (.init now users nextId) d) token)
    (hjson : ∀ c ∈ signed cfg (.init now users nextId) es,
      cfg.jwt.readJson (cfg.jwt.writeJson (cfg.jwt.payload c.userId c.jti c.time)) =
        some (cfg.jwt.payload c.userId c.jti c.time))
    (s t : State) (r : ℕ) (err : Option String) (hrun : run (step cfg) (.init now users nextId) es = some s)
    (hstep : step cfg s (.sessionExists r err) = some t) :
    (err ≠ none → (t.req r).answer = some (.authenticate 0)) ∧
      ∀ u, u ≠ 0 → (t.req r).answer = some (.authenticate u) →
        ∃ jti clock, Opened cfg (.init now users nextId) es u jti clock ∧
          ∃ d token clock' rest, es = d ++ .authenticate r token clock' :: rest ∧
            cfg.jwt.verify token 0 clock' =
              .ok (some ⟨u, jti, cfg.jwt.issuer, clock, clock + cfg.jwt.ttlSeconds⟩) ∧
            clock' < clock + cfg.jwt.ttlSeconds := by
  obtain ⟨jti, userId, hpc, p, rfl, rfl⟩ := existsStep_cases hstep
  rw [State.set_req, if_pos rfl]
  refine ⟨fun herr => ?_, fun u hu hanswer => ?_⟩
  · cases err with
    | none => exact absurd rfl herr
    | some what => rfl
  · have htrail := trail_run hrun
    have hsession : SessionStore.onReply (exec err (exists_ (.sess jti)) s.redis).1 = true ∧ userId = u := by
      simp only [Req.finish, Option.some.injEq, Answer.authenticate.injEq] at hanswer
      split at hanswer
      · rename_i hreply
        exact ⟨hreply, hanswer⟩
      · exact absurd hanswer.symm hu
    obtain ⟨hreply, rfl⟩ := hsession
    -- the session is there
    have hfind : s.redis.find (.sess jti) ≠ none := by
      intro hnone
      cases err with
      | none => simp [exec, exists_, hnone, SessionStore.onReply] at hreply
      | some what => cases hreply
    -- the token was signed
    obtain ⟨d, token, clock', rest, claims, hes, hverify, hcjti, hcid⟩ := htrail.checking r jti userId hpc
    have hpre : ∀ c ∈ signed cfg (.init now users nextId) d, c ∈ signed cfg (.init now users nextId) es := by
      rintro c ⟨v, e, ⟨pre, post, rfl, hv⟩, hc⟩
      exact ⟨v, e, ⟨pre, post ++ .authenticate r token clock' :: rest, by rw [hes]; simp, hv⟩, hc⟩
    obtain ⟨c, hc, -, hclaims, hlive⟩ := Jwt.verify_call cfg.jwt (signed cfg (.init now users nextId) d) token 0 clock' claims
      (hmac d r token clock' rest hes) (fun c hc => hjson c (hpre c hc)) hverify
    -- login gives `sign` no time of its own
    have htime : c.time = c.clock := by
      obtain ⟨v, e, -, hsigns⟩ := hc
      obtain ⟨q, -, hzero, -⟩ := signs_some hsigns
      unfold Jwt.Call.time
      rw [hzero]
      rfl
    rw [htime] at hclaims hlive
    subst hclaims
    refine ⟨jti, c.clock, ?_, d, token, clock', rest, hes, ?_, hlive⟩
    · rw [← hcid]
      exact stored_session hjti (htrail.stored jti hfind) hes hc hcjti
    · rw [hverify, ← hcid, ← hcjti]

/-! ## Fixed inputs -/

def sealedConfig : Config := .default Jwt.sealedJwt saltedHash

def sealedToken : Bytes := Jwt.sealedJwt.sign 1 (ascii "5f3a") 0 1700000000

/-- A login that succeeds, and an authentication an hour later. -/
def visited : List Ev := loggedIn ++ [.authenticate 1 sealedToken 1700003600]

theorem visited_drawn : visited.Pairwise fun e e' => ∀ jti, e.Draws jti → ¬e'.Draws jti := by
  simp [visited, loggedIn, Ev.Draws]

/-- The one call of `sign` in it. -/
theorem visited_signed {es rest : List Ev} (hes : visited = es ++ rest) {c : Jwt.Call}
    (hc : c ∈ signed sealedConfig (.init 0 [onlyUser] 2) es) : c = ⟨1, ascii "5f3a", 0, 1700000000⟩ := by
  obtain ⟨v, e, ⟨pre, post, rfl, hv⟩, hsigns⟩ := hc
  obtain ⟨q, rfl, -⟩ := signs_some hsigns
  have hmem : Ev.loginHash q false c.jti c.clock ∈ visited := by
    rw [hes]
    simp
  simp only [visited, loggedIn, List.mem_append, List.mem_cons, List.not_mem_nil, reduceCtorEq, or_false, false_or,
    Ev.loginHash.injEq, true_and] at hmem
  obtain ⟨rfl, hjti, hclock⟩ := hmem
  have hplace : visited = [.login 0 "13800000000" "rightpw", .checkLocked 0 none, .loginSelect 0 none] ++
      .loginHash 0 false (ascii "5f3a") 1700000000 ::
        [.save 0 none, .saved 0, .authenticate 1 sealedToken 1700003600] := rfl
  have hplace' : visited = pre ++ .loginHash 0 false c.jti c.clock :: (post ++ rest) := by
    rw [hes]
    simp
  obtain ⟨rfl, -⟩ := split_unique visited_drawn hplace hplace' (fun h => h (ascii "5f3a") rfl hjti)
    fun h => h (ascii "5f3a") hjti rfl
  have hcall : ((run (step sealedConfig) (.init 0 [onlyUser] 2)
      [.login 0 "13800000000" "rightpw", .checkLocked 0 none, .loginSelect 0 none]).bind fun v =>
        signs sealedConfig v (.loginHash 0 false (ascii "5f3a") 1700000000)) =
      some ⟨1, ascii "5f3a", 0, 1700000000⟩ := by decide +kernel
  rw [hv, Option.bind_some] at hcall
  rw [hjti, hclock] at hsigns
  exact Option.some.inj (hsigns.symm.trans hcall)

/-- The session of that login is found, while Redis answers. -/
theorem authenticate_session_visited :
    ∃ s t, run (step sealedConfig) (.init 0 [onlyUser] 2) visited = some s ∧
      step sealedConfig s (.sessionExists 1 none) = some t ∧ (t.req 1).answer = some (.authenticate 1) ∧
      ∃ jti clock, Opened sealedConfig (.init 0 [onlyUser] 2) visited 1 jti clock := by
  have hruns : ((run (step sealedConfig) (.init 0 [onlyUser] 2) visited).map fun s =>
      (step sealedConfig s (.sessionExists 1 none)).map fun t => (t.req 1).answer) =
        some (some (some (.authenticate 1))) := by decide +kernel
  obtain ⟨s, hs, hafter⟩ := Option.map_eq_some_iff.1 hruns
  obtain ⟨t, ht, hanswer⟩ := Option.map_eq_some_iff.1 hafter
  have hmac : ∀ d r token clock rest, visited = d ++ .authenticate r token clock :: rest →
      Jwt.Unforged Jwt.sealedJwt (signed sealedConfig (.init 0 [onlyUser] 2) d) token := by
    intro d r token clock rest hd
    have hone : visited.Pairwise fun e e' => ∀ r token clock r' token' clock', e = .authenticate r token clock →
        e' ≠ .authenticate r' token' clock' := by
      simp [visited, loggedIn]
    have hlast : visited = loggedIn ++ .authenticate 1 sealedToken 1700003600 :: [] := rfl
    obtain ⟨rfl, hsame, -⟩ := split_unique hone hd hlast (fun h => h _ _ _ _ _ _ rfl rfl) fun h => h _ _ _ _ _ _ rfl rfl
    obtain ⟨-, rfl, -⟩ := Ev.authenticate.inj hsame
    refine Jwt.sealedJwt_unforged (c := ⟨1, ascii "5f3a", 0, 1700000000⟩) ?_ rfl (by decide +kernel)
    have hcall : ((run (step sealedConfig) (.init 0 [onlyUser] 2)
        [.login 0 "13800000000" "rightpw", .checkLocked 0 none, .loginSelect 0 none]).map fun v =>
          signs sealedConfig v (.loginHash 0 false (ascii "5f3a") 1700000000)) =
        some (some ⟨1, ascii "5f3a", 0, 1700000000⟩) := by decide +kernel
    obtain ⟨v, hv, hsigns⟩ := Option.map_eq_some_iff.1 hcall
    exact ⟨v, _, ⟨_, [.save 0 none, .saved 0], rfl, hv⟩, hsigns⟩
  have hjson : ∀ c ∈ signed sealedConfig (.init 0 [onlyUser] 2) visited,
      Jwt.sealedJwt.readJson (Jwt.sealedJwt.writeJson (Jwt.sealedJwt.payload c.userId c.jti c.time)) =
        some (Jwt.sealedJwt.payload c.userId c.jti c.time) := by
    intro c hc
    rw [visited_signed (List.append_nil visited).symm hc]
    rfl
  obtain ⟨jti, clock, hopened, -⟩ := (authenticate_session sealedConfig 0 [onlyUser] 2 visited visited_drawn hmac hjson
    s t 1 none hs ht).2 1 (by decide) hanswer
  exact ⟨s, t, hs, ht, hanswer, jti, clock, hopened⟩

end Seckill.UserService
