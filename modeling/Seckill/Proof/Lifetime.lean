import Seckill.Proof.Authenticate

/-!
# How long a session lives

The session of a jti lives from the `SETEX` of its login until its time is over or a
`DEL` of it takes effect, and no longer (`alive_iff`). So a token that is verified
authenticates its user exactly that long: `authenticate_iff_open`.
-/

namespace Seckill.UserService

open Redis Machine

variable {cfg : Config} {s₀ s t : State} {es : List Ev} {e : Ev} {r : ℕ} {jti : Bytes}

/-- The time (ms) a session is stored for. -/
def Config.sessionMs (cfg : Config) : ℕ := cfg.sessionTtl.toNat * 1000

/-- A login stored the session of the jti in state `v`, and no `DEL` of it took effect since. -/
def StoredAt (cfg : Config) (s₀ : State) (es : List Ev) (jti : Bytes) (v : State) : Prop :=
  ∃ b q c w phone u token, es = b ++ .save q none :: c ∧ run (step cfg) s₀ b = some v ∧
    (v.req q).pc = .loginSave phone u jti token ∧ step cfg v (.save q none) = some w ∧
    ¬Past (step cfg) w c (Deletes jti)

/-- The session of the jti is open in state `s`, after the events `es`. -/
def Open (cfg : Config) (s₀ : State) (es : List Ev) (s : State) (jti : Bytes) : Prop :=
  ∃ v, StoredAt cfg s₀ es jti v ∧ s.redis.now ≤ v.redis.now + cfg.sessionMs

theorem StoredAt.snoc {v : State} (h : StoredAt cfg s₀ es jti v) (hrun : run (step cfg) s₀ es = some s)
    (he : ¬Deletes jti s e) : StoredAt cfg s₀ (es ++ [e]) jti v := by
  obtain ⟨b, q, c, w, phone, u, token, rfl, hv, hpc, hw, hkept⟩ := h
  have hc := run_tail (run_rest hrun hv) hw
  exact ⟨b, q, c ++ [e], w, phone, u, token, by simp, hv, hpc, hw, not_past_snoc hkept hc he⟩

theorem storedAt_last {phone : String} {u : Int64} {token : Bytes} (hrun : run (step cfg) s₀ es = some s)
    (hpc : (s.req r).pc = .loginSave phone u jti token) (hs : step cfg s (.save r none) = some t) :
    StoredAt cfg s₀ (es ++ [.save r none]) jti s := by
  refine ⟨es, r, [], t, phone, u, token, rfl, hrun, hpc, hs, ?_⟩
  rintro ⟨v, e, ⟨pre, post, hnil, -⟩, -⟩
  simp at hnil

/-- What a save leaves. -/
theorem save_cell {phone : String} {u : Int64} {token : Bytes} (httl : 0 < cfg.sessionTtl)
    (hpc : (s.req r).pc = .loginSave phone u jti token) (hs : step cfg s (.save r none) = some t) :
    t.redis = s.redis.put (.sess jti) (some ⟨.int u.toInt, some (s.redis.now + cfg.sessionMs)⟩) := by
  have hsave : saveStep cfg s r none = some t := hs
  obtain ⟨phone', u', jti', token', hpc', p, rfl, rfl⟩ := saveStep_cases hsave
  obtain ⟨-, rfl, rfl, -⟩ := Pc.loginSave.inj (hpc.symm.trans hpc')
  simp only [State.set_redis, exec, SessionStore.save, setex, if_neg (Int.not_le.2 httl)]
  rfl

/-- What a step does to the session of a jti: a login stores it, a logout deletes it, or nothing. -/
theorem session_step (httl : 0 < cfg.sessionTtl) (hs : step cfg s e = some t) (jti : Bytes) :
    (∃ r phone u token, e = .save r none ∧ (s.req r).pc = .loginSave phone u jti token ∧
        t.redis.cell (.sess jti) = some ⟨.int u.toInt, some (s.redis.now + cfg.sessionMs)⟩) ∨
      Deletes jti s e ∧ t.redis.cell (.sess jti) = none ∨
      ¬Deletes jti s e ∧ t.redis.cell (.sess jti) = s.redis.cell (.sess jti) := by
  by_cases hw : e.writes s (.sess jti)
  swap
  · refine Or.inr (Or.inr ⟨?_, step_frame hs hw⟩)
    rintro ⟨r, rfl, hpc⟩
    exact hw ⟨jti, hpc, rfl⟩
  cases e with
  | save r err =>
    obtain ⟨phone, u, jti', token, hpc, hjti⟩ := hw
    obtain rfl := Key.sess.inj hjti
    cases err with
    | none =>
      refine Or.inl ⟨r, phone, u, token, rfl, hpc, ?_⟩
      rw [save_cell httl hpc hs, Store.cell_put_self]
    | some what =>
      obtain ⟨_, _, _, _, -, p, rfl, rfl⟩ := saveStep_cases hs
      refine Or.inr (Or.inr ⟨?_, rfl⟩)
      rintro ⟨r, he, -⟩
      cases he
  | revoke r err =>
    obtain ⟨jti', hpc, hjti⟩ := hw
    obtain rfl := Key.sess.inj hjti
    obtain ⟨jti', hpc', p, rfl, rfl⟩ := revokeStep_cases hs
    obtain rfl := Pc.logoutRevoke.inj (hpc.symm.trans hpc')
    cases err with
    | none => exact Or.inr (Or.inl ⟨⟨r, rfl, hpc⟩, Store.cell_put_self _ _ _⟩)
    | some what =>
      refine Or.inr (Or.inr ⟨?_, rfl⟩)
      rintro ⟨r, he, -⟩
      cases he
  | _ => simp [Ev.writes] at hw

/-- An entry of a session was stored by a login, for its time. -/
theorem cell_storedAt {now : ℕ} {users : List User} {nextId : Int64} (httl : 0 < cfg.sessionTtl)
    (h : run (step cfg) (.init now users nextId) es = some s) :
    ∀ jti x, s.redis.cell (.sess jti) = some x → ∃ v, StoredAt cfg (.init now users nextId) es jti v ∧
      x.expireAt = some (v.redis.now + cfg.sessionMs) := by
  refine run_trace (I := fun es s => ∀ jti x, s.redis.cell (.sess jti) = some x →
    ∃ v, StoredAt cfg (.init now users nextId) es jti v ∧ x.expireAt = some (v.redis.now + cfg.sessionMs)) ?_ ?_ h
  · intro jti x hx
    cases hx
  · intro es s e t hrun hstored hs jti x hx
    rcases session_step httl hs jti with ⟨r, phone, u, token, rfl, hpc, hcell⟩ | ⟨-, hnone⟩ | ⟨hkeep, hsame⟩
    · rw [hcell] at hx
      obtain rfl := Option.some.inj hx
      exact ⟨s, storedAt_last hrun hpc hs, rfl⟩
    · rw [hnone] at hx
      cases hx
    · obtain ⟨v, hv, hexp⟩ := hstored jti x (hsame ▸ hx)
      exact ⟨v, hv.snoc hrun hkeep, hexp⟩

/-- The session of the jti is stored, up to the time `deadline` at least. -/
structure Lasts (cfg : Config) (jti : Bytes) (deadline : ℕ) (s : State) : Prop where
  /-- a login that stores it now does not store it for less -/
  clock : deadline ≤ s.redis.now + cfg.sessionMs
  stored : ∃ x t, s.redis.cell (.sess jti) = some x ∧ x.expireAt = some t ∧ deadline ≤ t

theorem lasts_step {deadline : ℕ} (httl : 0 < cfg.sessionTtl) (s : State) (e : Ev) (t : State)
    (h : Lasts cfg jti deadline s) (he : ¬Deletes jti s e) (hs : step cfg s e = some t) : Lasts cfg jti deadline t where
  clock := by
    have hclock := h.clock
    have hnow := (step_now hs).1
    omega
  stored := by
    rcases session_step httl hs jti with ⟨r, phone, u, token, -, -, hcell⟩ | ⟨hdel, -⟩ | ⟨-, hsame⟩
    · exact ⟨_, _, hcell, rfl, h.clock⟩
    · exact absurd hdel he
    · rw [hsame]
      exact h.stored

/-- **A session lives exactly as long as it is open.** -/
theorem alive_iff {now : ℕ} {users : List User} {nextId : Int64} (httl : 0 < cfg.sessionTtl)
    (h : run (step cfg) (.init now users nextId) es = some s) :
    s.redis.find (.sess jti) ≠ none ↔ Open cfg (.init now users nextId) es s jti := by
  constructor
  · intro hfind
    obtain ⟨x, hx⟩ := Option.ne_none_iff_exists'.1 hfind
    obtain ⟨hcell, halive⟩ := Store.find_some.1 hx
    obtain ⟨v, hv, hexp⟩ := cell_storedAt httl h jti x hcell
    refine ⟨v, hv, ?_⟩
    simpa [Entry.alive, hexp] using halive
  · rintro ⟨v, ⟨b, q, c, w, phone, u, token, rfl, hv, hpc, hw, hkept⟩, htime⟩
    have hfirst : Lasts cfg jti (v.redis.now + cfg.sessionMs) w := by
      refine ⟨Nat.add_le_add_right (step_now hw).1 _, ⟨.int u.toInt, some (v.redis.now + cfg.sessionMs)⟩, _, ?_, rfl,
        le_refl _⟩
      rw [save_cell httl hpc hw, Store.cell_put_self]
    have hmeets : Meets (step cfg) (fun s e => ¬Deletes jti s e) w c := by
      refine meets_of_takes fun s e htakes hdel => ?_
      exact hkept ⟨s, e, htakes, hdel⟩
    obtain ⟨-, x, t, hcell, hexp, hle⟩ := run_inv_of (lasts_step httl) hfirst hmeets (run_tail (run_rest h hv) hw)
    have hfind : s.redis.find (.sess jti) = some x := by
      refine Store.find_some.2 ⟨hcell, ?_⟩
      unfold Entry.alive
      rw [hexp]
      exact decide_eq_true (htime.trans hle)
    rw [hfind]
    exact Option.some_ne_none x

/-! ## Authentication -/

/-- The authentication `r` of a verified token waits for its `EXISTS`, or is over. -/
def Checking (r : ℕ) (claims : JwtClaims) (s : State) : Prop :=
  (s.req r).pc = .authExists claims.jti claims.userId ∨ (s.req r).pc = .done

theorem checking_keep {claims : JwtClaims} (s : State) (e : Ev) (t : State) (h : Checking r claims s)
    (hs : step cfg s e = some t) : Checking r claims t := by
  rcases h with h | h
  · rcases (step_effect hs).req r with heq | hmove
    · exact Or.inl (by rw [heq, h])
    · unfold Checking
      generalize t.req r = q at hmove ⊢
      cases hmove with
      | stop | authenticated => exact Or.inr rfl
      | reset => exact Or.inl h
      | check hpc | pass hpc | unknown hpc | found hpc | wrong hpc | right hpc | save hpc | token hpc | regCheck hpc
      | regVerify hpc | regUnverified hpc | regVerified hpc | regHash hpc | regInsert _ hpc | created hpc | marked hpc
      | logout hpc | revoked _ hpc | authenticate hpc =>
        rw [h] at hpc
        cases hpc
  · exact Or.inr (done_step h hs).1

/-- **A token authenticates its user as long as its session is open.** In every run of
logins, registrations, logouts and authentications, whatever else fails: when an
`authenticate(token)` of a verified token has its `EXISTS` executed, it answers the user
of the token if the session of its jti was stored less than its time ago and no `DEL` of
it took effect since, and otherwise 0. -/
theorem authenticate_iff_open (cfg : Config) (httl : 0 < cfg.sessionTtl) (now : ℕ) (users : List User) (nextId : Int64)
    (pre rest : List Ev) (r : ℕ) (token : Bytes) (clock : ℤ) (claims : JwtClaims)
    (hverify : cfg.jwt.verify token 0 clock = .ok (some claims)) (s t : State)
    (hrun : run (step cfg) (.init now users nextId) (pre ++ .authenticate r token clock :: rest) = some s)
    (hstep : step cfg s (.sessionExists r none) = some t) :
    (Open cfg (.init now users nextId) (pre ++ .authenticate r token clock :: rest) s claims.jti →
        (t.req r).answer = some (.authenticate claims.userId)) ∧
      (¬Open cfg (.init now users nextId) (pre ++ .authenticate r token clock :: rest) s claims.jti →
        (t.req r).answer = some (.authenticate 0)) := by
  have hopen : s.redis.find (.sess claims.jti) ≠ none ↔
      Open cfg (.init now users nextId) (pre ++ .authenticate r token clock :: rest) s claims.jti := alive_iff httl hrun
  have hchecking : Checking r claims s := by
    obtain ⟨v, hv, hrest⟩ := run_append.1 hrun
    obtain ⟨w, hw, hrest⟩ := run_cons.1 hrest
    refine run_inv checking_keep (Or.inl ?_) hrest
    obtain ⟨-, ⟨what, hv, -⟩ | ⟨hv, -⟩ | ⟨claims', hv, rfl⟩⟩ := authenticateStep_cases hw
    · rw [hverify] at hv
      cases hv
    · rw [hverify] at hv
      cases hv
    · rw [hverify] at hv
      cases hv
      rw [State.set_req, if_pos rfl]
      rfl
  obtain ⟨jti, userId, hpc, p, rfl, rfl⟩ := existsStep_cases hstep
  rw [State.set_req, if_pos rfl]
  rcases hchecking with hpc' | hdone
  · obtain ⟨rfl, rfl⟩ := Pc.authExists.inj (hpc.symm.trans hpc')
    rw [← hopen]
    have hreply : SessionStore.onReply (exec none (exists_ (.sess claims.jti)) s.redis).1 =
        (s.redis.find (.sess claims.jti)).isSome := rfl
    refine ⟨fun halive => ?_, fun hgone => ?_⟩
    · rw [if_pos (hreply.trans (Option.isSome_iff_ne_none.2 halive))]
      rfl
    · rw [if_neg (by rw [hreply, not_not.1 hgone]; exact Bool.false_ne_true)]
      rfl
  · rw [hpc] at hdone
    cases hdone

/-- An hour after its login a user is authenticated: the session is open. -/
theorem authenticate_iff_open_hour :
    ∃ s t, run (step flatConfig) (.init 0 [onlyUser] 2)
        ((loggedIn ++ [.wait 3600000]) ++ .authenticate 1 flatToken 1700003600 :: []) = some s ∧
      step flatConfig s (.sessionExists 1 none) = some t ∧ (t.req 1).answer = some (.authenticate 1) ∧
      Open flatConfig (.init 0 [onlyUser] 2)
        ((loggedIn ++ [.wait 3600000]) ++ .authenticate 1 flatToken 1700003600 :: []) s (ascii "5f3a") := by
  have hruns : ((run (step flatConfig) (.init 0 [onlyUser] 2)
      ((loggedIn ++ [.wait 3600000]) ++ .authenticate 1 flatToken 1700003600 :: [])).map fun s =>
        (step flatConfig s (.sessionExists 1 none)).map fun t => (t.req 1).answer) =
      some (some (some (.authenticate 1))) := by decide +kernel
  have hverify : flatConfig.jwt.verify flatToken 0 1700003600 =
      .ok (some ⟨1, ascii "5f3a", ascii "seckill-cpp", 1700000000, 1700007200⟩) := by decide +kernel
  obtain ⟨s, hs, hafter⟩ := Option.map_eq_some_iff.1 hruns
  obtain ⟨t, ht, hanswer⟩ := Option.map_eq_some_iff.1 hafter
  have hboth := authenticate_iff_open flatConfig (by decide) 0 [onlyUser] 2 _ [] 1 flatToken 1700003600 _ hverify s t hs ht
  refine ⟨s, t, hs, ht, hanswer, ?_⟩
  by_contra hclosed
  have hzero := hboth.2 hclosed
  rw [hanswer] at hzero
  exact absurd hzero (by decide)

end Seckill.UserService
