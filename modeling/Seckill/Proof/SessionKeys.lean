import Seckill.Proof.Session

/-!
# One session, one key

A login draws the jti of its session with `genJti` and stores the session under
`sess:{jti}` before it hands the token out. `genJti` is empty when the CSPRNG fails, and
nothing asks: every login it fails for shares one key.

`login_sessions`: two logins that handed out a token have different keys, and what a
step does to the session of one leaves that of the other alone, exactly if this did not
happen to both.
-/

namespace Seckill.UserService

open Redis Machine

section

variable (cfg : Config)

/-- The login that finds its password right with this step, and the jti it draws. -/
def drawn (s : State) : Ev → Option (ℕ × Bytes)
  | .loginHash r fails jti _ => match (s.req r).pc with
    | .loginHash _ password user =>
      if fails = false ∧ cfg.verdict password user = some true then some (r, jti) else none
    | _ => none
  | _ => none

/-- The login whose session is stored with this step, and the jti of its key. -/
def keyed (s : State) : Ev → Option (ℕ × Bytes)
  | .save r err => match (s.req r).pc with
    | .loginSave _ userId jti _ =>
      if (exec err (SessionStore.save jti cfg.sessionTtl userId) s.redis).1.toBool then some (r, jti) else none
    | _ => none
  | _ => none

/-- The request drew the jti. -/
def Drew (s₀ : State) (es : List Ev) (r : ℕ) (jti : Bytes) : Prop :=
  Past (step cfg) s₀ es fun s e => drawn cfg s e = some (r, jti)

/-- The request was a login, and was answered with a token. -/
def State.HandedOut (s : State) (r : ℕ) : Prop := ∃ token msg, (s.req r).answer = some (.login true token msg)

/-- The request stored its session under the key of the jti. -/
def HasKey (s₀ : State) (es : List Ev) (r : ℕ) (jti : Bytes) : Prop :=
  Past (step cfg) s₀ es fun s e => keyed cfg s e = some (r, jti)

end

variable {cfg : Config} {s₀ s t : State} {es : List Ev} {e : Ev} {r : ℕ} {jti jti' : Bytes}

/-- What a run says about the logins it has let in. -/
structure Logins (cfg : Config) (s₀ : State) (es : List Ev) (s : State) : Prop where
  saving : ∀ r phone userId jti token, (s.req r).pc = .loginSave phone userId jti token → Drew cfg s₀ es r jti
  saved : ∀ r phone token, (s.req r).pc = .loginSaved phone token true → ∃ jti, HasKey cfg s₀ es r jti
  answered : ∀ r token msg, (s.req r).answer = some (.login true token msg) → ∃ jti, HasKey cfg s₀ es r jti
  drew : ∀ r jti, HasKey cfg s₀ es r jti → Drew cfg s₀ es r jti

/-- A session is stored under the jti of a login that is about to do so. -/
theorem keyed_some (h : keyed cfg s e = some (r, jti)) :
    ∃ phone userId token, (s.req r).pc = .loginSave phone userId jti token := by
  cases e with
  | save r' err =>
    cases hpc : (s.req r').pc with
    | loginSave phone userId jti' token =>
      simp only [keyed, hpc] at h
      split at h
      · simp only [Option.some.injEq, Prod.mk.injEq] at h
        obtain ⟨rfl, rfl⟩ := h
        exact ⟨phone, userId, token, hpc⟩
      · cases h
    | _ => simp [keyed, hpc] at h
  | _ => cases h

theorem drawn_some (h : drawn cfg s e = some (r, jti)) : ∃ clock, e = .loginHash r false jti clock := by
  cases e with
  | loginHash r' fails jti' clock =>
    cases hpc : (s.req r').pc with
    | loginHash phone password user =>
      simp only [drawn, hpc] at h
      split at h
      next hright =>
        simp only [Option.some.injEq, Prod.mk.injEq] at h
        obtain ⟨rfl, rfl⟩ := h
        exact ⟨clock, by rw [hright.1]⟩
      next => cases h
    | _ => simp [drawn, hpc] at h
  | _ => cases h

theorem drew_step (hrun : run (step cfg) s₀ es = some s) (h : Logins cfg s₀ es s) (hst : step cfg s e = some t)
    {phone : String} {userId : Int64} {token : Bytes} (hpc' : (t.req r).pc = .loginSave phone userId jti token) :
    Drew cfg s₀ (es ++ [e]) r jti := by
  have hold (hpc : (s.req r).pc = .loginSave phone userId jti token) : Drew cfg s₀ (es ++ [e]) r jti :=
    (h.saving r phone userId jti token hpc).snoc e
  rcases (step_effect hst).req r with heq | hmove
  · rw [heq] at hpc'
    exact hold hpc'
  · generalize t.req r = q at hmove hpc'
    cases hmove with
    | right hpc hv =>
      -- the password was right: this step drew the jti
      injection hpc' with _ _ hjti
      subst hjti
      exact past_last hrun (by simp [drawn, hpc, hv])
    | reset _ => exact hold hpc'
    | _ => cases hpc'

theorem keyed_step (hrun : run (step cfg) s₀ es = some s) (h : Logins cfg s₀ es s) (hst : step cfg s e = some t)
    {phone : String} {token : Bytes} (hpc' : (t.req r).pc = .loginSaved phone token true) :
    ∃ jti, HasKey cfg s₀ (es ++ [e]) r jti := by
  have hold (hpc : (s.req r).pc = .loginSaved phone token true) : ∃ jti, HasKey cfg s₀ (es ++ [e]) r jti := by
    obtain ⟨jti, hkey⟩ := h.saved r phone token hpc
    exact ⟨jti, hkey.snoc e⟩
  rcases (step_effect hst).req r with heq | hmove
  · rw [heq] at hpc'
    exact hold hpc'
  · generalize t.req r = q at hmove hpc'
    cases hmove with
    | @save err phone' userId jti token' hpc =>
      -- this step stored the session, under the jti it had
      injection hpc' with _ _ hstored
      exact ⟨jti, past_last hrun (by simp [keyed, hpc, hstored])⟩
    | reset _ => exact hold hpc'
    | _ => cases hpc'

theorem answered_step (h : Logins cfg s₀ es s) (hst : step cfg s e = some t)
    {token : Bytes} {msg : String} (hanswer : (t.req r).answer = some (.login true token msg)) :
    ∃ jti, HasKey cfg s₀ (es ++ [e]) r jti := by
  have hold (ha : (s.req r).answer = some (.login true token msg)) : ∃ jti, HasKey cfg s₀ (es ++ [e]) r jti := by
    obtain ⟨jti, hkey⟩ := h.answered r token msg ha
    exact ⟨jti, hkey.snoc e⟩
  rcases (step_effect hst).req r with heq | hmove
  · rw [heq] at hanswer
    exact hold hanswer
  · generalize t.req r = q at hmove hanswer
    cases hmove with
    | stop a ha =>
      cases Option.some.inj hanswer
      cases ha
    | token hpc =>
      -- a token is handed out for a session that is stored
      obtain ⟨jti, hkey⟩ := h.saved r _ _ hpc
      exact ⟨jti, hkey.snoc _⟩
    | created _ _ => cases hanswer
    | revoked msg _ => cases hanswer
    | authenticated _ => cases hanswer
    | _ => exact hold hanswer

/-- **One step.** -/
theorem logins_step (hrun : run (step cfg) s₀ es = some s) (h : Logins cfg s₀ es s) (hst : step cfg s e = some t) :
    Logins cfg s₀ (es ++ [e]) t := by
  refine ⟨fun _ _ _ _ _ => drew_step hrun h hst, fun _ _ _ => keyed_step hrun h hst,
    fun _ _ _ => answered_step h hst, fun r jti hkey => ?_⟩
  obtain ⟨u, e', htakes, hkeyed⟩ := hkey
  rcases takes_snoc.1 htakes with hbefore | ⟨rfl, hu⟩
  · exact (h.drew r jti ⟨u, e', hbefore, hkeyed⟩).snoc e
  · -- the last step stores it, under the jti it was about to
    rw [hrun] at hu
    obtain rfl := Option.some.inj hu
    obtain ⟨phone, userId, token, hpc⟩ := keyed_some hkeyed
    exact (h.saving r phone userId jti token hpc).snoc e'

theorem logins_run {now : ℕ} {users : List User} {nextId : Int64}
    (h : run (step cfg) (.init now users nextId) es = some s) : Logins cfg (.init now users nextId) es s := by
  refine run_trace (I := Logins cfg (.init now users nextId)) ?_ (fun _ _ _ _ hrun h hst => logins_step hrun h hst) h
  refine ⟨fun _ _ _ _ _ h => ?_, fun _ _ _ h => ?_, fun _ _ _ h => ?_, fun r jti ⟨u, e, htakes, _⟩ => ?_⟩
  · cases h
  · cases h
  · cases h
  · exact absurd htakes.mem List.not_mem_nil

/-- A step writes one session at most. -/
theorem writes_sess (h : e.writes s (.sess jti)) (h' : e.writes s (.sess jti')) : jti = jti' := by
  cases e with
  | save r err =>
    obtain ⟨phone, userId, j, token, hpc, heq⟩ := h
    obtain ⟨phone', userId', j', token', hpc', heq'⟩ := h'
    rw [hpc] at hpc'
    injection hpc' with _ _ hsame
    injection heq with heq
    injection heq' with heq'
    rw [heq, heq', hsame]
  | revoke r err =>
    obtain ⟨j, hpc, heq⟩ := h
    obtain ⟨j', hpc', heq'⟩ := h'
    rw [hpc] at hpc'
    injection hpc' with hsame
    injection heq with heq
    injection heq' with heq'
    rw [heq, heq', hsame]
  | onFailure r err =>
    obtain ⟨phone, -, heq | heq⟩ := h
    · cases heq
    · cases heq
  | _ => simp [Ev.writes] at h

/-- **One session, one key.** In every run in which no two logins draw the same jti, if it
is not empty: a login that handed out a token has stored its session under a key; and two
of them have different keys, so that a step that writes the session of one, to store it or
to revoke it, leaves the session of the other as it was, exactly if the CSPRNG did not
fail for two of them. -/
theorem login_sessions (cfg : Config) (now : ℕ) (users : List User) (nextId : Int64) (es : List Ev) (s : State)
    (hfresh : ∀ r r' jti, r ≠ r' → Drew cfg (.init now users nextId) es r jti →
      Drew cfg (.init now users nextId) es r' jti → jti = [])
    (h : run (step cfg) (.init now users nextId) es = some s) :
    (∀ r, s.HandedOut r → ∃ jti, HasKey cfg (.init now users nextId) es r jti) ∧
      ((∀ r r' jti jti', r ≠ r' → s.HandedOut r → s.HandedOut r' → HasKey cfg (.init now users nextId) es r jti →
          HasKey cfg (.init now users nextId) es r' jti' →
          jti ≠ jti' ∧ ∀ u e v, step cfg u e = some v → e.writes u (.sess jti) →
            v.redis.cell (.sess jti') = u.redis.cell (.sess jti')) ↔
        ∀ r r', r ≠ r' → s.HandedOut r → s.HandedOut r' → HasKey cfg (.init now users nextId) es r [] →
          ¬HasKey cfg (.init now users nextId) es r' []) := by
  have hlogins := logins_run h
  refine ⟨fun r ⟨token, msg, hanswer⟩ => hlogins.answered r token msg hanswer,
    fun hkeys r r' hne hr hr' hkey hkey' => ?_, fun hblank r r' jti jti' hne hr hr' hkey hkey' => ?_⟩
  · exact (hkeys r r' [] [] hne hr hr' hkey hkey').1 rfl
  have hdiff : jti ≠ jti' := by
    rintro rfl
    -- a jti of both is the empty one
    obtain rfl := hfresh r r' jti hne (hlogins.drew r jti hkey) (hlogins.drew r' jti hkey')
    exact hblank r r' hne hr hr' hkey hkey'
  -- a step that writes the one key does not write the other
  refine ⟨hdiff, fun u e v hst hw => ?_⟩
  exact step_frame hst fun hw' => hdiff (writes_sess hw hw')

/-! ## Two logins -/

/-- A JWT that reads back the tokens of two logins of user 1, one second apart. -/
def twoJwt (jti₀ jti₁ : Bytes) : Jwt :=
  { flatJwt with readJson := fun b =>
      [Jwt.header, flatJwt.payload 1 jti₀ 1700000000,
        flatJwt.payload 1 jti₁ 1700000001].find? fun v => writeFlat v = b }

/-- The logins, with the right password and the jtis drawn for them. -/
def twoLogins (jti₀ jti₁ : Bytes) : List Ev :=
  [.login 0 "13800000000" "rightpw", .checkLocked 0 none, .loginSelect 0 none,
    .loginHash 0 false jti₀ 1700000000, .save 0 none, .saved 0,
    .login 1 "13800000000" "rightpw", .checkLocked 1 none, .loginSelect 1 none,
    .loginHash 1 false jti₁ 1700000001, .save 1 none, .saved 1]

def twoConfig (jti₀ jti₁ : Bytes) : Config := .default (twoJwt jti₀ jti₁) saltedHash

/-- A login of the run draws the jti it is given. -/
theorem drew_twoLogins {jti₀ jti₁ : Bytes} (h : Drew cfg s₀ (twoLogins jti₀ jti₁) r jti) :
    (r = 0 ∧ jti = jti₀) ∨ r = 1 ∧ jti = jti₁ := by
  obtain ⟨u, e, htakes, hdrawn⟩ := h
  have hmem := htakes.mem
  obtain ⟨clock, rfl⟩ := drawn_some hdrawn
  simp only [twoLogins, List.mem_cons, reduceCtorEq, Ev.loginHash.injEq, List.not_mem_nil, or_false, false_or] at hmem
  rcases hmem with ⟨hr, -, hjti, -⟩ | ⟨hr, -, hjti, -⟩
  · exact Or.inl ⟨hr, hjti⟩
  · exact Or.inr ⟨hr, hjti⟩

/-- A step of a run that stores a session. -/
theorem hasKey_of_run {now : ℕ} {users : List User} {nextId : Int64} {post : List Ev} (pre : List Ev)
    (h : ((run (step cfg) (.init now users nextId) pre).map fun s => keyed cfg s e) = some (some (r, jti))) :
    HasKey cfg (.init now users nextId) (pre ++ e :: post) r jti := by
  obtain ⟨s, hs, hkeyed⟩ := Option.map_eq_some_iff.1 h
  exact ⟨s, e, ⟨pre, post, rfl, hs⟩, hkeyed⟩

/-- The CSPRNG fails for one of the logins: their keys differ. -/
theorem login_sessions_two : ∃ s, run (step (twoConfig [] (ascii "5f3a"))) (.init 0 [onlyUser] 2)
      (twoLogins [] (ascii "5f3a")) = some s ∧
    ∀ r r' jti jti', r ≠ r' → s.HandedOut r → s.HandedOut r' →
      HasKey (twoConfig [] (ascii "5f3a")) (.init 0 [onlyUser] 2) (twoLogins [] (ascii "5f3a")) r jti →
      HasKey (twoConfig [] (ascii "5f3a")) (.init 0 [onlyUser] 2) (twoLogins [] (ascii "5f3a")) r' jti' →
      jti ≠ jti' := by
  obtain ⟨s, hs⟩ : ∃ s, run (step (twoConfig [] (ascii "5f3a"))) (.init 0 [onlyUser] 2)
      (twoLogins [] (ascii "5f3a")) = some s := Option.isSome_iff_exists.1 (by decide +kernel)
  have hdiffer : ∀ r r' jti, r ≠ r' →
      Drew (twoConfig [] (ascii "5f3a")) (.init 0 [onlyUser] 2) (twoLogins [] (ascii "5f3a")) r jti →
      ¬Drew (twoConfig [] (ascii "5f3a")) (.init 0 [onlyUser] 2) (twoLogins [] (ascii "5f3a")) r' jti := by
    intro r r' jti hne hdrew hdrew'
    have hjti : ascii "5f3a" ≠ [] := by decide
    rcases drew_twoLogins hdrew with ⟨rfl, rfl⟩ | ⟨rfl, rfl⟩ <;> rcases drew_twoLogins hdrew' with ⟨rfl, h⟩ | ⟨rfl, h⟩
    · exact hne rfl
    · exact hjti h.symm
    · exact hjti h
    · exact hne rfl
  have hsessions := login_sessions (twoConfig [] (ascii "5f3a")) 0 [onlyUser] 2 _ s
    (fun r r' jti hne hdrew hdrew' => absurd hdrew' (hdiffer r r' jti hne hdrew)) hs
  refine ⟨s, hs, fun r r' jti jti' hne hr hr' hkey hkey' =>
    (hsessions.2.2 (fun r r' hne _ _ hkey hkey' => ?_) r r' jti jti' hne hr hr' hkey hkey').1⟩
  have hlogins := logins_run hs
  exact hdiffer r r' [] hne (hlogins.drew r [] hkey) (hlogins.drew r' [] hkey')

/-- It fails for both: they share a key, and the logout of the first ends the session of
the second. -/
theorem login_sessions_shared :
    HasKey (twoConfig [] []) (.init 0 [onlyUser] 2) (twoLogins [] []) 0 [] ∧
      HasKey (twoConfig [] []) (.init 0 [onlyUser] 2) (twoLogins [] []) 1 [] ∧
      ∃ s, run (step (twoConfig [] [])) (.init 0 [onlyUser] 2) (twoLogins [] [] ++
          [.logout 2 (flatJwt.sign 1 [] 0 1700000000) 1700000002, .revoke 2 none,
            .authenticate 3 (flatJwt.sign 1 [] 0 1700000001) 1700000003, .sessionExists 3 none]) = some s ∧
        (s.req 0).answer = some (.login true (flatJwt.sign 1 [] 0 1700000000) "OK") ∧
        (s.req 1).answer = some (.login true (flatJwt.sign 1 [] 0 1700000001) "OK") ∧
        (s.req 2).answer = some (.logout true "OK") ∧ (s.req 3).answer = some (.authenticate 0) := by
  refine ⟨hasKey_of_run ((twoLogins [] []).take 4) (by decide +kernel),
    hasKey_of_run ((twoLogins [] []).take 10) (by decide +kernel), ?_⟩
  have hrun : ((run (step (twoConfig [] [])) (.init 0 [onlyUser] 2) (twoLogins [] [] ++
      [.logout 2 (flatJwt.sign 1 [] 0 1700000000) 1700000002, .revoke 2 none,
        .authenticate 3 (flatJwt.sign 1 [] 0 1700000001) 1700000003, .sessionExists 3 none])).map fun s =>
          ((s.req 0).answer, (s.req 1).answer, (s.req 2).answer, (s.req 3).answer)) =
      some (some (.login true (flatJwt.sign 1 [] 0 1700000000) "OK"),
        some (.login true (flatJwt.sign 1 [] 0 1700000001) "OK"), some (.logout true "OK"),
        some (.authenticate 0)) := by decide +kernel
  obtain ⟨s, hs, hanswers⟩ := Option.map_eq_some_iff.1 hrun
  simp only [Prod.mk.injEq] at hanswers
  exact ⟨s, hs, hanswers⟩

end Seckill.UserService
