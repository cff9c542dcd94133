import Seckill.Proof.Penetration

/-!
# Every read is answered, with or without a cache

The cache of a read fails open: a Redis that is down, a string that does not parse and a
write that gets lost cost a SELECT and nothing else. `read_completes`: a read or a warm-up
takes at most five steps, has one outcome, and can always go on to it by itself, whatever
its GET gets; it fails only if its own SELECT did.
-/

namespace Seckill.ReadPath

open Redis
open SeckillService (Config Answer)
open Machine

variable {cfg : Config} {s t s₀ : State} {e : Ev} {es : List Ev} {r : ℕ} {p : Read}

/-- The most steps a request can still take. -/
def Read.ahead : Read → ℕ
  | .idle => 5
  | .get _ => 4
  | .reply _ _ _ => 3
  | .select _ _ | .warmSelect _ => 2
  | .selected _ _ _ _ | .warmSelected _ _ _ => 1
  | .answered _ _ _ | .failed _ | .warmed _ _ => 0

/-- It was answered that the database failed. -/
def Read.lost : Read → Bool
  | .failed _ | .warmed false _ => true
  | _ => false

/-- The SELECT of request `r` fails. -/
def selectFails (r : ℕ) : Ev → Bool
  | .select r' (some _) | .warmSelect r' (some _) => decide (r' = r)
  | _ => false

/-- Request `r` goes on, with this outcome of its GET and a SELECT that works. -/
def GoesOn (r : ℕ) (err : Option String) (e : Ev) : Prop :=
  e.request = some r ∧ selectFails r e = false ∧ ∀ err', e = .get r err' → err' = err

/-! ## One step -/

/-- Each brings it nearer to its end. -/
theorem Goes.ahead_lt (h : Goes cfg s r e p) : p.ahead < (s.reads r).ahead := by
  cases h with
  | direct hr | ask hr | hit hr | got hr | miss hr | decoded hr | broken hr | failed hr | selected hr | answered hr
  | warm hr | warmFailed hr | warmSelected hr | warmed hr =>
    rw [hr]
    simp [Read.ahead]

/-- It comes to fail at its SELECT. -/
theorem Goes.lost (h : Goes cfg s r e p) (hlost : p.lost = true) : selectFails r e = true := by
  cases h with
  | failed | warmFailed => exact decide_eq_true rfl
  | _ => cases hlost

/-- A step of its own does, and no other step touches it. -/
theorem step_ahead_le (h : step cfg s e = some t) (r : ℕ) :
    (t.reads r).ahead + (if decide (e.request = some r) then 1 else 0) ≤ (s.reads r).ahead := by
  rcases (step_keeps h).reads r with ⟨hother, hsame⟩ | hgoes
  · rw [hsame, decide_eq_false hother]
    simp
  · have hlt := hgoes.ahead_lt
    rw [decide_eq_true hgoes.request, if_pos rfl]
    exact hlt

theorem step_ahead_lt (h : step cfg s e = some t) (he : e.request = some r) :
    (t.reads r).ahead < (s.reads r).ahead := by
  rcases (step_keeps h).reads r with ⟨hother, -⟩ | hgoes
  · exact absurd he hother
  · exact hgoes.ahead_lt

/-- **An outcome stays.** -/
theorem step_ended (h : step cfg s e = some t) (hend : (s.reads r).ahead = 0) : t.reads r = s.reads r := by
  rcases (step_keeps h).reads r with ⟨-, hsame⟩ | hgoes
  · exact hsame
  · have hlt := hgoes.ahead_lt
    omega

/-- A request that was called stays called. -/
theorem step_called (h : step cfg s e = some t) (hcalled : (s.reads r).ahead < 5) : (t.reads r).ahead < 5 := by
  have hle := step_ahead_le h r
  omega

/-- A request that has failed failed before, or now. -/
theorem step_lost (h : step cfg s e = some t) (hlost : (t.reads r).lost = true) :
    (s.reads r).lost = true ∨ selectFails r e = true := by
  rcases (step_keeps h).reads r with ⟨-, hsame⟩ | hgoes
  · left
    rwa [← hsame]
  · exact Or.inr (hgoes.lost hlost)

/-- No jitter is one that can be drawn. -/
theorem draws_zero (cfg : Config) : Draws cfg 0 := ⟨Int.le_refl 0, Int.le_max_right _ _⟩

/-- **A request in progress can go on**, whatever the others did, and whatever its GET
gets. -/
theorem own_step (cfg : Config) (err : Option String) (hcalled : (s.reads r).ahead < 5)
    (hahead : 0 < (s.reads r).ahead) : ∃ e t, GoesOn r err e ∧ step cfg s e = some t := by
  have hsome : ∀ e : Ev, GoesOn r err e → (step cfg s e).isSome = true →
      ∃ e t, GoesOn r err e ∧ step cfg s e = some t := by
    intro e he hs
    obtain ⟨t, ht⟩ := Option.isSome_iff_exists.1 hs
    exact ⟨e, t, he, ht⟩
  have hother : ∀ e : Ev, e.request = some r → selectFails r e = false → (∀ err', e ≠ .get r err') → GoesOn r err e :=
    fun e hr hselect hget => ⟨hr, hselect, fun err' heq => absurd heq (hget err')⟩
  cases hr : s.reads r with
  | idle => simp [hr, Read.ahead] at hcalled
  | get query =>
    exact hsome (.get r err) ⟨rfl, rfl, fun err' heq => by injection heq with _ h; exact h.symm⟩
      (by simp [step, getStep, hr])
  | reply query value looked =>
    refine hsome (.reply r) (hother _ rfl rfl fun _ => Ev.noConfusion) ?_
    simp only [step, replyStep, hr]
    cases value with
    | none => rfl
    | some v =>
      dsimp only
      split <;> rfl
  | select query looked =>
    exact hsome (.select r none) (hother _ rfl rfl fun _ => Ev.noConfusion) (by simp [step, selectStep, hr])
  | selected query looked table stamp =>
    exact hsome (.answer r 0) (hother _ rfl rfl fun _ => Ev.noConfusion)
      (by simp [step, answerStep, hr, draws_zero])
  | warmSelect limit =>
    exact hsome (.warmSelect r none) (hother _ rfl rfl fun _ => Ev.noConfusion) (by simp [step, warmSelectStep, hr])
  | warmSelected limit table stamp =>
    exact hsome (.warm r fun _ => 0) (hother _ rfl rfl fun _ => Ev.noConfusion)
      (by simp [step, warmStep, hr, draws_zero])
  | answered | failed | warmed => simp [hr, Read.ahead] at hahead

/-! ## A request whose GET failed -/

/-- What a request has when its GET failed: nothing, or what its SELECT read. -/
def OwnSelect (cfg : Config) (s₀ : State) (es : List Ev) (r : ℕ) : Read → Prop
  | .idle | .get _ | .reply _ (some _) _ => False
  | .selected _ _ table _ => ∃ v, Takes (step cfg) s₀ es v (.select r none) ∧ table = v.table
  | .answered query a _ => ∃ v, Takes (step cfg) s₀ es v (.select r none) ∧ a = answer query v.table
  | _ => True

theorem OwnSelect.snoc (h : OwnSelect cfg s₀ es r p) (e : Ev) : OwnSelect cfg s₀ (es ++ [e]) r p := by
  cases p with
  | selected | answered =>
    obtain ⟨v, hv, hread⟩ := h
    exact ⟨v, hv.snoc e, hread⟩
  | idle | get => exact h.elim
  | reply query value looked =>
    cases value with
    | none => trivial
    | some v => exact h.elim
  | select | failed | warmSelect | warmSelected | warmed => trivial

/-- It goes on past the cache. -/
theorem Goes.ownSelect (h : Goes cfg s r e p) (hrun : run (step cfg) s₀ es = some s)
    (hbefore : OwnSelect cfg s₀ es r (s.reads r)) : OwnSelect cfg s₀ (es ++ [e]) r p := by
  cases h with
  | selected => exact ⟨s, takes_last _ hrun, rfl⟩
  | answered hr =>
    rw [hr] at hbefore
    obtain ⟨v, hv, rfl⟩ := hbefore
    exact ⟨v, hv.snoc _, rfl⟩
  | direct hr | ask hr | hit hr | got hr | decoded hr =>
    rw [hr] at hbefore
    exact hbefore.elim
  | miss | broken | failed | warm | warmFailed | warmSelected | warmed => trivial

theorem run_ownSelect {what : String} (h : run (step cfg) s₀ es = some s) (hget : .get r (some what) ∈ es) :
    OwnSelect cfg s₀ es r (s.reads r) := by
  refine run_trace (I := fun es u => .get r (some what) ∈ es → OwnSelect cfg s₀ es r (u.reads r))
    (fun h₀ => absurd h₀ List.not_mem_nil) (fun es u e v hrun hI hs hmem => ?_) h hget
  rcases List.mem_append.1 hmem with hbefore | hnow
  · rcases (step_keeps hs).reads r with ⟨-, hsame⟩ | hgoes
    · rw [hsame]
      exact (hI hbefore).snoc e
    · exact hgoes.ownSelect hrun (hI hbefore)
  · -- this is the GET: it got nothing
    obtain rfl := List.mem_singleton.1 hnow
    have hstep : getStep u r (some what) = some v := hs
    unfold getStep at hstep
    split at hstep
    · rw [← Option.some.inj hstep]
      simp [State.set, exec, OwnSelect]
    · cases hstep

/-! ## A run -/

/-- **Every read is answered, once.** In every run of reads, warm-ups, orders and delayed
deletes, whatever fails and however late the cache is told, a request takes at most five
steps, its outcome stays, and it is a failure only if its own SELECT failed; if its GET
failed, its answer is what its SELECT read. From any
reachable state a request that was called comes to its outcome by at most four steps of its
own, the others standing still, whatever Redis says to its GET: it is a failure only if it
was one. -/
theorem read_completes (cfg : Config) (now : ℕ) (table₀ : SkuTable) (es : List Ev) (s : State)
    (h : run (step cfg) (.init cfg now table₀) es = some s) (r : ℕ) :
    tally (step cfg) (fun _ e => decide (e.request = some r)) (.init cfg now table₀) es ≤ 5 ∧
      (∀ es' t, run (step cfg) s es' = some t → (s.reads r).ahead = 0 → t.reads r = s.reads r) ∧
      ((s.reads r).lost = true → ∃ e ∈ es, selectFails r e = true) ∧
      (∀ what query a looked, .get r (some what) ∈ es → s.reads r = .answered query a looked →
        ∃ v, Takes (step cfg) (.init cfg now table₀) es v (.select r none) ∧ a = answer query v.table) ∧
      (s.reads r ≠ .idle → ∀ err, ∃ es' t, run (step cfg) s es' = some t ∧
        Meets (step cfg) (fun _ e => GoesOn r err e) s es' ∧ es'.length ≤ 4 ∧ (t.reads r).ahead = 0 ∧
        ((t.reads r).lost = true → (s.reads r).lost = true)) := by
  refine ⟨?_, fun es' t h' hend => ?_, fun hlost => ?_,
    fun what query a looked hget hanswer => ?_, fun hcalled err => ?_⟩
  · have hone : ∀ u e v, True → True → step cfg u e = some v →
        (v.reads r).ahead + (if decide (e.request = some r) then 1 else 0) ≤ (u.reads r).ahead :=
      fun u e v _ _ hs => step_ahead_le hs r
    have hbound := run_potential (C := fun _ _ => True) (I := fun _ => True) (fun _ _ _ _ _ _ => trivial) hone trivial
      (meets_of_takes fun _ _ _ => trivial) h
    have hfirst : ((State.init cfg now table₀).reads r).ahead = 5 := rfl
    omega
  · have hboth : (t.reads r).ahead = 0 ∧ t.reads r = s.reads r := by
      refine run_inv (I := fun u => (u.reads r).ahead = 0 ∧ u.reads r = s.reads r) ?_ ⟨hend, rfl⟩ h'
      rintro u e v ⟨hzero, hsame⟩ hs
      have hstays := step_ended hs hzero
      rw [hstays]
      exact ⟨hzero, hsame⟩
    exact hboth.2
  · refine run_trace (I := fun es u => (u.reads r).lost = true → ∃ e ∈ es, selectFails r e = true) (fun h₀ => ?_)
      (fun es u e v _ hI hs hl => ?_) h hlost
    · cases h₀
    · rcases step_lost hs hl with hbefore | hnow
      · obtain ⟨e', he', hfails⟩ := hI hbefore
        exact ⟨e', List.mem_append_left _ he', hfails⟩
      · exact ⟨e, List.mem_append_right _ List.mem_cons_self, hnow⟩
  · have hown := run_ownSelect h hget
    rw [hanswer] at hown
    exact hown
  · have hahead : (s.reads r).ahead < 5 := by
      cases hr : s.reads r with
      | idle => exact absurd hr hcalled
      | _ => simp [Read.ahead]
    have hkeep : ∀ u e v, (u.reads r).ahead < 5 → GoesOn r err e → step cfg u e = some v → (v.reads r).ahead < 5 :=
      fun u e v hI _ hs => step_called hs hI
    obtain ⟨es', t, hC, ht, hend⟩ := completes (D := fun u => (u.reads r).ahead = 0) hkeep
      (fun u e v _ he hs => step_ahead_lt hs he.1)
      (fun u hI hD => own_step cfg err hI (Nat.pos_of_ne_zero hD)) hahead
    have hbound := run_potential (P := fun _ _ => true) hkeep (fun u e v _ he hs => step_ahead_lt hs he.1) hahead hC ht
    rw [tally_true ht] at hbound
    refine ⟨es', t, ht, hC, by omega, hend, ?_⟩
    refine run_inv_of (I := fun u => (u.reads r).lost = true → (s.reads r).lost = true)
      (fun u e v hI he hs hl => ?_) id hC ht
    rcases step_lost hs hl with hbefore | hnow
    · exact hI hbefore
    · rw [he.2.1] at hnow
      cases hnow

/-- A read whose GET failed, with Redis down for good. -/
theorem read_completes_down : ∃ s es t, run (step oneConfig) start [.detailSku 0 1, .get 0 (some "down")] = some s ∧
    run (step oneConfig) s es = some t ∧ Meets (step oneConfig) (fun _ e => GoesOn 0 (some "down") e) s es ∧
    (t.reads 0).ahead = 0 ∧ (t.reads 0).lost = false := by
  have hrun : ((run (step oneConfig) start [.detailSku 0 1, .get 0 (some "down")]).map fun s =>
      ((s.reads 0).ahead, (s.reads 0).lost)) = some (3, false) := by decide +kernel
  obtain ⟨s, hs, hv⟩ := Option.map_eq_some_iff.1 hrun
  obtain ⟨hahead, hfine⟩ := Prod.mk.inj hv
  have hcalled : s.reads 0 ≠ .idle := by
    intro hidle
    rw [hidle] at hahead
    cases hahead
  obtain ⟨es, t, ht, hC, -, hend, hlost⟩ :=
    (read_completes oneConfig 100000 oneSku _ s hs 0).2.2.2.2 hcalled (some "down")
  refine ⟨s, es, t, hs, ht, hC, hend, Bool.eq_false_of_not_eq_true fun hl => ?_⟩
  rw [hlost hl] at hfine
  cases hfine

end Seckill.ReadPath
