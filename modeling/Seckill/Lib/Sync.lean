import Seckill.Lib.Run

/-!
# Two systems side by side

`sync step₁ step₂ parts`: an event of the whole is an event of the first system, of the
second or of both at once (`parts`, which may look at the state of the first). The
second system sees a run of its own (`sync_right`), and a step it takes there is one of
the whole (`takes_right`).

Two runs of one system whose events are related in pairs yield the same if related steps
do (`collect_related`).
-/

namespace Machine

variable {σ τ α β ε : Type*}

/-- A system takes an event, or stands still. -/
def step? (step : σ → α → Option σ) (s : σ) : Option α → Option σ
  | none => some s
  | some a => step s a

/-- The two systems, with their events in common. -/
def sync (step₁ : σ → α → Option σ) (step₂ : τ → β → Option τ) (parts : σ → ε → Option (Option α × Option β))
    (s : σ × τ) (e : ε) : Option (σ × τ) :=
  (parts s.1 e).bind fun p => (step? step₁ s.1 p.1).bind fun t₁ => (step? step₂ s.2 p.2).map fun t₂ => (t₁, t₂)

variable {step₁ : σ → α → Option σ} {step₂ : τ → β → Option τ} {parts : σ → ε → Option (Option α × Option β)}
  {s t : σ × τ} {e : ε} {es : List ε}

theorem sync_eq_some : sync step₁ step₂ parts s e = some t ↔
    ∃ p, parts s.1 e = some p ∧ step? step₁ s.1 p.1 = some t.1 ∧ step? step₂ s.2 p.2 = some t.2 := by
  unfold sync
  simp only [Option.bind_eq_some_iff, Option.map_eq_some_iff]
  constructor
  · rintro ⟨p, hp, t₁, h₁, t₂, h₂, rfl⟩
    exact ⟨p, hp, h₁, h₂⟩
  · rintro ⟨p, hp, h₁, h₂⟩
    exact ⟨p, hp, _, h₁, _, h₂, rfl⟩

/-- The events of the second system. -/
def rights (step₁ : σ → α → Option σ) (step₂ : τ → β → Option τ) (parts : σ → ε → Option (Option α × Option β))
    (s : σ × τ) (es : List ε) : List β :=
  collect (sync step₁ step₂ parts) (fun s e => (parts s.1 e).bind Prod.snd) s es

theorem run_toList {step : σ → α → Option σ} {s t : σ} {a : Option α} :
    run step s a.toList = some t ↔ step? step s a = some t := by
  cases a with
  | none => exact Iff.rfl
  | some a => rw [Option.toList_some, ← List.nil_append [a], run_snoc]; simp [step?]

/-- **The second system's run.** -/
theorem sync_right (h : run (sync step₁ step₂ parts) s es = some t) :
    run step₂ s.2 (rights step₁ step₂ parts s es) = some t.2 := by
  refine run_trace (I := fun es t => run step₂ s.2 (rights step₁ step₂ parts s es) = some t.2) rfl ?_ h
  intro es u e v hu ih hv
  obtain ⟨p, hp, -, hright⟩ := sync_eq_some.1 hv
  unfold rights at ih ⊢
  rw [collect_snoc e hu, run_append]
  refine ⟨u.2, ih, ?_⟩
  rw [hp, Option.bind_some, run_toList]
  exact hright

/-- **What the second system takes, the whole takes**, in a state it is a part of. -/
theorem takes_right (h : run (sync step₁ step₂ parts) s es = some t) : ∀ v b,
    Takes step₂ s.2 (rights step₁ step₂ parts s es) v b →
      ∃ w e, Takes (sync step₁ step₂ parts) s es w e ∧ w.2 = v ∧ (parts w.1 e).bind Prod.snd = some b := by
  refine run_trace (I := fun es _ => ∀ v b, Takes step₂ s.2 (rights step₁ step₂ parts s es) v b →
    ∃ w e, Takes (sync step₁ step₂ parts) s es w e ∧ w.2 = v ∧ (parts w.1 e).bind Prod.snd = some b) ?_ ?_ h
  · intro v b htakes
    exact absurd htakes.mem List.not_mem_nil
  · intro es u e x hu ih hx v b htakes
    have hsnoc : rights step₁ step₂ parts s (es ++ [e]) =
        rights step₁ step₂ parts s es ++ ((parts u.1 e).bind Prod.snd).toList := collect_snoc e hu
    rw [hsnoc] at htakes
    cases hb : (parts u.1 e).bind Prod.snd with
    | none =>
      rw [hb, Option.toList_none, List.append_nil] at htakes
      obtain ⟨w, e', hw, hpart⟩ := ih v b htakes
      exact ⟨w, e', hw.snoc e, hpart⟩
    | some b' =>
      rw [hb, Option.toList_some] at htakes
      rcases takes_snoc.1 htakes with hbefore | ⟨rfl, hv⟩
      · obtain ⟨w, e', hw, hpart⟩ := ih v b hbefore
        exact ⟨w, e', hw.snoc e, hpart⟩
      · exact ⟨u, e, takes_last e hu, Option.some.inj ((sync_right hu).symm.trans hv), hb⟩

/-- **Two runs of related events yield the same**, if related steps yield the same and lead
to related states. Each run may meet a condition. -/
theorem collect_related {γ : Type*} {step : σ → α → Option σ} {f : σ → α → Option γ} {R : σ → σ → Prop}
    {E : α → α → Prop} {C : σ → α → Prop}
    (hstep : ∀ s t a b, R s t → E a b → C s a → C t b → f s a = f t b ∧ Option.Rel R (step s a) (step t b))
    {as bs : List α} (hE : List.Forall₂ E as bs) {s t : σ} (hR : R s t) (hs : Meets step C s as)
    (ht : Meets step C t bs) : collect step f s as = collect step f t bs := by
  induction hE generalizing s t with
  | nil => rfl
  | @cons a b as bs hab _ ih =>
    obtain ⟨hf, hrel⟩ := hstep s t a b hR hab hs.1 ht.1
    unfold collect
    rw [hf]
    cases hs' : step s a with
    | none =>
      rw [hs'] at hrel
      cases ht' : step t b with
      | none => rfl
      | some t' => rw [ht'] at hrel; cases hrel
    | some s' =>
      rw [hs'] at hrel
      cases ht' : step t b with
      | none => rw [ht'] at hrel; cases hrel
      | some t' =>
        rw [ht'] at hrel
        cases hrel with
        | some hR' => exact congrArg _ (ih hR' (hs.2 s' hs') (ht.2 t' ht'))

end Machine
