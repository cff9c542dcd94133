import Seckill.Proof.Freshness
import Seckill.Proof.ReadSteps

/-!
# How often a sku is read from the database

`SkuCache::setNull`: whoever asks for ids at random gets through to the database at most
once a minute for each. `filled_shields`: once a `SETEX` of a sku took effect in Redis, the
row's or the placeholder's, no request that is called later reads the sku from the
database until the shortest TTL has passed, unless a delete of it took effect or its own
GET failed.

`Did` says where what a level has is from. Here it is the other way round (`Keeps`): what
Redis has stays until it is written over, and is then there for longer, and a request
gets to the SELECT only if it found nothing (`Goes`).
-/

namespace Seckill.ReadPath

open Redis
open SeckillService (Config itemText Faithful)

variable {cfg : Config} {s s' t : State} {e : Ev} {r : ℕ} {skuId : Int64}

/-! ## A sku that was filled -/

/-- A `SETEX` of the sku takes effect. -/
def fills (skuId : Int64) (s : State) : Ev → Bool
  | .apply i none => match s.pending[i]? with
    | some (.write .redis key _ _ _) => decide (key = .skuItem skuId)
    | _ => false
  | _ => false

/-- A `DEL` of the sku takes effect. -/
def clears (skuId : Int64) (s : State) : Ev → Bool
  | .apply i none => match s.pending[i]? with
    | some (.delete .redis keys _) => decide (Key.skuItem skuId ∈ keys)
    | _ => false
  | _ => false

/-- The GET of request `r` fails. -/
def getFails (r : ℕ) : Ev → Bool
  | .get r' (some _) => decide (r' = r)
  | _ => false

/-- What Redis has of the sku afterwards: what it had, or what this event wrote. -/
theorem applyStep_cell {i : ℕ} {err : Option String} (h : applyStep cfg s i err = some t)
    (hclears : clears skuId s (.apply i err) = false) :
    t.redis.cell (.skuItem skuId) = s.redis.cell (.skuItem skuId) ∨
      err = none ∧ ∃ value ttl stamp, s.pending[i]? = some (.write .redis (.skuItem skuId) value ttl stamp) ∧
        t.redis.cell (.skuItem skuId) = some ⟨.raw value, some (s.redis.now + ttl.toNat * 1000)⟩ := by
  unfold applyStep at h
  cases hi : s.pending[i]? with
  | none =>
    rw [hi] at h
    cases h
  | some f =>
    rw [hi] at h
    cases f with
    | write level key value ttl stamp =>
      cases level with
      | local_ =>
        simp only [perform] at h
        split at h
        · cases h
        · rw [← Option.some.inj h]
          exact Or.inl rfl
      | redis =>
        simp only [perform, exec, Redis.setex] at h
        cases err with
        | some what =>
          rw [← Option.some.inj h]
          exact Or.inl rfl
        | none =>
          by_cases httl : ttl ≤ 0
          · simp only [if_pos httl] at h
            rw [← Option.some.inj h]
            exact Or.inl rfl
          · simp only [if_neg httl] at h
            rw [← Option.some.inj h]
            by_cases hkey : key = .skuItem skuId
            · subst hkey
              exact Or.inr ⟨rfl, value, ttl, stamp, rfl, Store.cell_put_self _ _ _⟩
            · exact Or.inl (Store.cell_put_of_ne _ _ (Ne.symm hkey))
    | delete level keys second =>
      cases level with
      | local_ =>
        simp only [perform] at h
        split at h
        · cases h
        · rw [← Option.some.inj h]
          exact Or.inl rfl
      | redis =>
        simp only [perform, exec] at h
        cases err with
        | some what =>
          rw [← Option.some.inj h]
          exact Or.inl rfl
        | none =>
          rw [← Option.some.inj h]
          left
          simp only [clears, hi, decide_eq_false_iff_not] at hclears
          exact ((delAll_cell keys s.redis).2 _).trans (if_neg hclears)
    | schedule keys order =>
      simp only [perform, scheduleDelayedDelete] at h
      split at h
      · cases h
      · split at h <;> (rw [← Option.some.inj h]; exact Or.inl rfl)

/-- A GET that finds nothing of what is there comes after its time. -/
theorem got_none {key : Key} {entry : Entry} {x : ℕ} (hcell : s.redis.cell key = some entry) (hval : entry.val ≠ .other)
    (hx : entry.expireAt = some x) (htext : entry.val.text ≠ "") (h : got none key s = none) : x < s.redis.now := by
  by_contra hlate
  have hfind : s.redis.find key = some entry :=
    Store.find_some.2 ⟨hcell, by rw [Entry.alive, hx]; exact decide_eq_true (Nat.not_lt.1 hlate)⟩
  rcases get_cases key s.redis with hget | ⟨e, err, hfind', hother, -⟩
  · unfold got exec at h
    simp only [hget, hfind, Option.map_some] at h
    rw [Option.filter_eq_none_iff] at h
    exact absurd htext (by simpa using h _ rfl)
  · rw [hfind] at hfind'
    rw [← Option.some.inj hfind'] at hother
    exact hval hother

/-- What a request has of the sku: if it missed, after `d`; and a string that parses. -/
def Waits (cfg : Config) (skuId : Int64) (d : ℤ) : Read → Prop
  | .reply (.detail id) none looked => id = skuId → d < looked
  | .reply (.detail id) (some v) _ => id = skuId → ∃ table, Faithful cfg.json table ∧ v = itemText cfg table skuId
  | .select (.detail id) looked => id = skuId → d < looked
  | _ => True

/-- No delete of the sku takes effect, and the request's GET does not fail. -/
def Shielded (skuId : Int64) (r : ℕ) (s : State) (e : Ev) : Prop := clears skuId s e = false ∧ getFails r e = false

instance shieldedDecidable (skuId : Int64) (r : ℕ) (s : State) (e : Ev) : Decidable (Shielded skuId r s e) :=
  inferInstanceAs (Decidable (_ ∧ _))

/-- **The sku is in Redis until `d`**, and request `r` does not get past it before. -/
structure Shield (cfg : Config) (skuId : Int64) (r : ℕ) (d : ℤ) (s : State) : Prop where
  long : ∀ f ∈ s.pending, LongEnough cfg f
  later : d ≤ s.redis.now + leastTtl cfg * 1000
  cell : ∃ entry x, s.redis.cell (.skuItem skuId) = some entry ∧ entry.val ≠ .other ∧ entry.expireAt = some x ∧
    d ≤ (x : ℕ)
  read : Waits cfg skuId d (s.reads r)

/-- Every text of the sku was made of rows that jsoncpp reads back. -/
def Readable (cfg : Config) (skuId : Int64) (s : State) : Prop :=
  ∀ level x, held level s (.skuItem skuId) = some x →
    ∃ table, Faithful cfg.json table ∧ x.value = itemText cfg table skuId

theorem readable_of_run {s₀ : State} {es : List Ev} {now : ℕ} {table₀ : SkuTable} (hs₀ : s₀ = State.init cfg now table₀)
    (hj : Machine.Meets (step cfg) (fun v _ => Faithful cfg.json v.table) s₀ es)
    (hrun : Machine.run (step cfg) s₀ es = some s) (skuId : Int64) : Readable cfg skuId s := by
  subst hs₀
  intro level x hx
  obtain ⟨table, ⟨v, ⟨r, hselect⟩, rfl, -⟩, hcarries⟩ := (run_grounded hrun).held level _ x hx
  refine ⟨v.table, ?_, hcarries⟩
  rcases hselect with hselect | hselect
  · exact hselect.meets hj
  · exact hselect.meets hj

/-- What is written of a sku is not empty. -/
theorem itemText_ne_empty {table : SkuTable} (hj : Faithful cfg.json table) (skuId : Int64) :
    itemText cfg table skuId ≠ "" := by
  unfold itemText
  cases hfind : table.find skuId with
  | none => exact (by decide : SkuCache.kNullValue ≠ "")
  | some row => exact SeckillService.ne_empty_of_fromJson (hj.item row (SeckillService.mem_rows_of_find hfind))

/-- How the request goes on under the shield. -/
theorem Shield.goes {d : ℤ} {p : Read} (h : Shield cfg skuId r d s) (henabled : cfg.cache.enabled = true)
    (hread : Readable cfg skuId s) (hs : Shielded skuId r s e) (hgoes : Goes cfg s r e p)
    (hbecomes : Becomes cfg s e r p) : Waits cfg skuId d p := by
  have hw := h.read
  cases hgoes with
  | direct hr hdisabled => exact absurd henabled hdisabled
  | @hit query _ v =>
    cases query with
    | list => trivial
    | detail id =>
      rintro rfl
      obtain ⟨level, x, hx, rfl, -⟩ := hbecomes.2 v rfl
      exact hread level x hx
  | @got query err hr =>
    cases query with
    | list => cases got err Query.list.key s <;> trivial
    | detail id =>
      cases hgot : got err (Query.detail id).key s with
      | some v =>
        rintro rfl
        obtain ⟨level, x, hx, rfl, -⟩ := hbecomes.2 v hgot
        exact hread level x hx
      | none =>
        rintro rfl
        -- what is there was not found
        have herr : err = none := by
          cases err with
          | none => rfl
          | some what => exact absurd hs.2 (by simp [getFails])
        rw [herr] at hgot
        obtain ⟨entry, x, hcell, hval, hx, hdx⟩ := h.cell
        obtain ⟨table, hfaithful, htext⟩ := hread .redis ⟨entry.val.text, entry.expireAt.map Nat.cast⟩
          (by simp [held, hcell])
        have hne : entry.val.text ≠ "" := by
          rw [show entry.val.text = itemText cfg table id from htext]
          exact itemText_ne_empty hfaithful id
        have hlate : x < s.redis.now := got_none hcell hval hx hne hgot
        omega
  | @miss query looked hr =>
    rw [hr] at hw
    cases query with
    | list => trivial
    | detail id => exact hw
  | @broken query v looked hr hv =>
    rw [hr] at hw
    cases query with
    | list => trivial
    | detail id =>
      rintro rfl
      -- a string of the sku parses
      obtain ⟨table, hfaithful, rfl⟩ := hw rfl
      rw [decode_itemText hfaithful] at hv
      cases hv
  | ask | decoded | failed | selected | answered | warm | warmFailed | warmSelected | warmed => trivial

/-- **One step** under the shield. -/
theorem Shield.step {d : ℤ} (h : Shield cfg skuId r d s) (henabled : cfg.cache.enabled = true)
    (hread : Readable cfg skuId s) (hs : Shielded skuId r s e) (he : step cfg s e = some t) :
    Shield cfg skuId r d t := by
  have hkeeps := step_keeps he
  have hdid := step_did he
  have hnow := hdid.now
  have hlater := h.later
  refine ⟨fun f hf => ?_, by omega, ?_, ?_⟩
  · rcases hkeeps.pending f hf with hbefore | hnew
    · exact h.long f hbefore
    · exact hnew
  · obtain ⟨entry, x, hcell, hval, hx, hdx⟩ := h.cell
    rcases hkeeps.cell with ⟨i, err, rfl⟩ | hsame
    · rcases applyStep_cell he hs.1 with hsame | ⟨-, value, ttl, stamp, hi, hwritten⟩
      · exact ⟨entry, x, hsame.trans hcell, hval, hx, hdx⟩
      · -- it is written over, for as long from now
        have httl : leastTtl cfg ≤ ttl := h.long _ (List.mem_of_getElem? hi)
        refine ⟨_, _, hwritten, Val.noConfusion, rfl, ?_⟩
        push_cast
        omega
    · exact ⟨entry, x, (congrFun hsame _).trans hcell, hval, hx, hdx⟩
  · rcases hdid.reads r with hsame | hbecomes
    · rw [hsame]
      exact h.read
    · rcases hkeeps.reads r with ⟨-, hsame⟩ | hgoes
      · rw [hsame]
        exact h.read
      · exact h.goes henabled hread hs hgoes hbecomes

/-- **A filled sku is not read from the database** until its shortest TTL has passed. In a
run from the start: when a `SETEX` of the sku took effect, a request called later that
gets to the SELECT of the sku had its lookup more than `leastTtl` after, unless a delete of
the sku took effect meanwhile or its GET failed. -/
theorem filled_shields {now : ℕ} {table₀ : SkuTable} {pre post : List Ev} {u w : State} {looked : ℕ}
    (hleast : 1 ≤ leastTtl cfg) (henabled : cfg.cache.enabled = true)
    (hj : Machine.Meets (step cfg) (fun v _ => Faithful cfg.json v.table) (State.init cfg now table₀)
      (pre ++ e :: post))
    (hpre : Machine.run (step cfg) (State.init cfg now table₀) pre = some u) (hfills : fills skuId u e = true)
    (hidle : u.reads r = .idle) (he : step cfg u e = some w)
    (hshielded : Machine.Meets (step cfg) (Shielded skuId r) w post)
    (hpost : Machine.run (step cfg) w post = some s) (hselect : s.reads r = .select (.detail skuId) looked) :
    u.redis.now + leastTtl cfg * 1000 < looked := by
  have hlong : ∀ f ∈ u.pending, LongEnough cfg f := by
    refine Machine.run_inv (I := fun s => ∀ f ∈ s.pending, LongEnough cfg f) (fun s e t hs he f hf => ?_)
      (fun f hf => absurd hf List.not_mem_nil) hpre
    rcases (step_keeps he).pending f hf with hbefore | hnew
    · exact hs f hbefore
    · exact hnew
  -- the fill
  have hstart : Shield cfg skuId r (u.redis.now + leastTtl cfg * 1000) w := by
    have hkeeps := step_keeps he
    have hnow := (step_did he).now
    refine ⟨fun f hf => (hkeeps.pending f hf).elim (hlong f) id, by omega, ?_, ?_⟩
    · unfold fills at hfills
      split at hfills
      next i =>
        split at hfills
        next key value ttl stamp hi =>
          obtain rfl := of_decide_eq_true hfills
          have httl : leastTtl cfg ≤ ttl := hlong _ (List.mem_of_getElem? hi)
          have happly : applyStep cfg u i none = some w := he
          simp only [applyStep, hi, perform, exec, Redis.setex, if_neg (show ¬ttl ≤ 0 by omega)] at happly
          rw [← Option.some.inj happly]
          refine ⟨_, _, Store.cell_put_self _ _ _, Val.noConfusion, rfl, ?_⟩
          push_cast
          omega
        next => cases hfills
      next => cases hfills
    · have hw : w.reads r = u.reads r := by
        cases e with
        | apply i err =>
          have happly : applyStep cfg u i err = some w := he
          unfold applyStep at happly
          split at happly
          · exact congrFun (perform_frame happly).2 r
          · cases happly
        | _ => cases hfills
      rw [hw, hidle]
      trivial
  have hfore : Machine.run (step cfg) (State.init cfg now table₀) (pre ++ [e]) = some w :=
    Machine.run_snoc.2 ⟨u, hpre, he⟩
  rw [List.append_cons] at hj
  obtain ⟨hjfore, hjpost⟩ := Machine.meets_append hj
  have hend := Machine.run_trace_of
    (I := fun es s => Machine.Meets (step cfg) (fun v _ => Faithful cfg.json v.table) (State.init cfg now table₀)
      (pre ++ [e] ++ es) ∧ Shield cfg skuId r (u.redis.now + leastTtl cfg * 1000) s)
    (by rw [List.append_nil]; exact ⟨hjfore, hstart⟩) (fun es s e' t hrun h hC he' => ?_)
    (Machine.meets_and (hjpost w hfore) hshielded) hpost
  · have hread := hend.2.read
    rw [hselect] at hread
    exact hread rfl
  · have hwhole := Machine.run_append.2 ⟨w, hfore, hrun⟩
    refine ⟨?_, h.2.step henabled (readable_of_run rfl h.1 hwhole skuId) hC.2 he'⟩
    rw [← List.append_assoc]
    refine Machine.meets_of_append h.1 fun v hv => ?_
    rw [hwhole] at hv
    rw [← Option.some.inj hv]
    exact ⟨hC.1, fun _ _ => trivial⟩

/-! ## A minute later -/

/-- A request read the sku and its `SETEX` is about to take effect. -/
def beforeFill : List Ev := [.detailSku 0 1, .get 0 none, .reply 0, .select 0 none, .answer 0 7]

/-- The next one looks when that has expired; L1 was not written yet. -/
def afterFill : List Ev := [.wait 70000, .detailSku 1 1, .get 1 none, .reply 1]

/-- The time of the lookup of a request that reads the sku from the database. -/
def Read.selects (skuId : Int64) : Read → Option ℕ
  | .select (.detail skuId') looked => if skuId' = skuId then some looked else none
  | _ => none

theorem selects_some {p : Read} {looked : ℕ} (h : p.selects skuId = some looked) :
    p = .select (.detail skuId) looked := by
  unfold Read.selects at h
  split at h
  next =>
    split at h
    next hid => rw [← Option.some.inj h, hid]
    next => cases h
  next => cases h

/-- It reads the sku from the database, seventy seconds after. -/
theorem filled_shields_expired : ∃ u w s looked, Machine.run (step oneConfig) start beforeFill = some u ∧
    step oneConfig u (.apply 0 none) = some w ∧ Machine.run (step oneConfig) w afterFill = some s ∧
    s.reads 1 = .select (.detail 1) looked ∧ u.redis.now + leastTtl oneConfig * 1000 < looked := by
  have hend : ((Machine.run (step oneConfig) start (beforeFill ++ .apply 0 none :: afterFill)).map fun s =>
      ((s.reads 1).selects 1).isSome) = some true := by decide +kernel
  obtain ⟨s, hs, hsome⟩ := Option.map_eq_some_iff.1 hend
  obtain ⟨looked, hlooked⟩ := Option.isSome_iff_exists.1 hsome
  obtain ⟨u, hu, hrest⟩ := Machine.run_append.1 hs
  obtain ⟨w, hw, hafter⟩ := Machine.run_cons.1 hrest
  have hrows : Machine.Meets (step oneConfig)
      (fun v _ => v.table.rows = oneSku.rows ∨ v.table.rows = (oneSku.deduct 1).rows) start
      (beforeFill ++ .apply 0 none :: afterFill) := by decide +kernel
  have hfills : ((Machine.run (step oneConfig) start beforeFill).map fun u => fills 1 u (.apply 0 none)) =
      some true := by decide +kernel
  have hread : ((Machine.run (step oneConfig) start beforeFill).map fun u =>
      Machine.run (step oneConfig) u [.detailSku 1 1] |>.isSome) = some true := by decide +kernel
  have hshielded : ((Machine.run (step oneConfig) start (beforeFill ++ [.apply 0 none])).map fun w =>
      decide (Machine.Meets (step oneConfig) (Shielded 1 1) w afterFill)) = some true := by decide +kernel
  rw [hu, Option.map_some, Option.some.injEq] at hfills hread
  rw [Machine.run_snoc.2 ⟨u, hu, hw⟩, Option.map_some, Option.some.injEq] at hshielded
  -- whoever can be called is idle
  have hidle : u.reads 1 = .idle := by
    obtain ⟨t, ht⟩ := Option.isSome_iff_exists.1 hread
    obtain ⟨t', ht', -⟩ := Machine.run_cons.1 ht
    have hstep : readStep oneConfig u 1 (.detail 1) = some t' := ht'
    unfold readStep at hstep
    split at hstep
    next h => exact h
    next => cases hstep
  exact ⟨u, w, s, looked, hu, hw, hafter, selects_some hlooked,
    filled_shields (by decide) (by decide) (Machine.meets_imp (fun v _ h => oneSku_faithful h) hrows) hu hfills hidle
      hw (of_decide_eq_true hshielded) hafter (selects_some hlooked)⟩

end Seckill.ReadPath
