import Seckill.Lib.Held
import Seckill.Proof.GuardSizes

/-!
# One law for the three gates

A gate marks places: the keys themselves in the sets, the bits in the bitmap. `View` says
what a call does to the marks, and it is all that the rest needs:

* `View.held_run`: after every run, the places marked are those of the live tokens, and no
  two of these share one.
* `View.refines`: the answers are those of the reference, whatever the shards are.
* `guard_law`: both for the sets and the bitmap, in terms of the keys.

In every mode the counters are those of the answers (`counters_run`).
-/

namespace Seckill

namespace InflightGuard

/-! ## Views -/

/-- **What a call does to the marks.** `pos` is the place of a key, `set g p` that it is
marked; both are fixed by the configuration `I`. -/
structure View {π : Type} (I : InflightGuard → Prop) (pos : UInt64 → π) (set : InflightGuard → π → Prop) : Prop where
  shape : ∀ {g g'}, I g → SameShape g g' → I g'
  tryAcquire : ∀ {g key g' got}, I g → g.tryAcquire key = some (g', got) →
    (got = true ↔ ¬set g (pos key)) ∧ ∀ p, set g' p ↔ set g p ∨ pos key = p
  release : ∀ {g key g'}, I g → g.release key = some g' → ∀ p, set g' p ↔ set g p ∧ pos key ≠ p

/-- The sets mark the keys themselves. -/
theorem view_exact : View (fun g => g.mode = .mutex ∨ g.mode = .spin) id fun g k => g.marked k = true where
  shape := by
    intro g g' hm hshape
    rwa [hshape.mode]
  tryAcquire := by
    intro g key g' got hm h
    have hnone : g.mode ≠ .none := by rcases hm with hm | hm <;> rw [hm] <;> decide
    have hatomic : g.mode ≠ .atomic := by rcases hm with hm | hm <;> rw [hm] <;> decide
    obtain ⟨hgot, hmarks⟩ := tryAcquire_spec hnone h
    refine ⟨by rw [hgot]; simp, fun k => ?_⟩
    rw [hmarks k, Bool.or_eq_true, decide_eq_true_iff, slot_exact_eq hatomic]
    rfl
  release := by
    intro g key g' hm h k
    have hnone : g.mode ≠ .none := by rcases hm with hm | hm <;> rw [hm] <;> decide
    have hatomic : g.mode ≠ .atomic := by rcases hm with hm | hm <;> rw [hm] <;> decide
    rw [release_spec hnone h k, Bool.and_eq_true, Bool.not_eq_true', decide_eq_false_iff_not, slot_exact_eq hatomic]
    rfl

/-- The bit of a key in a bitmap of `bits` bits, counted through its words. -/
def slotOf (bits key : UInt64) : ℕ := 64 * (key.toNat % bits.toNat / 64) + key.toNat % 64

/-- Bit `p` of the bitmap. -/
def bit (g : InflightGuard) (p : ℕ) : Bool := Bits.bitAt g.bitmap (p / 64) (p % 64)

theorem slotOf_eq_iff (g : InflightGuard) (key : UInt64) (p : ℕ) :
    g.word key = p / 64 ∧ key.toNat % 64 = p % 64 ↔ slotOf g.bits key = p := by
  rw [word_toNat]
  unfold slotOf
  omega

theorem bit_slotOf (g : InflightGuard) (key : UInt64) :
    g.bit (slotOf g.bits key) = Bits.bitAt g.bitmap (g.word key) (key.toNat % 64) := by
  obtain ⟨hword, hbit⟩ := (slotOf_eq_iff g key _).2 rfl
  unfold bit
  rw [← hword, ← hbit]

/-- The bitmap marks its bits. -/
theorem view_atomic (bits : UInt64) :
    View (fun g => g.mode = .atomic ∧ g.bits = bits) (slotOf bits) fun g p => g.bit p = true where
  shape := by
    rintro g g' ⟨hm, hbits⟩ hshape
    exact ⟨hshape.mode.trans hm, hshape.bits.trans hbits⟩
  tryAcquire := by
    rintro g key g' got ⟨hm, rfl⟩ h
    obtain ⟨hgot, hbit⟩ := tryAcquire_bitmap hm h
    refine ⟨by rw [bit_slotOf, hgot]; simp, fun p => ?_⟩
    unfold bit
    rw [hbit, Bool.or_eq_true, decide_eq_true_iff, slotOf_eq_iff]
  release := by
    rintro g key g' ⟨hm, rfl⟩ h p
    unfold bit
    rw [release_bitmap hm h, Bool.and_eq_true, Bool.not_eq_true', decide_eq_false_iff_not, slotOf_eq_iff]

/-- A bitmap without a bit is zero. -/
theorem bitmap_eq_zero {g : InflightGuard} (h : ∀ p, g.bit p = false) {w : UInt64} (hw : w ∈ g.bitmap) : w = 0 := by
  obtain ⟨i, hi, hget⟩ := Array.mem_iff_getElem.1 hw
  have hword : g.bitmap[i]? = some w := by rw [Array.getElem?_eq_getElem hi, hget]
  apply UInt64.toNat_inj.1
  apply Nat.eq_of_testBit_eq
  intro j
  rw [show (0 : UInt64).toNat = 0 from rfl, Nat.zero_testBit]
  by_cases hj : j < 64
  · have hbit := h (64 * i + j)
    unfold bit at hbit
    rwa [show (64 * i + j) / 64 = i by omega, show (64 * i + j) % 64 = j by omega, Bits.bitAt_eq hword] at hbit
  · exact Nat.testBit_lt_two_pow (lt_of_lt_of_le w.toNat_lt (Nat.pow_le_pow_right (by decide) (by omega)))

end InflightGuard

/-! ## Tokens -/

namespace InflightTokens

open Machine InflightGuard

variable {ρ π : Type} {key : ρ → UInt64} {s s' : InflightTokens ρ} {e : Ev ρ}
  {I : InflightGuard → Prop} {pos : UInt64 → π} {set : InflightGuard → π → Prop}

/-- The places of the live tokens. -/
def places (key : ρ → UInt64) (pos : UInt64 → π) (live : ℕ → Option ρ) : ℕ → Option π :=
  Option.map (fun r => pos (key r)) ∘ live

theorem places_update (key : ρ → UInt64) (pos : UInt64 → π) (live : ℕ → Option ρ) (i : ℕ) (r : Option ρ) :
    places key pos (Function.update live i r) =
      Function.update (places key pos live) i (r.map fun r => pos (key r)) :=
  Function.comp_update _ _ _ _

theorem places_eq_some {live : ℕ → Option ρ} {i : ℕ} {p : π} :
    places key pos live i = some p ↔ ∃ r, live i = some r ∧ pos (key r) = p :=
  Option.map_eq_some_iff

/-- **The marked places are those of the live tokens**, which are in different places, and
all keys are in bounds. -/
structure Lawful (key : ρ → UInt64) (I : InflightGuard → Prop) (pos : UInt64 → π) (set : InflightGuard → π → Prop)
    (s : InflightTokens ρ) : Prop where
  view : I s.guard
  held : Marks.Held id (set s.guard) (places key pos s.live)
  inBounds : ∀ k, s.guard.InBounds k

/-- A request is free when its place is not marked. -/
theorem Lawful.free_iff (h : Lawful key I pos set s) (r : ρ) :
    Reference.Free (fun r => pos (key r)) s.live r ↔ ¬set s.guard (pos (key r)) := by
  rw [h.held.marks]
  constructor
  · rintro hfree ⟨i, hi⟩
    obtain ⟨r', hr', hpos⟩ := places_eq_some.1 hi
    exact hfree i r' hr' hpos
  · intro hnone i r' hr' hpos
    exact hnone ⟨i, places_eq_some.2 ⟨r', hr', hpos⟩⟩

theorem Lawful.step (v : View I pos set) (h : Lawful key I pos set s) (hstep : step key s e = some s') :
    Lawful key I pos set s' := by
  have hshape := step_shape hstep
  refine ⟨v.shape h.view hshape, ?_, fun k => hshape.inBounds.2 (h.inBounds k)⟩
  rcases step_cases hstep with ⟨i, r, -, hnone, hacquire⟩ | ⟨i, r, -, hr, hrelease⟩
  · obtain ⟨got, hgot, hlive⟩ := tryAcquire_eq hacquire
    obtain ⟨hfree, hset⟩ := v.tryAcquire h.view hgot
    have hi : places key pos s.live i = none := by
      unfold places
      rw [Function.comp_apply, hnone]
      rfl
    cases got with
    | false =>
      have hmarked : set s.guard (pos (key r)) := not_not.1 fun hclear => Bool.false_ne_true (hfree.2 hclear)
      rw [hlive]
      exact h.held.refuse hmarked hset
    | true =>
      rw [hlive, if_pos rfl, places_update]
      exact h.held.acquire (hfree.1 rfl) hi hset
  · obtain ⟨hguard, hlive⟩ := release_eq hrelease
    rw [hlive, places_update]
    exact h.held.release (places_eq_some.2 ⟨r, hr, rfl⟩) (v.release h.view hguard)

theorem Lawful.new (key : ρ → UInt64) {mode : Mode} {shards bits : UInt64} (hI : I (.new mode shards bits))
    (hset : ∀ p, ¬set (.new mode shards bits) p) (hfit : SizesFit mode shards bits) :
    Lawful key I pos set (.new mode shards bits) where
  view := hI
  held := Marks.Held.empty hset fun _ => rfl
  inBounds k := (new_inBounds mode shards bits k).2 hfit

/-- **One step is a step of the reference.** -/
theorem Lawful.refines (v : View I pos set) (h : Lawful key I pos set s) (e : Ev ρ) :
    (InflightTokens.step key s e).map live = Reference.step (fun r => pos (key r)) s.live e ∧
      answer key s e = Reference.answer (fun r => pos (key r)) s.live e := by
  cases e with
  | tryAcquire i r =>
    obtain ⟨⟨g, got⟩, hg⟩ := Option.isSome_iff_exists.1 (tryAcquire_isSome.2 (h.inBounds (key r)))
    have hfree := (h.free_iff r).trans (v.tryAcquire h.view hg).1.symm
    unfold answer Reference.answer InflightTokens.step Reference.step tryAcquire
    dsimp only
    rw [hg]
    refine ⟨?_, ?_⟩
    · split
      · rfl
      · simp only [hfree]
        rfl
    · simp only [hfree]
      simp
  | release i =>
    refine ⟨?_, rfl⟩
    unfold InflightTokens.step Reference.step release
    dsimp only
    cases hr : s.live i with
    | none => rfl
    | some r =>
      obtain ⟨g, hg⟩ := Option.isSome_iff_exists.1 (release_isSome_iff.2 (h.inBounds (key r)))
      rw [Option.bind_some, hg]
      rfl

/-! ## Runs -/

/-- **Every run keeps the law.** -/
theorem Lawful.run (v : View I pos set) {s₀ : InflightTokens ρ} (h₀ : Lawful key I pos set s₀) {es : List (Ev ρ)}
    (h : Machine.run (InflightTokens.step key) s₀ es = some s) : Lawful key I pos set s :=
  run_inv (fun _ _ _ hlawful hstep => hlawful.step v hstep) h₀ h

/-- **Every run is a run of the reference**, with the same answers. -/
theorem Lawful.refines_run (v : View I pos set) (h : Lawful key I pos set s) (es : List (Ev ρ)) :
    (Machine.run (InflightTokens.step key) s es).map live = Machine.run (Reference.step fun r => pos (key r)) s.live es ∧
      answers key s es = Reference.answers (fun r => pos (key r)) s.live es :=
  ⟨run_map (fun _ _ _ hlawful hstep => hlawful.step v hstep) (fun _ e hlawful => (hlawful.refines v e).1) h es,
    collect_map (fun _ _ _ hlawful hstep => hlawful.step v hstep) (fun _ e hlawful => (hlawful.refines v e).1)
      (fun _ e hlawful => (hlawful.refines v e).2) h es⟩

/-- No two live tokens are in one place. -/
theorem Lawful.apart (h : Lawful key I pos set s) {i j : ℕ} {r r' : ρ} (hi : s.live i = some r) (hj : s.live j = some r')
    (hpos : pos (key r) = pos (key r')) : i = j :=
  h.held.alone i j (pos (key r)) (places_eq_some.2 ⟨r, hi, rfl⟩) (places_eq_some.2 ⟨r', hj, hpos.symm⟩)

/-- A call answers whether its place is free. -/
theorem Lawful.tryAcquire (v : View I pos set) (h : Lawful key I pos set s) (r : ρ) :
    ∃ g' got, s.guard.tryAcquire (key r) = some (g', got) ∧
      (got = true ↔ Reference.Free (fun r => pos (key r)) s.live r) := by
  obtain ⟨⟨g', got⟩, hg⟩ := Option.isSome_iff_exists.1 (tryAcquire_isSome.2 (h.inBounds (key r)))
  exact ⟨g', got, hg, (v.tryAcquire h.view hg).1.trans (h.free_iff r).symm⟩

variable {mode : Mode} {shards bits : UInt64}

theorem lawful_exact (key : ρ → UInt64) (hm : mode = .mutex ∨ mode = .spin) (hshards : shards ≠ 0) :
    Lawful key (fun g => g.mode = .mutex ∨ g.mode = .spin) id (fun g k => g.marked k = true)
      (.new mode shards bits) := by
  refine Lawful.new key (by rwa [new_mode]) (fun k => ?_) ?_
  · rw [marked_new]
    exact Bool.false_ne_true
  · rcases hm with rfl | rfl
    · exact hshards
    · exact hshards

theorem lawful_atomic (key : ρ → UInt64) (hbits : bits ≠ 0) (hfit : bits.toNat + 63 < 2 ^ 64) :
    Lawful key (fun g => g.mode = .atomic ∧ g.bits = bits) (slotOf bits) (fun g p => g.bit p = true)
      (.new .atomic shards bits) := by
  refine Lawful.new key ⟨rfl, rfl⟩ (fun p => ?_) ⟨hbits, hfit⟩
  have hclear : (InflightGuard.new .atomic shards bits).bit p = false := Bits.bitAt_replicate _ _ _
  rw [hclear]
  exact Bool.false_ne_true

/-! ## The law -/

/-- One flat set of live keys. -/
structure ExactLaw (s : InflightTokens UInt64) : Prop where
  accepts : ∀ key, ∃ g' got, s.guard.tryAcquire key = some (g', got) ∧ (got = true ↔ ∀ i, s.live i ≠ some key)
  one : ∀ i j key, s.live i = some key → s.live j = some key → i = j

/-- Live tokens with a bit each. -/
structure BitmapLaw (bits : UInt64) (s : InflightTokens UInt64) : Prop where
  rejects : ∀ key, ∃ g' got, s.guard.tryAcquire key = some (g', got) ∧
    (got = false ↔ ∃ i k, s.live i = some k ∧ slotOf bits k = slotOf bits key)
  apart : ∀ i j k k', s.live i = some k → s.live j = some k' → slotOf bits k = slotOf bits k' → i = j
  clears : ∀ i k, s.live i = some k → ∃ g', s.guard.release k = some g' ∧
    ∀ p, g'.bit p = (s.guard.bit p && !decide (slotOf bits k = p))
  empty : (∀ i, s.live i = none) → ∀ w ∈ s.guard.bitmap, w = 0
  one : ∀ i j k, s.live i = some k → s.live j = some k → i = j

theorem Lawful.exactLaw {s : InflightTokens UInt64}
    (h : Lawful id (fun g => g.mode = .mutex ∨ g.mode = .spin) id (fun g k => g.marked k = true) s) : ExactLaw s where
  accepts key := by
    obtain ⟨g', got, hg, hgot⟩ := h.tryAcquire view_exact key
    refine ⟨g', got, hg, hgot.trans ?_⟩
    constructor
    · intro hfree i hi
      exact hfree i key hi rfl
    · rintro hnone i k hi rfl
      exact hnone i hi
  one i j key hi hj := h.apart hi hj rfl

theorem Lawful.bitmapLaw {s : InflightTokens UInt64}
    (h : Lawful id (fun g => g.mode = .atomic ∧ g.bits = bits) (slotOf bits) (fun g p => g.bit p = true) s) :
    BitmapLaw bits s where
  rejects key := by
    obtain ⟨g', got, hg, hgot⟩ := h.tryAcquire (view_atomic bits) key
    refine ⟨g', got, hg, ?_⟩
    rw [← Bool.not_eq_true, hgot]
    unfold Reference.Free
    simp
  apart i j k k' hi hj hslot := h.apart hi hj hslot
  clears i k hi := by
    obtain ⟨g', hg⟩ := Option.isSome_iff_exists.1 (release_isSome_iff.2 (h.inBounds k))
    refine ⟨g', hg, fun p => ?_⟩
    rw [Bool.eq_iff_iff, (view_atomic bits).release h.view hg p]
    simp
  empty hnone := by
    refine fun w hw => bitmap_eq_zero (fun p => ?_) hw
    -- nobody holds the bit
    have hclear := h.held.clear (k := p) fun i hi => by
      obtain ⟨k, hk, -⟩ := places_eq_some.1 hi
      rw [hnone i] at hk
      cases hk
    exact Bool.eq_false_iff.2 hclear
  one i j k hi hj := h.apart hi hj rfl

/-- A run counts its answers. -/
theorem run_counts {es : List (Ev ρ)} (h : Machine.run (InflightTokens.step key) (.new mode shards bits) es = some s) :
    s.guard.acquired = (answers key (.new mode shards bits) es).count true ∧
      s.guard.rejected = (answers key (.new mode shards bits) es).count false := by
  refine run_trace (I := fun es s => s.guard.acquired = (answers key (.new mode shards bits) es).count true ∧
    s.guard.rejected = (answers key (.new mode shards bits) es).count false) ?_ ?_ h
  · cases mode <;> exact ⟨rfl, rfl⟩
  · rintro es s e s' hrun ⟨hacquired, hrejected⟩ hstep
    unfold answers at hacquired hrejected ⊢
    rw [collect_snoc e hrun, List.count_append, List.count_append, ← hacquired, ← hrejected]
    rcases step_cases hstep with ⟨i, r, rfl, -, hacquire⟩ | ⟨i, r, rfl, -, hrelease⟩
    · obtain ⟨got, hgot, -⟩ := tryAcquire_eq hacquire
      have hanswer : answer key s (.tryAcquire i r) = some got := by
        change (s.guard.tryAcquire (key r)).map Prod.snd = some got
        rw [hgot]
        rfl
      rw [hanswer]
      obtain ⟨ha, hr⟩ := tryAcquire_counts hgot
      cases got <;> exact ⟨ha, hr⟩
    · exact release_counts (release_eq hrelease).1

/-- **What `acquired()` and `rejected()` answer after a run**: the requests that were let in
and those that were turned away, modulo `2 ^ 64`. -/
theorem counters_run {es : List (Ev ρ)}
    (h : Machine.run (InflightTokens.step key) (.new mode shards bits) es = some s) :
    s.guard.acquiredCounter.toNat = (answers key (.new mode shards bits) es).count true % 2 ^ 64 ∧
      s.guard.rejectedCounter.toNat = (answers key (.new mode shards bits) es).count false % 2 ^ 64 := by
  obtain ⟨hacquired, hrejected⟩ := run_counts h
  unfold InflightGuard.acquiredCounter InflightGuard.rejectedCounter
  rw [hacquired, hrejected, Nat.toUInt64_eq, Nat.toUInt64_eq, UInt64.toNat_ofNat', UInt64.toNat_ofNat']
  exact ⟨rfl, rfl⟩

/-- **The law of the gate.** After every run: in the modes with sets, the answers are those
of one flat set of live keys, whatever the number of shards; in mode `atomic` a request is
turned away exactly when a live token is on its bit, live tokens are on different bits, a
release clears its own bit and no other, and without a live token the bitmap is zero. So
in these modes no two live tokens have one key. In mode `none` every request is let in. -/
theorem guard_law (mode : Mode) (shards bits : UInt64) (es : List (Ev UInt64)) (s : InflightTokens UInt64)
    (h : Machine.run (InflightTokens.step id) (.new mode shards bits) es = some s) :
    (mode = .mutex ∨ mode = .spin → shards ≠ 0 →
        ExactLaw s ∧ answers id (.new mode shards bits) es = Reference.answers id (fun _ => none) es) ∧
      (mode = .atomic → bits ≠ 0 → bits.toNat + 63 < 2 ^ 64 → BitmapLaw bits s) ∧
      (mode = .none → ∀ key, ∃ g', s.guard.tryAcquire key = some (g', true)) := by
  refine ⟨fun hm hshards => ?_, ?_, ?_⟩
  · have h₀ : Lawful (id : UInt64 → UInt64) _ _ _ (.new mode shards bits) := lawful_exact id hm hshards
    exact ⟨(h₀.run view_exact h).exactLaw, (h₀.refines_run view_exact es).2⟩
  · rintro rfl hbits hfit
    exact ((lawful_atomic id hbits hfit).run (view_atomic bits) h).bitmapLaw
  · rintro rfl key
    have hm : s.guard.mode = .none := (run_shape h).mode
    refine ⟨s.guard.countAcquired, ?_⟩
    unfold InflightGuard.tryAcquire
    rw [hm]

/-- A key, the key again, its neighbour in the bitmap, and the first one's end. -/
def fourCalls : List (Ev UInt64) := [.tryAcquire 0 7, .tryAcquire 1 7, .tryAcquire 2 8, .release 0]

theorem guard_law_fourCalls :
    (∃ s, Machine.run (InflightTokens.step id) (.new .spin 3 0) fourCalls = some s ∧
        answers id (.new .spin 3 0) fourCalls = [true, false, true] ∧ ExactLaw s) ∧
      ∃ s, Machine.run (InflightTokens.step id) (.new .atomic 0 70) fourCalls = some s ∧ BitmapLaw 70 s ∧
        s.guard.bitmap = #[256, 0] := by
  have hspin : (Machine.run (InflightTokens.step id) (.new .spin 3 0 : InflightTokens UInt64) fourCalls).isSome = true := by
    decide +kernel
  have hatomic : (Machine.run (InflightTokens.step id) (.new .atomic 0 70 : InflightTokens UInt64) fourCalls).map
      (fun s => s.guard.bitmap) = some #[256, 0] := by decide +kernel
  obtain ⟨s, hs⟩ := Option.isSome_iff_exists.1 hspin
  obtain ⟨t, ht, hbitmap⟩ := Option.map_eq_some_iff.1 hatomic
  obtain ⟨hexact, -, -⟩ := guard_law .spin 3 0 fourCalls s hs
  obtain ⟨-, hlaw, -⟩ := guard_law .atomic 0 70 fourCalls t ht
  exact ⟨⟨s, hs, by decide +kernel, (hexact (Or.inr rfl) (by decide)).1⟩, t, ht, hlaw rfl (by decide) (by decide), hbitmap⟩

/-- In mode `none` two tokens live for one key. -/
theorem two_tokens_without_gate :
    ∃ s, Machine.run (InflightTokens.step id) (.new .none 64 65536) [.tryAcquire 0 7, .tryAcquire 1 7] = some s ∧
      s.live 0 = some 7 ∧ s.live 1 = some 7 := by
  refine ⟨_, rfl, ?_, ?_⟩
  · decide
  · decide

end InflightTokens

end Seckill
