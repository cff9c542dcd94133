import Mathlib.Logic.Function.Basic
import Mathlib.Order.Defs.Unbundled
import Mathlib.Data.Int.Notation
import Mathlib.Tactic.Common

/-!
# A Redis server and its Lua scripts

A store is a clock in milliseconds and a table of entries, each with the time it
expires at. An entry is there as long as its time has not passed (`Entry.alive`,
`Store.find`); nothing else removes it.

A script is a store transformer that can fail: commands before a failure keep
their effect. The commands are those the clients here use, as documented:

* `TTL` is the remaining time rounded to whole seconds, `-2` without the key and
  `-1` without an expiry;
* `SETEX` fails on a TTL `≤ 0`, `EXPIRE` with a value `≤ 0` deletes the key;
* `GET` fails on a value that is no string;
* `INCR` counts from `0`, keeps the expiry and fails on a value that is no
  integer. Counters are taken to stay below `2 ^ 63`.

`Script.Does R x`: whatever `x` does relates the stores before and after it by the
preorder `R`; one rule for each way to build a script. With `SameBut P` it says
which keys the script writes, with `Kept I` that it keeps the invariant `I`.

`Script.Atomic x s`: in `s` the script returns or changes nothing. It is so when only
what the script does first can fail (`atomic_bind_read`, `atomic_bind`).
-/

namespace Redis

/-- A value: an integer (what `INCR` keeps); a string that Lua reads as a number and
`INCR` does not, such as `1.5`, `007` or `2 ^ 63 - 1`, with the integer part of that
number (`inf` and `nan` with one that compares as they do); any other string; or no
string at all. -/
inductive Val
  | int (n : ℤ)
  | real (s : String) (floor : ℤ)
  | raw (s : String)
  | other
  deriving DecidableEq, Repr

/-- What `GET` reads. -/
def Val.string? : Val → Option String
  | .int n => some (toString n)
  | .real s _ | .raw s => some s
  | .other => none

/-- The string a client reads. -/
def Val.text (v : Val) : String := v.string?.getD ""

/-- The value as an integer, for `INCR`. -/
def Val.num? : Val → Option ℤ
  | .int n => some n
  | .raw s => s.toInt?.filter fun n => toString n = s
  | .real _ _ | .other => none

/-- The value as a number, for Lua: its integer part. -/
def Val.number? : Val → Option ℤ
  | .real _ floor => some floor
  | v => v.num?

/-- A value and the time (ms) up to which it is there. -/
structure Entry where
  val : Val
  expireAt : Option ℕ
  deriving DecidableEq, Repr

/-- What clients see of an entry: its string and its time. -/
def Entry.seen (e : Entry) : Option String × Option ℕ := (e.val.string?, e.expireAt)

/-- The entry has not expired at time `now`. -/
def Entry.alive (now : ℕ) (e : Entry) : Bool :=
  match e.expireAt with
  | none => true
  | some t => now ≤ t

/-- The server: its clock (ms) and its entries, the expired ones included. -/
structure Store (K : Type) where
  now : ℕ
  cell : K → Option Entry

variable {K : Type}

namespace Store

def empty (now : ℕ) : Store K := ⟨now, fun _ => none⟩

/-- The entry under a key, if it is there. -/
def find (s : Store K) (k : K) : Option Entry := (s.cell k).filter (Entry.alive s.now)

/-- What clients see under a key. -/
def seen (s : Store K) (k : K) : Option (Option String × Option ℕ) := (s.find k).map Entry.seen

/-- `ms` milliseconds pass. -/
def wait (s : Store K) (ms : ℕ) : Store K := { s with now := s.now + ms }

@[simp] theorem wait_now (s : Store K) (ms : ℕ) : (s.wait ms).now = s.now + ms := rfl

theorem find_some {s : Store K} {k : K} {e : Entry} :
    s.find k = some e ↔ s.cell k = some e ∧ e.alive s.now = true := by
  unfold find
  rw [Option.filter_eq_some_iff]

variable [DecidableEq K]

/-- Write (or delete) the entry under a key. -/
def put (s : Store K) (k : K) (e : Option Entry) : Store K := { s with cell := Function.update s.cell k e }

@[simp] theorem put_now (s : Store K) (k : K) (e : Option Entry) : (s.put k e).now = s.now := rfl

@[simp] theorem cell_put_self (s : Store K) (k : K) (e : Option Entry) : (s.put k e).cell k = e :=
  Function.update_self _ _ _

theorem cell_put_of_ne (s : Store K) {k k' : K} (e : Option Entry) (h : k' ≠ k) :
    (s.put k e).cell k' = s.cell k' := Function.update_of_ne h _ _

theorem find_put (s : Store K) (k k' : K) (e : Option Entry) :
    (s.put k e).find k' = if k' = k then e.filter (Entry.alive s.now) else s.find k' := by
  simp only [find, put, Function.update_apply]
  split <;> rfl

@[simp] theorem find_put_self (s : Store K) (k : K) (e : Option Entry) :
    (s.put k e).find k = e.filter (Entry.alive s.now) := by
  rw [find_put, if_pos rfl]

theorem find_put_of_ne (s : Store K) {k k' : K} (e : Option Entry) (h : k' ≠ k) :
    (s.put k e).find k' = s.find k' := by
  rw [find_put, if_neg h]

/-- Only the last write to a key counts. -/
theorem put_put (s : Store K) (k : K) (e e' : Option Entry) : (s.put k e).put k e' = s.put k e' := by
  unfold put
  rw [Function.update_idem]

/-- A key that was just written with a time to live is there. -/
theorem find_put_expire (s : Store K) (k : K) (v : Val) (ms : ℕ) :
    (s.put k (some ⟨v, some (s.now + ms)⟩)).find k = some ⟨v, some (s.now + ms)⟩ := by
  rw [find_put_self, Option.filter_eq_some_iff]
  exact ⟨rfl, by simp [Entry.alive]⟩

end Store

/-- An entry that is there now was there before. -/
theorem Entry.alive_mono {e : Entry} {t t' : ℕ} (h : t ≤ t') (ha : e.alive t' = true) : e.alive t = true := by
  unfold alive at ha ⊢
  cases he : e.expireAt with
  | none => rfl
  | some u =>
    rw [he] at ha
    simp only [decide_eq_true_eq] at ha ⊢
    omega

/-- Waiting only removes entries, those whose time passed. -/
theorem Store.find_wait (s : Store K) (ms : ℕ) (k : K) :
    (s.wait ms).find k = (s.find k).filter (Entry.alive (s.now + ms)) := by
  unfold Store.find Store.wait
  simp only
  cases hc : s.cell k with
  | none => rfl
  | some e =>
    by_cases ha : e.alive s.now = true
    · simp [Option.filter, ha]
    · have hn : e.alive (s.now + ms) ≠ true := fun h => ha (Entry.alive_mono (Nat.le_add_right _ _) h)
      simp [Option.filter, ha, hn]

/-! ## Scripts -/

/-- A script: its reply or its error, and the store it leaves. -/
def Script (K : Type) (α : Type) : Type := Store K → Except String α × Store K

namespace Script

variable {α β : Type}

def pure (a : α) : Script K α := fun s => (.ok a, s)

def fail (err : String) : Script K α := fun s => (.error err, s)

/-- `x`, then `f` on its reply; an error of `x` ends the script there. -/
def bind (x : Script K α) (f : α → Script K β) : Script K β := fun s =>
  match x s with
  | (.ok a, s') => f a s'
  | (.error err, s') => (.error err, s')

instance : Monad (Script K) where
  pure := pure
  bind := bind

@[simp] theorem pure_run (a : α) (s : Store K) : (Pure.pure a : Script K α) s = (.ok a, s) := rfl

@[simp] theorem fail_run (err : String) (s : Store K) : (fail err : Script K α) s = (.error err, s) := rfl

theorem bind_run (x : Script K α) (f : α → Script K β) (s : Store K) :
    (x >>= f) s = match x s with
      | (.ok a, s') => f a s'
      | (.error err, s') => (.error err, s') := rfl

theorem bind_assoc {γ : Type} (x : Script K α) (f : α → Script K β) (g : β → Script K γ) :
    (x >>= f) >>= g = x >>= fun a => f a >>= g := by
  funext s
  simp only [bind_run]
  cases x s with
  | mk reply s' =>
    cases reply with
    | ok a => rfl
    | error err => rfl

end Script

/-! ## Commands -/

section Commands

variable [DecidableEq K]

/-- `EXISTS`. -/
def exists_ (k : K) : Script K Bool := fun s => (.ok (s.find k).isSome, s)

/-- `TTL`: seconds, rounded. -/
def ttl (k : K) : Script K ℤ := fun s =>
  (.ok (match s.find k with
    | none => -2
    | some e => match e.expireAt with
      | none => -1
      | some t => (((t - s.now + 500) / 1000 : ℕ) : ℤ)), s)

/-- `GET`. -/
def get (k : K) : Script K (Option Val) := fun s =>
  match (s.find k).map Entry.val with
  | some .other => (.error "WRONGTYPE Operation against a key holding the wrong kind of value", s)
  | v => (.ok v, s)

/-- `SETEX`. -/
def setex (k : K) (seconds : ℤ) (v : Val) : Script K Unit := fun s =>
  if seconds ≤ 0 then (.error "ERR invalid expire time in 'setex' command", s)
  else (.ok (), s.put k (some ⟨v, some (s.now + seconds.toNat * 1000)⟩))

/-- `INCR`. -/
def incr (k : K) : Script K ℤ := fun s =>
  match s.find k with
  | none => (.ok 1, s.put k (some ⟨.int 1, none⟩))
  | some e => match e.val.num? with
    | none => (.error "ERR value is not an integer or out of range", s)
    | some n => (.ok (n + 1), s.put k (some ⟨.int (n + 1), e.expireAt⟩))

/-- `EXPIRE`. -/
def expire (k : K) (seconds : ℤ) : Script K Bool := fun s =>
  match s.find k with
  | none => (.ok false, s)
  | some e =>
    if seconds ≤ 0 then (.ok true, s.put k none)
    else (.ok true, s.put k (some ⟨e.val, some (s.now + seconds.toNat * 1000)⟩))

/-- `EXPIRE` for a counter that was just counted to `n`, if it was not there before. -/
def expireFirst (k : K) (n seconds : ℤ) : Script K Bool :=
  if n = 1 then expire k seconds else Pure.pure false

/-- `DEL`: whether there was something to delete. -/
def del (k : K) : Script K Bool := fun s => (.ok (s.find k).isSome, s.put k none)

/-- Lua's `tonumber`, as far as it is used here: what is no number fails where it is compared,
and integers are what it is compared with. -/
def tonumber (v : Val) : Script K ℤ := fun s =>
  match v.number? with
  | some n => (.ok n, s)
  | none => (.error "attempt to compare nil with number", s)

end Commands

section Run

variable {K β : Type} (k : K) (s : Store K)

@[simp] theorem exists_bind (f : Bool → Script K β) : (exists_ k >>= f) s = f (s.find k).isSome s := rfl

/-- `GET` replies what is there, and fails on what is no string. -/
theorem get_cases : get k s = (.ok ((s.find k).map Entry.val), s) ∨
    ∃ e err, s.find k = some e ∧ e.val = .other ∧ get k s = (.error err, s) := by
  unfold get
  cases hfind : s.find k with
  | none => exact Or.inl rfl
  | some e =>
    obtain ⟨v, x⟩ := e
    cases v with
    | other => exact Or.inr ⟨_, _, rfl, rfl, rfl⟩
    | _ => exact Or.inl rfl

theorem get_same : (get k s).2 = s := by
  rcases get_cases k s with h | ⟨e, err, -, -, h⟩
  · rw [h]
  · rw [h]

theorem get_bind_none (f : Option Val → Script K β) (h : s.find k = none) : (get k >>= f) s = f none s := by
  rw [Script.bind_run, get, h]
  rfl

theorem get_bind_some {e : Entry} (f : Option Val → Script K β) (h : s.find k = some e) (he : e.val ≠ .other) :
    (get k >>= f) s = f (some e.val) s := by
  rcases get_cases k s with hget | ⟨e', err, hfind, hother, -⟩
  · rw [Script.bind_run, hget, h]
    rfl
  · rw [h] at hfind
    rw [Option.some.inj hfind] at he
    exact absurd hother he

theorem get_bind_other {e : Entry} (f : Option Val → Script K β) (h : s.find k = some e) (he : e.val = .other) :
    ∃ err, (get k >>= f) s = (.error err, s) := by
  rw [Script.bind_run, get, h, Option.map_some, he]
  exact ⟨_, rfl⟩

@[simp] theorem tonumber_bind (n : ℤ) (f : ℤ → Script K β) : (tonumber (.int n) >>= f) s = f n s := rfl

/-- `TTL` does not fail. -/
theorem ttl_bind {q : ℤ} (f : ℤ → Script K β) (h : (ttl k s).1 = .ok q) : (ttl k >>= f) s = f q s := by
  rw [Script.bind_run, show ttl k s = (.ok q, s) from Prod.ext h rfl]

theorem ttl_of_find {v : Val} {t : ℕ} (h : s.find k = some ⟨v, some t⟩) :
    (ttl k s).1 = .ok (((t - s.now + 500) / 1000 : ℕ) : ℤ) := by
  unfold ttl
  rw [h]

variable [DecidableEq K]

@[simp] theorem del_bind (f : Bool → Script K β) :
    (del k >>= f) s = f (s.find k).isSome (s.put k none) := rfl

theorem setex_bind {seconds : ℤ} (h : 0 < seconds) (v : Val) (f : Unit → Script K β) :
    (setex k seconds v >>= f) s = f () (s.put k (some ⟨v, some (s.now + seconds.toNat * 1000)⟩)) := by
  rw [Script.bind_run, setex, if_neg (by omega)]

theorem incr_bind_none (f : ℤ → Script K β) (h : s.find k = none) :
    (incr k >>= f) s = f 1 (s.put k (some ⟨.int 1, none⟩)) := by
  rw [Script.bind_run, incr, h]

theorem incr_bind_num {e : Entry} {n : ℤ} (f : ℤ → Script K β) (h : s.find k = some e) (hn : e.val.num? = some n) :
    (incr k >>= f) s = f (n + 1) (s.put k (some ⟨.int (n + 1), e.expireAt⟩)) := by
  rw [Script.bind_run, incr, h]
  simp only [hn]

theorem incr_bind_some {n : ℤ} {t : Option ℕ} (f : ℤ → Script K β) (h : s.find k = some ⟨.int n, t⟩) :
    (incr k >>= f) s = f (n + 1) (s.put k (some ⟨.int (n + 1), t⟩)) := incr_bind_num k s f h rfl

/-- `EXPIRE` does not fail. -/
theorem expire_bind (seconds : ℤ) (f : Bool → Script K β) :
    (expire k seconds >>= f) s = f (s.find k).isSome (expire k seconds s).2 := by
  rw [Script.bind_run]
  unfold expire
  cases hk : s.find k with
  | none => rfl
  | some e => by_cases h : seconds ≤ 0 <;> simp [h]

/-- `EXPIRE` of a key that is there, with a time to live. -/
theorem expire_bind_some {e : Entry} {seconds : ℤ} (f : Bool → Script K β) (h : s.find k = some e) (hsec : 0 < seconds) :
    (expire k seconds >>= f) s = f true (s.put k (some ⟨e.val, some (s.now + seconds.toNat * 1000)⟩)) := by
  rw [Script.bind_run, expire, h]
  have hnot : ¬seconds ≤ 0 := by omega
  simp only [if_neg hnot]

/-- **A window's counter**, `INCR` and `EXPIRE` if it was the first: it starts the window. -/
theorem counted_none {seconds : ℤ} (f : ℤ → Script K β) (h : s.find k = none) (hsec : 0 < seconds) :
    (incr k >>= fun n => expireFirst k n seconds >>= fun _ => f n) s =
      f 1 (s.put k (some ⟨.int 1, some (s.now + seconds.toNat * 1000)⟩)) := by
  have hput : (s.put k (some ⟨.int 1, none⟩)).find k = some ⟨.int 1, none⟩ := by
    rw [Store.find_put_self]
    rfl
  rw [incr_bind_none _ _ _ h]
  unfold expireFirst
  rw [if_pos rfl, expire_bind_some _ _ _ hput hsec, Store.put_put]
  rfl

/-- It counts within the window. -/
theorem counted_some {n seconds : ℤ} {t : Option ℕ} (f : ℤ → Script K β) (h : s.find k = some ⟨.int n, t⟩)
    (hn : n ≠ 0) :
    (incr k >>= fun n => expireFirst k n seconds >>= fun _ => f n) s =
      f (n + 1) (s.put k (some ⟨.int (n + 1), t⟩)) := by
  rw [incr_bind_some _ _ _ h]
  unfold expireFirst
  rw [if_neg (by omega)]
  rfl

/-- `expireFirst` does not fail. -/
theorem expireFirst_bind (n seconds : ℤ) (f : Bool → Script K β) :
    ∃ b, (expireFirst k n seconds >>= f) s = f b (expireFirst k n seconds s).2 := by
  unfold expireFirst
  split
  · exact ⟨(s.find k).isSome, expire_bind k s seconds f⟩
  · exact ⟨false, rfl⟩

end Run

/-! ## Rules -/

/-- Nothing changed but entries under the keys in `P`. -/
def SameBut (P : K → Prop) (s s' : Store K) : Prop := s'.now = s.now ∧ ∀ k, ¬P k → s'.cell k = s.cell k

/-- The invariant `I` was kept. -/
def Kept (I : Store K → Prop) (s s' : Store K) : Prop := I s → I s'

instance (P : K → Prop) : IsPreorder (Store K) (SameBut P) where
  refl _ := ⟨rfl, fun _ _ => rfl⟩
  trans _ _ _ h h' := ⟨h'.1.trans h.1, fun k hk => (h'.2 k hk).trans (h.2 k hk)⟩

instance (I : Store K → Prop) : IsPreorder (Store K) (Kept I) where
  refl _ h := h
  trans _ _ _ h h' hs := h' (h hs)

/-- `R` allows what a script does to a counter: count, give it a time to live,
delete it. -/
structure Counts [DecidableEq K] (R : Store K → Store K → Prop) (k : K) : Prop where
  incr : ∀ s n t, R s (s.put k (some ⟨.int n, t⟩))
  expire : ∀ s e t, s.find k = some e → R s (s.put k (some ⟨e.val, some t⟩))
  del : ∀ s, R s (s.put k none)

/-- The store after the script is related to the one before it. -/
def Script.Does (R : Store K → Store K → Prop) {α : Type} (x : Script K α) : Prop := ∀ s, R s (x s).2

section Does

variable {K α β : Type} {R : Store K → Store K → Prop} [IsPreorder (Store K) R] {k : K}

theorem does_pure (a : α) : (Pure.pure a : Script K α).Does R := fun s => refl_of R s

theorem does_bind {x : Script K α} {f : α → Script K β} (hx : x.Does R) (hf : ∀ a, (f a).Does R) :
    (x >>= f).Does R := by
  intro s
  rw [Script.bind_run]
  have h := hx s
  cases hxs : x s with
  | mk reply s' =>
    rw [hxs] at h
    cases reply with
    | error err => exact h
    | ok a => exact trans_of R h (hf a s')

theorem does_exists : (exists_ k).Does R := fun s => refl_of R s

theorem does_ttl : (ttl k).Does R := fun s => refl_of R s

theorem does_get : (get k).Does R := by
  intro s
  rw [get_same]
  exact refl_of R s

theorem does_tonumber (v : Val) : (tonumber v : Script K ℤ).Does R := by
  intro s
  unfold tonumber
  split <;> exact refl_of R s

variable [DecidableEq K]

theorem does_setex {seconds : ℤ} {v : Val} (h : ∀ (s : Store K) (t : ℕ), R s (s.put k (some ⟨v, some t⟩))) :
    (setex k seconds v).Does R := by
  intro s
  unfold setex
  split
  · exact refl_of R s
  · exact h s _

theorem does_incr (h : Counts R k) : (incr k).Does R := by
  intro s
  unfold incr
  split
  · exact h.incr s _ _
  · split
    · exact refl_of R s
    · exact h.incr s _ _

theorem does_expire {seconds : ℤ} (h : Counts R k) : (expire k seconds).Does R := by
  intro s
  unfold expire
  split
  · exact refl_of R s
  · rename_i e he
    split
    · exact h.del s
    · exact h.expire s e _ he

theorem does_expireFirst {n seconds : ℤ} (h : Counts R k) : (expireFirst k n seconds).Does R := by
  unfold expireFirst
  split
  · exact does_expire h
  · exact does_pure _

omit [IsPreorder (Store K) R] in
theorem does_del (h : ∀ s : Store K, R s (s.put k none)) : (del k).Does R := h

end Does

theorem sameBut_put [DecidableEq K] {P : K → Prop} {k : K} (hk : P k) (s : Store K) (e : Option Entry) :
    SameBut P s (s.put k e) := by
  refine ⟨rfl, fun k' hk' => ?_⟩
  have hne : k' ≠ k := by
    intro he
    rw [he] at hk'
    exact hk' hk
  exact Function.update_of_ne hne _ _

theorem sameBut_counts [DecidableEq K] {P : K → Prop} {k : K} (hk : P k) : Counts (SameBut P) k :=
  ⟨fun s _ _ => sameBut_put hk s _, fun s _ _ _ => sameBut_put hk s _, fun s => sameBut_put hk s _⟩

/-! ## Atomicity -/

/-- The script returns; it does not fail. -/
def Script.Returns {α : Type} (x : Script K α) (s : Store K) : Prop := ∃ a, (x s).1 = .ok a

/-- **The script returns, or leaves every key as it was.** -/
def Script.Atomic {α : Type} (x : Script K α) (s : Store K) : Prop :=
  x.Returns s ∨ ∀ k, (x s).2.seen k = s.seen k

section Atomic

variable {K α β : Type} {s : Store K} {k : K}

theorem returns_pure (a : α) : (Pure.pure a : Script K α).Returns s := ⟨a, rfl⟩

theorem returns_bind {x : Script K α} {f : α → Script K β} (hx : ∀ s, x.Returns s) (hf : ∀ a s, (f a).Returns s) :
    ∀ s, (x >>= f).Returns s := by
  intro s
  obtain ⟨a, ha⟩ := hx s
  obtain ⟨b, hb⟩ := hf a (x s).2
  refine ⟨b, ?_⟩
  rw [Script.bind_run, show x s = (.ok a, (x s).2) from Prod.ext ha rfl]
  exact hb

theorem Script.Returns.atomic {x : Script K α} (h : x.Returns s) : x.Atomic s := Or.inl h

/-- What fails first, before what returns. -/
theorem atomic_bind {x : Script K α} {f : α → Script K β} (hx : x.Atomic s) (hf : ∀ a s, (f a).Returns s) :
    (x >>= f).Atomic s := by
  cases hxs : x s with
  | mk reply s' =>
    cases reply with
    | ok a =>
      left
      obtain ⟨b, hb⟩ := hf a s'
      refine ⟨b, ?_⟩
      rw [Script.bind_run, hxs]
      exact hb
    | error err =>
      right
      rw [Script.bind_run, hxs]
      rcases hx with ⟨a, ha⟩ | hsame
      · rw [hxs] at ha
        cases ha
      · rw [hxs] at hsame
        exact hsame

/-- What only reads may fail before anything else. -/
theorem atomic_bind_read {x : Script K α} {f : α → Script K β} (hx : (x s).2 = s) (hf : ∀ a, (f a).Atomic s) :
    (x >>= f).Atomic s := by
  cases hxs : x s with
  | mk reply s' =>
    rw [hxs] at hx
    subst hx
    cases reply with
    | ok a =>
      have h := hf a
      unfold Script.Atomic Script.Returns at h ⊢
      rw [Script.bind_run, hxs]
      exact h
    | error err =>
      right
      rw [Script.bind_run, hxs]
      exact fun _ => rfl

theorem returns_ttl (s : Store K) : (ttl k).Returns s := ⟨_, rfl⟩

variable [DecidableEq K]

theorem returns_setex {seconds : ℤ} {v : Val} (h : 0 < seconds) (s : Store K) : (setex k seconds v).Returns s := by
  unfold Script.Returns setex
  rw [if_neg (by omega)]
  exact ⟨_, rfl⟩

theorem returns_del (s : Store K) : (del k).Returns s := ⟨_, rfl⟩

theorem returns_expire {seconds : ℤ} (s : Store K) : (expire k seconds).Returns s := by
  unfold Script.Returns expire
  split
  · exact ⟨_, rfl⟩
  · split <;> exact ⟨_, rfl⟩

theorem returns_expireFirst {n seconds : ℤ} (s : Store K) : (expireFirst k n seconds).Returns s := by
  unfold expireFirst
  split
  · exact returns_expire s
  · exact returns_pure _

/-- `INCR` fails before it writes. -/
theorem atomic_incr : (incr k).Atomic s := by
  unfold Script.Atomic Script.Returns incr
  split
  · exact Or.inl ⟨_, rfl⟩
  · split
    · exact Or.inr fun _ => rfl
    · exact Or.inl ⟨_, rfl⟩

end Atomic

/-! ## Counters -/

/-- The value of a counter, `0` when it is not there. -/
def count (s : Store K) (k : K) : ℤ := ((s.find k).bind fun e => e.val.num?).getD 0

/-- What is under the keys in `P` is an integer. -/
def Ints (P : K → Prop) (s : Store K) : Prop := ∀ k e, P k → s.cell k = some e → ∃ n, e.val = .int n

section Counters

variable {P : K → Prop} {s t : Store K} {k : K}

theorem count_none (h : s.find k = none) : count s k = 0 := by simp [count, h]

theorem count_of_find {n : ℤ} {x : Option ℕ} (h : s.find k = some ⟨.int n, x⟩) : count s k = n := by
  simp [count, h, Val.num?]

theorem count_congr {s' : Store K} (h : s'.find k = s.find k) : count s' k = count s k := by
  unfold count
  rw [h]

/-- A key that is kept or gone. -/
theorem count_kept {s' : Store K} (h : s'.find k = s.find k ∨ s'.find k = none) :
    count s' k = count s k ∨ count s' k = 0 := by
  rcases h with hfind | hnone
  · exact Or.inl (count_congr hfind)
  · exact Or.inr (count_none hnone)

theorem Ints.empty (now : ℕ) : Ints P (.empty now) := by
  intro k e _ he
  cases he

theorem Ints.find (hs : Ints P s) (hk : P k) : s.find k = none ∨ ∃ n x, s.find k = some ⟨.int n, x⟩ := by
  cases hf : s.find k with
  | none => exact Or.inl rfl
  | some e =>
    obtain ⟨n, hn⟩ := hs k e hk (Store.find_some.1 hf).1
    exact Or.inr ⟨n, e.expireAt, by rw [← hn]⟩

/-- A counter as a script reads it, `0` when it is not there. -/
theorem Ints.get_tonumber (hs : Ints P s) (hk : P k) {β : Type} (f : ℤ → Script K β) :
    (Redis.get k >>= fun v => Redis.tonumber (v.getD (.int 0)) >>= f) s = f (count s k) s := by
  rcases hs.find hk with h | ⟨n, x, h⟩
  · rw [get_bind_none _ _ _ h, count_none h]
    rfl
  · rw [get_bind_some _ _ _ h Val.noConfusion, count_of_find h]
    rfl

variable [DecidableEq K]

theorem Ints.put (hs : Ints P s) {e : Option Entry} (h : P k → ∀ x, e = some x → ∃ n, x.val = .int n) :
    Ints P (s.put k e) := by
  intro k' e' hk' he'
  by_cases hkk : k' = k
  · subst hkk
    rw [show (s.put k' e).cell k' = e from Function.update_self _ _ _] at he'
    exact h hk' e' he'
  · rw [show (s.put k e).cell k' = s.cell k' from Function.update_of_ne hkk _ _] at he'
    exact hs k' e' hk' he'

/-- A key that is no counter may hold anything. -/
theorem Ints.put_of_not (hs : Ints P s) (hk : ¬P k) (e : Option Entry) : Ints P (s.put k e) :=
  hs.put fun hk' => absurd hk' hk

/-- Counting keeps the counters integers. -/
theorem ints_counts (k : K) : Counts (Kept (Ints P)) k where
  incr s n t hs := hs.put fun _ x hx => ⟨n, by rw [← Option.some.inj hx]⟩
  expire s e t he hs := by
    refine hs.put fun hk x hx => ?_
    obtain ⟨n, hn⟩ := hs k e hk (Store.find_some.1 he).1
    exact ⟨n, by rw [← Option.some.inj hx]; exact hn⟩
  del s hs := hs.put fun _ x hx => by cases hx

theorem Ints.incr (hs : Ints P s) (hk : P k) {β : Type} (f : ℤ → Script K β) :
    ∃ x, (Redis.incr k >>= f) s = f (count s k + 1) (s.put k (some ⟨.int (count s k + 1), x⟩)) ∧
      Entry.alive s.now ⟨.int (count s k + 1), x⟩ = true := by
  rcases hs.find hk with h | ⟨n, x, h⟩
  · exact ⟨none, by rw [incr_bind_none _ _ _ h, count_none h, Int.zero_add], rfl⟩
  · have halive : Entry.alive s.now ⟨.int n, x⟩ = true := (Store.find_some.1 h).2
    exact ⟨x, by rw [incr_bind_some _ _ _ h, count_of_find h], halive⟩

/-- The key is there with one more, or its time to live is none and it is not. -/
def Counted (k : K) (seconds : ℤ) (s s' : Store K) : Prop :=
  s'.find k ≠ none ∧ count s' k = count s k + 1 ∨ seconds ≤ 0 ∧ s'.find k = none

/-- **A window's counter**: `INCR`, then `EXPIRE` if it was the first. -/
theorem Ints.counted (hs : Ints P s) (hk : P k) (seconds : ℤ) {β : Type} (f : ℤ → Script K β) :
    ∃ s', (Redis.incr k >>= fun n => expireFirst k n seconds >>= fun _ => f n) s = f (count s k + 1) s' ∧
      SameBut (fun k' => k' = k) s s' ∧ Counted k seconds s s' := by
  obtain ⟨x, hx, halive⟩ := hs.incr hk fun n => expireFirst k n seconds >>= fun _ => f n
  set n := count s k + 1
  set s₁ := s.put k (some ⟨.int n, x⟩)
  have hfind : s₁.find k = some ⟨.int n, x⟩ := by
    rw [Store.find_put_self, Option.filter_eq_some_iff]
    exact ⟨rfl, halive⟩
  obtain ⟨b, hb⟩ := expireFirst_bind k s₁ n seconds fun _ => f n
  have hput : SameBut (fun k' => k' = k) s s₁ := sameBut_put (P := fun k' => k' = k) rfl s _
  have hexpire : SameBut (fun k' => k' = k) s₁ (expireFirst k n seconds s₁).2 :=
    does_expireFirst (sameBut_counts (P := fun k' => k' = k) rfl) s₁
  refine ⟨_, hx.trans hb, trans_of (SameBut fun k' => k' = k) hput hexpire, ?_⟩
  unfold expireFirst
  by_cases hn : n = 1
  · rw [if_pos hn, expire, hfind]
    by_cases hsec : seconds ≤ 0
    · right
      simp [hsec]
    · left
      have hfind' : (s₁.put k (some ⟨.int n, some (s₁.now + seconds.toNat * 1000)⟩)).find k =
          some ⟨.int n, some (s₁.now + seconds.toNat * 1000)⟩ := by
        rw [Store.find_put_self, Option.filter_eq_some_iff]
        exact ⟨rfl, by simp [Entry.alive]⟩
      simp only [hsec, if_false]
      rw [count_of_find hfind', hfind']
      exact ⟨by simp, rfl⟩
  · left
    rw [if_neg hn]
    have hsame : (Pure.pure false : Script K Bool) s₁ = (.ok false, s₁) := rfl
    rw [hsame, count_of_find hfind, hfind]
    exact ⟨by simp, rfl⟩

end Counters

end Redis
