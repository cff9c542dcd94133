import Seckill.Proof.SkuCache
import Seckill.Spec.SkuReads

/-!
# Warming the cache and the read path

Both write the JSON of the same rows, so they are compared as lists of writes:
`warmCache_writes` says what the warm-up writes, `queryListFromDb_wrote` and
`queryDetailFromDb_wrote` what the read path does. A cache that is `Fresh` for a key
answers what the database says (`listSkus_fresh`, `detailSku_fresh`).

* `warmCache_like_read`: the warm-up leaves what the read path would, exactly when
  its limit reaches all rows of the list, of which there must be one.
* `warmCache_short`: two skus and limit 1.
-/

namespace Seckill.SeckillService

open SkuCache

variable {cfg : Config} {t : SkuTable} {c c' : SkuCache} {skuId : Int64}

/-- What the read path stores as the list. -/
def listText (cfg : Config) (t : SkuTable) : String := cfg.json.toCompactJson (.arr ((t.first 100).map itemJson))

/-- What it stores under a sku's key. -/
def itemText (cfg : Config) (t : SkuTable) (skuId : Int64) : String :=
  match t.find skuId with
  | none => kNullValue
  | some row => cfg.json.toCompactJson (itemJson row)

/-- **jsoncpp on the table**: what is written of its rows is read back as it was, and
the sentinel is no JSON. -/
structure Faithful (j : JsonCpp) (t : SkuTable) : Prop where
  item : ∀ row ∈ t.rows, j.fromJson (j.toCompactJson (itemJson row)) = some (itemJson row)
  list : ∀ n, j.fromJson (j.toCompactJson (.arr ((t.first n).map itemJson))) = some (.arr ((t.first n).map itemJson))
  nil : j.fromJson kNullValue = none

theorem ne_empty_of_fromJson {j : JsonCpp} {s : String} {v : Json} (h : j.fromJson s = some v) : s ≠ "" := by
  intro hs
  rw [JsonCpp.fromJson, if_pos hs] at h
  cases h

/-! ## The table -/

theorem ids_nodup (t : SkuTable) : (t.rows.map SkuRow.id).Nodup := by
  rw [List.Nodup, List.pairwise_map]
  exact t.sorted.imp Int64.ne_of_lt

/-- A row is found by its id. -/
theorem find_of_mem {row : SkuRow} (h : row ∈ t.rows) : t.find row.id = some row :=
  Lru.find_of_nodup SkuRow.id (ids_nodup t) h

theorem mem_rows_of_first {row : SkuRow} {n : ℕ} (h : row ∈ t.first n) : row ∈ t.rows := List.mem_of_mem_take h

theorem mem_rows_of_find {row : SkuRow} (h : t.find skuId = some row) : row ∈ t.rows := List.mem_of_find?_eq_some h

theorem itemText_of_mem {row : SkuRow} (h : row ∈ t.rows) :
    itemText cfg t row.id = cfg.json.toCompactJson (itemJson row) := by
  unfold itemText
  rw [find_of_mem h]

/-! ## The read path -/

theorem queryListFromDb_wrote (henabled : cfg.cache.enabled = true) (io : Io) (c : SkuCache) :
    Wrote .skuList (listText cfg t) c (queryListFromDb cfg true (.ok t) io c).2 :=
  setex_wrote henabled _ _ _ _ _

theorem queryDetailFromDb_wrote (henabled : cfg.cache.enabled = true) (skuId : Int64) (io : Io) (c : SkuCache) :
    Wrote (.skuItem skuId) (itemText cfg t skuId) c (queryDetailFromDb cfg skuId true (.ok t) io c).2 := by
  unfold queryDetailFromDb itemText
  dsimp only
  cases t.find skuId with
  | none => exact setex_wrote henabled _ _ _ _ _
  | some row => exact setex_wrote henabled _ _ _ _ _

/-- The database's answer does not depend on what is written back. -/
theorem queryDetailFromDb_answer (w : Bool) (skuId : Int64) (io : Io) (c : SkuCache) :
    (queryDetailFromDb cfg skuId w (.ok t) io c).1 =
      match t.find skuId with
      | none => (false, .null)
      | some row => (true, itemJson row) := by
  unfold queryDetailFromDb
  dsimp only
  cases t.find skuId <;> rfl

/-- **A fresh list is what the database says.** -/
theorem listSkus_fresh (hj : Faithful cfg.json t) (hc : c.Fresh .skuList (listText cfg t)) (io : ReadIo) :
    (listSkus cfg io (.ok t) c).1 = (true, .arr ((t.first 100).map itemJson)) := by
  unfold listSkus listLookup
  by_cases henabled : cfg.cache.enabled = true
  · rw [if_pos henabled]
    cases hget : c.getList cfg.cache io.get with
    | mk hit c₁ =>
      cases hit with
      | none => rfl
      | some value =>
        have hserved : (c.getList cfg.cache io.get).1 = some value := by rw [hget]
        dsimp only
        rw [hc.get hserved, listText, hj.list]
  · rw [if_neg henabled]
    rfl

/-- **A fresh sku is what the database says**, where the filter lets it through. -/
theorem detailSku_fresh (hj : Faithful cfg.json t) (hc : c.Fresh (.skuItem skuId) (itemText cfg t skuId))
    {bloom : Option BloomFilter} (hbloom : cfg.bloomEnabled = true → bloomAllows bloom skuId = true) (io : ReadIo)
    (w : Bool) (io' : Io) (c' : SkuCache) :
    (detailSku cfg bloom skuId io (.ok t) c).1 = (queryDetailFromDb cfg skuId w (.ok t) io' c').1 := by
  unfold detailSku detailLookup
  by_cases henabled : cfg.cache.enabled = true
  · have hpass : ¬(cfg.bloomEnabled && !bloomAllows bloom skuId) = true := by
      intro h
      rw [Bool.and_eq_true, Bool.not_eq_true'] at h
      rw [hbloom h.1] at h
      exact absurd h.2 (by decide)
    rw [if_pos henabled, if_neg hpass]
    cases hget : c.getDetail cfg.cache io.get skuId with
    | mk hit c₁ =>
      cases hit with
      | none => simp only [queryDetailFromDb_answer]
      | some value =>
        have hserved : (c.getDetail cfg.cache io.get skuId).1 = some value := by rw [hget]
        dsimp only
        rw [queryDetailFromDb_answer, hc.get hserved, itemText]
        cases hfind : t.find skuId with
        | none => simp
        | some row =>
          have hread := hj.item row (mem_rows_of_find hfind)
          have hne : cfg.json.toCompactJson (itemJson row) ≠ kNullValue := by
            intro heq
            rw [heq, hj.nil] at hread
            cases hread
          dsimp only
          rw [if_neg hne, hread]
          rfl
  · rw [if_neg henabled, queryDetailFromDb_answer, queryDetailFromDb_answer]

/-! ## The warm-up -/

/-- What the loop writes. -/
def itemWrites (cfg : Config) (rows : List SkuRow) : List (Key × String) :=
  rows.map fun row => (.skuItem row.id, cfg.json.toCompactJson (itemJson row))

/-- One more item in the list, if it fits. -/
theorem append_take_room (listArr items : List Json) (item : Json) :
    (if listArr.length < 100 then listArr ++ [item] else listArr) ++
        items.take (100 - (if listArr.length < 100 then listArr ++ [item] else listArr).length) =
      listArr ++ (item :: items).take (100 - listArr.length) := by
  by_cases hroom : listArr.length < 100
  · obtain ⟨n, hn⟩ : ∃ n, 100 - listArr.length = n + 1 := ⟨99 - listArr.length, by omega⟩
    have hn' : 100 - (listArr.length + 1) = n := by omega
    rw [if_pos hroom, hn, List.length_append, List.length_singleton, hn', List.take_succ_cons, List.append_assoc,
      List.singleton_append]
  · have hfull : 100 - listArr.length = 0 := by omega
    rw [if_neg hroom, hfull, List.take_zero, List.take_zero]

theorem warmLoop_list (cfg : Config) (io : ℕ → Io) (rows : List SkuRow) :
    ∀ i listArr warmed c, (warmLoop cfg io i listArr warmed c rows).1 =
      listArr ++ (rows.map itemJson).take (100 - listArr.length) := by
  induction rows with
  | nil =>
    intro i listArr warmed c
    simp [warmLoop]
  | cons row rows ih =>
    intro i listArr warmed c
    unfold warmLoop
    dsimp only
    rw [ih, List.map_cons, append_take_room]

theorem warmLoop_writes (henabled : cfg.cache.enabled = true) (io : ℕ → Io) (rows : List SkuRow) :
    ∀ i listArr warmed c, Writes (itemWrites cfg rows) c (warmLoop cfg io i listArr warmed c rows).2.2 := by
  induction rows with
  | nil => exact fun i listArr warmed c => .nil c
  | cons row rows ih =>
    intro i listArr warmed c
    exact .cons (setex_wrote henabled _ _ _ _ _) (ih _ _ _ _)

/-- What the warm-up writes: the items, and the list if it is not empty. -/
def warmWrites (cfg : Config) (t : SkuTable) (limit : ℤ) : List (Key × String) :=
  itemWrites cfg (t.first limit.toNat) ++
    if t.first limit.toNat = [] then []
    else [(.skuList, cfg.json.toCompactJson (.arr ((t.first (min 100 limit.toNat)).map itemJson)))]

theorem warmCache_writes (henabled : cfg.cache.enabled = true) {limit : ℤ} (hlimit : 1 ≤ limit) (io : ℕ → Io)
    (c : SkuCache) : Writes (warmWrites cfg t limit) c (warmCache cfg limit (.ok t) io c).2 := by
  have hloop := warmLoop_writes henabled io (t.first limit.toNat) 0 [] 0 c
  have hlist := warmLoop_list cfg io (t.first limit.toNat) 0 [] 0 c
  have hlim : (if limit < 1 then 1 else limit) = limit := if_neg (by omega)
  unfold warmCache warmWrites
  simp only [hlim]
  cases hw : warmLoop cfg io 0 [] 0 c (t.first limit.toNat) with
  | mk listArr rest =>
    rw [hw] at hloop hlist
    have htake : listArr = ((t.first limit.toNat).map itemJson).take 100 := by simpa using hlist
    have hfirst : listArr = (t.first (min 100 limit.toNat)).map itemJson := by
      rw [htake, ← List.map_take, SkuTable.first, SkuTable.first, List.take_take]
    by_cases hnil : t.first limit.toNat = []
    · have hempty : listArr = [] := by simp [htake, hnil]
      rw [if_pos hnil, if_neg (by simp [hempty]), List.append_nil]
      exact hloop
    · have hsome : listArr ≠ [] := by simpa [htake] using hnil
      rw [if_neg hnil, if_pos hsome, hfirst]
      exact hloop.snoc (setex_wrote henabled _ _ _ _ _)

theorem warmWrites_keys (cfg : Config) (t : SkuTable) (limit : ℤ) :
    ((warmWrites cfg t limit).map Prod.fst).Nodup := by
  have hids : ((t.first limit.toNat).map SkuRow.id).Nodup :=
    (ids_nodup t).sublist ((List.take_sublist _ _).map _)
  have hitems : ((itemWrites cfg (t.first limit.toNat)).map Prod.fst).Nodup := by
    have hkeys : (itemWrites cfg (t.first limit.toNat)).map Prod.fst =
        ((t.first limit.toNat).map SkuRow.id).map Key.skuItem := by
      simp [itemWrites]
    rw [hkeys]
    exact hids.map fun a b h => Key.skuItem.inj h
  unfold warmWrites
  split
  · rw [List.append_nil]
    exact hitems
  · rw [List.map_append, List.nodup_append']
    refine ⟨hitems, by simp, ?_⟩
    intro k hk hlist
    simp only [List.map_cons, List.map_nil, List.mem_singleton] at hlist
    subst hlist
    simp [itemWrites] at hk

/-- Every row among the first `limit` is written. -/
theorem mem_warmWrites {row : SkuRow} {limit : ℤ} (h : row ∈ t.first limit.toNat) :
    (Key.skuItem row.id, itemText cfg t row.id) ∈ warmWrites cfg t limit := by
  rw [itemText_of_mem (mem_rows_of_first h)]
  exact List.mem_append_left _ (List.mem_map.2 ⟨row, h, rfl⟩)

/-- A sku's key is written for its row only. -/
theorem skuItem_not_mem {limit : ℤ} (h : ∀ row ∈ t.first limit.toNat, row.id ≠ skuId) :
    Key.skuItem skuId ∉ (warmWrites cfg t limit).map Prod.fst := by
  intro hmem
  obtain ⟨w, hw, hkey⟩ := List.mem_map.1 hmem
  rcases List.mem_append.1 hw with hitem | hlist
  · obtain ⟨row, hrow, rfl⟩ := List.mem_map.1 hitem
    exact h row hrow (Key.skuItem.inj hkey)
  · split at hlist
    next => cases hlist
    next =>
      rw [List.mem_singleton.1 hlist] at hkey
      cases hkey

theorem first_eq_nil {limit : ℤ} (hlimit : 1 ≤ limit) : t.first limit.toNat = [] ↔ t.rows = [] := by
  rw [SkuTable.first, List.take_eq_nil_iff]
  constructor
  · rintro (hzero | hrows)
    · omega
    · exact hrows
  · exact Or.inr

/-- A table without rows is not written at all. -/
theorem warmWrites_empty {limit : ℤ} (hlimit : 1 ≤ limit) (hrows : t.rows = []) : warmWrites cfg t limit = [] := by
  have hfirst := (first_eq_nil hlimit).2 hrows
  unfold warmWrites itemWrites
  rw [if_pos hfirst, hfirst]
  rfl

/-- The list of a table with rows is written, cut at the limit. -/
theorem list_mem_warmWrites {limit : ℤ} (hlimit : 1 ≤ limit) (hrows : t.rows ≠ []) :
    (Key.skuList, cfg.json.toCompactJson (.arr ((t.first (min 100 limit.toNat)).map itemJson))) ∈
      warmWrites cfg t limit := by
  apply List.mem_append_right
  rw [if_neg fun h => hrows ((first_eq_nil hlimit).1 h)]
  exact List.mem_singleton_self _

/-- Two texts of the list are the same only if they have the same rows. -/
theorem list_text_length (hj : Faithful cfg.json t) {n : ℕ}
    (h : cfg.json.toCompactJson (.arr ((t.first n).map itemJson)) = listText cfg t) :
    min n t.rows.length = min 100 t.rows.length := by
  have hparsed := congrArg cfg.json.fromJson h
  rw [hj.list, listText, hj.list, Option.some.injEq, Json.arr.injEq] at hparsed
  have hlen := congrArg List.length hparsed
  simpa only [SkuTable.first, List.length_map, List.length_take] using hlen

/-- Two caches have the same under a key: in Redis, and for who asks. -/
def Same (cfg : Config) (key : Key) (c d : SkuCache) : Prop :=
  c.stored key = d.stored key ∧ (c.get cfg.cache none key).1 = (d.get cfg.cache none key).1

theorem same_of_holds {key : Key} {v : String} {d : SkuCache} (henabled : cfg.cache.enabled = true) (hv : v ≠ "")
    (hc : c.Holds key v) (hd : d.Holds key v) : Same cfg key c d :=
  ⟨hc.stored.trans hd.stored.symm, (hc.get henabled hv).trans (hd.get henabled hv).symm⟩

/-- **The warm-up did what the read path does.** `c` is the cache before, `c'` after;
`ioList` and `ioItem` are the outcomes of the reads it is compared with.

* `list`, `item`: under each key it left what the read path would store;
* `listSkus`, `detailSku`: at any later time the answers are the database's. For a
  sku it did not write, if they were before. -/
structure LikeRead (cfg : Config) (t : SkuTable) (limit : ℤ) (ioList : Io) (ioItem : Int64 → Io)
    (c c' : SkuCache) : Prop where
  list : Same cfg .skuList c' (queryListFromDb cfg true (.ok t) ioList c).2
  item : ∀ row ∈ t.first limit.toNat,
    Same cfg (.skuItem row.id) c' (queryDetailFromDb cfg row.id true (.ok t) (ioItem row.id) c).2
  listSkus : ∀ ms io, (listSkus cfg io (.ok t) (c'.wait ms)).1 = (queryListFromDb cfg false (.ok t) ioList c).1
  detailSku : ∀ skuId, ((∃ row ∈ t.first limit.toNat, row.id = skuId) ∨
      c.Fresh (.skuItem skuId) (itemText cfg t skuId)) →
    ∀ ms io bloom, (cfg.bloomEnabled = true → bloomAllows bloom skuId = true) →
      (detailSku cfg bloom skuId io (.ok t) (c'.wait ms)).1 =
        (queryDetailFromDb cfg skuId false (.ok t) (ioItem skuId) c).1

/-- **Warming the cache.** A warm-up that ends without an error leaves what the read
path would store, and answers as it does, exactly when there are skus and `limit`
reaches the 100 of the list or all there are; or there are none, and the list key
has the read path's empty list already. -/
theorem warmCache_like_read (hj : Faithful cfg.json t) (henabled : cfg.cache.enabled = true) {limit : ℤ}
    (hlimit : 1 ≤ limit) {io : ℕ → Io} {ioList : Io} {ioItem : Int64 → Io}
    (hwarm : (warmCache cfg limit (.ok t) io c).2.stats.err = c.stats.err)
    (hlist : (queryListFromDb cfg true (.ok t) ioList c).2.stats.err = c.stats.err)
    (hitem : ∀ row ∈ t.first limit.toNat,
      (queryDetailFromDb cfg row.id true (.ok t) (ioItem row.id) c).2.stats.err = c.stats.err) :
    LikeRead cfg t limit ioList ioItem c (warmCache cfg limit (.ok t) io c).2 ↔
      t.rows ≠ [] ∧ (100 ≤ limit ∨ t.rows.length ≤ limit) ∨
      t.rows = [] ∧ c.stored .skuList = some (listText cfg t) ∧
        (c.get cfg.cache none .skuList).1 = some (listText cfg t) := by
  have hwrites := warmCache_writes (t := t) henabled hlimit io c
  have hkeys := warmWrites_keys cfg t limit
  have hread : (queryListFromDb cfg true (.ok t) ioList c).2.Holds .skuList (listText cfg t) :=
    (queryListFromDb_wrote henabled ioList c).self hlist
  have htext : listText cfg t ≠ "" := ne_empty_of_fromJson (hj.list 100)
  set c' := (warmCache cfg limit (.ok t) io c).2
  -- what a nonempty table leaves under the list key
  have hleft : t.rows ≠ [] →
      c'.Holds .skuList (cfg.json.toCompactJson (.arr ((t.first (min 100 limit.toNat)).map itemJson))) :=
    fun hrows => hwrites.holds hkeys hwarm (list_mem_warmWrites hlimit hrows)
  -- and an empty one: nothing is written
  have hsame : t.rows = [] → c' = c := by
    intro hrows
    rw [warmWrites_empty hlimit hrows] at hwrites
    exact hwrites.eq_of_nil
  constructor
  · intro hlike
    by_cases hrows : t.rows = []
    · have hlists := hlike.list
      rw [hsame hrows] at hlists
      exact Or.inr ⟨hrows, hlists.1.trans hread.stored, hlists.2.trans (hread.get henabled htext)⟩
    · refine Or.inl ⟨hrows, ?_⟩
      have htexts := (hleft hrows).stored.symm.trans (hlike.list.1.trans hread.stored)
      have hlen := list_text_length hj (Option.some.inj htexts)
      have hpos : t.rows.length ≠ 0 := fun h => hrows (List.length_eq_zero_iff.1 h)
      omega
  · intro hwhen
    have hholds : c'.Fresh .skuList (listText cfg t) ∧ Same cfg .skuList c' (queryListFromDb cfg true (.ok t) ioList c).2 := by
      rcases hwhen with ⟨hrows, hreach⟩ | ⟨hrows, hstored, hget⟩
      · have hall : t.first (min 100 limit.toNat) = t.first 100 := by
          apply List.take_eq_take_iff.2
          omega
        have hc' := hleft hrows
        rw [hall] at hc'
        exact ⟨Holds.fresh hc', same_of_holds henabled htext hc' hread⟩
      · rw [hsame hrows]
        refine ⟨⟨fun s hs => Option.some.inj (hs.symm.trans hstored), fun s hs => ?_⟩, hstored.trans hread.stored.symm,
          hget.trans (hread.get henabled htext).symm⟩
        exact Option.some.inj ((get_local henabled none hs).symm.trans hget)
    have hwarmed : ∀ row ∈ t.first limit.toNat, c'.Holds (.skuItem row.id) (itemText cfg t row.id) :=
      fun row hrow => hwrites.holds hkeys hwarm (mem_warmWrites hrow)
    refine ⟨hholds.2, ?_, ?_, ?_⟩
    · intro row hrow
      have hne : itemText cfg t row.id ≠ "" := by
        rw [itemText_of_mem (mem_rows_of_first hrow)]
        exact ne_empty_of_fromJson (hj.item row (mem_rows_of_first hrow))
      exact same_of_holds henabled hne (hwarmed row hrow)
        ((queryDetailFromDb_wrote henabled row.id (ioItem row.id) c).self (hitem row hrow))
    · intro ms io
      exact listSkus_fresh hj (hholds.1.wait ms) io
    · intro skuId hsku ms io bloom hbloom
      have hfresh : c'.Fresh (.skuItem skuId) (itemText cfg t skuId) := by
        by_cases hin : ∃ row ∈ t.first limit.toNat, row.id = skuId
        · obtain ⟨row, hrow, rfl⟩ := hin
          exact (hwarmed row hrow).fresh
        · have hbefore := hsku.resolve_left hin
          apply hwrites.fresh_other (skuItem_not_mem ?_) hbefore
          intro row hrow heq
          exact hin ⟨row, hrow, heq⟩
      exact detailSku_fresh hj (hfresh.wait ms) hbloom io false (ioItem skuId) c

/-! ## Two skus -/

/-- An ASCII text. -/
def plainText (b : Bytes) : String := String.ofList (b.map fun x => Char.ofNat x.toNat)

/-- The compact JSON of a value without members that are arrays or objects, and
without characters to escape; of an object or an array of such values. -/
def plainValue : Json → String
  | .int n => toString n
  | .str s => "\"" ++ plainText s ++ "\""
  | _ => "null"

def plainObject : Json → String
  | .obj fields =>
    "\x7b" ++ ",".intercalate (fields.map fun f => "\"" ++ plainText f.1 ++ "\":" ++ plainValue f.2) ++ "\x7d"
  | v => plainValue v

def plainJson : Json → String
  | .arr items => "[" ++ ",".intercalate (items.map plainObject) ++ "]"
  | v => plainObject v

/-- The values the service makes of a table. -/
def jsonOf (t : SkuTable) : List Json :=
  t.rows.map itemJson ++ (List.range (t.rows.length + 1)).map fun n => .arr ((t.first n).map itemJson)

/-- A reader that knows some values, under different texts, reads what was written of
a table's. -/
theorem plainJson_faithful {t : SkuTable} {values : List Json} (hnodup : (values.map plainJson).Nodup)
    (hempty : "" ∉ values.map plainJson) (hnil : kNullValue ∉ values.map plainJson)
    (hvalues : ∀ v ∈ jsonOf t, v ∈ values) :
    Faithful ⟨plainJson, fun s => values.find? fun v => plainJson v = s⟩ t := by
  set j : JsonCpp := ⟨plainJson, fun s => values.find? fun v => plainJson v = s⟩
  have hread : ∀ v ∈ jsonOf t, j.fromJson (j.toCompactJson v) = some v := by
    intro v hv
    have hne : plainJson v ≠ "" := fun h => hempty (h ▸ List.mem_map_of_mem (hvalues v hv))
    change (if plainJson v = "" then none else values.find? fun w => plainJson w = plainJson v) = some v
    rw [if_neg hne]
    exact Lru.find_of_nodup plainJson hnodup (hvalues v hv)
  refine ⟨?_, ?_, ?_⟩
  · intro row hrow
    exact hread _ (List.mem_append_left _ (List.mem_map_of_mem hrow))
  · intro n
    have hmin : t.first n = t.first (min n t.rows.length) := by
      apply List.take_eq_take_iff.2
      omega
    rw [hmin]
    refine hread _ (List.mem_append_right _ (List.mem_map.2 ⟨_, List.mem_range.2 ?_, rfl⟩))
    omega
  · change (if kNullValue = "" then none else values.find? fun w => plainJson w = kNullValue) = none
    rw [if_neg (by decide), List.find?_eq_none]
    intro v hv heq
    exact hnil (List.mem_map.2 ⟨v, hv, of_decide_eq_true heq⟩)

/-- A writer, and a reader for what it writes of a table. -/
def plainCpp (t : SkuTable) : JsonCpp := ⟨plainJson, fun s => (jsonOf t).find? fun v => plainJson v = s⟩

/-- Skus 1 and 2. -/
def twoSkus : SkuTable :=
  ⟨[⟨1, ascii "sku-1", 50, 50, ascii "2026-09-01 00:00:00", ascii "2026-12-31 23:59:59"⟩,
    ⟨2, ascii "sku-2", 80, 80, ascii "2026-09-01 00:00:00", ascii "2026-12-31 23:59:59"⟩], by decide⟩

def twoConfig : Config := ⟨plainCpp twoSkus, .default, false⟩

theorem twoConfig_faithful : Faithful twoConfig.json twoSkus :=
  plainJson_faithful (by decide +kernel) (by decide +kernel) (by decide +kernel) fun _ hv => hv

/-- Every command succeeds, with no jitter. -/
def healthy : Io := ⟨0, none⟩

/-- No value in the cache yet. -/
def coldCache : SkuCache := .new .default (.empty 0)

theorem warmCache_like_read_two :
    LikeRead twoConfig twoSkus 2 healthy (fun _ => healthy) coldCache
      (warmCache twoConfig 2 (.ok twoSkus) (fun _ => healthy) coldCache).2 :=
  (warmCache_like_read twoConfig_faithful rfl (by decide) (by decide +kernel) (by decide +kernel)
    (by decide +kernel)).2 (Or.inl ⟨by decide, Or.inr (by decide)⟩)

/-- **The warm-up cuts the list short**, and `listSkus` answers with one sku of two. -/
theorem warmCache_short :
    ∃ c', warmCache twoConfig 1 (.ok twoSkus) (fun _ => healthy) coldCache = ((true, 1), c') ∧
      c'.stats.err = coldCache.stats.err ∧
      c'.stored .skuList ≠ (queryListFromDb twoConfig true (.ok twoSkus) healthy coldCache).2.stored .skuList ∧
      ∃ items, (listSkus twoConfig ⟨none, none, healthy⟩ (.ok twoSkus) c').1 = (true, .arr items) ∧
        items.length = 1 := by
  exact ⟨_, rfl, rfl, by decide +kernel, _, rfl, rfl⟩

end Seckill.SeckillService
