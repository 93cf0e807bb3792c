import EasyDK.InferServer.Cache
/-!
# Enqueue

What each strategy's `Enqueue` does with a pushed package, one spec lemma per fact, so that the
invariants of `Run` never unfold the loops again.

* `Chunked b` says that a list of runs cuts their concatenation into runs of `b` items, the
  last one holding 1 to `b`; run `j` is then items `j * b` to `(j + 1) * b - 1`, and there are
  `⌈n / b⌉` runs of `n` items.
* `CacheStatic.split` publishes the pushed items in order (`flatMap_split`), and each package it
  publishes is `closePackage` of a nonempty run of them, at most `batch_size` long and a single
  item when the input holds one (`mem_split`, `mem_split_input`); with `batch_size ≥ 1` the runs
  are `Chunked` (`chunked_split`).
* `CacheDynamic.enqueue` keeps the items of the cache, queued then buffered, in order
  (`enqueue_items`), and every package it creates is the sink's package of a nonempty batch of
  at most `batch_size` items (`mem_enqueue`).
-/

namespace EasyDK
namespace InferServer

variable {cfg : CacheConfig}

/-- `BatchSize() - 1` in `uint32_t`, for `BatchSize() ≥ 1`. -/
theorem batchSize_sub_one {b : UInt32} (hb : 1 ≤ b.toNat) : (b - 1).toNat = b.toNat - 1 :=
  UInt32.toNat_sub_of_le b 1 hb

/-! ## Runs of `batch_size` items -/

/-- A list cut into runs of `b` items, in order, the last run holding 1 to `b` items. -/
inductive Chunked {α : Type} (b : Nat) : List (List α) → Prop
  | nil : Chunked b []
  | last {x : List α} (hne : x ≠ []) (hle : x.length ≤ b) : Chunked b [x]
  | cons {x : List α} {xs : List (List α)} (hx : x.length = b) (hxs : xs ≠ [])
      (h : Chunked b xs) : Chunked b (x :: xs)

namespace Chunked

variable {α : Type} {b : Nat} {xs : List (List α)}

/-- Run `j` holds the items `j * b` to `(j + 1) * b - 1` of the list, or to its end. -/
theorem getElem_eq (h : Chunked b xs) :
    ∀ j (hj : j < xs.length), xs[j] = (xs.flatten.drop (j * b)).take b := by
  induction h with
  | nil => exact fun j hj => absurd hj (Nat.not_lt_zero _)
  | last hne hle =>
    intro j hj
    obtain rfl : j = 0 := by simpa using hj
    simpa using (List.take_of_length_le hle).symm
  | @cons x xs hx _ _ ih =>
    intro j hj
    cases j with
    | zero => simpa using (List.take_left' hx).symm
    | succ j =>
      have hdrop : (x ++ xs.flatten).drop ((j + 1) * b) = xs.flatten.drop (j * b) := by
        rw [Nat.succ_mul, Nat.add_comm, ← hx, List.drop_append]
      simpa [hdrop] using ih j (by simpa using hj)

/-- There are `⌈n / b⌉` runs of `n` items. -/
theorem length_eq (h : Chunked b xs) (hb : 0 < b) :
    xs.length = (xs.flatten.length + b - 1) / b := by
  induction h with
  | nil => simp [Nat.div_eq_of_lt (Nat.sub_lt hb Nat.one_pos)]
  | last hne hle =>
    have := List.length_pos.2 hne
    simp only [List.flatten_cons, List.flatten_nil, List.append_nil, List.length_singleton]
    exact (Nat.div_eq_of_lt_le (by omega) (by omega)).symm
  | @cons x ys hx _ _ ih =>
    rw [List.length_cons, ih, List.flatten_cons, List.length_append, hx,
      show b + ys.flatten.length + b - 1 = ys.flatten.length + b - 1 + b by omega,
      Nat.add_div_right _ hb]

/-- Every run but the last holds `b` items. -/
theorem length_getElem (h : Chunked b xs) :
    ∀ j (hj : j + 1 < xs.length), xs[j].length = b := by
  induction h with
  | nil | last => intro j hj; simp at hj
  | cons hx _ _ ih =>
    intro j hj
    cases j with
    | zero => exact hx
    | succ j => exact ih j (by simpa using hj)

end Chunked

namespace CacheStatic

@[simp] theorem closePackage_data (ds dn : Nat) (data : List InferData) (bi : Nat) :
    (closePackage cfg ds dn data bi).data = data := by
  simp only [closePackage]; split <;> rfl

@[simp] theorem closePackage_priority (ds dn : Nat) (data : List InferData) (bi : Nat) :
    (closePackage cfg ds dn data bi).priority = cfg.getPriority (-firstRequestId data) := by
  simp only [closePackage]; split <;> rfl

/-- The loop publishes what it holds and what is left, in order, as long as an item is left:
the last item always closes a package. -/
theorem flatMap_split {ds dn : Nat} :
    ∀ (pack : List InferData) (bi : Nat) {idx : Nat} {items : List InferData},
      idx + items.length = ds → items ≠ [] →
      (split cfg ds dn idx pack bi items).flatMap Package.data = pack ++ items
  | _, _, _, [], _, hne => absurd rfl hne
  | pack, bi, idx, it :: rest, hidx, _ => by
    simp only [List.length_cons] at hidx
    unfold split
    split
    · by_cases hr : rest = []
      · subst hr; simp [split]
      · have hnext : idx + 1 + rest.length = ds := by omega
        simp [flatMap_split [] 0 hnext hr]
    · rename_i hclose
      have hrest : rest ≠ [] := by rintro rfl; simp at hidx; exact hclose (.inr (by omega))
      have hnext : idx + 1 + rest.length = ds := by omega
      simp [flatMap_split (pack ++ [it]) (bi + 1) hnext hrest]

/-- The static split publishes exactly the pushed items, in order. -/
theorem split_items (input : Package) :
    (split cfg input.data.length input.dataNum 0 [] 0 input.data).flatMap Package.data =
      input.data := by
  cases h : input.data with
  | nil => simp [split]
  | cons it rest => rw [← h, flatMap_split [] 0 (by simp) (by simp [h]), List.nil_append]

/-- Every published package closes a nonempty run of the pending and remaining items, at most
`batch_size` long, and of one item when the input holds one. -/
theorem mem_split {ds dn : Nat} :
    ∀ (pack : List InferData) (bi : Nat) {idx : Nat} {items : List InferData} {p : Package},
      pack.length = bi → bi ≤ idx →
      (1 ≤ cfg.batchSize.toNat → bi < cfg.batchSize.toNat) →
      idx + items.length = ds → p ∈ split cfg ds dn idx pack bi items →
      ∃ data, p = closePackage cfg ds dn data data.length ∧ data ≠ [] ∧
        (1 ≤ cfg.batchSize.toNat → data.length ≤ cfg.batchSize.toNat) ∧
        (ds = 1 → data.length = 1)
  | _, _, _, [], _, _, _, _, _, hp => by simp [split] at hp
  | pack, bi, idx, it :: rest, p, hlen, hbi, hb, hidx, hp => by
    simp only [List.length_cons] at hidx
    unfold split at hp
    split at hp
    · rcases List.mem_cons.1 hp with rfl | hp
      · refine ⟨pack ++ [it], by simp [hlen], by simp, fun h => ?_, fun h => ?_⟩
        · have := hb h; simp; omega
        · have : pack = [] := List.eq_nil_of_length_eq_zero (by omega)
          simp [this]
      · exact mem_split [] 0 rfl (Nat.zero_le _) (fun h => by omega) (by omega) hp
    · rename_i hclose
      push_neg at hclose
      exact mem_split _ _ (by simp [hlen]) (by omega)
        (fun h => by rw [batchSize_sub_one h] at hclose; omega) (by omega) hp

/-- Every package `Enqueue` publishes closes a nonempty run of the input's items, at most
`batch_size` long, and of one item when the input holds one. -/
theorem mem_split_input {input p : Package}
    (hp : p ∈ split cfg input.data.length input.dataNum 0 [] 0 input.data) :
    ∃ data, p = closePackage cfg input.data.length input.dataNum data data.length ∧
      data ≠ [] ∧ (1 ≤ cfg.batchSize.toNat → data.length ≤ cfg.batchSize.toNat) ∧
      (input.data.length = 1 → data.length = 1) ∧ ∀ it ∈ data, it ∈ input.data := by
  obtain ⟨data, rfl, hne, hle, hone⟩ :=
    mem_split [] 0 rfl (le_refl 0) (fun h => by omega) (by simp) hp
  refine ⟨data, rfl, hne, hle, hone, fun it hit => ?_⟩
  rw [← split_items input]
  exact List.mem_flatMap.2 ⟨_, hp, by simpa using hit⟩

/-- With `data_num` the input's size, every package `Enqueue` publishes counts its own items and
carries their descriptors. -/
theorem mem_split_exact {input p : Package} (hdn : input.dataNum = input.data.length)
    (hp : p ∈ split cfg input.data.length input.dataNum 0 [] 0 input.data) :
    p.dataNum = p.data.length ∧ p.descs = p.data.map InferData.desc := by
  obtain ⟨data, rfl, -, -, hone, -⟩ := mem_split_input hp
  have hcont : ¬(input.data.length = 1 ∧ input.dataNum ≠ 1) := by omega
  by_cases h1 : input.data.length = 1 <;>
    simp [closePackage, copyDescToPackage, hcont, h1, hone, hdn]

/-- The loop cuts what it holds and what is left into runs of `batch_size` items. -/
theorem chunked_split {ds dn : Nat} (hb : 1 ≤ cfg.batchSize.toNat) :
    ∀ (pack : List InferData) (bi : Nat) {idx : Nat} {items : List InferData},
      pack.length = bi → bi < cfg.batchSize.toNat → idx + items.length = ds → items ≠ [] →
      Chunked cfg.batchSize.toNat ((split cfg ds dn idx pack bi items).map Package.data)
  | _, _, _, [], _, _, _, hne => absurd rfl hne
  | pack, bi, idx, it :: rest, hlen, hbi, hidx, _ => by
    simp only [List.length_cons] at hidx
    have hnext : idx + 1 + rest.length = ds := by omega
    unfold split
    split
    · rename_i hclose
      rw [batchSize_sub_one hb] at hclose
      simp only [List.map_cons, closePackage_data]
      by_cases hr : rest = []
      · subst hr; exact .last (by simp) (by simp; omega)
      · have hpos := List.length_pos.2 hr
        have hne : (split cfg ds dn (idx + 1) [] 0 rest).map Package.data ≠ [] := fun h => hr <| by
          simpa [List.map_eq_nil_iff.1 h] using (@flatMap_split cfg ds dn [] 0 _ _ hnext hr).symm
        exact .cons (by simp; omega) hne (chunked_split hb [] 0 rfl (by omega) hnext hr)
    · rename_i hclose
      push_neg at hclose
      rw [batchSize_sub_one hb] at hclose
      have hr : rest ≠ [] := by rintro rfl; simp at hidx; omega
      exact chunked_split hb _ _ (by simp [hlen]) (by omega) hnext hr

end CacheStatic

namespace CacheDynamic

@[simp] theorem sink_data (data : List InferData) : (sink cfg data).data = data := rfl

@[simp] theorem sink_descs (data : List InferData) : (sink cfg data).descs = [] := rfl

@[simp] theorem sink_dataNum (data : List InferData) :
    (sink cfg data).dataNum = data.length := rfl

@[simp] theorem sink_priority (data : List InferData) :
    (sink cfg data).priority = cfg.getPriority (-firstRequestId data) := rfl

@[simp] theorem publish_batcher (c : Cache) (r : List InferData × Option (List InferData)) :
    (publish cfg c r).batcher = r.1 := rfl

@[simp] theorem publish_running (c : Cache) (r : List InferData × Option (List InferData)) :
    (publish cfg c r).running = c.running := rfl

theorem publish_items (c : Cache) (r : List InferData × Option (List InferData)) :
    (publish cfg c r).items = c.cache.flatMap Package.data ++ (r.2.getD [] ++ r.1) := by
  obtain ⟨buf, _ | batch⟩ := r <;> simp [publish, Cache.items]

/-- A package the sink made of a nonempty batch of at most `batch_size` items, each
satisfying `B`. -/
def Sunk (cfg : CacheConfig) (B : InferData → Prop) (p : Package) : Prop :=
  ∃ batch, p = sink cfg batch ∧ batch ≠ [] ∧
    (1 ≤ cfg.batchSize.toNat → batch.length ≤ cfg.batchSize.toNat) ∧ ∀ it ∈ batch, B it

/-- One batcher step, seen from the cache: the new buffer and the batch it emits hold only
items of the old buffer and the new item, the buffer stays below `batch_size`, and the batch is
the sink's. -/
theorem mem_publish {B : InferData → Prop} {c : Cache}
    {r : List InferData × Option (List InferData)} {l : List InferData}
    (hr : r.2.getD [] ++ r.1 = l) (hl : ∀ it ∈ l, B it)
    (hne : ∀ batch, r.2 = some batch → batch ≠ [])
    (hle : 1 ≤ cfg.batchSize.toNat →
      ∀ batch, r.2 = some batch → batch.length ≤ cfg.batchSize.toNat) :
    (∀ it ∈ (publish cfg c r).batcher, B it) ∧
      ∀ p ∈ (publish cfg c r).cache, p ∈ c.cache ∨ Sunk cfg B p := by
  obtain ⟨buf, _ | batch⟩ := r
  · simp only [Option.getD_none, List.nil_append] at hr
    subst hr
    exact ⟨hl, fun p hp => .inl (by simpa [publish] using hp)⟩
  · simp only [Option.getD_some] at hr
    subst hr
    refine ⟨fun it hit => hl it (List.mem_append_right _ hit), fun p hp => ?_⟩
    simp only [publish, Option.map_some', Option.toList_some, List.mem_append,
      List.mem_singleton] at hp
    rcases hp with hp | rfl
    · exact .inl hp
    · exact .inr ⟨batch, rfl, hne batch rfl, fun h => hle h batch rfl,
        fun it hit => hl it (by simp [hit])⟩

/-- `Enqueue` in the dynamic cache keeps every item, queued then buffered, in order. -/
theorem enqueue_items : ∀ (c : Cache) (items : List InferData),
    (enqueue cfg c items).items = c.items ++ items
  | c, [] => by simp [enqueue]
  | c, it :: rest => by
    rw [enqueue, enqueue_items, publish_items, Batcher.addItem_contents]
    simp [Cache.items]

@[simp] theorem enqueue_running : ∀ (c : Cache) (items : List InferData),
    (enqueue cfg c items).running = c.running
  | c, [] => rfl
  | c, it :: rest => by rw [enqueue, enqueue_running]; rfl

/-- Every package the dynamic `Enqueue` creates is the sink's package of a batch of buffered or
pushed items, and the buffer stays below `batch_size`. -/
theorem mem_enqueue {B : InferData → Prop} : ∀ {c : Cache} {items : List InferData},
    (1 ≤ cfg.batchSize.toNat → c.batcher.length < cfg.batchSize.toNat) →
    (∀ it ∈ c.batcher, B it) → (∀ it ∈ items, B it) →
    (1 ≤ cfg.batchSize.toNat → (enqueue cfg c items).batcher.length < cfg.batchSize.toNat) ∧
      (∀ it ∈ (enqueue cfg c items).batcher, B it) ∧
      ∀ p ∈ (enqueue cfg c items).cache, p ∈ c.cache ∨ Sunk cfg B p
  | c, [], hlt, hb, _ => ⟨hlt, hb, fun p hp => .inl hp⟩
  | c, it :: rest, hlt, hb, hitems => by
    have hl : ∀ x ∈ c.batcher ++ [it], B x := fun x hx => by
      simp only [List.mem_append, List.mem_singleton] at hx
      rcases hx with hx | rfl
      · exact hb x hx
      · exact hitems x (by simp)
    obtain ⟨hb', hq⟩ := mem_publish (c := c) (Batcher.addItem_contents _ _ it) hl
      (fun _ h => Batcher.addItem_emitted_ne_nil h)
      (fun h _ hbatch => Batcher.addItem_emitted_le (hlt h) hbatch)
    obtain ⟨hlt', hb'', hq'⟩ := @mem_enqueue B (publish cfg c _) rest
      (fun h => Batcher.addItem_buffer_lt h (hlt h) it) hb'
      (fun x hx => hitems x (List.mem_cons_of_mem _ hx))
    refine ⟨hlt', hb'', fun p hp => ?_⟩
    rcases hq' p hp with hp | hp
    · exact hq p hp
    · exact .inr hp

/-- The flush moves the buffer, if any, to the back of the queue as one package. -/
theorem flush_items (c : Cache) : (flush cfg c).items = c.items := by
  rw [flush, publish_items, Batcher.emit_contents]; rfl

@[simp] theorem flush_batcher (c : Cache) : (flush cfg c).batcher = [] := by
  simp [flush]

@[simp] theorem flush_running (c : Cache) : (flush cfg c).running = c.running := rfl

theorem mem_flush {B : InferData → Prop} {c : Cache}
    (hlt : 1 ≤ cfg.batchSize.toNat → c.batcher.length < cfg.batchSize.toNat)
    (hb : ∀ it ∈ c.batcher, B it) :
    ∀ p ∈ (flush cfg c).cache, p ∈ c.cache ∨ Sunk cfg B p :=
  (mem_publish (Batcher.emit_contents c.batcher) hb (fun _ h => Batcher.emit_emitted_ne_nil h)
    (fun h _ hbatch => by rw [Batcher.emit_emitted_eq hbatch]; exact Nat.le_of_lt (hlt h))).2

end CacheDynamic

end InferServer
end EasyDK
