import EasyDK.InferServer.Order
/-!
# Batch sizes and priorities of returned packages

Facts about every package a cache queues or returns, read off `Run.popped`, and the exact
shape of the packages the two batching loops cut.

* Size: with `batch_size ≥ 1` a package holds between one and `batch_size` items, and as many
  descriptors as items, except a continuous static package, whose one item stands for `data_num`
  descriptors whatever `batch_size` is (`batch_size_bound`, `continuous_exceeds_batch`).
* Partitions: the static split of an input, and the dynamic sweep's rebatching of the live
  items, cut the items in order into runs of `batch_size`, the last one possibly shorter
  (`static_partition`, `dynamic_rebatch`).
* Priority: the package the dynamic batcher or the static split creates gets
  `Get(-RequestId())` of its first item's request, but the packages the dynamic sweep rebuilds
  keep the priority of a freshly constructed `Package` (`popped_priority`,
  `rebatched_priority_fresh`).
-/

namespace EasyDK
namespace InferServer

variable {cfg : CacheConfig}

/-! ## Size -/

/-- With `batch_size ≥ 1`, every queued package holds one to `batch_size` items, each with its
descriptor, and every returned package one to `batch_size` items and at most `batch_size`
descriptors, unless it is a continuous static package: one item, `data_num` descriptors. -/
theorem batch_size_bound {evs : List Event} {c : Cache} (h : Run cfg evs c)
    (hb : 1 ≤ cfg.batchSize.toNat) :
    (∀ p ∈ c.cache, p.data ≠ [] ∧ p.data.length ≤ cfg.batchSize.toNat ∧
        ∀ it ∈ p.data, it.desc.isSome) ∧
      ∀ p ∈ poppedPackages evs, p.data ≠ [] ∧ p.data.length ≤ cfg.batchSize.toNat ∧
        (p.descs.length ≤ cfg.batchSize.toNat ∨
          cfg.strategy = .static ∧ p.data.length = 1 ∧ p.descs.length = p.dataNum) := by
  refine ⟨fun p hp => ?_, fun p hp => ?_⟩
  · have hq := h.wellFormed.queue p hp
    exact ⟨hq.ne_nil, hq.size hb, hq.desc⟩
  · obtain ⟨q, hq, rfl, -⟩ := h.popped p hp
    refine ⟨by simpa using hq.ne_nil, by simpa using hq.size hb, ?_⟩
    rcases hq.prepared_descs with ⟨hd, -⟩ | ⟨hs, it, hit, -, hd⟩
    · exact .inl (by simpa [hd] using hq.size hb)
    · exact .inr ⟨hs, by simp [hit], by simp [hd]⟩

/-- `batch_size_bound` on a static run that returns a package. -/
theorem batch_size_bound_sample :
    ∃ evs c, Run sampleStatic evs c ∧ 1 ≤ sampleStatic.batchSize.toNat ∧
      poppedPackages evs ≠ [] ∧
      (∀ p ∈ c.cache, p.data ≠ [] ∧ p.data.length ≤ sampleStatic.batchSize.toNat ∧
        ∀ it ∈ p.data, it.desc.isSome) ∧
      ∀ p ∈ poppedPackages evs, p.data ≠ [] ∧ p.data.length ≤ sampleStatic.batchSize.toNat ∧
        (p.descs.length ≤ sampleStatic.batchSize.toNat ∨
          sampleStatic.strategy = .static ∧ p.data.length = 1 ∧ p.descs.length = p.dataNum) := by
  have h := (Run.sample sampleStatic).snoc (@Step.popPack _ (fun _ => false) _ _ _ _ rfl)
  exact ⟨_, _, h, by decide, by decide, batch_size_bound h (by decide)⟩

/-- A continuous package of three items, pushed to a static cache of batch size 2, comes back
from `Pop` with three descriptors. -/
theorem continuous_exceeds_batch :
    ∃ evs c, Run sampleStatic evs c ∧
      ∃ p ∈ poppedPackages evs, sampleStatic.batchSize.toNat < p.descs.length := by
  have h := (Run.continuous sampleStatic).snoc
    (@Step.popPack _ (fun _ => false) _ _ _ _ rfl)
  exact ⟨_, _, h, _, List.mem_singleton_self _, by decide⟩

/-! ## Partitions -/

/-- `Enqueue` of `n ≥ 1` items with `data_num = n` appends `⌈n / b⌉` packages behind the queue:
package `j` holds the items `j * b` to `min((j + 1) * b, n) - 1`, counts them as its `data_num`
and carries their descriptors, every package but the last is full, and every item lands in
exactly one package. -/
theorem static_partition (hb : 1 ≤ cfg.batchSize.toNat) (c : Cache) {input : Package}
    (hn : input.data ≠ []) (hdn : input.dataNum = input.data.length) :
    ∃ ps : List Package, CacheStatic.enqueue cfg c input = { c with cache := c.cache ++ ps } ∧
      ps.flatMap Package.data = input.data ∧
      ps.length = (input.data.length + cfg.batchSize.toNat - 1) / cfg.batchSize.toNat ∧
      (∀ j (hj : j < ps.length),
        ps[j].data = (input.data.drop (j * cfg.batchSize.toNat)).take cfg.batchSize.toNat ∧
          ps[j].dataNum = ps[j].data.length ∧ ps[j].descs = ps[j].data.map InferData.desc) ∧
      ∀ j (hj : j + 1 < ps.length), ps[j].data.length = cfg.batchSize.toNat := by
  refine ⟨CacheStatic.split cfg input.data.length input.dataNum 0 [] 0 input.data, rfl, ?_⟩
  have hch := @CacheStatic.chunked_split cfg _ input.dataNum hb [] 0 0 _ rfl (by omega)
    (Nat.zero_add _) hn
  have hflat := @CacheStatic.split_items cfg input
  have hexact := fun p => @CacheStatic.mem_split_exact cfg input p hdn
  generalize CacheStatic.split cfg input.data.length input.dataNum 0 [] 0 input.data = ps
    at hch hflat hexact ⊢
  replace hflat : (ps.map Package.data).flatten = input.data := hflat
  refine ⟨hflat, ?_, fun j hj => ⟨?_, hexact _ (List.getElem_mem hj)⟩, fun j hj => ?_⟩
  · simpa [hflat] using hch.length_eq (by omega)
  · have hj' : j < (ps.map Package.data).length := by simpa using hj
    simpa [hflat] using hch.getElem_eq j hj'
  · have hj' : j + 1 < (ps.map Package.data).length := by simpa using hj
    simpa using hch.length_getElem j hj'

/-- `static_partition` on request 1's three items, pushed to an empty static cache of batch
size 2. -/
theorem static_partition_sample :
    1 ≤ sampleStatic.batchSize.toNat ∧ samplePack.data ≠ [] ∧
      samplePack.dataNum = samplePack.data.length ∧
      ∃ ps : List Package, CacheStatic.enqueue sampleStatic {} samplePack = { cache := ps } ∧
        ps.flatMap Package.data = samplePack.data ∧
        ps.length = (samplePack.data.length + sampleStatic.batchSize.toNat - 1) /
          sampleStatic.batchSize.toNat ∧
        (∀ j (hj : j < ps.length),
          ps[j].data = (samplePack.data.drop (j * sampleStatic.batchSize.toNat)).take
              sampleStatic.batchSize.toNat ∧
            ps[j].dataNum = ps[j].data.length ∧ ps[j].descs = ps[j].data.map InferData.desc) ∧
        ∀ j (hj : j + 1 < ps.length), ps[j].data.length = sampleStatic.batchSize.toNat :=
  ⟨by decide, by decide, rfl, static_partition (by decide) {} (by decide) rfl⟩

/-- The dynamic sweep under any discard flags: the new queue holds exactly the live items, those
whose control `disc` does not flag, in order, cut into `⌈live / b⌉` packages, all but the last
of `b` items, none empty, each counting its items as `data_num`; one `ProcessFailed(SUCCESS)`
goes to each item whose control `disc` flags, in order, and none to a live one. -/
theorem dynamic_rebatch (hb : 1 ≤ cfg.batchSize.toNat) (disc : Ctrl → Bool)
    {queue : List Package} (hdesc : ∀ p ∈ queue, ∀ it ∈ p.data, it.desc.isSome) :
    ∃ q reports, CacheDynamic.clearDiscard cfg disc queue = (q, reports) ∧
      q.flatMap Package.data = (queue.flatMap Package.data).filter (fun it => !it.ctrl?.any disc) ∧
      q.length = (((queue.flatMap Package.data).filter (fun it => !it.ctrl?.any disc)).length +
        cfg.batchSize.toNat - 1) / cfg.batchSize.toNat ∧
      (∀ j (hj : j + 1 < q.length), q[j].data.length = cfg.batchSize.toNat) ∧
      (∀ p ∈ q, p.data ≠ [] ∧ p.dataNum = p.data.length) ∧
      List.Forall₂ (fun it r => ∃ c, it.ctrl? = some c ∧ r = .processFailed c .success)
        ((queue.flatMap Package.data).filter (fun it => it.ctrl?.any disc)) reports := by
  refine ⟨_, _, rfl, ?_⟩
  simp only [← InferData.discarded_eq_any]
  have hch := CacheDynamic.chunked_clearDiscard hb disc queue
  have hflat := @CacheDynamic.clearDiscard_items cfg disc queue
  have hmem := fun p => @CacheDynamic.mem_clearDiscard cfg (fun _ => True) disc queue
    (by simp) p
  refine ⟨hflat, ?_, fun j hj => ?_, fun p hp => ?_,
    @CacheDynamic.clearDiscard_reports cfg disc queue hdesc⟩
  · replace hflat : ((CacheDynamic.clearDiscard cfg disc queue).1.map Package.data).flatten =
      (queue.flatMap Package.data).filter (!·.discarded disc) := hflat
    simpa [hflat] using hch.length_eq (by omega)
  · have hj' : j + 1 < ((CacheDynamic.clearDiscard cfg disc queue).1.map Package.data).length :=
      by simpa using hj
    simpa using hch.length_getElem j hj'
  · obtain ⟨hne, -, -, hdn, -⟩ := hmem p hp
    exact ⟨hne, hdn⟩

/-- `dynamic_rebatch` on a queue holding request 1's three items and request 2's one item, with
request 1 discarded. -/
theorem dynamic_rebatch_sample :
    1 ≤ sampleDynamic.batchSize.toNat ∧
      (∀ p ∈ [samplePack, sampleOther], ∀ it ∈ p.data, it.desc.isSome) ∧
      ∃ q reports, CacheDynamic.clearDiscard sampleDynamic (fun c => c.id == 1)
          [samplePack, sampleOther] = (q, reports) ∧
        q.flatMap Package.data = ([samplePack, sampleOther].flatMap Package.data).filter
          (fun it => !it.ctrl?.any fun c => c.id == 1) ∧
        q.length = ((([samplePack, sampleOther].flatMap Package.data).filter
          (fun it => !it.ctrl?.any fun c => c.id == 1)).length +
            sampleDynamic.batchSize.toNat - 1) /
            sampleDynamic.batchSize.toNat ∧
        (∀ j (hj : j + 1 < q.length), q[j].data.length = sampleDynamic.batchSize.toNat) ∧
        (∀ p ∈ q, p.data ≠ [] ∧ p.dataNum = p.data.length) ∧
        List.Forall₂ (fun it r => ∃ c, it.ctrl? = some c ∧ r = .processFailed c .success)
          (([samplePack, sampleOther].flatMap Package.data).filter
            (fun it => it.ctrl?.any fun c => c.id == 1)) reports :=
  ⟨by decide, by decide, dynamic_rebatch (by decide) _ (by decide)⟩

/-! ## Priority -/

/-- Every returned package carries `Get(-RequestId())` of the request of its first item as
pushed, or, from the dynamic cache, the priority of a fresh `Package`. -/
theorem popped_priority {evs : List Event} {c : Cache} (h : Run cfg evs c) :
    ∀ p ∈ poppedPackages evs, ∃ q, p = CacheBase.preparePackage cfg q ∧
      (∀ it ∈ q.data, it ∈ pushedItems evs) ∧
      (p.priority = cfg.getPriority (-firstRequestId q.data) ∨
        cfg.strategy = .dynamic ∧ p.priority = cfg.freshPriority) := by
  intro p hp
  obtain ⟨q, hq, rfl, hmem⟩ := h.popped p hp
  exact ⟨q, rfl, hmem, by simpa using hq.priority⟩

/-- `popped_priority` on a dynamic run that returns the batcher's first package. -/
theorem popped_priority_sample :
    ∃ evs c, Run sampleDynamic evs c ∧ poppedPackages evs ≠ [] ∧
      ∀ p ∈ poppedPackages evs, ∃ q, p = CacheBase.preparePackage sampleDynamic q ∧
        (∀ it ∈ q.data, it ∈ pushedItems evs) ∧
        (p.priority = sampleDynamic.getPriority (-firstRequestId q.data) ∨
          sampleDynamic.strategy = .dynamic ∧ p.priority = sampleDynamic.freshPriority) := by
  have h := (Run.sample sampleDynamic).snoc (@Step.popPack _ (fun _ => false) _ _ _ _ rfl)
  exact ⟨_, _, h, by decide, popped_priority h⟩

/-- The dynamic sweep gives every package it rebuilds the priority of a fresh `Package`. -/
theorem rebatched_priority_fresh (disc : Ctrl → Bool) (queue : List Package) :
    ∀ p ∈ (CacheDynamic.clearDiscard cfg disc queue).1, p.priority = cfg.freshPriority :=
  fun _ hp => (CacheDynamic.mem_clearDiscard (B := fun _ => True) (by simp) hp).2.2.1

/-- A dynamic cache of batch size 2 holding request 1's three items and request 2's one item:
with request 1 discarded, `Pop` rebuilds request 2's item into a package of priority 0, not
`Get(-2)`. -/
theorem rebatched_priority_wrong :
    ∃ evs c c' p r, Run sampleDynamic evs c ∧
      CacheBase.pop sampleDynamic (fun c => c.id == 1) c = .pack p c' r ∧
      p.descs = [some ⟨⟨2, 2⟩, 0⟩] ∧ p.priority = 0 ∧
      p.priority ≠ sampleDynamic.getPriority (-2) := by
  have h := (Run.sample sampleDynamic).snoc (Step.push _ sampleOther (by decide))
  exact ⟨_, _, _, _, _, h, rfl, rfl, rfl, by decide⟩

end InferServer
end EasyDK
