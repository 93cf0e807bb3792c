import EasyDK.InferServer.Enqueue
/-!
# Discard sweeps and Pop

The two `ClearDiscard`s and the call of `Pop` around them.

* `CacheDynamic.rebatch` packs the live items again, in order (`rebatch_items`), into nonempty
  fresh packages of at most `batch_size` items that nobody gives a priority (`mem_rebatch`), cut
  into runs of `batch_size` (`chunked_rebatch`); the sweep sends one `ProcessFailed(SUCCESS)`
  per discarded item (`clearDiscard_reports`).
* `CacheStatic.clearDiscard` keeps the packages whose first item is live, unchanged.
* `CacheBase.swept` is the queue as `Pop` leaves it after its discard check; `pop_eq_pack` and
  `pop_eq_null` say once what a call of `Pop` returns, so that no later proof unfolds `pop`.
-/

namespace EasyDK
namespace InferServer

variable {cfg : CacheConfig}

namespace CacheDynamic

/-- The rebatching loop packs what it holds and every remaining item, in order. -/
theorem flatMap_rebatch : ∀ (pack : List InferData) {items : List InferData}, items ≠ [] →
    (rebatch cfg pack items).flatMap Package.data = pack ++ items
  | _, [], h => absurd rfl h
  | pack, it :: rest, _ => by
    unfold rebatch
    split
    · by_cases hr : rest = []
      · subst hr; simp [rebatch]
      · simp [flatMap_rebatch [] hr]
    · rename_i hclose
      have hr : rest ≠ [] := fun h => hclose (.inr h)
      simp [flatMap_rebatch (pack ++ [it]) hr]

theorem rebatch_items (items : List InferData) :
    (rebatch cfg [] items).flatMap Package.data = items := by
  cases items with
  | nil => rfl
  | cons it rest => exact flatMap_rebatch [] (List.cons_ne_nil it rest)

/-- A rebatched package is a fresh nonempty package of at most `batch_size` items: no
descriptors yet, `data_num` its size, and the priority of a `new Package`. -/
theorem mem_rebatch {B : InferData → Prop} : ∀ {pack items : List InferData} {p : Package},
    (1 ≤ cfg.batchSize.toNat → pack.length < cfg.batchSize.toNat) →
    (∀ it ∈ pack, B it) → (∀ it ∈ items, B it) → p ∈ rebatch cfg pack items →
    p.data ≠ [] ∧ p.descs = [] ∧ p.priority = cfg.freshPriority ∧
      p.dataNum = p.data.length ∧
      (1 ≤ cfg.batchSize.toNat → p.data.length ≤ cfg.batchSize.toNat) ∧
      ∀ it ∈ p.data, B it
  | _, [], _, _, _, _, hp => by simp [rebatch] at hp
  | pack, it :: rest, p, hlt, hpack, hitems, hp => by
    have hl : ∀ x ∈ pack ++ [it], B x := fun x hx => by
      simp only [List.mem_append, List.mem_singleton] at hx
      rcases hx with hx | rfl
      · exact hpack x hx
      · exact hitems x (by simp)
    have hrest : ∀ x ∈ rest, B x := fun x hx => hitems x (List.mem_cons_of_mem _ hx)
    unfold rebatch at hp
    split at hp
    · rcases List.mem_cons.1 hp with rfl | hp
      · exact ⟨by simp, rfl, rfl, rfl, fun h => by have := hlt h; simp; omega, hl⟩
      · exact mem_rebatch (fun h => by simp; omega) (by simp) hrest hp
    · rename_i hclose
      exact mem_rebatch (fun h => by push_neg at hclose; omega) hl hrest hp

/-- The rebatching loop cuts what it holds and every remaining item into runs of `batch_size`
items. -/
theorem chunked_rebatch (hb : 1 ≤ cfg.batchSize.toNat) :
    ∀ (pack : List InferData) {items : List InferData},
      pack.length < cfg.batchSize.toNat → items ≠ [] →
      Chunked cfg.batchSize.toNat ((rebatch cfg pack items).map Package.data)
  | _, [], _, hne => absurd rfl hne
  | pack, it :: rest, hlt, _ => by
    unfold rebatch
    split
    · rename_i hclose
      simp only [List.map_cons]
      by_cases hr : rest = []
      · subst hr; exact .last (by simp) (by simp; omega)
      · have hne : (rebatch cfg [] rest).map Package.data ≠ [] := fun h => hr <| by
          simpa [List.map_eq_nil_iff.1 h] using (@flatMap_rebatch cfg [] _ hr).symm
        have hfull : cfg.batchSize.toNat ≤ pack.length + 1 := by simpa [hr] using hclose
        exact .cons (by simp; omega) hne (chunked_rebatch hb [] (by simpa) hr)
    · rename_i hclose
      push_neg at hclose
      exact chunked_rebatch hb _ (by simpa using hclose.1) hclose.2

/-- The dynamic sweep keeps exactly the live items of the queue, in order. -/
theorem clearDiscard_items (disc : Ctrl → Bool) (queue : List Package) :
    (clearDiscard cfg disc queue).1.flatMap Package.data =
      (queue.flatMap Package.data).filter fun it => !it.discarded disc :=
  rebatch_items _

/-- The dynamic sweep cuts the live items into runs of `batch_size` items. -/
theorem chunked_clearDiscard (hb : 1 ≤ cfg.batchSize.toNat) (disc : Ctrl → Bool)
    (queue : List Package) :
    Chunked cfg.batchSize.toNat ((clearDiscard cfg disc queue).1.map Package.data) := by
  cases hl : (queue.flatMap Package.data).filter fun it => !it.discarded disc with
  | nil => simp only [clearDiscard, hl, rebatch, List.map_nil]; exact .nil
  | cons it rest =>
    simp only [clearDiscard, hl]
    exact chunked_rebatch hb [] (by simpa) (List.cons_ne_nil _ _)

/-- Items whose descriptors are set get one `ProcessFailed(SUCCESS)` each, in order, on their
own request. -/
theorem sweepReport_forall₂ : ∀ {items : List InferData}, (∀ it ∈ items, it.desc.isSome) →
    List.Forall₂ (fun it r => ∃ c, it.ctrl? = some c ∧ r = .processFailed c .success) items
      (items.filterMap sweepReport)
  | [], _ => .nil
  | ⟨_, none⟩ :: _, h => absurd (h _ (List.mem_cons_self _ _)) (by simp)
  | ⟨_, some d⟩ :: _, h =>
    .cons ⟨d.ctrl, rfl, rfl⟩
      (sweepReport_forall₂ fun it hit => h it (List.mem_cons_of_mem _ hit))

/-- With every item's descriptor set, the dynamic sweep sends one `ProcessFailed(SUCCESS)` per
discarded item, in queue order, and none for a live item. -/
theorem clearDiscard_reports (disc : Ctrl → Bool) {queue : List Package}
    (hdesc : ∀ p ∈ queue, ∀ it ∈ p.data, it.desc.isSome) :
    List.Forall₂ (fun it r => ∃ c, it.ctrl? = some c ∧ r = .processFailed c .success)
      ((queue.flatMap Package.data).filter (·.discarded disc))
      (clearDiscard cfg disc queue).2 :=
  sweepReport_forall₂ fun it hit => by
    obtain ⟨p, hp, hit⟩ := List.mem_flatMap.1 (List.mem_filter.1 hit).1
    exact hdesc p hp it hit

theorem mem_clearDiscard {B : InferData → Prop} {disc : Ctrl → Bool} {queue : List Package}
    (hq : ∀ p ∈ queue, ∀ it ∈ p.data, B it) {p : Package}
    (hp : p ∈ (clearDiscard cfg disc queue).1) :
    p.data ≠ [] ∧ p.descs = [] ∧ p.priority = cfg.freshPriority ∧
      p.dataNum = p.data.length ∧
      (1 ≤ cfg.batchSize.toNat → p.data.length ≤ cfg.batchSize.toNat) ∧
      ∀ it ∈ p.data, B it ∧ it.discarded disc = false :=
  mem_rebatch (B := fun it => B it ∧ it.discarded disc = false) (fun h => by simp; omega)
    (by simp) (fun it hit => by
      simp only [List.mem_filter, List.mem_flatMap, Bool.not_eq_true'] at hit
      obtain ⟨⟨q, hq', hit⟩, hd⟩ := hit
      exact ⟨hq q hq' it hit, hd⟩) hp

end CacheDynamic

namespace CacheBase

/-- The queue `Pop` takes its package from, with the reports of its sweep: the queue itself
when the head package holds no discarded item, the queue `ClearDiscard` leaves otherwise. -/
def swept (cfg : CacheConfig) (disc : Ctrl → Bool) (c : Cache) : List Package × List Report :=
  match c.cache with
  | head :: _ => if hasDiscarded disc head then clearDiscard cfg disc c.cache else (c.cache, [])
  | [] => ([], [])

/-- The three ways `Pop` reads its queue: as it is, when the head package holds no discarded
item; as `ClearDiscard` leaves it; or empty. -/
theorem swept_cases (cfg : CacheConfig) (disc : Ctrl → Bool) (c : Cache) :
    (∃ head tail, c.cache = head :: tail ∧ hasDiscarded disc head = false ∧
        swept cfg disc c = (c.cache, [])) ∨
      (∃ head tail, c.cache = head :: tail ∧ hasDiscarded disc head = true ∧
        swept cfg disc c = clearDiscard cfg disc c.cache) ∨
      (c.cache = [] ∧ swept cfg disc c = ([], [])) := by
  rcases hc : c.cache with _ | ⟨head, tail⟩
  · simp [swept, hc]
  · cases hd : hasDiscarded disc head <;> simp [swept, hc, hd]

/-- `Pop` through its sweep: the front of the swept queue, prepared, or null when nothing is
left, unless the call is still waiting on an empty running cache. -/
theorem pop_eq (disc : Ctrl → Bool) (c : Cache) :
    pop cfg disc c =
      match swept cfg disc c with
      | ([], r) =>
        if c.cache = [] ∧ c.running = true then .waits else .null { c with cache := [] } r
      | (q :: rest, r) => .pack (preparePackage cfg q) { c with cache := rest } r := by
  rcases c with ⟨running, batcher, _ | ⟨head, tail⟩⟩
  · cases running <;> rfl
  · by_cases hd : hasDiscarded disc head = true
    · rcases hcd : clearDiscard cfg disc (head :: tail) with ⟨_ | ⟨q, rest⟩, reports⟩ <;>
        simp [pop, swept, hd, hcd]
    · simp [pop, swept, hd]

theorem pop_eq_pack {disc : Ctrl → Bool} {c c' : Cache} {p : Package} {r : List Report}
    (h : pop cfg disc c = .pack p c' r) :
    ∃ q rest, swept cfg disc c = (q :: rest, r) ∧ p = preparePackage cfg q ∧
      c' = { c with cache := rest } := by
  rw [pop_eq] at h
  rcases hs : swept cfg disc c with ⟨_ | ⟨q, rest⟩, r'⟩ <;> simp only [hs] at h
  · split_ifs at h
  · cases h; exact ⟨q, rest, rfl, rfl, rfl⟩

theorem pop_eq_null {disc : Ctrl → Bool} {c c' : Cache} {r : List Report}
    (h : pop cfg disc c = .null c' r) :
    swept cfg disc c = ([], r) ∧ c' = { c with cache := [] } ∧
      ¬(c.cache = [] ∧ c.running = true) := by
  rw [pop_eq] at h
  rcases hs : swept cfg disc c with ⟨_ | ⟨q, rest⟩, r'⟩ <;> simp only [hs] at h
  · split_ifs at h with hw
    cases h; exact ⟨rfl, rfl, hw⟩
  · cases h

end CacheBase

end InferServer
end EasyDK
