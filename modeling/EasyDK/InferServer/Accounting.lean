import EasyDK.InferServer.Pipeline
import EasyDK.InferServer.Discard
import Mathlib.Data.List.Nodup
/-!
# Completion accounting

Every descriptor a request is owed ends as one call on its control: `ProcessDone` at the tail,
`ProcessFailed` at a failing node, or `ProcessFailed(SUCCESS)` from a sweep.  Counted per
request, the calls made plus the descriptors still pending equal `data_num`
(`completion_accounting`), along every run whose sessions send packages of `data_num` items.

The proof counts requests in lists.  A step trades descriptors for calls one for one: the sweep
reports every item it drops (`swept_perm`), `Pop` hands the front package's descriptors to the
pool (`pop_pack_count`), and a node's outcome names the same requests as its package
(`outcome_count`).  A continuous static package breaks the trade: its sweep reports its one item
for its `data_num` descriptors.

The accounting needs two facts of the cache run under the pipeline (`PReachable.cacheRun`): the
cache is well formed, and a static package holds its items' own descriptors.
-/

namespace EasyDK
namespace InferServer

/-! ## Requests named by descriptors and reports -/

@[simp] theorem descCtrls_append (l l' : List (Option TaskDesc)) :
    descCtrls (l ++ l') = descCtrls l ++ descCtrls l' :=
  List.filterMap_append l l' _

theorem descCtrls_map_desc (l : List InferData) :
    descCtrls (l.map InferData.desc) = l.filterMap InferData.ctrl? :=
  List.filterMap_map _ _ l

/-- Items of one request name it once each. -/
theorem filterMap_ctrl_of_one {ctrl : Ctrl} :
    ∀ {l : List InferData}, (∀ it ∈ l, it.ctrl? = some ctrl) →
      l.filterMap InferData.ctrl? = List.replicate l.length ctrl
  | [], _ => rfl
  | it :: l, h => by
    rw [List.filterMap_cons_some (h it (List.mem_cons_self _ _)),
      filterMap_ctrl_of_one fun x hx => h x (List.mem_cons_of_mem _ hx)]
    rfl

/-- A sweep report names the item's request. -/
theorem sweepReports_ctrl (l : List InferData) :
    (l.filterMap sweepReport).map Report.ctrl = l.filterMap InferData.ctrl? := by
  rw [List.map_filterMap]
  congr 1
  funext it
  cases h : it.ctrl? <;> simp [sweepReport, h, Report.ctrl]

theorem failedReports_ctrl {s : Status} : ∀ {descs : List (Option TaskDesc)} {rs : List Report},
    TaskNode.failedReports s descs = some rs → rs.map Report.ctrl = descCtrls descs
  | [], _, h => by cases h; rfl
  | some t :: descs, _, h => by
    obtain ⟨rs, hrs, rfl⟩ := Option.map_eq_some'.1 h
    simp [descCtrls, Report.ctrl, failedReports_ctrl hrs]
  | none :: _, _, h => by cases h

/-- The tail answers every descriptor, whatever data it pairs it with. -/
theorem doneReports_ctrl : ∀ {descs : List (Option TaskDesc)} {data : List InferData}
    {rs : List Report}, TaskNode.doneReports descs data = some rs →
      rs.map Report.ctrl = descCtrls descs
  | [], _, _, h => by cases h; rfl
  | some t :: descs, _ :: data, _, h => by
    obtain ⟨rs, hrs, rfl⟩ := Option.map_eq_some'.1 h
    simp [descCtrls, Report.ctrl, doneReports_ctrl hrs]
  | none :: _, _, _, h => by cases h
  | some _ :: _, [], _, h => by cases h

/-! ## The cache's descriptors -/

variable {cfg : CacheConfig}

/-- A static cache holds its items' own descriptors. -/
def ItemDescs (cfg : CacheConfig) (c : Cache) : Prop :=
  cfg.strategy = .static → ∀ p ∈ c.cache, p.descs = p.data.map InferData.desc

/-- A well formed cache whose static packages hold their items' descriptors holds exactly its
items' descriptors. -/
theorem Cache.descs_eq_items {c : Cache} (hwf : WellFormed cfg c) (hd : ItemDescs cfg c) :
    c.descs cfg = c.items.map InferData.desc := by
  unfold Cache.descs
  cases hs : cfg.strategy with
  | dynamic => rfl
  | static =>
    rw [Cache.items, hwf.static_batcher hs, List.append_nil, List.map_flatMap]
    exact List.flatMap_congr (hd hs)

@[simp] theorem Cache.descs_start (c : Cache) : (CacheBase.start c).descs cfg = c.descs cfg := rfl

@[simp] theorem Cache.descs_stop (c : Cache) :
    (CacheBase.stop cfg c).descs cfg = c.descs cfg := by
  unfold Cache.descs
  cases hs : cfg.strategy with
  | dynamic => rw [stop_items]
  | static => simp [CacheBase.stop, hs]

@[simp] theorem Cache.descs_timeout (c : Cache) :
    (CacheBase.timeout cfg c).descs cfg = c.descs cfg := by
  unfold Cache.descs
  cases hs : cfg.strategy with
  | dynamic => rw [timeout_items]
  | static => simp [CacheBase.timeout, hs]

/-- The split of an input of `data_num` items publishes packages holding their items'
descriptors. -/
theorem split_itemDescs {input : Package} (hok : input.dataNum = input.data.length) :
    ∀ p ∈ CacheStatic.split cfg input.data.length input.dataNum 0 [] 0 input.data,
      p.descs = p.data.map InferData.desc :=
  fun _ hp => (CacheStatic.mem_split_exact hok hp).2

/-- A push of `data_num` items adds their descriptors. -/
theorem Cache.descs_enqueue {c : Cache} (hwf : WellFormed cfg c) {pack : Package}
    (hok : pack.dataNum = pack.data.length) :
    (CacheBase.enqueue cfg c pack).descs cfg = c.descs cfg ++ pack.data.map InferData.desc := by
  unfold Cache.descs
  cases hs : cfg.strategy with
  | dynamic => rw [enqueue_items hwf, List.map_append]
  | static =>
    simp only [CacheBase.enqueue, hs, CacheStatic.enqueue, List.flatMap_append]
    rw [List.flatMap_congr (split_itemDescs hok), ← List.map_flatMap, CacheStatic.split_items]

/-- The sweep trades the items it drops for one report each. -/
theorem swept_perm (disc : Ctrl → Bool) (c : Cache) :
    List.Perm ((c.cache.flatMap Package.data).filterMap InferData.ctrl?)
      (((CacheBase.swept cfg disc c).1.flatMap Package.data).filterMap InferData.ctrl? ++
        (CacheBase.swept cfg disc c).2.map Report.ctrl) := by
  rcases CacheBase.swept_cases cfg disc c with
    ⟨-, -, -, -, hs⟩ | ⟨-, -, -, -, hs⟩ | ⟨hc, hs⟩ <;> rw [hs]
  · simp
  · unfold CacheBase.clearDiscard
    cases cfg.strategy with
    | dynamic =>
      simp only [CacheDynamic.clearDiscard, CacheDynamic.rebatch_items, sweepReports_ctrl,
        ← List.filterMap_append]
      refine (List.Perm.filterMap _ ?_)
      simpa using (List.filter_append_perm (fun it : InferData => !it.discarded disc) _).symm
    | static =>
      simp only [CacheStatic.clearDiscard, List.map_flatMap, sweepReports_ctrl,
        ← List.filterMap_flatMap, ← List.filterMap_append, ← List.flatMap_append]
      refine List.Perm.filterMap _ (List.Perm.flatMap_right _ ?_)
      simpa using
        (List.filter_append_perm (fun p : Package => !CacheStatic.headDiscarded disc p) _).symm
  · simp [hc]

/-- A queued package whose static descriptors are its items' own leaves `Pop` with its items'
descriptors. -/
theorem prepared_descs_items {q : Package} (hq : Queued cfg q)
    (hd : cfg.strategy = .static → q.descs = q.data.map InferData.desc) :
    (CacheBase.preparePackage cfg q).descs = q.data.map InferData.desc := by
  have hshape := hq.shape
  unfold CacheBase.preparePackage
  cases hs : cfg.strategy with
  | dynamic =>
    rw [hs] at hshape
    simp [CacheDynamic.preparePackage, CacheBase.moveDescToPackage, hshape.1]
  | static => exact hd hs

/-- `Pop` hands the front package's descriptors to the pool and trades what its sweep drops for
reports. -/
theorem pop_pack_count {disc : Ctrl → Bool} {c c' : Cache} {p : Package} {r : List Report}
    (hwf : WellFormed cfg c) (hd : ItemDescs cfg c) (h : CacheBase.pop cfg disc c = .pack p c' r)
    (a : Ctrl) :
    (descCtrls (c.descs cfg)).count a = (descCtrls (c'.descs cfg)).count a +
      (descCtrls p.descs).count a + (r.map Report.ctrl).count a := by
  obtain ⟨q, rest, hsw, rfl, rfl⟩ := CacheBase.pop_eq_pack h
  have hmem : ∀ x ∈ q :: rest, Queued cfg x ∧ (cfg.strategy = .static → x ∈ c.cache) :=
    fun x hx => ⟨queued_swept disc hwf x (by rw [hsw]; exact hx),
      fun hs => swept_subset_static hs disc c x (by rw [hsw]; exact hx)⟩
  have hwf' : WellFormed cfg { c with cache := rest } :=
    hwf.with_cache fun x hx => (hmem x (List.mem_cons_of_mem _ hx)).1
  have hd' : ItemDescs cfg { c with cache := rest } :=
    fun hs x hx => hd hs x ((hmem x (List.mem_cons_of_mem _ hx)).2 hs)
  have hperm := (@swept_perm cfg disc c).count_eq a
  rw [hsw] at hperm
  rw [Cache.descs_eq_items hwf hd, Cache.descs_eq_items hwf' hd',
    prepared_descs_items (hmem q (List.mem_cons_self _ _)).1
      fun hs => hd hs q ((hmem q (List.mem_cons_self _ _)).2 hs)]
  simp only [Cache.items, List.map_append, descCtrls_append, descCtrls_map_desc,
    List.count_append, List.filterMap_append, List.flatMap_cons] at hperm ⊢
  omega

/-- A `Pop` that returns null trades what its sweep drops for reports. -/
theorem pop_null_count {disc : Ctrl → Bool} {c c' : Cache} {r : List Report}
    (hwf : WellFormed cfg c) (hd : ItemDescs cfg c) (h : CacheBase.pop cfg disc c = .null c' r)
    (a : Ctrl) :
    (descCtrls (c.descs cfg)).count a =
      (descCtrls (c'.descs cfg)).count a + (r.map Report.ctrl).count a := by
  obtain ⟨hsw, rfl, -⟩ := CacheBase.pop_eq_null h
  have hperm := (@swept_perm cfg disc c).count_eq a
  rw [hsw] at hperm
  rw [Cache.descs_eq_items hwf hd,
    Cache.descs_eq_items (hwf.with_cache (by simp)) fun _ x hx => absurd hx (List.not_mem_nil x)]
  simp only [Cache.items, List.map_append, descCtrls_append, descCtrls_map_desc,
    List.count_append, List.filterMap_append, List.flatMap_nil] at hperm ⊢
  omega

/-! ## The cache under a pipeline -/

variable {next : Int → Int} {ok : Package → Prop} {engines : List Engine}

/-- The cache under a pipeline runs through the calls the pipeline makes on it; each push holds
one request and satisfies `ok`. -/
theorem PReachable.cacheRun {w : Pipeline} (h : PReachable cfg next ok engines w) :
    ∃ evs, Run cfg evs w.cache ∧
      ∀ pack acc, Event.push pack acc ∈ evs → ok pack ∧ OneRequest pack := by
  induction h with
  | init => exact ⟨[], .nil, by simp⟩
  | step _ hs ih =>
    obtain ⟨evs, hrun, hpush⟩ := ih
    have extend : ∀ {e c'}, Step cfg _ e c' →
        (∀ pack acc, e = .push pack acc → ok pack ∧ OneRequest pack) →
        ∃ evs, Run cfg evs c' ∧
          ∀ pack acc, Event.push pack acc ∈ evs → ok pack ∧ OneRequest pack :=
      fun hstep he => ⟨_, hrun.snoc hstep, fun pack acc hmem => by
        rcases List.mem_append.1 hmem with hmem | hmem
        · exact hpush pack acc hmem
        · exact he pack acc (List.mem_singleton.1 hmem).symm⟩
    cases hs with
    | start => exact extend (.start _) (by simp)
    | stop => exact extend (.stop _) (by simp)
    | timeout => exact extend (.timeout _) (by simp)
    | send ctrl pack _ hctrl hok =>
      refine extend (.push _ pack fun _ it hit => ?_) ?_
      · simpa [InferData.ctrl?] using congrArg Option.isSome (hctrl it hit)
      · rintro _ _ ⟨rfl, -⟩
        exact ⟨hok, ctrl, hctrl⟩
    | dispatchNull h => exact extend (.popNull h) (by simp)
    | dispatch _ _ h => exact extend (.popPack h) (by simp)
    | run => exact ⟨evs, by simpa using hrun, hpush⟩
    | discard => exact ⟨evs, hrun, hpush⟩
    | fork => exact ⟨evs, hrun, hpush⟩

/-- Under a pipeline whose sessions send `data_num` items, a static cache holds its items'
own descriptors. -/
theorem PReachable.itemDescs {w : Pipeline}
    (h : PReachable cfg next (fun p => p.dataNum = p.data.length) engines w) :
    WellFormed cfg w.cache ∧ ItemDescs cfg w.cache := by
  obtain ⟨evs, hrun, hpush⟩ := h.cacheRun
  exact ⟨hrun.wellFormed,
    fun hs => hrun.static_queue hs fun pack acc he => split_itemDescs (hpush pack acc he).1⟩

/-! ## Each step keeps the count -/

theorem Pipeline.count_accounted (w : Pipeline) (a : Ctrl) :
    (w.accounted cfg).count a = (w.reports.map Report.ctrl).count a +
      (descCtrls (w.cache.descs cfg)).count a +
        (descCtrls (w.tasks.flatMap (·.pack.descs))).count a := by
  simp only [Pipeline.accounted, Pipeline.pendingDescs, descCtrls_append, List.count_append]
  omega

/-- Requests are sent once each, and counted per request, the calls made plus the descriptors
pending equal what was sent. -/
structure Balanced (cfg : CacheConfig) (w : Pipeline) : Prop where
  nodup : (w.requests.map Prod.fst).Nodup
  count : ∀ a, (w.accounted cfg).count a = w.owed.count a

/-- Taking task `i` out of the pool takes its package's descriptors out. -/
theorem tasks_count {tasks : List Task} {i : Nat} {t : Task} (ht : tasks[i]? = some t)
    (a : Ctrl) :
    (descCtrls (tasks.flatMap (·.pack.descs))).count a = (descCtrls t.pack.descs).count a +
      (descCtrls ((tasks.eraseIdx i).flatMap (·.pack.descs))).count a := by
  rw [descCtrls, (((Pipeline.tasks_perm ht).flatMap_right fun t : Task => t.pack.descs).filterMap
    _).count_eq]
  simp [descCtrls, List.count_append]

/-- A node's outcome names the requests of the package it ran, once each. -/
theorem outcome_count (w : Pipeline) {i : Nat} {t : Task} (ht : w.tasks[i]? = some t)
    {node : TaskNode} {s : Status} {data : List InferData} {o : NodeOutcome}
    (ho : node.run next s { t.pack with data } = some o) (a : Ctrl) :
    ((w.finish i t o).accounted cfg).count a = (w.accounted cfg).count a := by
  rw [Pipeline.count_accounted, Pipeline.count_accounted, tasks_count ht]
  unfold TaskNode.run TaskNode.transmit at ho
  split at ho
  · obtain ⟨rs, hrs, rfl⟩ := Option.map_eq_some'.1 ho
    simp [Pipeline.finish, List.count_append, failedReports_ctrl hrs]
    omega
  · split at ho
    · cases ho
      simp [Pipeline.finish, List.count_append]
      omega
    · obtain ⟨rs, hrs, rfl⟩ := Option.map_eq_some'.1 ho
      simp [Pipeline.finish, List.count_append, doneReports_ctrl hrs]
      omega

/-- Every call keeps the count, when sessions send `data_num` items. -/
theorem PStep.balanced {w w' : Pipeline}
    (hs : PStep cfg next (fun p => p.dataNum = p.data.length) w w')
    (hwf : WellFormed cfg w.cache) (hd : ItemDescs cfg w.cache) (hb : Balanced cfg w) :
    Balanced cfg w' := by
  have hcount := fun a => (Pipeline.count_accounted w a).symm.trans (hb.count a)
  cases hs with
  | start => exact ⟨hb.nodup, hb.count⟩
  | stop => exact ⟨hb.nodup, fun a => by simpa [Pipeline.count_accounted] using hcount a⟩
  | timeout => exact ⟨hb.nodup, fun a => by simpa [Pipeline.count_accounted] using hcount a⟩
  | send ctrl pack hfresh hctrl hok =>
    cases hr : w.cache.running
    · simp only [CacheBase.push_stopped cfg hr]
      exact hb
    · simp only [CacheBase.push_running cfg hr, if_true]
      refine ⟨?_, fun a => ?_⟩
      · simp only [List.map_append, List.map_cons, List.map_nil, List.nodup_append]
        refine ⟨hb.nodup, List.nodup_singleton _, List.disjoint_singleton.2 fun hm => ?_⟩
        obtain ⟨⟨c, n⟩, hmem, hc⟩ := List.mem_map.1 hm
        subst hc
        exact hfresh n hmem
      · have h := hcount a
        rw [Pipeline.count_accounted]
        simp [Cache.descs_enqueue hwf hok, Pipeline.owed, descCtrls_map_desc,
          filterMap_ctrl_of_one hctrl, List.count_append, hok] at h ⊢
        omega
  | discard => exact ⟨hb.nodup, hb.count⟩
  | dispatchNull h =>
    refine ⟨hb.nodup, fun a => ?_⟩
    have := pop_null_count hwf hd h a
    have h := hcount a
    rw [Pipeline.count_accounted]
    simp only [Pipeline.owed, List.map_append, List.count_append] at h ⊢
    omega
  | dispatch e he h =>
    refine ⟨hb.nodup, fun a => ?_⟩
    have := pop_pack_count hwf hd h a
    have h := hcount a
    rw [Pipeline.count_accounted]
    simp only [Pipeline.owed, List.map_append, List.count_append, List.flatMap_append,
      List.flatMap_cons, List.flatMap_nil, List.append_nil, descCtrls_append] at h ⊢
    omega
  | run ht _ _ s data ho =>
    exact ⟨by simpa using hb.nodup, fun a => by
      rw [outcome_count w ht ho]; simpa [Pipeline.owed] using hb.count a⟩
  | fork => exact ⟨hb.nodup, hb.count⟩

/-- Every run keeps the count. -/
theorem PReachable.balanced {w : Pipeline}
    (h : PReachable cfg next (fun p => p.dataNum = p.data.length) engines w) : Balanced cfg w := by
  induction h with
  | init =>
    refine ⟨List.nodup_nil, fun a => ?_⟩
    unfold Pipeline.accounted Pipeline.pendingDescs Cache.descs
    cases cfg.strategy <;> rfl
  | step hr hs ih =>
    obtain ⟨hwf, hd⟩ := hr.itemDescs
    exact hs.balanced hwf hd ih

/-! ## Per request -/

theorem count_owed_of_not_mem {a : Ctrl} {reqs : List (Ctrl × Nat)} (h : ∀ n, (a, n) ∉ reqs) :
    (reqs.flatMap fun r => List.replicate r.2 r.1).count a = 0 := by
  rw [List.count_eq_zero]
  intro hm
  obtain ⟨⟨c, n⟩, hr, hc⟩ := List.mem_flatMap.1 hm
  obtain ⟨-, rfl⟩ := List.mem_replicate.1 hc
  exact h n hr

theorem count_owed_of_mem {a : Ctrl} {n : Nat} : ∀ {reqs : List (Ctrl × Nat)},
    (reqs.map Prod.fst).Nodup → (a, n) ∈ reqs →
      (reqs.flatMap fun r => List.replicate r.2 r.1).count a = n
  | [], _, h => absurd h (List.not_mem_nil _)
  | (b, m) :: rest, hnd, h => by
    rw [List.map_cons, List.nodup_cons] at hnd
    rw [List.flatMap_cons, List.count_append, List.count_replicate]
    rcases List.mem_cons.1 h with h | h
    · cases h
      simp [count_owed_of_not_mem fun k hk => hnd.1 (List.mem_map.2 ⟨_, hk, rfl⟩)]
    · have hab : b ≠ a := fun hb => hnd.1 (hb ▸ List.mem_map.2 ⟨_, h, rfl⟩)
      simp [hab, count_owed_of_mem hnd.2 h]

/-- Exactly-once completion: along every run whose sessions send packages of `data_num` items,
a request has received as many calls on its control, plus descriptors still pending, as its
`data_num`; a control no request was sent with has received none. -/
theorem completion_accounting {w : Pipeline}
    (h : PReachable cfg next (fun p => p.dataNum = p.data.length) engines w) (ctrl : Ctrl) :
    (∀ n, (ctrl, n) ∈ w.requests →
      (w.reports.map Report.ctrl).count ctrl + (descCtrls (w.pendingDescs cfg)).count ctrl = n) ∧
    ((∀ n, (ctrl, n) ∉ w.requests) →
      (w.reports.map Report.ctrl).count ctrl + (descCtrls (w.pendingDescs cfg)).count ctrl = 0) := by
  have hb := h.balanced
  have hc : (w.reports.map Report.ctrl).count ctrl + (descCtrls (w.pendingDescs cfg)).count ctrl =
      w.owed.count ctrl := by
    rw [← hb.count ctrl, Pipeline.accounted, List.count_append]
  exact ⟨fun n hn => hc.trans (count_owed_of_mem hb.nodup hn),
    fun hn => hc.trans (count_owed_of_not_mem hn)⟩

/-- `completion_accounting` after request 1's first package has been answered at the tail. -/
theorem completion_accounting_sample :
    ∃ w, PReachable sampleStatic id (fun p => p.dataNum = p.data.length) [Engine.create [0]] w ∧
      w.reports.length = 2 ∧
      (∀ n, (⟨1, 1⟩, n) ∈ w.requests → (w.reports.map Report.ctrl).count ⟨1, 1⟩ +
        (descCtrls (w.pendingDescs sampleStatic)).count ⟨1, 1⟩ = n) ∧
      ((∀ n, (⟨1, 1⟩, n) ∉ w.requests) → (w.reports.map Report.ctrl).count ⟨1, 1⟩ +
        (descCtrls (w.pendingDescs sampleStatic)).count ⟨1, 1⟩ = 0) := by
  have h := (((@PReachable.init sampleStatic id (fun p => p.dataNum = p.data.length)
    [Engine.create [0]]).step (.start _)).step (.send _ ⟨1, 1⟩ samplePack (by simp) (by decide)
    rfl)).step (.dispatch 0 (by decide) rfl)
  have h := h.step (.run (i := 0) (by rfl) (by rfl) (by rfl) .success
    [(sampleItem 0).erase, (sampleItem 1).erase] (by rfl))
  exact ⟨_, h, rfl, completion_accounting h ⟨1, 1⟩⟩

end InferServer
end EasyDK
