import EasyDK.InferServer.Sweep
/-!
# Runs of a cache

A cache is driven by its producers and by the executor's dispatch loop: `Start`, `Stop`, `Push`,
the batch timer, and `Pop` with its discard sweep.  Each call is one step of a labelled
transition system; the label records what the call returned.  The discard flags are whatever
they are when `Pop` runs, so every `Pop` carries its own.

`Run cfg evs c` says that the calls `evs`, made in this order on a cache built with `cfg`, leave
it in state `c`.  `WellFormed` is the invariant every run keeps (`Run.wellFormed`): it says what
a queued package looks like, per strategy, and that the batcher holds fewer than `batch_size`
items that all carry their descriptor.
-/

namespace EasyDK
namespace InferServer

/-- One call on a cache, with what it returned. -/
inductive Event
  | start
  | stop
  | timeout
  | push (pack : Package) (accepted : Bool)
  | pop (disc : Ctrl → Bool) (out : Option Package) (reports : List Report)

open CacheBase in
/-- One call on a cache.  `Enqueue` aborts the process on an item without a descriptor
(`CHECK(it->desc)`), so a push to a running cache steps only when every item has one.  `Pop`
steps once it has stopped waiting. -/
inductive Step (cfg : CacheConfig) : Cache → Event → Cache → Prop
  | start (c : Cache) : Step cfg c .start (start c)
  | stop (c : Cache) : Step cfg c .stop (stop cfg c)
  | timeout (c : Cache) : Step cfg c .timeout (timeout cfg c)
  | push (c : Cache) (pack : Package)
      (hdesc : c.running = true → ∀ it ∈ pack.data, it.desc.isSome) :
      Step cfg c (.push pack (push cfg c pack).1) (push cfg c pack).2
  | popNull {disc : Ctrl → Bool} {c c' : Cache} {r : List Report}
      (h : pop cfg disc c = .null c' r) : Step cfg c (.pop disc none r) c'
  | popPack {disc : Ctrl → Bool} {c c' : Cache} {p : Package} {r : List Report}
      (h : pop cfg disc c = .pack p c' r) : Step cfg c (.pop disc (some p) r) c'

/-- The calls made on a cache since its construction, and the state they leave it in. -/
inductive Run (cfg : CacheConfig) : List Event → Cache → Prop
  | nil : Run cfg [] {}
  | snoc {evs : List Event} {c c' : Cache} {e : Event} :
      Run cfg evs c → Step cfg c e c' → Run cfg (evs ++ [e]) c'

/-- The items an accepted push handed over. -/
def Event.pushed : Event → List InferData
  | .push pack true => pack.data
  | _ => []

/-- The package a call of `Pop` returned. -/
def Event.popped : Event → List Package
  | .pop _ (some p) _ => [p]
  | _ => []

/-! ## Queued packages -/

/-- The descriptors `CacheStatic::Enqueue` gives a package: its items' own, with `data_num` its
size, or, for a continuous package, `data_num` fresh ones on its one item's request. -/
def StaticShape (p : Package) : Prop :=
  (p.descs = p.data.map InferData.desc ∧ p.dataNum = p.data.length) ∨
    ∃ it, p.data = [it] ∧ p.dataNum ≠ 1 ∧
      p.descs = (List.range p.dataNum).map fun i => it.ctrl?.map fun c => ⟨c, i⟩

/-- The descriptors of a queued package, per strategy: none yet for the dynamic cache. -/
def Shape : BatchStrategy → Package → Prop
  | .dynamic, p => p.descs = [] ∧ p.dataNum = p.data.length
  | .static, p => StaticShape p

/-- A package as a cache keeps it between `Enqueue` and `Pop`. -/
structure Queued (cfg : CacheConfig) (p : Package) : Prop where
  ne_nil : p.data ≠ []
  desc : ∀ it ∈ p.data, it.desc.isSome
  size : 1 ≤ cfg.batchSize.toNat → p.data.length ≤ cfg.batchSize.toNat
  shape : Shape cfg.strategy p
  priority : p.priority = cfg.getPriority (-firstRequestId p.data) ∨
    (cfg.strategy = .dynamic ∧ p.priority = cfg.freshPriority)

/-- The invariant of every run. -/
structure WellFormed (cfg : CacheConfig) (c : Cache) : Prop where
  queue : ∀ p ∈ c.cache, Queued cfg p
  batcher_desc : ∀ it ∈ c.batcher, it.desc.isSome
  batcher_lt : 1 ≤ cfg.batchSize.toNat → c.batcher.length < cfg.batchSize.toNat
  static_batcher : cfg.strategy = .static → c.batcher = []

variable {cfg : CacheConfig}

theorem queued_of_sunk (hd : cfg.strategy = .dynamic) {p : Package}
    (h : CacheDynamic.Sunk cfg (fun it => it.desc.isSome) p) : Queued cfg p := by
  obtain ⟨batch, rfl, hne, hle, hdesc⟩ := h
  exact ⟨hne, hdesc, hle, by rw [hd]; exact ⟨rfl, rfl⟩, .inl rfl⟩

theorem staticShape_closePackage {ds dn : Nat} {data : List InferData}
    (hone : ds = 1 → data.length = 1) :
    StaticShape (CacheStatic.closePackage cfg ds dn data data.length) := by
  by_cases h : ds = 1 ∧ dn ≠ 1
  · obtain ⟨it, rfl⟩ := List.length_eq_one.1 (hone h.1)
    exact .inr ⟨it, by simp,
      by simp [CacheStatic.closePackage, CacheStatic.copyDescToPackageContinuous, h],
      by simp [CacheStatic.closePackage, CacheStatic.copyDescToPackageContinuous, h]⟩
  · refine .inl ⟨by simp [CacheStatic.closePackage, CacheStatic.copyDescToPackage, h], ?_⟩
    by_cases h1 : ds = 1
    · have hdn : dn = 1 := by by_contra hc; exact h ⟨h1, hc⟩
      simp [CacheStatic.closePackage, CacheStatic.copyDescToPackage, h, h1, hdn, hone h1]
    · simp [CacheStatic.closePackage, CacheStatic.copyDescToPackage, h, h1]

theorem queued_closePackage (hs : cfg.strategy = .static) {ds dn : Nat} {data : List InferData}
    (hne : data ≠ []) (hdesc : ∀ it ∈ data, it.desc.isSome)
    (hle : 1 ≤ cfg.batchSize.toNat → data.length ≤ cfg.batchSize.toNat)
    (hone : ds = 1 → data.length = 1) :
    Queued cfg (CacheStatic.closePackage cfg ds dn data data.length) := by
  refine ⟨by simpa using hne, by simpa using hdesc, by simpa using hle, ?_, .inl (by simp)⟩
  rw [hs]; exact staticShape_closePackage hone

/-- The packages the static `Enqueue` publishes are well formed. -/
theorem queued_split (hs : cfg.strategy = .static) {input : Package}
    (hdesc : ∀ it ∈ input.data, it.desc.isSome) :
    ∀ p ∈ CacheStatic.split cfg input.data.length input.dataNum 0 [] 0 input.data,
      Queued cfg p := by
  intro p hp
  obtain ⟨data, rfl, hne, hle, hone, hmem⟩ := CacheStatic.mem_split_input hp
  exact queued_closePackage hs hne (fun it hit => hdesc it (hmem it hit)) hle hone

/-- Every package of the swept queue is well formed. -/
theorem queued_swept (disc : Ctrl → Bool) {c : Cache} (hc : WellFormed cfg c) :
    ∀ p ∈ (CacheBase.swept cfg disc c).1, Queued cfg p := by
  unfold CacheBase.swept
  split
  · split
    · unfold CacheBase.clearDiscard
      cases hs : cfg.strategy with
      | dynamic =>
        intro p hp
        obtain ⟨hne, hdescs, hprio, hnum, hle, hdesc⟩ :=
          CacheDynamic.mem_clearDiscard (fun q hq => (hc.queue q hq).desc) hp
        exact ⟨hne, fun it hit => (hdesc it hit).1, hle, by rw [hs]; exact ⟨hdescs, hnum⟩,
          .inr ⟨hs, hprio⟩⟩
      | static =>
        intro p hp
        exact hc.queue p (List.mem_of_mem_filter hp)
    · exact hc.queue
  · simp

/-! ## Each call keeps the invariant -/

theorem wellFormed_init : WellFormed cfg {} :=
  ⟨by simp, by simp, fun h => by simp; omega, fun _ => rfl⟩

theorem WellFormed.with_running {c : Cache} (hc : WellFormed cfg c) (b : Bool) :
    WellFormed cfg { c with running := b } :=
  ⟨hc.queue, hc.batcher_desc, hc.batcher_lt, hc.static_batcher⟩

theorem WellFormed.with_cache {c : Cache} (hc : WellFormed cfg c) {q : List Package}
    (hq : ∀ p ∈ q, Queued cfg p) : WellFormed cfg { c with cache := q } :=
  ⟨hq, hc.batcher_desc, hc.batcher_lt, hc.static_batcher⟩

theorem wellFormed_flush (hd : cfg.strategy = .dynamic) {c : Cache} (hc : WellFormed cfg c) :
    WellFormed cfg (CacheDynamic.flush cfg c) := by
  refine ⟨fun p hp => ?_, by simp, fun h => by simp; omega, by simp [hd]⟩
  rcases CacheDynamic.mem_flush hc.batcher_lt hc.batcher_desc p hp with hp | hp
  · exact hc.queue p hp
  · exact queued_of_sunk hd hp

theorem wellFormed_enqueue {c : Cache} (hc : WellFormed cfg c) {pack : Package}
    (hdesc : ∀ it ∈ pack.data, it.desc.isSome) :
    WellFormed cfg (CacheBase.enqueue cfg c pack) := by
  unfold CacheBase.enqueue
  cases hs : cfg.strategy with
  | dynamic =>
    obtain ⟨hlt, hb, hq⟩ := CacheDynamic.mem_enqueue hc.batcher_lt hc.batcher_desc hdesc
    refine ⟨fun p hp => ?_, hb, hlt, by simp [hs]⟩
    rcases hq p hp with hp | hp
    · exact hc.queue p hp
    · exact queued_of_sunk hs hp
  | static =>
    refine hc.with_cache fun p hp => ?_
    rcases List.mem_append.1 hp with hp | hp
    · exact hc.queue p hp
    · exact queued_split hs hdesc p hp

/-- Every call keeps the invariant. -/
theorem Step.wellFormed {c c' : Cache} {e : Event} (h : Step cfg c e c') (hc : WellFormed cfg c) :
    WellFormed cfg c' := by
  cases h with
  | start => exact hc.with_running true
  | stop =>
    unfold CacheBase.stop
    cases hs : cfg.strategy with
    | dynamic => exact wellFormed_flush hs (hc.with_running false)
    | static => exact hc.with_running false
  | timeout =>
    unfold CacheBase.timeout
    cases hs : cfg.strategy with
    | dynamic => exact wellFormed_flush hs hc
    | static => exact hc
  | push _ pack hdesc =>
    unfold CacheBase.push
    split
    · exact wellFormed_enqueue hc (hdesc ‹_›)
    · exact hc
  | popNull h =>
    obtain ⟨-, rfl, -⟩ := CacheBase.pop_eq_null h
    exact hc.with_cache (by simp)
  | @popPack disc _ _ _ _ h =>
    obtain ⟨q, rest, hs, -, rfl⟩ := CacheBase.pop_eq_pack h
    have hq := queued_swept disc hc
    rw [hs] at hq
    exact hc.with_cache fun p hp => hq p (List.mem_cons_of_mem _ hp)

/-- Every run keeps the invariant. -/
theorem Run.wellFormed {evs : List Event} {c : Cache} (h : Run cfg evs c) : WellFormed cfg c := by
  induction h with
  | nil => exact wellFormed_init
  | snoc _ hstep ih => exact hstep.wellFormed ih

/-! ## Sample caches

Small caches the witnesses below run: a static and a dynamic cache of batch size 2 whose
`Priority::Get` is the identity and whose fresh packages carry priority 0, and a request of three
items. -/

/-- A static cache of batch size 2. -/
def sampleStatic : CacheConfig :=
  { strategy := .static, batchSize := 2, getPriority := id, freshPriority := 0 }

/-- A dynamic cache of batch size 2. -/
def sampleDynamic : CacheConfig :=
  { strategy := .dynamic, batchSize := 2, getPriority := id, freshPriority := 0 }

/-- Item `n` of request `1`. -/
def sampleItem (n : Nat) : InferData := ⟨n, some ⟨⟨1, 1⟩, n⟩⟩

/-- Request `1`, three items. -/
def samplePack : Package :=
  { data := [sampleItem 0, sampleItem 1, sampleItem 2], priority := 0, dataNum := 3 }

/-- Request `2`, one item. -/
def sampleOther : Package :=
  { data := [⟨7, some ⟨⟨2, 2⟩, 0⟩⟩], priority := 0, dataNum := 1 }

/-- Request `3`: one payload standing for three items, a continuous package. -/
def sampleContinuous : Package :=
  { data := [⟨9, some ⟨⟨3, 3⟩, 0⟩⟩], priority := 0, dataNum := 3 }

/-- A started cache that accepted `samplePack`. -/
theorem Run.sample (cfg : CacheConfig) :
    Run cfg [.start, .push samplePack true]
      (CacheBase.enqueue cfg (CacheBase.start {}) samplePack) :=
  (Run.nil.snoc (Step.start _)).snoc (Step.push _ samplePack (by decide))

/-- A started cache that accepted `sampleContinuous`. -/
theorem Run.continuous (cfg : CacheConfig) :
    Run cfg [.start, .push sampleContinuous true]
      (CacheBase.enqueue cfg (CacheBase.start {}) sampleContinuous) :=
  (Run.nil.snoc (Step.start _)).snoc (Step.push _ sampleContinuous (by decide))

end InferServer
end EasyDK
