import EasyDK.InferServer.Order
/-!
# Discards at Pop

`Pop` checks only its head package, and `CacheStatic::ClearDiscard` checks only the first item of
each package.  Neither lets a discarded item through (`pop_descs_live`): the dynamic sweep keeps
live items only, and a static package holds the items of a single request, since `Enqueue`
splits one pushed package and `Session::Send` pushes one request per package.

`pop_null_iff` says when `Pop` returns null: on an empty stopped cache, and whenever the sweep
its head package triggers leaves nothing, whether the cache runs or not; a running cache's
`Pop` then returns null too (`pop_null_running`), which ends the executor's dispatch loop as a
stop would.  Otherwise a stopped cache returns a package.
-/

namespace EasyDK
namespace InferServer

variable {cfg : CacheConfig}

/-! ## Returned packages hold no discarded item -/

/-- All items of the package belong to one request. -/
def OneRequest (p : Package) : Prop := ∃ ctrl, ∀ it ∈ p.data, it.ctrl? = some ctrl

/-- The static sweep only keeps packages. -/
theorem swept_subset_static (hs : cfg.strategy = .static) (disc : Ctrl → Bool) (c : Cache) :
    ∀ p ∈ (CacheBase.swept cfg disc c).1, p ∈ c.cache := by
  unfold CacheBase.swept CacheBase.clearDiscard
  split
  · split
    · rw [hs]; exact fun p hp => List.mem_of_mem_filter hp
    · exact fun p hp => hp
  · simp

/-- What every package the static split publishes satisfies holds of every package of a static
queue: the sweep and `Pop` only take packages out. -/
theorem Run.static_queue (hs : cfg.strategy = .static) {P : Package → Prop} {evs : List Event}
    {c : Cache} (h : Run cfg evs c)
    (hsplit : ∀ pack acc, Event.push pack acc ∈ evs →
      ∀ p ∈ CacheStatic.split cfg pack.data.length pack.dataNum 0 [] 0 pack.data, P p) :
    ∀ p ∈ c.cache, P p := by
  induction h with
  | nil => simp
  | @snoc evs c c' e hrun hstep ih =>
    have ih := ih fun pack acc he => hsplit pack acc (List.mem_append_left _ he)
    cases hstep with
    | start => exact ih
    | stop => simpa [CacheBase.stop, hs] using ih
    | timeout => simpa [CacheBase.timeout, hs] using ih
    | push _ pack _ =>
      unfold CacheBase.push
      split
      · simp only [CacheBase.enqueue, hs, CacheStatic.enqueue, List.mem_append]
        rintro p (hp | hp)
        · exact ih p hp
        · exact hsplit pack _ (List.mem_append_right _ (List.mem_singleton_self _)) p hp
      · exact ih
    | popNull h =>
      obtain ⟨-, rfl, -⟩ := CacheBase.pop_eq_null h
      simp
    | @popPack disc _ _ _ _ h =>
      obtain ⟨q, rest, hsw, -, rfl⟩ := CacheBase.pop_eq_pack h
      have hsub := swept_subset_static hs disc c
      rw [hsw] at hsub
      exact fun p hp => ih p (hsub p (List.mem_cons_of_mem _ hp))

/-- When every push holds one request, so does every package of a static queue. -/
theorem Run.oneRequest (hs : cfg.strategy = .static) {evs : List Event} {c : Cache}
    (h : Run cfg evs c) (hone : ∀ pack acc, Event.push pack acc ∈ evs → OneRequest pack) :
    ∀ p ∈ c.cache, OneRequest p :=
  h.static_queue hs fun pack acc he p hp => by
    obtain ⟨ctrl, hctrl⟩ := hone pack acc he
    obtain ⟨data, rfl, -, -, -, hmem⟩ := CacheStatic.mem_split_input hp
    exact ⟨ctrl, fun it hit => hctrl it (hmem it (by simpa using hit))⟩

/-- A prepared queued package whose items are all live names no discarded request. -/
theorem Queued.prepared_live {q : Package} (hq : Queued cfg q) {disc : Ctrl → Bool}
    (hlive : ∀ it ∈ q.data, it.discarded disc = false) :
    ∀ t, some t ∈ (CacheBase.preparePackage cfg q).descs → disc t.ctrl = false := by
  intro t ht
  rcases hq.prepared_descs with ⟨hd, -⟩ | ⟨-, it, hit, -, hd⟩
  · rw [hd, List.mem_map] at ht
    obtain ⟨it, hmem, hdesc⟩ := ht
    simpa [InferData.discarded, hdesc] using hlive it hmem
  · rw [hd, List.mem_map] at ht
    obtain ⟨i, -, hi⟩ := ht
    cases hc : it.ctrl? with
    | none => simp [hc] at hi
    | some c =>
      simp only [hc, Option.map_some', Option.some.injEq] at hi
      subst hi
      simpa [InferData.discarded_of_ctrl? hc] using hlive it (by simp [hit])

/-- The front package of the swept queue holds no discarded item: a head that triggers no
sweep holds none, the dynamic sweep keeps live items only, and the static sweep keeps packages
whose first item is live, which speaks for every item of its one request. -/
theorem swept_front_live {c : Cache} {disc : Ctrl → Bool} (hwf : WellFormed cfg c)
    (hone : cfg.strategy = .static → ∀ p ∈ c.cache, OneRequest p) {q : Package}
    {rest : List Package} {r : List Report} (hsw : CacheBase.swept cfg disc c = (q :: rest, r)) :
    ∀ it ∈ q.data, it.discarded disc = false := by
  have hq : Queued cfg q := queued_swept disc hwf q (by rw [hsw]; simp)
  intro it hit
  rcases CacheBase.swept_cases cfg disc c with
    ⟨head, tail, hc, hnd, hs⟩ | ⟨head, tail, hc, -, hs⟩ | ⟨-, hs⟩ <;> rw [hs] at hsw
  · rw [hc] at hsw
    simp only [Prod.mk.injEq, List.cons.injEq] at hsw
    obtain ⟨⟨rfl, -⟩, -⟩ := hsw
    simp only [CacheBase.hasDiscarded, List.any_eq_false, Bool.not_eq_true] at hnd
    exact hnd it hit
  · have hqs : q ∈ (CacheBase.clearDiscard cfg disc c.cache).1 := by rw [hsw]; simp
    unfold CacheBase.clearDiscard at hqs
    cases hst : cfg.strategy with
    | dynamic =>
      rw [hst] at hqs
      exact ((CacheDynamic.mem_clearDiscard (B := fun _ => True) (by simp) hqs).2.2.2.2.2
        it hit).2
    | static =>
      rw [hst] at hqs
      obtain ⟨hmem, hhead⟩ := List.mem_filter.1 hqs
      obtain ⟨ctrl, hctrl⟩ := hone hst q hmem
      obtain ⟨it0, tl, hdata⟩ := List.exists_cons_of_ne_nil hq.ne_nil
      simp only [CacheStatic.headDiscarded, hdata, Bool.not_eq_true'] at hhead
      rw [InferData.discarded_of_ctrl? (hctrl it hit)]
      rwa [InferData.discarded_of_ctrl? (hctrl it0 (by simp [hdata]))] at hhead
  · simp at hsw

/-- Discarded items never reach stage 0: a package `Pop` returns names no request that is
discarded when it runs. -/
theorem pop_descs_live {evs : List Event} {c c' : Cache} {disc : Ctrl → Bool} {p : Package}
    {r : List Report} (h : Run cfg evs c)
    (hone : ∀ pack acc, Event.push pack acc ∈ evs → ∃ ctrl, ∀ it ∈ pack.data, it.ctrl? = some ctrl)
    (hp : CacheBase.pop cfg disc c = .pack p c' r) :
    ∀ t, some t ∈ p.descs → disc t.ctrl = false := by
  obtain ⟨q, rest, hsw, rfl, -⟩ := CacheBase.pop_eq_pack hp
  have hq : Queued cfg q := queued_swept disc h.wellFormed q (by rw [hsw]; simp)
  exact hq.prepared_live (swept_front_live h.wellFormed (fun hs => h.oneRequest hs hone) hsw)

/-- `pop_descs_live` on a static run holding requests 1 and 2: request 1 is discarded, and `Pop`
sweeps its two packages to return request 2's. -/
theorem pop_descs_live_sample :
    ∃ evs c c' p r, Run sampleStatic evs c ∧
      (∀ pack acc, Event.push pack acc ∈ evs → ∃ ctrl, ∀ it ∈ pack.data, it.ctrl? = some ctrl) ∧
      CacheBase.pop sampleStatic (fun c => c.id == 1) c = .pack p c' r ∧ p.descs ≠ [] ∧
      ∀ t, some t ∈ p.descs → (t.ctrl.id == 1) = false := by
  have h : Run sampleStatic [.start, .push samplePack true, .push sampleOther true] _ :=
    (Run.sample sampleStatic).snoc (Step.push _ sampleOther (by decide))
  have hone : ∀ pack acc, Event.push pack acc ∈
      ([.start, .push samplePack true, .push sampleOther true] : List Event) →
      ∃ ctrl, ∀ it ∈ pack.data, it.ctrl? = some ctrl := by
    intro pack acc hmem
    simp only [List.mem_cons, List.mem_singleton, reduceCtorEq, Event.push.injEq, false_or,
      List.not_mem_nil, or_false] at hmem
    rcases hmem with ⟨rfl, -⟩ | ⟨rfl, -⟩
    · exact ⟨⟨1, 1⟩, by decide⟩
    · exact ⟨⟨2, 2⟩, by decide⟩
  exact ⟨_, _, _, _, _, h, hone, rfl, by decide,
    @pop_descs_live sampleStatic _ _ _ (fun c => c.id == 1) _ _ h hone rfl⟩

/-! ## When `Pop` returns null -/

/-- A queued package the sweep removes: every item of it, for the dynamic sweep, which keeps
live items; its first item, for the static one. -/
def Dropped (cfg : CacheConfig) (disc : Ctrl → Bool) (p : Package) : Prop :=
  match cfg.strategy with
  | .dynamic => ∀ it ∈ p.data, it.discarded disc = true
  | .static => CacheStatic.headDiscarded disc p = true

/-- The sweep leaves nothing exactly when it drops every package. -/
theorem clearDiscard_eq_nil {disc : Ctrl → Bool} {queue : List Package} :
    (CacheBase.clearDiscard cfg disc queue).1 = [] ↔ ∀ p ∈ queue, Dropped cfg disc p := by
  unfold CacheBase.clearDiscard Dropped
  cases cfg.strategy with
  | dynamic =>
    have hitems := @CacheDynamic.clearDiscard_items cfg disc queue
    constructor
    · intro h p hp it hit
      rw [h, List.flatMap_nil, eq_comm, List.filter_eq_nil_iff] at hitems
      simpa using hitems it (List.mem_flatMap.2 ⟨p, hp, hit⟩)
    · intro h
      have : (queue.flatMap Package.data).filter (fun it => !it.discarded disc) = [] := by
        rw [List.filter_eq_nil_iff]
        intro it hit
        obtain ⟨p, hp, hit⟩ := List.mem_flatMap.1 hit
        simp [h p hp it hit]
      simp only [CacheDynamic.clearDiscard, this]
      rfl
  | static => simp [CacheStatic.clearDiscard, List.filter_eq_nil_iff]

/-- A stopped cache never makes `Pop` wait: it returns a package or null. -/
theorem pop_of_stopped (disc : Ctrl → Bool) {c : Cache} (hr : c.running = false) :
    (∃ c' r, CacheBase.pop cfg disc c = .null c' r) ∨
      ∃ p c' r, CacheBase.pop cfg disc c = .pack p c' r := by
  rw [CacheBase.pop_eq]
  rcases CacheBase.swept cfg disc c with ⟨_ | ⟨q, rest⟩, r⟩ <;> simp [hr]

/-- `Pop` returns null exactly on an empty stopped cache, and when its head package holds a
discarded item and the sweep drops every package, whether the cache runs or not; otherwise a
stopped cache returns a package. -/
theorem pop_null_iff (disc : Ctrl → Bool) (c : Cache) :
    ((∃ c' r, CacheBase.pop cfg disc c = .null c' r) ↔
      (c.cache = [] ∧ c.running = false) ∨
        ∃ head tail, c.cache = head :: tail ∧ CacheBase.hasDiscarded disc head = true ∧
          ∀ p ∈ c.cache, Dropped cfg disc p) ∧
    (c.running = false → (∃ c' r, CacheBase.pop cfg disc c = .null c' r) ∨
      ∃ p c' r, CacheBase.pop cfg disc c = .pack p c' r) := by
  refine ⟨?_, pop_of_stopped disc⟩
  rw [CacheBase.pop_eq]
  rcases CacheBase.swept_cases cfg disc c with ⟨head, tail, hc, hnd, hs⟩ |
    ⟨head, tail, hc, hd, hs⟩ | ⟨hc, hs⟩ <;> rw [hs]
  · rw [hc]; simp [hnd]
  · rw [← clearDiscard_eq_nil]
    rcases hcd : CacheBase.clearDiscard cfg disc c.cache with ⟨_ | ⟨q, rest⟩, r⟩ <;>
      simp [hc, hd]
  · cases hr : c.running <;> simp [hc]

/-- `Pop` returns null from a running cache: a started static cache holding `samplePack`,
every request discarded. -/
theorem pop_null_running :
    ∃ c' r, CacheBase.pop sampleStatic (fun _ => true)
        (CacheBase.enqueue sampleStatic (CacheBase.start {}) samplePack) = .null c' r ∧
      c'.running = true :=
  ⟨_, _, rfl, rfl⟩

end InferServer
end EasyDK
