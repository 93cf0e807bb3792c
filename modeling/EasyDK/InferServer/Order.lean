import EasyDK.InferServer.Run
/-!
# Order and provenance of what `Pop` returns

Over a run, the items `Pop` has returned followed by the items still held form a subsequence of
the pushed items (`Run.order`).  The statement is generic in how a returned package is read back
(`V`) and how an item is compared (`F`): read as its items, with descriptors erased, it says that
no item overtakes another (`pop_order`); read through its descriptors, it says that every
returned descriptor is the one its item was pushed with.  Both readings need only that
`PreparePackage` of a queued package reads back to a subsequence of its items.

`Run.popped` says what every returned package is: a well-formed queued package, prepared, whose
items were all pushed.
-/

namespace EasyDK
namespace InferServer

variable {cfg : CacheConfig}

/-- The items the accepted pushes of a run handed over, in order. -/
def pushedItems (evs : List Event) : List InferData := evs.flatMap Event.pushed

/-- The packages `Pop` returned over a run, in order. -/
def poppedPackages (evs : List Event) : List Package := evs.flatMap Event.popped

@[simp] theorem pushedItems_nil : pushedItems [] = [] := rfl

@[simp] theorem poppedPackages_nil : poppedPackages [] = [] := rfl

@[simp] theorem pushedItems_snoc (evs : List Event) (e : Event) :
    pushedItems (evs ++ [e]) = pushedItems evs ++ e.pushed := by
  simp [pushedItems]

@[simp] theorem poppedPackages_snoc (evs : List Event) (e : Event) :
    poppedPackages (evs ++ [e]) = poppedPackages evs ++ e.popped := by
  simp [poppedPackages]

theorem filter_flatMap_sublist {α β : Type} (f : α → Bool) (g : α → List β) :
    ∀ l : List α, List.Sublist ((l.filter f).flatMap g) (l.flatMap g)
  | [] => .slnil
  | a :: l => by
    by_cases h : f a = true
    · simpa [List.filter_cons, h] using (filter_flatMap_sublist f g l).append_left (g a)
    · simpa [List.filter_cons, h] using (filter_flatMap_sublist f g l).trans
        (List.sublist_append_right (g a) _)

/-- The sweep only drops items, and keeps the others in order. -/
theorem swept_sublist (disc : Ctrl → Bool) (c : Cache) :
    List.Sublist ((CacheBase.swept cfg disc c).1.flatMap Package.data)
      (c.cache.flatMap Package.data) := by
  unfold CacheBase.swept
  split
  · split
    · unfold CacheBase.clearDiscard
      cases cfg.strategy with
      | dynamic => rw [CacheDynamic.clearDiscard_items]; exact List.filter_sublist _
      | static => exact filter_flatMap_sublist _ _ _
    · exact List.Sublist.refl _
  · simp

/-- A push to a running cache appends its items to those the cache holds. -/
theorem enqueue_items {c : Cache} (hc : WellFormed cfg c) (pack : Package) :
    (CacheBase.enqueue cfg c pack).items = c.items ++ pack.data := by
  unfold CacheBase.enqueue
  cases hs : cfg.strategy with
  | dynamic => exact CacheDynamic.enqueue_items c pack.data
  | static =>
    simp [CacheStatic.enqueue, Cache.items, CacheStatic.split_items, hc.static_batcher hs]

theorem stop_items (c : Cache) : (CacheBase.stop cfg c).items = c.items := by
  unfold CacheBase.stop
  cases cfg.strategy with
  | dynamic => exact CacheDynamic.flush_items _
  | static => rfl

theorem timeout_items (c : Cache) : (CacheBase.timeout cfg c).items = c.items := by
  unfold CacheBase.timeout
  cases cfg.strategy with
  | dynamic => exact CacheDynamic.flush_items _
  | static => rfl

section Order

variable (V : Package → List InferData) (F : InferData → InferData)
  (hV : ∀ q, Queued cfg q → List.Sublist (V (CacheBase.preparePackage cfg q)) (q.data.map F))
include hV

/-- One call keeps the returned packages, read through `V`, and then the held items a
subsequence of the pushed items. -/
theorem Step.order {evs : List Event} {c c' : Cache} {e : Event} (hc : WellFormed cfg c)
    (h : Step cfg c e c')
    (ih : List.Sublist ((poppedPackages evs).flatMap V ++ c.items.map F)
      ((pushedItems evs).map F)) :
    List.Sublist ((poppedPackages (evs ++ [e])).flatMap V ++ c'.items.map F)
      ((pushedItems (evs ++ [e])).map F) := by
  cases h with
  | start => simpa [Event.pushed, Event.popped, CacheBase.start, Cache.items] using ih
  | stop => simpa [Event.pushed, Event.popped, stop_items] using ih
  | timeout => simpa [Event.pushed, Event.popped, timeout_items] using ih
  | push _ pack hdesc =>
    unfold CacheBase.push
    split
    · simpa [Event.pushed, Event.popped, enqueue_items hc] using ih.append_right (pack.data.map F)
    · simpa [Event.pushed, Event.popped] using ih
  | popNull h =>
    obtain ⟨-, rfl, -⟩ := CacheBase.pop_eq_null h
    refine List.Sublist.trans ?_ (by simpa [Event.pushed] using ih)
    simp only [Event.popped, poppedPackages_snoc, List.append_nil, Cache.items, List.map_append]
    exact ((List.sublist_append_right _ _).append_left _)
  | @popPack disc _ _ _ _ h =>
    obtain ⟨q, rest, hs, rfl, rfl⟩ := CacheBase.pop_eq_pack h
    have hq : Queued cfg q := queued_swept disc hc q (by rw [hs]; simp)
    have hsub := @swept_sublist cfg disc c
    rw [hs] at hsub
    have key : List.Sublist
        (V (CacheBase.preparePackage cfg q) ++ (rest.flatMap Package.data ++ c.batcher).map F)
        ((c.cache.flatMap Package.data ++ c.batcher).map F) := by
      have h1 := (hV q hq).append_right ((rest.flatMap Package.data ++ c.batcher).map F)
      have h2 := (hsub.append_right c.batcher).map F
      simp only [List.flatMap_cons, List.map_append, List.append_assoc] at h1 h2 ⊢
      exact h1.trans h2
    refine List.Sublist.trans ?_ (by simpa [Event.pushed] using ih)
    simpa [Event.popped, Cache.items, List.append_assoc] using
      key.append_left ((poppedPackages evs).flatMap V)

/-- Every run keeps the returned packages, read through `V`, and then the held items a
subsequence of the pushed items. -/
theorem Run.order {evs : List Event} {c : Cache} (h : Run cfg evs c) :
    List.Sublist ((poppedPackages evs).flatMap V ++ c.items.map F) ((pushedItems evs).map F) := by
  induction h with
  | nil => simp [Cache.items]
  | snoc hrun hstep ih => exact hstep.order V F hV hrun.wellFormed ih

end Order

/-! ## What `Pop` returns -/

/-- A returned package read back as the items it was pushed with: item `i` with `descs[i]`.  The
descriptors of a continuous package (`data_num` differing from its size) are fresh, so it reads
back as nothing. -/
def Package.restore (p : Package) : List InferData :=
  if p.dataNum = p.data.length then p.data.zipWith (fun it d => { it with desc := d }) p.descs
  else []

theorem zipWith_erase_desc : ∀ l : List InferData,
    (l.map InferData.erase).zipWith (fun it d => { it with desc := d }) (l.map InferData.desc) = l
  | [] => rfl
  | it :: l => by simp [zipWith_erase_desc l, InferData.erase]

@[simp] theorem preparePackage_data (q : Package) :
    (CacheBase.preparePackage cfg q).data = q.data.map InferData.erase := by
  unfold CacheBase.preparePackage; cases cfg.strategy <;> rfl

@[simp] theorem preparePackage_dataNum (q : Package) :
    (CacheBase.preparePackage cfg q).dataNum = q.dataNum := by
  unfold CacheBase.preparePackage; cases cfg.strategy <;> rfl

@[simp] theorem preparePackage_priority (q : Package) :
    (CacheBase.preparePackage cfg q).priority = q.priority := by
  unfold CacheBase.preparePackage; cases cfg.strategy <;> rfl

/-- The descriptors of a prepared queued package: its items' own, or a continuous package's
fresh ones. -/
theorem Queued.prepared_descs {q : Package} (hq : Queued cfg q) :
    ((CacheBase.preparePackage cfg q).descs = q.data.map InferData.desc ∧
        q.dataNum = q.data.length) ∨
      (cfg.strategy = .static ∧ ∃ it, q.data = [it] ∧ q.dataNum ≠ 1 ∧
        (CacheBase.preparePackage cfg q).descs =
          (List.range q.dataNum).map fun i => it.ctrl?.map fun c => ⟨c, i⟩) := by
  have hshape := hq.shape
  unfold CacheBase.preparePackage
  cases hs : cfg.strategy with
  | dynamic =>
    rw [hs] at hshape
    exact .inl ⟨by simp [CacheDynamic.preparePackage, CacheBase.moveDescToPackage, hshape.1],
      hshape.2⟩
  | static =>
    rw [hs] at hshape
    rcases hshape with h | ⟨it, hit, hn, hd⟩
    · exact .inl h
    · exact .inr ⟨rfl, it, hit, hn, hd⟩

/-- A prepared queued package reads back as its items. -/
theorem Queued.restore_prepared {q : Package} (hq : Queued cfg q) :
    List.Sublist (CacheBase.preparePackage cfg q).restore q.data := by
  rcases hq.prepared_descs with ⟨hd, hn⟩ | ⟨-, it, hit, hn, -⟩
  · simp [Package.restore, hd, hn, zipWith_erase_desc]
  · simp [Package.restore, hit, hn]

/-- Every package `Pop` returned is a well-formed queued package, prepared, all of whose items
were pushed. -/
theorem Run.popped {evs : List Event} {c : Cache} (h : Run cfg evs c) :
    ∀ p ∈ poppedPackages evs, ∃ q, Queued cfg q ∧ p = CacheBase.preparePackage cfg q ∧
      ∀ it ∈ q.data, it ∈ pushedItems evs := by
  induction h with
  | nil => simp
  | @snoc evs c c' e hrun hstep ih =>
    intro p hp
    rw [poppedPackages_snoc, List.mem_append] at hp
    rcases hp with hp | hp
    · obtain ⟨q, hq, rfl, hmem⟩ := ih p hp
      exact ⟨q, hq, rfl, fun it hit => by simp [hmem it hit]⟩
    · cases hstep with
      | @popPack disc _ _ _ _ h =>
        simp only [Event.popped, List.mem_singleton] at hp
        subst hp
        obtain ⟨q, rest, hs, rfl, -⟩ := CacheBase.pop_eq_pack h
        have hq := queued_swept disc hrun.wellFormed q (by rw [hs]; simp)
        have held := (Run.order (fun _ => []) id (fun _ _ => by simp) hrun).subset
        have hsub := (@swept_sublist cfg disc c).subset
        rw [hs] at hsub
        refine ⟨q, hq, rfl, fun it hit => ?_⟩
        have h1 : it ∈ (q :: rest).flatMap Package.data := by
          rw [List.flatMap_cons]; exact List.mem_append_left _ hit
        have h2 : it ∈ c.items := List.mem_append_left _ (hsub h1)
        rw [pushedItems_snoc]
        exact List.mem_append_left _
          (by simpa using held (List.mem_append_right _ (by simpa using h2)))
      | _ => simp [Event.popped] at hp

/-- The returned packages, read back through their descriptors, are a subsequence of the pushed
items. -/
theorem Run.restore_sublist {evs : List Event} {c : Cache} (h : Run cfg evs c) :
    List.Sublist ((poppedPackages evs).flatMap Package.restore) (pushedItems evs) := by
  simpa using (List.sublist_append_left _ _).trans
    (Run.order Package.restore id (fun _ hq => by simpa using hq.restore_prepared) h)

/-- Cache order preservation: the items `Pop` returns, in order, are a subsequence of the pushed
items, and so are the returned packages read back through their descriptors. -/
theorem pop_order {evs : List Event} {c : Cache} (h : Run cfg evs c) :
    List.Sublist ((poppedPackages evs).flatMap Package.data)
        ((pushedItems evs).map InferData.erase) ∧
      List.Sublist ((poppedPackages evs).flatMap Package.restore) (pushedItems evs) :=
  ⟨(List.sublist_append_left _ _).trans
    (Run.order Package.data InferData.erase (fun q _ => by simp) h), h.restore_sublist⟩

/-- `pop_order` on a static run that returns a package. -/
theorem pop_order_sample :
    ∃ evs c, Run sampleStatic evs c ∧ poppedPackages evs ≠ [] ∧
      List.Sublist ((poppedPackages evs).flatMap Package.data)
        ((pushedItems evs).map InferData.erase) ∧
      List.Sublist ((poppedPackages evs).flatMap Package.restore) (pushedItems evs) := by
  have h := (Run.sample sampleStatic).snoc (@Step.popPack _ (fun _ => false) _ _ _ _ rfl)
  exact ⟨_, _, h, by decide, pop_order h⟩

end InferServer
end EasyDK
