import EasyDK.InferServer.Wakeup
/-!
# Who sleeps in `Pop`

The dynamic cache's sink calls `notify_all` after each batch it queues, so the lost wake-up of the
static cache (`static_cache_jams`) cannot happen to it: in every state reached from a fresh
cache, a consumer asleep in `Pop` sleeps on an empty queue (`dynamic_consumer_sleeps_on_empty`).
The invariant is `ConsumersServed`, kept by every step of every thread (`ConsumersServed.step`).

The static cache's `notify_one` after a queued package can only be lost to a producer asleep in
`WaitIfFull`.  Along a run of either strategy where no producer sleeps, a queued package always
has a consumer awake for it, or no consumer asleep at all (`queued_package_wakes_consumer`): the
invariant is `ConsumerAwake`.

`CacheDynamic::Stop` is not one step, though: `CacheBase::Stop` clears `running_` and wakes every
sleeper, and only then does `batcher_->Emit()` queue the partial batch.  A consumer woken in
between finds a stopped, empty cache, and its `Pop` returns null, which ends the executor's loop;
the batch is queued after it (`dynamic_stop_strands`).  The two parts make the stop step of
`MStep` (`emit_halt`).
-/

namespace EasyDK
namespace InferServer

variable {cfg : CacheConfig} {cap : Nat}

/-! ## What `Pop` and the dynamic calls do to the queue -/

theorem CacheBase.cache_of_pop_waits {disc : Ctrl → Bool} {c : Cache}
    (h : CacheBase.pop cfg disc c = .waits) : c.cache = [] := by
  unfold CacheBase.pop at h
  split at h
  · assumption
  · split at h
    · split at h <;> cases h
    · cases h

theorem CacheBase.cache_ne_nil_of_pop_pack {disc : Ctrl → Bool} {c c' : Cache} {p : Package}
    {r : List Report} (h : CacheBase.pop cfg disc c = .pack p c' r) : c.cache ≠ [] := by
  intro he
  cases hr : c.running <;> simp [CacheBase.pop, he, hr] at h

theorem CacheDynamic.cache_prefix_enqueue :
    ∀ (c : Cache) (items : List InferData), c.cache <+: (CacheDynamic.enqueue cfg c items).cache
  | _, [] => List.prefix_refl _
  | c, it :: rest => by
    have h := cache_prefix_enqueue (publish cfg c (Batcher.addItem cfg.batchSize.toNat c.batcher it)) rest
    exact (List.prefix_append _ _).trans h

theorem CacheBase.cache_prefix_push (c : Cache) (pack : Package) :
    c.cache <+: (CacheBase.push cfg c pack).2.cache := by
  unfold CacheBase.push CacheBase.enqueue
  split
  · split
    · exact CacheDynamic.cache_prefix_enqueue c pack.data
    · exact List.prefix_append c.cache _
  · exact List.prefix_refl _

theorem CacheBase.cache_prefix_timeout (c : Cache) : c.cache <+: (CacheBase.timeout cfg c).cache := by
  unfold CacheBase.timeout
  split
  · exact List.prefix_append c.cache _
  · exact List.prefix_refl _

/-- Nothing queued, nobody woken: `Notified` of no package is no notification. -/
theorem Notified.eq_of_zero {m m' : Monitor} (h : Notified cfg 0 m m') : m' = m := by
  unfold Notified at h
  split at h
  · cases h; rfl
  · simpa using h

/-- A call that only appends to the queue and then notifies for what it queued: either nothing
was queued and nobody woken, or something was. -/
theorem Notified.zero_or_pos {k : Nat} {m m₀ m' : Monitor} (hq : Notified cfg k m₀ m')
    (hk : k = m₀.cache.cache.length - m.cache.cache.length)
    (hpre : m.cache.cache <+: m₀.cache.cache) :
    (m' = m₀ ∧ m₀.cache.cache = m.cache.cache) ∨ 0 < k := by
  subst hk
  by_cases h0 : m₀.cache.cache.length - m.cache.cache.length = 0
  · rw [h0] at hq
    exact .inl ⟨hq.eq_of_zero,
      (hpre.eq_of_length (by have := hpre.length_le; omega)).symm⟩
  · exact .inr (Nat.pos_of_ne_zero h0)

/-! ## No consumer sleeps on a package -/

/-- No consumer sleeps on a cache that holds a package. -/
def ConsumersServed (m : Monitor) : Prop := m.cache.cache ≠ [] → ∀ n, .consumer n ∉ m.waiting

namespace ConsumersServed

theorem notifyAll (m : Monitor) : ConsumersServed m.notifyAll := fun _ _ h => by
  simp [Monitor.notifyAll] at h

/-- A step that queues nothing and puts no consumer to sleep keeps the invariant. -/
theorem of_le {m m' : Monitor} (hi : ConsumersServed m)
    (hc : m'.cache.cache ≠ [] → m.cache.cache ≠ [])
    (hw : ∀ n, .consumer n ∈ m'.waiting → .consumer n ∈ m.waiting) : ConsumersServed m' :=
  fun h n hn => hi (hc h) n (hw n hn)

theorem of_notifyOne {m m' : Monitor} (hi : ConsumersServed m) (h : NotifyOne m m') :
    ConsumersServed m' := by
  cases h with
  | idle => exact hi
  | wake => exact hi.of_le id fun _ hn => List.mem_of_mem_erase hn

/-- After a dynamic call that only appends to the queue, the `notify_all` of the sink wakes every
sleeper, unless nothing was queued. -/
theorem of_notified (hd : cfg.strategy = .dynamic) {k : Nat} {m m₀ m' : Monitor}
    (hi : ConsumersServed m) (hq : Notified cfg k m₀ m')
    (hk : k = m₀.cache.cache.length - m.cache.cache.length) (hw : m₀.waiting = m.waiting)
    (hpre : m.cache.cache <+: m₀.cache.cache) : ConsumersServed m' := by
  rcases Notified.zero_or_pos hq hk hpre with ⟨rfl, heq⟩ | hk
  · exact hi.of_le (fun h => heq ▸ h) fun n hn => hw ▸ hn
  · unfold Notified at hq
    simp only [hd, Nat.pos_iff_ne_zero.1 hk, if_false] at hq
    exact hq ▸ notifyAll m₀

theorem waitIfFull {m : Monitor} (hi : ConsumersServed m) (n : Nat) :
    ConsumersServed (m.waitIfFull cap n) := by
  unfold Monitor.waitIfFull
  split
  · exact hi
  · exact hi.of_le id fun k hk => by simpa using hk

theorem popBody {disc : Ctrl → Bool} {n : Nat} {m m' : Monitor} (h : PopBody cfg disc n m m')
    (hi : ConsumersServed m) : ConsumersServed m' := by
  cases h with
  | waits h => exact fun hne => absurd (CacheBase.cache_of_pop_waits h) hne
  | null h => exact fun hne => (hne (by rw [(CacheBase.pop_eq_null h).2.1])).elim
  | pack h hn =>
    refine of_notifyOne ?_ hn
    exact hi.of_le (fun _ => CacheBase.cache_ne_nil_of_pop_pack h) fun _ => id

/-- Every step of a dynamic cache and of its threads keeps the invariant. -/
theorem step (hd : cfg.strategy = .dynamic) {a : Actor} {m m' : Monitor} (hi : ConsumersServed m)
    (h : MStep cfg cap a m m') : ConsumersServed m' := by
  cases h with
  | waitIfFull => exact hi.waitIfFull _
  | giveUp => exact hi.of_le id fun _ hn => List.mem_of_mem_erase hn
  | recheckProducer => refine waitIfFull ?_ _; exact hi
  | push _ _ hq => exact hi.of_notified hd hq rfl rfl (CacheBase.cache_prefix_push _ _)
  | pop _ hb | recheckConsumer _ hb => exact popBody hb hi
  | start => exact hi
  | stop => exact notifyAll _
  | timeout hq => exact hi.of_notified hd hq rfl rfl (CacheBase.cache_prefix_timeout _)

/-- Along every run of a dynamic cache and its threads. -/
theorem run (hd : cfg.strategy = .dynamic) {m m' : Monitor} (h : MRun cfg cap m m')
    (hi : ConsumersServed m) : ConsumersServed m' := by
  induction h with
  | refl => exact hi
  | tail _ hs ih => obtain ⟨_, hs⟩ := hs; exact ih.step hd hs

end ConsumersServed

/-- In a dynamic cache, whatever its threads and calls have done since it was created, a consumer
asleep in `Pop` sleeps on an empty queue: no package waits while a consumer sleeps. -/
theorem dynamic_consumer_sleeps_on_empty (hd : cfg.strategy = .dynamic) {m : Monitor}
    (h : MRun cfg cap {} m) {n : Nat} (hn : .consumer n ∈ m.waiting) : m.cache.cache = [] := by
  by_contra hne
  exact ConsumersServed.run hd h (fun h => absurd rfl h) hne n hn

/-- A started dynamic cache whose consumer 0 went to sleep in `Pop`. -/
def sleepyDynamic : Monitor := { cache := { running := true }, waiting := [.consumer 0] }

theorem dynamic_consumer_sleeps_on_empty_sample :
    MRun sampleDynamic 1 {} sleepyDynamic ∧ .consumer 0 ∈ sleepyDynamic.waiting ∧
      sleepyDynamic.cache.cache = [] :=
  have hrun : MRun sampleDynamic 1 {} sleepyDynamic :=
    .tail (.single ⟨_, .start _⟩) ⟨_, @MStep.pop sampleDynamic 1 _ _ 0 (fun _ => false)
      (by decide) (.waits rfl)⟩
  ⟨hrun, by decide, dynamic_consumer_sleeps_on_empty rfl hrun (n := 0) (by decide)⟩

/-! ## The lost wake-up needs a sleeping producer -/

/-- No producer sleeps in `WaitIfFull`. -/
def NoProducerAsleep (m : Monitor) : Prop := ∀ k, .producer k ∉ m.waiting

/-- No consumer asleep, or one awake and on its way back to the cache. -/
def Attended (m : Monitor) : Prop := (∀ n, .consumer n ∉ m.waiting) ∨ ∃ n, .consumer n ∈ m.woken

/-- A queued package is attended. -/
def ConsumerAwake (m : Monitor) : Prop := m.cache.cache ≠ [] → Attended m

theorem Attended.of_notifyOne {m m' : Monitor} (h : NotifyOne m m') (ha : Attended m) :
    Attended m' := by
  cases h with
  | idle => exact ha
  | wake =>
    exact ha.imp (fun h n hn => h n (List.mem_of_mem_erase hn))
      fun ⟨n, hn⟩ => ⟨n, List.mem_append_left _ hn⟩

/-- With no producer asleep, a `notify_one` goes to a consumer, if anyone sleeps. -/
theorem NotifyOne.attended {m m' : Monitor} (h : NotifyOne m m') (hp : NoProducerAsleep m) :
    Attended m' := by
  cases h with
  | idle hw => exact .inl fun n hn => by simp [hw] at hn
  | @wake w hw =>
    cases w with
    | producer k => exact absurd hw (hp k)
    | consumer n => exact .inr ⟨n, by simp⟩

theorem Attended.of_notifyTimes {k : Nat} {m m' : Monitor} (h : NotifyTimes k m m')
    (ha : Attended m) : Attended m' := by
  induction h with
  | zero => exact ha
  | succ h₁ _ ih => exact ih (ha.of_notifyOne h₁)

theorem NotifyTimes.attended {k : Nat} {m m' : Monitor} (h : NotifyTimes k m m') (hk : 0 < k)
    (hp : NoProducerAsleep m) : Attended m' := by
  cases h with
  | zero => exact absurd hk (Nat.lt_irrefl 0)
  | succ h₁ h₂ => exact (h₁.attended hp).of_notifyTimes h₂

/-- After a call that queued something, with no producer asleep, the package is attended. -/
theorem Notified.attended {k : Nat} {m m' : Monitor} (h : Notified cfg k m m') (hk : 0 < k)
    (hp : NoProducerAsleep m) : Attended m' := by
  unfold Notified at h
  split at h
  · exact h.attended hk hp
  · subst h
    rw [if_neg (Nat.pos_iff_ne_zero.1 hk)]
    exact .inl fun n hn => by simp [Monitor.notifyAll] at hn

namespace ConsumerAwake

/-- A step that queues nothing, puts no consumer to sleep and leaves every woken consumer awake
keeps the invariant. -/
theorem of_le {m m' : Monitor} (hi : ConsumerAwake m)
    (hc : m'.cache.cache ≠ [] → m.cache.cache ≠ [])
    (hw : ∀ n, .consumer n ∈ m'.waiting → .consumer n ∈ m.waiting)
    (hk : ∀ n, .consumer n ∈ m.woken → .consumer n ∈ m'.woken) : ConsumerAwake m' :=
  fun h => (hi (hc h)).imp (fun h' n hn => h' n (hw n hn)) fun ⟨n, hn⟩ => ⟨n, hk n hn⟩

/-- After a call that only appends to the queue and notifies for what it queued. -/
theorem of_notified {k : Nat} {m m₀ m' : Monitor} (hi : ConsumerAwake m)
    (hq : Notified cfg k m₀ m') (hk : k = m₀.cache.cache.length - m.cache.cache.length)
    (hw : m₀.waiting = m.waiting) (hwk : m₀.woken = m.woken)
    (hpre : m.cache.cache <+: m₀.cache.cache) (hp : NoProducerAsleep m) : ConsumerAwake m' := by
  rcases Notified.zero_or_pos hq hk hpre with ⟨rfl, heq⟩ | hk
  · exact hi.of_le (fun h => heq ▸ h) (fun n hn => hw ▸ hn) fun n hn => hwk ▸ hn
  · exact fun _ => hq.attended hk fun j => hw ▸ hp j

theorem waitIfFull {m : Monitor} {n : Nat} (hi : ConsumerAwake m)
    (hp' : NoProducerAsleep (m.waitIfFull cap n)) : ConsumerAwake (m.waitIfFull cap n) := by
  by_cases hlt : m.cache.cache.length < cap
  · simp only [Monitor.waitIfFull, hlt, if_true]; exact hi
  · simp only [Monitor.waitIfFull, hlt, if_false] at hp'
    exact absurd (List.mem_append_right _ (List.mem_singleton_self _)) (hp' n)

/-- The rest of `Pop` leaves an empty cache, or takes a package and notifies a consumer. -/
theorem popBody {disc : Ctrl → Bool} {n : Nat} {m m' : Monitor} (h : PopBody cfg disc n m m')
    (hp : NoProducerAsleep m) : ConsumerAwake m' := by
  cases h with
  | waits h => exact fun hne => absurd (CacheBase.cache_of_pop_waits h) hne
  | null h => exact fun hne => (hne (by rw [(CacheBase.pop_eq_null h).2.1])).elim
  | pack _ hn => exact fun _ => hn.attended hp

/-- Every step into a state with no producer asleep, from one with none, keeps the invariant. -/
theorem step {a : Actor} {m m' : Monitor} (h : MStep cfg cap a m m') (hp : NoProducerAsleep m)
    (hp' : NoProducerAsleep m') (hi : ConsumerAwake m) : ConsumerAwake m' := by
  cases h with
  | waitIfFull => exact hi.waitIfFull hp'
  | giveUp => exact hi.of_le id (fun _ hn => List.mem_of_mem_erase hn) fun _ => id
  | recheckProducer =>
    refine waitIfFull ?_ hp'
    exact hi.of_le id (fun _ => id) fun _ hn => (List.mem_erase_of_ne Caller.noConfusion).2 hn
  | push _ _ hq => exact hi.of_notified hq rfl rfl rfl (CacheBase.cache_prefix_push _ _) hp
  | pop _ hb => exact popBody hb hp
  | recheckConsumer _ hb => exact popBody hb hp
  | start => exact hi
  | stop => exact fun _ => .inl fun n hn => by simp [Monitor.notifyAll] at hn
  | timeout hq => exact hi.of_notified hq rfl rfl rfl (CacheBase.cache_prefix_timeout _) hp

/-- Along every run whose states have no producer asleep. -/
theorem run {m m' : Monitor}
    (h : Relation.ReflTransGen (fun m m' => (∃ a, MStep cfg cap a m m') ∧ NoProducerAsleep m') m m')
    (hp : NoProducerAsleep m) (hi : ConsumerAwake m) : NoProducerAsleep m' ∧ ConsumerAwake m' := by
  induction h with
  | refl => exact ⟨hp, hi⟩
  | tail _ hs ih =>
    obtain ⟨⟨_, hs⟩, hp'⟩ := hs
    exact ⟨hp', step hs ih.1 hp' ih.2⟩

end ConsumerAwake

/-- Whatever the strategy, as long as no producer sleeps in `WaitIfFull`, a package never waits
in the cache with consumers asleep and none awake: each `notify_one` of a push goes to a
consumer.  So the lost wake-up of `static_cache_jams` needs a producer asleep on a full cache to
take the notification. -/
theorem queued_package_wakes_consumer {m : Monitor}
    (h : Relation.ReflTransGen
      (fun m m' => (∃ a, MStep cfg cap a m m') ∧ ∀ k, .producer k ∉ m'.waiting) {} m)
    (hne : m.cache.cache ≠ []) :
    (∀ n, .consumer n ∉ m.waiting) ∨ ∃ n, .consumer n ∈ m.woken :=
  (ConsumerAwake.run h (fun _ h => by simp at h) fun h => absurd rfl h).2 hne

/-- A static cache of capacity 1 where producer 1's push woke consumer 0, asleep on the empty
cache. -/
def wokenConsumer : Monitor :=
  { cache := CacheBase.enqueue sampleStatic { running := true } sampleOther,
    woken := [.consumer 0] }

theorem queued_package_wakes_consumer_sample :
    Relation.ReflTransGen
        (fun m m' => (∃ a, MStep sampleStatic 1 a m m') ∧ ∀ k, .producer k ∉ m'.waiting)
        {} wokenConsumer ∧
      wokenConsumer.cache.cache ≠ [] ∧
      ((∀ n, .consumer n ∉ wokenConsumer.waiting) ∨ ∃ n, .consumer n ∈ wokenConsumer.woken) :=
  have h : Relation.ReflTransGen
      (fun m m' => (∃ a, MStep sampleStatic 1 a m m') ∧ ∀ k, .producer k ∉ m'.waiting)
      {} wokenConsumer :=
    .tail (.tail (.tail (.single ⟨⟨_, .start _⟩, fun _ h => by simp at h⟩)
      ⟨⟨_, @MStep.pop sampleStatic 1 _ _ 0 (fun _ => false) (by decide) (.waits rfl)⟩,
        fun _ h => by simp at h⟩)
      ⟨⟨_, @MStep.waitIfFull sampleStatic 1 _ 1 (by decide)⟩,
        fun _ h => by simp [Monitor.waitIfFull, CacheBase.start] at h⟩)
      ⟨⟨_, @MStep.push sampleStatic 1 _ wokenConsumer 1 sampleOther (by decide) (by decide)
        (NotifyTimes.succ (.wake (w := .consumer 0) (by decide)) (.zero _))⟩,
        fun _ h => by simp [wokenConsumer] at h⟩
  have hne : wokenConsumer.cache.cache ≠ [] := by decide
  ⟨h, hne, queued_package_wakes_consumer h hne⟩

/-! ## `CacheDynamic::Stop` in two parts -/

/-- `CacheBase::Stop`, the first part of `CacheDynamic::Stop`: `running_` cleared and every
sleeper woken. -/
def Monitor.halt (m : Monitor) : Monitor :=
  { m with cache := { m.cache with running := false } }.notifyAll

/-- `batcher_->Emit()` and the `notify_all` after it: the sink queues the partial batch and
every sleeper is woken. -/
def Monitor.emit (cfg : CacheConfig) (m : Monitor) : Monitor :=
  { m with cache := CacheDynamic.flush cfg m.cache }.notifyAll

/-- The two parts make the stop step of `MStep`. -/
theorem emit_halt (hd : cfg.strategy = .dynamic) (m : Monitor) :
    m.halt.emit cfg = { m with cache := CacheBase.stop cfg m.cache }.notifyAll := by
  simp [Monitor.halt, Monitor.emit, Monitor.notifyAll, CacheBase.stop, hd]

/-- The steps of the threads, with `CacheDynamic::Stop` in its two parts. -/
inductive SStep (cfg : CacheConfig) (cap : Nat) : Actor → Monitor → Monitor → Prop
  | thread {t : Caller} {m m' : Monitor} (h : MStep cfg cap (.thread t) m m') :
      SStep cfg cap (.thread t) m m'
  | halt (m : Monitor) : SStep cfg cap .control m m.halt
  | emit (m : Monitor) : SStep cfg cap .control m (m.emit cfg)

/-- A running dynamic cache with nothing queued, a partial batch in its batcher and consumer `n`
asleep in `Pop`.  The first part of `Stop` wakes the consumer, whose `Pop` then finds a stopped
empty cache and returns null; the second part queues every item of the batch, after the
consumer has left `Pop`. -/
theorem dynamic_stop_strands {m : Monitor} {n : Nat}
    (disc : Ctrl → Bool) (he : m.cache.cache = []) (hb : m.cache.batcher ≠ [])
    (hw : .consumer n ∈ m.waiting) :
    ∃ m₁ m₂, SStep cfg cap .control m m₁ ∧ .consumer n ∈ m₁.woken ∧
      CacheBase.pop cfg disc m₁.cache = .null m₁.cache [] ∧
      SStep cfg cap (.thread (.consumer n)) m₁ m₂ ∧ SStep cfg cap .control m₂ (m₂.emit cfg) ∧
      (m₂.emit cfg).cache.cache ≠ [] ∧ (m₂.emit cfg).cache.items = m.cache.items := by
  have hnull : CacheBase.pop cfg disc m.halt.cache = .null m.halt.cache [] := by
    simp [CacheBase.pop, Monitor.halt, Monitor.notifyAll, he]
  have hwoken : .consumer n ∈ m.halt.woken := by simp [Monitor.halt, Monitor.notifyAll, hw]
  let m₂ : Monitor := { m.halt with woken := m.halt.woken.erase (.consumer n) }
  have hqueued : (m₂.emit cfg).cache.cache ≠ [] := by
    obtain ⟨x, xs, hx⟩ := List.exists_cons_of_ne_nil hb
    simp [m₂, Monitor.emit, Monitor.halt, Monitor.notifyAll, CacheDynamic.flush,
      CacheDynamic.publish, hx, Batcher.emit]
  exact ⟨m.halt, m₂, .halt m, hwoken, hnull, .thread (.recheckConsumer hwoken (.null hnull)),
    .emit m₂, hqueued, CacheDynamic.flush_items _⟩

/-- A started dynamic cache of batch size 2 whose consumer 0 sleeps in `Pop`, after producer 1
pushed one item, which waits in the batcher. -/
def strandStart : Monitor :=
  { cache := { running := true, batcher := [⟨7, some ⟨⟨2, 2⟩, 0⟩⟩] }, waiting := [.consumer 0] }

theorem strandStart_reachable : MRun sampleDynamic 1 {} strandStart :=
  .tail (.tail (.tail (.single ⟨_, .start _⟩)
    ⟨_, @MStep.pop sampleDynamic 1 _ _ 0 (fun _ => false) (by decide) (.waits rfl)⟩)
    ⟨_, @MStep.waitIfFull sampleDynamic 1 _ 1 (by decide)⟩)
    ⟨_, @MStep.push sampleDynamic 1 _ strandStart 1 sampleOther (by decide) (by decide) rfl⟩

theorem dynamic_stop_strands_sample :
    MRun sampleDynamic 1 {} strandStart ∧
      ∃ m₁ m₂, SStep sampleDynamic 1 .control strandStart m₁ ∧ .consumer 0 ∈ m₁.woken ∧
        CacheBase.pop sampleDynamic (fun _ => false) m₁.cache = .null m₁.cache [] ∧
        SStep sampleDynamic 1 (.thread (.consumer 0)) m₁ m₂ ∧
        SStep sampleDynamic 1 .control m₂ (m₂.emit sampleDynamic) ∧
        (m₂.emit sampleDynamic).cache.cache ≠ [] ∧
        (m₂.emit sampleDynamic).cache.items = strandStart.cache.items :=
  ⟨strandStart_reachable, dynamic_stop_strands _ rfl (by decide) (by decide)⟩

end InferServer
end EasyDK
