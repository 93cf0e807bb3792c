import EasyDK.InferServer.Run
import Mathlib.Logic.Relation
/-!
# Threads at the cache's condition variable

Producers and consumers of a cache sleep on the one condition variable `cache_cond_`, for two
different conditions.  A producer's `WaitIfFull`, which `Request` calls before `Push`, waits
for `cache_.size() < cache_capacity_`; the executor's `Pop` waits for a package or a stop.
`Pop` wakes one sleeper after it takes a package, the static `Enqueue` one after each package
it queues, the dynamic sink and `Stop` all of them.

`notify_one` may wake either kind of sleeper.  When a static push fills the cache and its
`notify_one` goes to a producer, the producer finds the cache full and sleeps again, and the
consumer sleeping on the then empty cache is never told of the package.  From any state where
this can happen, the threads reach a state that none of their steps leaves: the package stays
queued and the consumer sleeps, until a `Stop` or a thread from elsewhere comes
(`static_cache_jams`).

`WaitIfFull` and the `Push` after it are two sections, so `cache_capacity_` bounds nothing:
producers that all find room before any of them pushes all push, one package each, past the
capacity (`waitIfFull_overfills`).

Each section under `cache_mutex_` is one step, with the notifications its call sends after
unlocking; a woken thread takes the lock again in a step of its own and checks its condition.
Every step changes the cache only as a step of `Step` does (`MStep.cache_step`), so the cache of
a run of threads is the cache of a run of calls (`MRun.cache_run`).  Wake-ups come only from
notifications: no spurious wake-up is modelled.
-/

namespace EasyDK
namespace InferServer

/-- A thread that calls into a cache, by number: a producer, through `WaitIfFull` and `Push`, or
a consumer, the executor's loop through `Pop`. -/
inductive Caller
  | producer (n : Nat)
  | consumer (n : Nat)
  deriving DecidableEq, Repr

/-- Who makes a step: a thread, or `Start`, `Stop` and the batch timer, which wait for
nothing. -/
inductive Actor
  | thread (t : Caller)
  | control
  deriving DecidableEq, Repr

/-- A cache with the threads in its calls: those asleep on `cache_cond_`, those woken and not
yet back under the lock, and the producers whose `WaitIfFull` returned `true` and that push
next. -/
structure Monitor where
  cache : Cache := {}
  waiting : List Caller := []
  woken : List Caller := []
  admitted : List Nat := []
  deriving DecidableEq, Repr

namespace Monitor

/-- A thread in no call on the cache. -/
def Free (m : Monitor) : Caller → Prop
  | .producer n => .producer n ∉ m.waiting ∧ .producer n ∉ m.woken ∧ n ∉ m.admitted
  | .consumer n => .consumer n ∉ m.waiting ∧ .consumer n ∉ m.woken

instance (m : Monitor) : DecidablePred m.Free
  | .producer _ => inferInstanceAs (Decidable (_ ∧ _ ∧ _))
  | .consumer _ => inferInstanceAs (Decidable (_ ∧ _))

/-- `WaitIfFull` under the lock, on the first call or after a wake-up: `true` below
`cache_capacity_`, else asleep again. -/
def waitIfFull (cap : Nat) (m : Monitor) (n : Nat) : Monitor :=
  if m.cache.cache.length < cap then { m with admitted := m.admitted ++ [n] }
  else { m with waiting := m.waiting ++ [.producer n] }

/-- `cache_cond_.notify_all()`. -/
def notifyAll (m : Monitor) : Monitor := { m with waiting := [], woken := m.woken ++ m.waiting }

end Monitor

/-- `cache_cond_.notify_one()`: one sleeping thread, any of them, is woken; with none asleep the
notification is lost. -/
inductive NotifyOne : Monitor → Monitor → Prop
  | idle {m : Monitor} (h : m.waiting = []) : NotifyOne m m
  | wake {m : Monitor} {w : Caller} (h : w ∈ m.waiting) :
      NotifyOne m { m with waiting := m.waiting.erase w, woken := m.woken ++ [w] }

/-- `k` calls of `notify_one`, one after another. -/
inductive NotifyTimes : Nat → Monitor → Monitor → Prop
  | zero (m : Monitor) : NotifyTimes 0 m m
  | succ {k : Nat} {m m' m'' : Monitor} :
      NotifyOne m m' → NotifyTimes k m' m'' → NotifyTimes (k + 1) m m''

/-- The notifications once `k` packages are queued: the static `Enqueue` calls `notify_one`
after each package, the dynamic sink `notify_all` after each batch. -/
def Notified (cfg : CacheConfig) (k : Nat) (m m' : Monitor) : Prop :=
  match cfg.strategy with
  | .static => NotifyTimes k m m'
  | .dynamic => m' = if k = 0 then m else m.notifyAll

/-- The rest of `Pop` under the lock, once its condition is checked: asleep on an empty running
cache, else a null return or a package, followed by `notify_one`. -/
inductive PopBody (cfg : CacheConfig) (disc : Ctrl → Bool) (n : Nat) : Monitor → Monitor → Prop
  | waits {m : Monitor} (h : CacheBase.pop cfg disc m.cache = .waits) :
      PopBody cfg disc n m { m with waiting := m.waiting ++ [.consumer n] }
  | null {m : Monitor} {c : Cache} {r : List Report} (h : CacheBase.pop cfg disc m.cache = .null c r) :
      PopBody cfg disc n m { m with cache := c }
  | pack {m m' : Monitor} {p : Package} {c : Cache} {r : List Report}
      (h : CacheBase.pop cfg disc m.cache = .pack p c r) (hn : NotifyOne { m with cache := c } m') :
      PopBody cfg disc n m m'

/-- A step of a cache of capacity `cap` and of the threads at its condition variable.  A
producer whose `Request` has a timeout may give up waiting; `WaitIfFull` then returns
`false`. -/
inductive MStep (cfg : CacheConfig) (cap : Nat) : Actor → Monitor → Monitor → Prop
  | waitIfFull {m : Monitor} {n : Nat} (hf : m.Free (.producer n)) :
      MStep cfg cap (.thread (.producer n)) m (m.waitIfFull cap n)
  | giveUp {m : Monitor} {n : Nat} (hw : .producer n ∈ m.waiting) :
      MStep cfg cap (.thread (.producer n)) m { m with waiting := m.waiting.erase (.producer n) }
  | recheckProducer {m : Monitor} {n : Nat} (hw : .producer n ∈ m.woken) :
      MStep cfg cap (.thread (.producer n)) m
        ({ m with woken := m.woken.erase (.producer n) }.waitIfFull cap n)
  | push {m m' : Monitor} {n : Nat} {pack : Package} (hn : n ∈ m.admitted)
      (hdesc : m.cache.running = true → ∀ it ∈ pack.data, it.desc.isSome)
      (hq : Notified cfg ((CacheBase.push cfg m.cache pack).2.cache.length - m.cache.cache.length)
        { m with cache := (CacheBase.push cfg m.cache pack).2, admitted := m.admitted.erase n } m') :
      MStep cfg cap (.thread (.producer n)) m m'
  | pop {m m' : Monitor} {n : Nat} {disc : Ctrl → Bool} (hf : m.Free (.consumer n))
      (h : PopBody cfg disc n m m') : MStep cfg cap (.thread (.consumer n)) m m'
  | recheckConsumer {m m' : Monitor} {n : Nat} {disc : Ctrl → Bool} (hw : .consumer n ∈ m.woken)
      (h : PopBody cfg disc n { m with woken := m.woken.erase (.consumer n) } m') :
      MStep cfg cap (.thread (.consumer n)) m m'
  | start (m : Monitor) : MStep cfg cap .control m { m with cache := CacheBase.start m.cache }
  | stop (m : Monitor) :
      MStep cfg cap .control m { m with cache := CacheBase.stop cfg m.cache }.notifyAll
  | timeout {m m' : Monitor}
      (hq : Notified cfg ((CacheBase.timeout cfg m.cache).cache.length - m.cache.cache.length)
        { m with cache := CacheBase.timeout cfg m.cache } m') :
      MStep cfg cap .control m m'

/-! ## The cache under the threads -/

variable {cfg : CacheConfig} {cap : Nat}

theorem NotifyOne.cache {m m' : Monitor} (h : NotifyOne m m') :
    m'.cache = m.cache ∧ m'.admitted = m.admitted := by
  cases h <;> exact ⟨rfl, rfl⟩

theorem NotifyTimes.cache {k : Nat} {m m' : Monitor} (h : NotifyTimes k m m') :
    m'.cache = m.cache ∧ m'.admitted = m.admitted := by
  induction h with
  | zero => exact ⟨rfl, rfl⟩
  | succ h₁ _ ih => obtain ⟨hc, ha⟩ := h₁.cache; exact ⟨ih.1.trans hc, ih.2.trans ha⟩

theorem Notified.cache {k : Nat} {m m' : Monitor} (h : Notified cfg k m m') : m'.cache = m.cache := by
  unfold Notified at h
  split at h
  · exact h.cache.1
  · subst h; split <;> rfl

/-- The rest of `Pop` is a `Pop` call on the cache, or leaves it alone. -/
theorem PopBody.cache_step {disc : Ctrl → Bool} {n : Nat} {m m' : Monitor}
    (h : PopBody cfg disc n m m') : m'.cache = m.cache ∨ ∃ e, Step cfg m.cache e m'.cache := by
  cases h with
  | waits => exact .inl rfl
  | null hp => exact .inr ⟨_, .popNull hp⟩
  | pack hp hn => rw [hn.cache.1]; exact .inr ⟨_, .popPack hp⟩

/-- Every step of the threads is a call on the cache as `Step` has it, or leaves it alone. -/
theorem MStep.cache_step {a : Actor} {m m' : Monitor} (h : MStep cfg cap a m m') :
    m'.cache = m.cache ∨ ∃ e, Step cfg m.cache e m'.cache := by
  cases h with
  | waitIfFull | recheckProducer => unfold Monitor.waitIfFull; split <;> exact .inl rfl
  | giveUp => exact .inl rfl
  | push _ hdesc hq => rw [hq.cache]; exact .inr ⟨_, .push _ _ hdesc⟩
  | pop _ hb | recheckConsumer _ hb => exact hb.cache_step
  | start => exact .inr ⟨_, .start _⟩
  | stop => exact .inr ⟨_, .stop _⟩
  | timeout hq => rw [hq.cache]; exact .inr ⟨_, .timeout _⟩

/-- A step of any actor. -/
def MRun (cfg : CacheConfig) (cap : Nat) : Monitor → Monitor → Prop :=
  Relation.ReflTransGen fun m m' => ∃ a, MStep cfg cap a m m'

/-- The cache of a run of threads is the cache of a run of calls, so every invariant of `Run`
holds of it. -/
theorem MRun.cache_run {m m' : Monitor} (h : MRun cfg cap m m') {evs : List Event}
    (hr : Run cfg evs m.cache) : ∃ evs', Run cfg evs' m'.cache := by
  induction h with
  | refl => exact ⟨evs, hr⟩
  | tail _ hs ih =>
    obtain ⟨evs', ih⟩ := ih
    obtain ⟨a, hs⟩ := hs
    rcases hs.cache_step with he | ⟨e, he⟩
    · exact ⟨evs', he ▸ ih⟩
    · exact ⟨_, ih.snoc he⟩

/-! ## A lost wake-up -/

/-- A step of one of the threads `T`. -/
def TStep (cfg : CacheConfig) (cap : Nat) (T : List Caller) (m m' : Monitor) : Prop :=
  ∃ t ∈ T, MStep cfg cap (.thread t) m m'

/-- The cache `c` is full and no thread of `T` can take from it: nobody is woken, no producer
is about to push, and every consumer of `T` sleeps. -/
structure Jammed (cap : Nat) (T : List Caller) (c : Cache) (m : Monitor) : Prop where
  cache_eq : m.cache = c
  full : cap ≤ c.cache.length
  woken : m.woken = []
  admitted : m.admitted = []
  consumers : ∀ n, .consumer n ∈ T → .consumer n ∈ m.waiting

/-- The threads of a jammed cache only fall asleep on it again or give up waiting. -/
theorem Jammed.step {T : List Caller} {c : Cache} {m m' : Monitor} (hj : Jammed cap T c m)
    (h : TStep cfg cap T m m') : Jammed cap T c m' := by
  obtain ⟨t, ht, h⟩ := h
  cases h with
  | waitIfFull =>
    have hfull : ¬m.cache.cache.length < cap := by rw [hj.cache_eq]; exact Nat.not_lt.2 hj.full
    simp only [Monitor.waitIfFull, hfull, if_false]
    exact ⟨hj.cache_eq, hj.full, hj.woken, hj.admitted,
      fun n hn => List.mem_append_left _ (hj.consumers n hn)⟩
  | giveUp =>
    exact ⟨hj.cache_eq, hj.full, hj.woken, hj.admitted,
      fun n hn => (List.mem_erase_of_ne Caller.noConfusion).2 (hj.consumers n hn)⟩
  | recheckProducer hw | recheckConsumer hw => simp [hj.woken] at hw
  | push hn => simp [hj.admitted] at hn
  | pop hf => exact absurd (hj.consumers _ ht) hf.1

/-- Once jammed, always jammed, whatever the threads of `T` do. -/
theorem Jammed.run {T : List Caller} {c : Cache} {m m' : Monitor} (hj : Jammed cap T c m)
    (h : Relation.ReflTransGen (TStep cfg cap T) m m') : Jammed cap T c m' := by
  induction h with
  | refl => exact hj
  | tail _ hs ih => exact ih.step hs

/-- A static `Enqueue` of a one-item package queues one package. -/
theorem enqueue_length_one (hs : cfg.strategy = .static) (c : Cache) {pack : Package}
    {it : InferData} (hp : pack.data = [it]) :
    (CacheBase.enqueue cfg c pack).cache.length = c.cache.length + 1 := by
  simp [CacheBase.enqueue, hs, CacheStatic.enqueue, hp, CacheStatic.split]

/-- A static cache of capacity `cap`, one item short of full, with a consumer asleep on it, a
producer asleep in `WaitIfFull` and another producer about to push one item, and no thread
woken.  If `notify_one` of that push wakes the sleeping producer, it finds the cache full, and
so does the pusher's next `WaitIfFull`: the threads `T` reach a state where the cache holds
`cap` packages and the consumer sleeps, and whatever they do next, the cache stays as it is and
the consumer sleeps. -/
theorem static_cache_jams (hs : cfg.strategy = .static) {T : List Caller} {m : Monitor}
    {c p q : Nat} {pack : Package} {it : InferData}
    (hc : .consumer c ∈ T) (hpT : .producer p ∈ T) (hqT : .producer q ∈ T)
    (hcons : ∀ n, .consumer n ∈ T → .consumer n ∈ m.waiting)
    (hp : .producer p ∈ m.waiting) (hq : m.admitted = [q]) (hqw : .producer q ∉ m.waiting)
    (hw : m.woken = []) (hr : m.cache.running = true) (hpack : pack.data = [it])
    (hdesc : it.desc.isSome) (hfull : m.cache.cache.length + 1 = cap) :
    ∃ m', Relation.ReflTransGen (TStep cfg cap T) m m' ∧ m'.cache.cache.length = cap ∧
      .consumer c ∈ m'.waiting ∧
      ∀ m'', Relation.ReflTransGen (TStep cfg cap T) m' m'' →
        m''.cache = m'.cache ∧ .consumer c ∈ m''.waiting := by
  have hpush : CacheBase.push cfg m.cache pack = (true, CacheBase.enqueue cfg m.cache pack) :=
    CacheBase.push_running cfg hr pack
  have hlen := enqueue_length_one hs m.cache hpack
  -- `q` pushes, and the `notify_one` of its package wakes `p`
  let m₁ : Monitor :=
    { cache := CacheBase.enqueue cfg m.cache pack, waiting := m.waiting.erase (.producer p),
      woken := [.producer p], admitted := [] }
  have h₁ : TStep cfg cap T m m₁ := by
    refine ⟨_, hqT, @MStep.push cfg cap m m₁ q pack (by simp [hq])
      (fun _ i hi => List.eq_of_mem_singleton (hpack ▸ hi) ▸ hdesc) ?_⟩
    simp only [Notified, hs, hpush, hlen, Nat.add_sub_cancel_left, hq, List.erase_cons_head]
    exact .succ (.wake hp) (by simpa [hw] using .zero _)
  -- `p` finds the cache full and sleeps again
  let m₂ : Monitor := { m₁ with waiting := m₁.waiting ++ [.producer p], woken := [] }
  have h₂ : TStep cfg cap T m₁ m₂ := by
    refine ⟨_, hpT, ?_⟩
    simpa [Monitor.waitIfFull, m₁, m₂, hlen, hfull] using
      @MStep.recheckProducer cfg cap m₁ p (by simp [m₁])
  -- so does `q` on its next call
  let m₃ : Monitor := { m₂ with waiting := m₂.waiting ++ [.producer q] }
  have h₃ : TStep cfg cap T m₂ m₃ := by
    refine ⟨_, hqT, ?_⟩
    have hqp : q ≠ p := fun e => hqw (e ▸ hp)
    have hf : m₂.Free (.producer q) := by
      simp [Monitor.Free, m₂, m₁, hqp, hqw, List.mem_erase_of_ne]
    simpa [Monitor.waitIfFull, m₃, m₂, m₁, hlen, hfull] using @MStep.waitIfFull cfg cap m₂ q hf
  have hcap : m₃.cache.cache.length = cap := by simp [m₃, m₂, m₁, hlen, hfull]
  have hj : Jammed cap T m₃.cache m₃ := ⟨rfl, hcap.ge, rfl, rfl, fun n hn => by
    simp [m₃, m₂, m₁, List.mem_erase_of_ne, hcons n hn]⟩
  exact ⟨m₃, .tail (.tail (.single h₁) h₂) h₃, hcap, hj.consumers c hc,
    fun _ h => ⟨(hj.run h).cache_eq, (hj.run h).consumers c hc⟩⟩

/-- Consumer 0 and producers 1 to 3 at a static cache of capacity 1. -/
def jamThreads : List Caller := [.consumer 0, .producer 1, .producer 2, .producer 3]

/-- Consumer 0 and producer 3 asleep on an empty running cache, producer 2 about to push. -/
def jamStart : Monitor :=
  { cache := { running := true }, waiting := [.producer 3, .consumer 0], admitted := [2] }

/-- From a fresh cache: producer 1 pushes `sampleOther`, with nobody asleep; producers 2 and 3
find the cache full and sleep; consumer 0 pops the package, its `notify_one` wakes producer 2,
and consumer 0 sleeps on the empty cache; producer 2 is admitted. -/
theorem jamStart_reachable : MRun sampleStatic 1 {} jamStart :=
  .tail (.tail (.tail (.tail (.tail (.tail (.tail (.single
    ⟨_, .start _⟩)
    ⟨_, @MStep.waitIfFull sampleStatic 1 _ 1 (by decide)⟩)
    ⟨_, @MStep.push sampleStatic 1 _ _ 1 sampleOther (by decide) (by decide)
      (NotifyTimes.succ (.idle rfl) (.zero _))⟩)
    ⟨_, @MStep.waitIfFull sampleStatic 1 _ 2 (by decide)⟩)
    ⟨_, @MStep.waitIfFull sampleStatic 1 _ 3 (by decide)⟩)
    ⟨_, @MStep.pop sampleStatic 1 _ _ 0 (fun _ => false) (by decide)
      (.pack rfl (.wake (w := .producer 2) (by decide)))⟩)
    ⟨_, @MStep.pop sampleStatic 1 _ _ 0 (fun _ => false) (by decide) (.waits rfl)⟩)
    ⟨_, @MStep.recheckProducer sampleStatic 1 _ 2 (by decide)⟩

theorem static_cache_jams_sample :
    MRun sampleStatic 1 {} jamStart ∧
      ∃ m', Relation.ReflTransGen (TStep sampleStatic 1 jamThreads) jamStart m' ∧
        m'.cache.cache.length = 1 ∧ .consumer 0 ∈ m'.waiting ∧
        ∀ m'', Relation.ReflTransGen (TStep sampleStatic 1 jamThreads) m' m'' →
          m''.cache = m'.cache ∧ .consumer 0 ∈ m''.waiting :=
  ⟨jamStart_reachable, @static_cache_jams sampleStatic 1 rfl jamThreads jamStart 0 3 2 sampleOther _
    (by decide) (by decide) (by decide) (fun n hn => by simp_all [jamThreads, jamStart])
    (by decide) rfl (by decide) rfl rfl rfl rfl rfl⟩

/-! ## The capacity is not a bound -/

/-- A `notify_one` can always be sent: it is lost with nobody asleep, or wakes the first
sleeper. -/
theorem NotifyOne.exists (m : Monitor) : ∃ m', NotifyOne m m' := by
  cases hw : m.waiting with
  | nil => exact ⟨m, .idle hw⟩
  | cons w _ => exact ⟨_, .wake (hw ▸ List.mem_cons_self w _)⟩

theorem Notified.exists (cfg : CacheConfig) (k : Nat) (m : Monitor) :
    ∃ m', Notified cfg k m m' := by
  unfold Notified
  split
  · induction k generalizing m with
    | zero => exact ⟨m, .zero m⟩
    | succ k ih =>
      obtain ⟨m₁, h₁⟩ := NotifyOne.exists m
      obtain ⟨m₂, h₂⟩ := ih m₁
      exact ⟨m₂, .succ h₁ h₂⟩
  · exact ⟨_, rfl⟩

theorem Notified.admitted {k : Nat} {m m' : Monitor} (h : Notified cfg k m m') :
    m'.admitted = m.admitted := by
  unfold Notified at h
  split at h
  · exact h.cache.2
  · subst h; split <;> rfl

theorem CacheBase.enqueue_running (c : Cache) (pack : Package) :
    (CacheBase.enqueue cfg c pack).running = c.running := by
  unfold CacheBase.enqueue
  split <;> simp [CacheStatic.enqueue]

/-- The producers `ps`, in no call on a cache below its capacity, all pass `WaitIfFull` before
any of them pushes. -/
theorem admit_all {T : List Caller} {m : Monitor} {ps : List Nat}
    (hT : ∀ n ∈ ps, .producer n ∈ T) (hnd : ps.Nodup) (hfree : ∀ n ∈ ps, m.Free (.producer n))
    (hlt : m.cache.cache.length < cap) :
    Relation.ReflTransGen (TStep cfg cap T) m { m with admitted := m.admitted ++ ps } := by
  induction ps generalizing m with
  | nil => simpa using Relation.ReflTransGen.refl
  | cons n ps ih =>
    have hn : n ∉ ps := (List.nodup_cons.1 hnd).1
    have hstep : TStep cfg cap T m { m with admitted := m.admitted ++ [n] } := by
      refine ⟨_, hT n (List.mem_cons_self n ps), ?_⟩
      simpa [Monitor.waitIfFull, hlt] using
        @MStep.waitIfFull cfg cap m n (hfree n (List.mem_cons_self n ps))
    have hfree' : ∀ k ∈ ps, Monitor.Free { m with admitted := m.admitted ++ [n] } (.producer k) := by
      intro k hk
      obtain ⟨h₁, h₂, h₃⟩ := hfree k (List.mem_cons_of_mem n hk)
      have hne : k ≠ n := fun e => hn (e ▸ hk)
      exact ⟨h₁, h₂, by simp [h₃, hne]⟩
    simpa using Relation.ReflTransGen.head hstep
      (ih (fun k hk => hT k (List.mem_cons_of_mem n hk)) (List.nodup_cons.1 hnd).2 hfree' hlt)

/-- Admitted producers each push a one-item package into a running static cache, whoever the
notifications wake: each push queues one package. -/
theorem push_all (hs : cfg.strategy = .static) {T : List Caller} {pack : Package}
    {it : InferData} (hpack : pack.data = [it]) (hdesc : it.desc.isSome) {qs : List Nat}
    (hT : ∀ n ∈ qs, .producer n ∈ T) (hnd : qs.Nodup) {m : Monitor}
    (hr : m.cache.running = true) (hadm : ∀ n ∈ qs, n ∈ m.admitted) :
    ∃ m', Relation.ReflTransGen (TStep cfg cap T) m m' ∧
      m'.cache.cache.length = m.cache.cache.length + qs.length := by
  induction qs generalizing m with
  | nil => exact ⟨m, .refl, rfl⟩
  | cons n qs ih =>
    have hpush := CacheBase.push_running cfg hr pack
    obtain ⟨m₁, hq⟩ := Notified.exists cfg
      ((CacheBase.push cfg m.cache pack).2.cache.length - m.cache.cache.length) { m with cache := (CacheBase.push cfg m.cache pack).2, admitted := m.admitted.erase n }
    have hstep : TStep cfg cap T m m₁ := ⟨_, hT n (List.mem_cons_self n qs),
      .push (hadm n (List.mem_cons_self n qs))
        (fun _ i hi => List.eq_of_mem_singleton (hpack ▸ hi) ▸ hdesc) hq⟩
    have hr₁ : m₁.cache.running = true := by
      rw [hq.cache, hpush, CacheBase.enqueue_running, hr]
    have hadm₁ : ∀ k ∈ qs, k ∈ m₁.admitted := by
      intro k hk
      have hne : k ≠ n := fun e => (List.nodup_cons.1 hnd).1 (e ▸ hk)
      rw [hq.admitted]
      exact (List.mem_erase_of_ne hne).2 (hadm k (List.mem_cons_of_mem n hk))
    obtain ⟨m', hrun, hlen⟩ :=
      ih (fun k hk => hT k (List.mem_cons_of_mem n hk)) (List.nodup_cons.1 hnd).2 hr₁ hadm₁
    refine ⟨m', .head hstep hrun, ?_⟩
    rw [hlen, hq.cache, hpush, enqueue_length_one hs m.cache hpack, List.length_cons]
    omega

/-- `cache_capacity_` does not bound a static cache.  `Request` calls `WaitIfFull` and then
`Push` in two sections under `cache_mutex_`, so producers that all find the cache below its
capacity before any of them pushes all push: from any running cache below its capacity, the
free producers `ps` leave it with one package more each, past the capacity as soon as they are
more than the room left. -/
theorem waitIfFull_overfills (hs : cfg.strategy = .static) {T : List Caller} {m : Monitor}
    {ps : List Nat} {pack : Package} {it : InferData}
    (hT : ∀ n ∈ ps, .producer n ∈ T) (hnd : ps.Nodup) (hfree : ∀ n ∈ ps, m.Free (.producer n))
    (hr : m.cache.running = true) (hlt : m.cache.cache.length < cap)
    (hpack : pack.data = [it]) (hdesc : it.desc.isSome) :
    ∃ m', Relation.ReflTransGen (TStep cfg cap T) m m' ∧
      m'.cache.cache.length = m.cache.cache.length + ps.length := by
  obtain ⟨m', hrun, hlen⟩ := push_all hs hpack hdesc hT hnd (m := { m with admitted := m.admitted ++ ps })
    hr (fun n hn => List.mem_append_right _ hn)
  exact ⟨m', (admit_all hT hnd hfree hlt).trans hrun, hlen⟩

/-- Two producers at a fresh running static cache of capacity 1 leave two packages in it. -/
theorem waitIfFull_overfills_sample :
    ∃ m', Relation.ReflTransGen (TStep sampleStatic 1 [.producer 1, .producer 2])
      { cache := { running := true } } m' ∧ m'.cache.cache.length = 2 :=
  @waitIfFull_overfills sampleStatic 1 rfl [.producer 1, .producer 2] { cache := { running := true } }
    [1, 2] sampleOther _ (by decide) (by decide) (by decide) rfl (by decide) rfl rfl

end InferServer
end EasyDK
