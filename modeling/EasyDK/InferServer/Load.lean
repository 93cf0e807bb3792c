import EasyDK.InferServer.Pipeline
/-!
# Packages in flight

`task_num_` counts what an engine's done notifier has not yet taken back: the dispatch loop adds
one for each package it hands the engine, the tail's notifier takes one away.  A package that
fails at a node never reaches the notifier.  So along every run, forks included, no engine has
more packages in flight than its `task_num_` (`taskNum_ge_inflight`), and one failure leaves it
above them for good (`failed_package_still_counted`).

A package in flight waits for the node `VoidPush` handed it to.  The dispatch loop hands it the
head node and a node hands it only its down node, so when the engines are chains, as
`Engine::Engine` and `Engine::Fork` build them, that node always exists and the package can take
its step (`tasks_routed`).
-/

namespace EasyDK
namespace InferServer

namespace Pipeline

/-- The packages of engine `e` waiting in the pool. -/
def inflight (w : Pipeline) (e : Nat) : Nat := w.tasks.countP (·.engine = e)

@[simp] theorem length_setTaskNum (f : Nat → Nat) (e : Nat) (engines : List Engine) :
    (setTaskNum f e engines).length = engines.length :=
  List.length_modify _ _ _

theorem getElem?_setTaskNum (f : Nat → Nat) (e e' : Nat) (engines : List Engine) :
    (setTaskNum f e engines)[e']? =
      if e = e' then engines[e']?.map fun en => { en with taskNum := f en.taskNum }
      else engines[e']? := by
  rw [setTaskNum, List.getElem?_modify]
  split <;> simp

/-- Taking task `i` out of the pool takes one package of its engine out. -/
theorem inflight_eraseIdx {w : Pipeline} {i : Nat} {t : Task} (ht : w.tasks[i]? = some t)
    (e : Nat) :
    w.inflight e = (w.tasks.eraseIdx i).countP (·.engine = e) + [t].countP (·.engine = e) := by
  rw [inflight, (tasks_perm ht).countP_eq, ← List.singleton_append, List.countP_append,
    Nat.add_comm]

end Pipeline

/-- Every task names an engine, and no engine has more packages in flight than its
`task_num_`. -/
structure Loaded (w : Pipeline) : Prop where
  engine_lt : ∀ t ∈ w.tasks, t.engine < w.engines.length
  le : ∀ e en, w.engines[e]? = some en → w.inflight e ≤ en.taskNum

variable {cfg : CacheConfig} {next : Int → Int} {ok : Package → Prop}

/-- Node work on task `i` keeps the load: a failure only takes the package out, a forward
puts it back for the next node, the tail takes it out and decrements `task_num_`. -/
theorem Loaded.finish {w : Pipeline} (hl : Loaded w) {i : Nat} {t : Task}
    (ht : w.tasks[i]? = some t) (o : NodeOutcome) : Loaded (w.finish i t o) := by
  have ht_lt := hl.engine_lt t (List.getElem?_mem ht)
  have hsub : ∀ x ∈ w.tasks.eraseIdx i, x.engine < w.engines.length :=
    fun x hx => hl.engine_lt x ((List.eraseIdx_sublist _ _).subset hx)
  have hcount := Pipeline.inflight_eraseIdx ht
  cases o with
  | failed rs =>
    refine ⟨hsub, fun e en hen => ?_⟩
    have := hl.le e en hen
    have := hcount e
    show (w.tasks.eraseIdx i).countP _ ≤ _
    omega
  | forward k p =>
    refine ⟨fun x hx => ?_, fun e en hen => ?_⟩
    · rcases List.mem_append.1 hx with hx | hx
      · exact hsub x hx
      · rw [List.mem_singleton.1 hx]; exact ht_lt
    · have := hl.le e en hen
      have := hcount e
      show (w.tasks.eraseIdx i ++ [Task.mk t.engine k p]).countP _ ≤ _
      rw [List.countP_append]
      show _ + [t].countP (·.engine = e) ≤ _
      omega
  | done rs =>
    refine ⟨by simpa [Pipeline.finish] using hsub, fun e en hen => ?_⟩
    have := hcount e
    simp only [Pipeline.finish, Pipeline.getElem?_setTaskNum] at hen
    split_ifs at hen with he
    · obtain ⟨en0, hen0, rfl⟩ := Option.map_eq_some'.1 hen
      have := hl.le e en0 hen0
      have : [t].countP (·.engine = e) = 1 := by simp [he]
      show (w.tasks.eraseIdx i).countP _ ≤ en0.taskNum - 1
      omega
    · have := hl.le e en hen
      show (w.tasks.eraseIdx i).countP _ ≤ _
      omega

/-- Every call keeps the load. -/
theorem PStep.loaded {w w' : Pipeline} (hs : PStep cfg next ok w w') (hl : Loaded w) :
    Loaded w' := by
  cases hs with
  | start | stop | timeout | send | discard | dispatchNull => exact ⟨hl.engine_lt, hl.le⟩
  | dispatch e he _ =>
    refine ⟨fun x hx => ?_, fun e' en hen => ?_⟩
    · rw [Pipeline.length_setTaskNum]
      rcases List.mem_append.1 hx with hx | hx
      · exact hl.engine_lt x hx
      · rw [List.mem_singleton.1 hx]; exact he
    · simp only [Pipeline.getElem?_setTaskNum] at hen
      simp only [Pipeline.inflight, List.countP_append, List.countP_singleton]
      split_ifs at hen with hee
      · subst hee
        obtain ⟨en0, hen0, rfl⟩ := Option.map_eq_some'.1 hen
        have := hl.le e en0 hen0
        simp only [Pipeline.inflight, decide_True, if_true] at this ⊢
        omega
      · have := hl.le e' en hen
        simp only [Pipeline.inflight, hee, decide_False, Bool.false_eq_true, if_false] at this ⊢
        omega
  | run ht => exact hl.finish ht _
  | fork =>
    refine ⟨fun x hx => ?_, fun e en hen => ?_⟩
    · rw [List.length_append]
      exact Nat.lt_succ_of_lt (hl.engine_lt x hx)
    · rcases lt_or_ge e w.engines.length with he | he
      · rw [List.getElem?_append_left he] at hen
        exact hl.le e en hen
      · have h0 : w.inflight e = 0 := List.countP_eq_zero.2 fun x hx => by
          have := hl.engine_lt x hx
          simp only [decide_eq_true_eq]
          omega
        exact h0.trans_le (Nat.zero_le _)

/-- No engine ever has more packages in flight than its `task_num_`: every package the dispatch
loop hands an engine is counted until the engine's done notifier takes it back, on the engines
the executor starts with and on those `Fork` adds. -/
theorem taskNum_ge_inflight {engines : List Engine} {w : Pipeline}
    (h : PReachable cfg next ok engines w) :
    ∀ e en, w.engines[e]? = some en → w.inflight e ≤ en.taskNum := by
  suffices Loaded w from this.le
  induction h with
  | init => exact ⟨by simp, fun e en _ => by simp [Pipeline.inflight]⟩
  | step _ hs ih => exact hs.loaded ih

/-- `taskNum_ge_inflight` once the dispatch loop has handed the engine request 1's first
package. -/
theorem taskNum_ge_inflight_sample :
    ∃ w, PReachable sampleStatic id (fun _ => True) [Engine.create [0]] w ∧
      w.inflight 0 = 1 ∧ ∀ e en, w.engines[e]? = some en → w.inflight e ≤ en.taskNum := by
  have h := (((@PReachable.init sampleStatic id (fun _ => True) [Engine.create [0]]).step
    (.start _)).step (.send _ ⟨1, 1⟩ samplePack (by simp) (by decide) trivial)).step
    (.dispatch 0 (by decide) rfl)
  exact ⟨_, h, rfl, taskNum_ge_inflight h⟩

/-! ## Routing -/

namespace Pipeline

/-- `++task_num_` or `--task_num_` keeps the engine's nodes. -/
theorem getElem?_setTaskNum_of {f : Nat → Nat} {e e' : Nat} {engines : List Engine} {en : Engine}
    (h : engines[e']? = some en) :
    ∃ k, (setTaskNum f e engines)[e']? = some { en with taskNum := k } := by
  rw [getElem?_setTaskNum, h]
  split
  · exact ⟨_, rfl⟩
  · exact ⟨en.taskNum, rfl⟩

theorem chained_setTaskNum {f : Nat → Nat} {e : Nat} {engines : List Engine}
    (h : ∀ en ∈ engines, en.Chained) : ∀ en ∈ setTaskNum f e engines, en.Chained := by
  intro en hen
  obtain ⟨i, hi⟩ := List.mem_iff_getElem?.1 hen
  rw [getElem?_setTaskNum] at hi
  split at hi
  · obtain ⟨en0, h0, rfl⟩ := Option.map_eq_some'.1 hi
    exact h en0 (List.getElem?_mem h0)
  · exact h en (List.getElem?_mem hi)

end Pipeline

/-- Every engine is a chain, and every package in flight waits for a node of its engine. -/
structure Routed (w : Pipeline) : Prop where
  chained : ∀ en ∈ w.engines, en.Chained
  node_lt : ∀ t ∈ w.tasks, ∃ en, w.engines[t.engine]? = some en ∧ t.node < en.nodes.length

/-- Node work keeps the routing: a package is handed on only to the down node of the node that
ran it. -/
theorem Routed.finish {w : Pipeline} (hr : Routed w) {i : Nat} {t : Task} {en : Engine}
    {node : TaskNode} (hen : w.engines[t.engine]? = some en)
    (hnode : en.nodes[t.node]? = some node) {o : NodeOutcome}
    (ho : ∀ k p, o = .forward k p → node.downnode = some k) : Routed (w.finish i t o) := by
  have hsub : ∀ x ∈ w.tasks.eraseIdx i, ∃ en, w.engines[x.engine]? = some en ∧
      x.node < en.nodes.length :=
    fun x hx => hr.node_lt x ((List.eraseIdx_sublist _ _).subset hx)
  cases o with
  | failed rs => exact ⟨hr.chained, hsub⟩
  | forward k p =>
    refine ⟨hr.chained, fun x hx => ?_⟩
    rcases List.mem_append.1 hx with hx | hx
    · exact hsub x hx
    · have hdown := (hr.chained en (List.getElem?_mem hen)).2 node (List.getElem?_mem hnode)
      rw [ho k p rfl] at hdown
      rw [List.mem_singleton.1 hx]
      exact ⟨en, hen, by simpa using hdown⟩
  | done rs =>
    refine ⟨Pipeline.chained_setTaskNum (f := (· - 1)) (e := t.engine) hr.chained,
      fun x hx => ?_⟩
    obtain ⟨en', hen', hlt⟩ := hsub x hx
    obtain ⟨k, hk⟩ := Pipeline.getElem?_setTaskNum_of (f := (· - 1)) (e := t.engine) hen'
    exact ⟨_, hk, hlt⟩

/-- Every call keeps the routing: the dispatch loop hands a package the head node, and a fork
is a chain over as many processors. -/
theorem PStep.routed {w w' : Pipeline} (hs : PStep cfg next ok w w') (hr : Routed w) :
    Routed w' := by
  cases hs with
  | start | stop | timeout | send | discard | dispatchNull => exact ⟨hr.chained, hr.node_lt⟩
  | dispatch e he _ =>
    refine ⟨Pipeline.chained_setTaskNum hr.chained, fun x hx => ?_⟩
    rcases List.mem_append.1 hx with hx | hx
    · obtain ⟨en, hen, hlt⟩ := hr.node_lt x hx
      obtain ⟨k, hk⟩ := Pipeline.getElem?_setTaskNum_of (f := (· + 1)) (e := e) hen
      exact ⟨_, hk, hlt⟩
    · have hen := List.getElem?_eq_getElem he
      obtain ⟨k, hk⟩ := Pipeline.getElem?_setTaskNum_of (f := (· + 1)) (e := e) hen
      rw [List.mem_singleton.1 hx]
      exact ⟨_, hk, List.length_pos.2 (hr.chained _ (List.getElem_mem he)).1⟩
  | run _ hen hnode _ _ ho => exact hr.finish hen hnode fun _ _ h => TaskNode.run_forward (h ▸ ho)
  | fork hen clone =>
    refine ⟨fun x hx => ?_, fun x hx => ?_⟩
    · rcases List.mem_append.1 hx with hx | hx
      · exact hr.chained x hx
      · rw [List.mem_singleton.1 hx]
        exact (hr.chained _ (List.getElem?_mem hen)).fork clone
    · obtain ⟨en', hen', hlt⟩ := hr.node_lt x hx
      have hlt' := (List.getElem?_eq_some_iff.1 hen').1
      exact ⟨en', by rw [List.getElem?_append_left hlt', hen'], hlt⟩

/-- Along every run of an executor whose engines are chains, every package waiting in the pool
names a node of an engine: the node `Transmit` handed it to exists, so the package can take its
step, whatever the processors return and however many forks were made. -/
theorem tasks_routed {engines : List Engine} {w : Pipeline}
    (hchain : ∀ en ∈ engines, en.Chained) (h : PReachable cfg next ok engines w) :
    ∀ t ∈ w.tasks, ∃ en node,
      w.engines[t.engine]? = some en ∧ en.nodes[t.node]? = some node := by
  have hr : Routed w := by
    induction h with
    | init => exact ⟨hchain, by simp⟩
    | step _ hs ih => exact hs.routed ih
  intro t ht
  obtain ⟨en, hen, hlt⟩ := hr.node_lt t ht
  exact ⟨en, _, hen, List.getElem?_eq_getElem hlt⟩

/-- `tasks_routed` on an engine of two nodes, once its head node has handed request 1's first
package on. -/
theorem tasks_routed_sample :
    ∃ w, PReachable sampleStatic id (fun _ => True) [Engine.create [0, 1]] w ∧
      w.tasks.map Task.node = [1] ∧ (∀ en ∈ [Engine.create [0, 1]], en.Chained) ∧
      ∀ t ∈ w.tasks, ∃ en node,
        w.engines[t.engine]? = some en ∧ en.nodes[t.node]? = some node := by
  have h := (((@PReachable.init sampleStatic id (fun _ => True) [Engine.create [0, 1]]).step
    (.start _)).step (.send _ ⟨1, 1⟩ samplePack (by simp) (by decide) trivial)).step
    (.dispatch 0 (by decide) rfl)
  have h := h.step (.run (i := 0) (by rfl) (by rfl) (by rfl) .success
    [(sampleItem 0).erase, (sampleItem 1).erase] (by rfl))
  exact ⟨_, h, rfl, by decide, tasks_routed (by decide) h⟩

end InferServer
end EasyDK
