import EasyDK.InferServer.Order
/-!
# Task nodes and engines

`engine.cpp`.  A `TaskNode` locks its processor, runs it on a package and then either reports
the failure to every request of the package, hands the package to its down node one priority
tier later, or, at the tail, answers every request and calls the engine's done notifier.  An
`Engine` is a chain of nodes over a list of processors; `Engine::Fork` builds the same chain
over forked processors, with its own `task_num_`.  Over a non-empty list both build a head node
whose every down node is a node of the engine (`Engine.Chained`).

Processors are external: a node's processor is named by its identity, and what `Process`
returns and does to the package's data is left to the caller of `TaskNode.run`.
`Priority::Next` is declared in `priority.h`, which is not under `src/`, and is a parameter.

The tail answers descriptor by descriptor and reads `data[idx]` for each: a package whose
descriptors came from its items pairs every item with the descriptor it was pushed with
(`descs_migrate`), while a continuous package reaches the tail with one item for its
`data_num` descriptors, and the loop reads past the end of `data`, which is undefined
(`continuous_tail_unpaired`).  A node whose run is undefined is `none`
(`TaskNode.doneReports_isSome_iff`).
-/

namespace EasyDK
namespace InferServer

/-- `TaskNode`: the processor it runs, and the index of the node it hands packages to. -/
structure TaskNode where
  processor : Nat
  downnode : Option Nat
  deriving DecidableEq, Repr

/-- How `TaskNode::operator()` ends. -/
inductive NodeOutcome
  | failed (reports : List Report)
  | forward (node : Nat) (pack : Package)
  | done (reports : List Report)
  deriving DecidableEq, Repr

namespace TaskNode

/-- The loop of the tail: `descs[idx]->ctrl->ProcessDone(SUCCESS, data[idx], index)` for every
`idx < descs.size()`.  A null descriptor, or a `data` shorter than `descs`, has the loop read
through a null pointer or past the end of `data`: its behaviour is undefined (`none`). -/
def doneReports : List (Option TaskDesc) → List InferData → Option (List Report)
  | [], _ => some []
  | some t :: descs, it :: data =>
    (doneReports descs data).map (.processDone t.ctrl .success (some it) t.index :: ·)
  | _, _ => none

/-- `it->ctrl->ProcessFailed(s)` for every descriptor `it` of the package; undefined (`none`) on
a null descriptor. -/
def failedReports (s : Status) : List (Option TaskDesc) → Option (List Report)
  | [] => some []
  | some t :: descs => (failedReports s descs).map (.processFailed t.ctrl s :: ·)
  | none :: _ => none

/-- `Transmit`: to the down node at the next priority tier, or, at the tail, the answers to the
requests followed by the engine's done notifier. -/
def transmit (next : Int → Int) (node : TaskNode) (pack : Package) : Option NodeOutcome :=
  match node.downnode with
  | some k => some (.forward k { pack with priority := next pack.priority })
  | none => (doneReports pack.descs pack.data).map .done

/-- `operator()`, once `Process` has returned `s` and left the package as `pack`; `none` when
what it runs is undefined. -/
def run (next : Int → Int) (node : TaskNode) (s : Status) (pack : Package) :
    Option NodeOutcome :=
  if s ≠ .success then (failedReports s pack.descs).map .failed else transmit next node pack

/-- The tail's loop is defined exactly when every descriptor is set and `data` is at least as
long as `descs`. -/
theorem doneReports_isSome_iff : ∀ (descs : List (Option TaskDesc)) (data : List InferData),
    (doneReports descs data).isSome ↔ (∀ d ∈ descs, d.isSome) ∧ descs.length ≤ data.length
  | [], _ => by simp [doneReports]
  | none :: _, _ => by simp [doneReports]
  | some _ :: _, [] => by simp [doneReports]
  | some _ :: descs, _ :: data => by
    simp [doneReports, doneReports_isSome_iff descs data]

/-- Items with their own descriptors are answered item by item. -/
theorem doneReports_items : ∀ l : List InferData, (∀ it ∈ l, it.desc.isSome) →
    doneReports (l.map InferData.desc) (l.map InferData.erase) =
      some (l.filterMap fun it =>
        it.desc.map fun t => .processDone t.ctrl .success (some it.erase) t.index)
  | [], _ => rfl
  | it :: l, h => by
    obtain ⟨t, ht⟩ := Option.isSome_iff_exists.1 (h it (List.mem_cons_self _ _))
    simp [doneReports, ht, List.filterMap_cons,
      doneReports_items l fun x hx => h x (List.mem_cons_of_mem _ hx)]

/-- At the tail, a package that `Process` left successful is answered by the loop. -/
theorem run_tail {next : Int → Int} {node : TaskNode} (h : node.downnode = none)
    (pack : Package) : node.run next .success pack = (doneReports pack.descs pack.data).map .done := by
  simp [run, transmit, h]

end TaskNode

/-- An `Engine`: its chain of nodes and `task_num_`. -/
structure Engine where
  nodes : List TaskNode
  taskNum : Nat := 0
  deriving DecidableEq, Repr

namespace Engine

/-- A node per processor, node `idx` linked to node `idx + 1`. -/
def chain (processors : List Nat) : List TaskNode :=
  processors.enum.map fun (idx, p) =>
    { processor := p, downnode := if idx + 1 < processors.length then some (idx + 1) else none }

/-- `Engine::Engine`.  On an empty list `nodes_.size() - 1` would wrap around; the executor
always passes its processors. -/
def create (processors : List Nat) : Engine := { nodes := chain processors }

/-- `Engine::Fork`: the chain again, over forked processors (`clone`, `Processor::Fork`), with a
fresh `task_num_` that its own nodes' notifier decrements. -/
def fork (e : Engine) (clone : Nat → Nat) : Engine :=
  { nodes := chain (e.nodes.map fun n => clone n.processor) }

/-- What `Engine::Engine` and `Engine::Fork` build over a non-empty list: a head node, and every
node's down node a node of the engine. -/
def Chained (en : Engine) : Prop :=
  en.nodes ≠ [] ∧ ∀ node ∈ en.nodes, node.downnode.all (· < en.nodes.length)

instance : DecidablePred Chained := fun _ => inferInstanceAs (Decidable (_ ∧ _))

@[simp] theorem length_chain (processors : List Nat) :
    (chain processors).length = processors.length := by
  simp [chain]

theorem chain_chained {processors : List Nat} (h : processors ≠ []) (k : Nat) :
    Chained { nodes := chain processors, taskNum := k } := by
  refine ⟨by simpa [← List.length_pos] using h, fun node hn => ?_⟩
  obtain ⟨⟨idx, p⟩, -, rfl⟩ := List.mem_map.1 hn
  dsimp only
  split <;> simp [*]

theorem create_chained {processors : List Nat} (h : processors ≠ []) :
    (create processors).Chained :=
  chain_chained h 0

theorem Chained.fork {en : Engine} (h : en.Chained) (clone : Nat → Nat) :
    (en.fork clone).Chained :=
  chain_chained (by simpa using h.1) 0

/-- `task_num_` is no part of the chain. -/
@[simp] theorem chained_taskNum (en : Engine) (k : Nat) :
    Chained { en with taskNum := k } ↔ en.Chained := Iff.rfl

end Engine

/-- A node hands a package on only to its down node. -/
theorem TaskNode.run_forward {next : Int → Int} {node : TaskNode} {s : Status} {pack p : Package}
    {k : Nat} (h : node.run next s pack = some (.forward k p)) : node.downnode = some k := by
  unfold run transmit at h
  split_ifs at h
  · simp at h
  · split at h
    · cases h; assumption
    · simp at h

/-! ## Answers at the tail -/

variable {cfg : CacheConfig}

/-- Every item a well formed cache holds carries its descriptor. -/
theorem WellFormed.items_desc {c : Cache} (hwf : WellFormed cfg c) :
    ∀ it ∈ c.items, it.desc.isSome := by
  intro it hit
  rcases List.mem_append.1 hit with hit | hit
  · obtain ⟨q, hq, hit⟩ := List.mem_flatMap.1 hit
    exact (hwf.queue q hq).desc it hit
  · exact hwf.batcher_desc it hit

/-- What `Pop` makes of a queued package: `data_num` descriptors, all set; unless `data_num` is
its size, it is a continuous static package whose one item stands for `data_num` fresh
descriptors on its request. -/
theorem Queued.prepared_shape {q : Package} (hq : Queued cfg q) :
    (CacheBase.preparePackage cfg q).descs.length = q.dataNum ∧
      (∀ d ∈ (CacheBase.preparePackage cfg q).descs, d.isSome) ∧
      (q.dataNum ≠ q.data.length → cfg.strategy = .static ∧
        ∃ it ∈ q.data, ∃ ctrl, it.ctrl? = some ctrl ∧ q.data = [it] ∧
          (CacheBase.preparePackage cfg q).descs =
            (List.range q.dataNum).map fun i => some ⟨ctrl, i⟩) := by
  rcases hq.prepared_descs with ⟨hd, hnum⟩ | ⟨hs, it, hit, -, hd⟩
  · exact ⟨by simp [hd, hnum], by simpa [hd] using hq.desc, fun hn => absurd hnum hn⟩
  · obtain ⟨t, ht⟩ := Option.isSome_iff_exists.1 (hq.desc it (by simp [hit]))
    have hctrl : it.ctrl? = some t.ctrl := by simp [InferData.ctrl?, ht]
    exact ⟨by simp [hd], by simp [hd, hctrl],
      fun _ => ⟨hs, it, by simp [hit], t.ctrl, hctrl, hit, by simp [hd, hctrl]⟩⟩

/-- The tail answers a prepared package of `data_num` items item by item, each with the request
and index it was queued with. -/
theorem Queued.done_paired {q : Package} (hq : Queued cfg q) (hn : q.dataNum = q.data.length) :
    ∃ reps, TaskNode.doneReports (CacheBase.preparePackage cfg q).descs
        (CacheBase.preparePackage cfg q).data = some reps ∧
      ∀ rep ∈ reps, ∃ it ∈ q.data, ∃ t, it.desc = some t ∧
        rep = .processDone t.ctrl .success (some it.erase) t.index := by
  rcases hq.prepared_descs with ⟨hd, -⟩ | ⟨-, it, hit, hn1, -⟩
  · rw [hd, preparePackage_data, TaskNode.doneReports_items _ hq.desc]
    refine ⟨_, rfl, fun rep hrep => ?_⟩
    obtain ⟨it, hit, ht⟩ := List.mem_filterMap.1 hrep
    obtain ⟨t, htd, rfl⟩ := Option.map_eq_some'.1 ht
    exact ⟨it, hit, t, htd, rfl⟩
  · simp [hit] at hn
    exact absurd hn hn1

/-- Descriptor migration and result placement: along every run, the items a cache holds carry
their descriptors; every package `Pop` returns has `data_num` descriptors, all set, and items
without theirs; read back through its descriptors it is a subsequence of the pushed items,
unless it is a continuous static package, whose one pushed item stands for `data_num` fresh
descriptors on its request; and when processors leave a package of the first kind unchanged,
the tail's loop is defined and answers each item with the request and index it was pushed
with. -/
theorem descs_migrate {evs : List Event} {c : Cache} (h : Run cfg evs c) :
    (∀ it ∈ c.items, it.desc.isSome) ∧
      (∀ p ∈ poppedPackages evs, p.descs.length = p.dataNum ∧ (∀ d ∈ p.descs, d.isSome) ∧
        (∀ it ∈ p.data, it.desc = none) ∧
        (p.dataNum ≠ p.data.length → cfg.strategy = .static ∧
          ∃ it ∈ pushedItems evs, ∃ ctrl, it.ctrl? = some ctrl ∧ p.data = [it.erase] ∧
            p.descs = (List.range p.dataNum).map fun i => some ⟨ctrl, i⟩)) ∧
      List.Sublist ((poppedPackages evs).flatMap Package.restore) (pushedItems evs) ∧
      ∀ p ∈ poppedPackages evs, p.dataNum = p.data.length →
        ∀ (next : Int → Int) (node : TaskNode) (prio : Int), node.downnode = none →
          ∃ reps, node.run next .success { p with priority := prio } = some (.done reps) ∧
            ∀ rep ∈ reps, ∃ it ∈ pushedItems evs, ∃ t, it.desc = some t ∧
              rep = .processDone t.ctrl .success (some it.erase) t.index := by
  refine ⟨h.wellFormed.items_desc, fun p hp => ?_, h.restore_sublist,
    fun p hp hn _ _ _ hnode => ?_⟩
  · obtain ⟨q, hq, rfl, hmem⟩ := h.popped p hp
    obtain ⟨hlen, hsome, hcont⟩ := hq.prepared_shape
    refine ⟨by simpa using hlen, hsome, by simp [InferData.erase], fun hn => ?_⟩
    obtain ⟨hs, it, hit, ctrl, hctrl, hdata, hd⟩ := hcont (by simpa using hn)
    exact ⟨hs, it, hmem it hit, ctrl, hctrl, by simp [hdata], by simpa using hd⟩
  · obtain ⟨q, hq, rfl, hmem⟩ := h.popped p hp
    obtain ⟨reps, hreps, hall⟩ := hq.done_paired (by simpa using hn)
    refine ⟨reps, by rw [TaskNode.run_tail hnode]; simp only [hreps]; rfl, fun rep hrep => ?_⟩
    obtain ⟨it, hit, t, ht, rfl⟩ := hall rep hrep
    exact ⟨it, hmem it hit, t, ht, rfl⟩

/-- `descs_migrate` on a static run that returns a package. -/
theorem descs_migrate_sample :
    ∃ evs c, Run sampleStatic evs c ∧ poppedPackages evs ≠ [] ∧
      (∀ it ∈ c.items, it.desc.isSome) ∧
      (∀ p ∈ poppedPackages evs, p.descs.length = p.dataNum ∧ (∀ d ∈ p.descs, d.isSome) ∧
        (∀ it ∈ p.data, it.desc = none) ∧
        (p.dataNum ≠ p.data.length → sampleStatic.strategy = .static ∧
          ∃ it ∈ pushedItems evs, ∃ ctrl, it.ctrl? = some ctrl ∧ p.data = [it.erase] ∧
            p.descs = (List.range p.dataNum).map fun i => some ⟨ctrl, i⟩)) ∧
      List.Sublist ((poppedPackages evs).flatMap Package.restore) (pushedItems evs) ∧
      ∀ p ∈ poppedPackages evs, p.dataNum = p.data.length →
        ∀ (next : Int → Int) (node : TaskNode) (prio : Int), node.downnode = none →
          ∃ reps, node.run next .success { p with priority := prio } = some (.done reps) ∧
            ∀ rep ∈ reps, ∃ it ∈ pushedItems evs, ∃ t, it.desc = some t ∧
              rep = .processDone t.ctrl .success (some it.erase) t.index := by
  have h := (Run.sample sampleStatic).snoc (@Step.popPack _ (fun _ => false) _ _ _ _ rfl)
  exact ⟨_, _, h, by decide, descs_migrate h⟩

/-- A continuous package of three items, returned by a static cache of batch size 2 and left
unchanged by the processors, reaches the tail with one item for its three descriptors: the
tail's loop reads `data[1]` past the end, and its behaviour is undefined. -/
theorem continuous_tail_unpaired :
    ∃ evs c, Run sampleStatic evs c ∧ ∃ p ∈ poppedPackages evs,
      p.data.length = 1 ∧ p.descs.length = 3 ∧
      ∀ (next : Int → Int) (node : TaskNode), node.downnode = none →
        node.run next .success p = none := by
  have h := (Run.continuous sampleStatic).snoc
    (@Step.popPack _ (fun _ => false) _ _ _ _ rfl)
  exact ⟨_, _, h, _, List.mem_singleton_self _, rfl, rfl, fun _ _ hn => by
    rw [TaskNode.run_tail hn]; rfl⟩

end InferServer
end EasyDK
