import EasyDK.InferServer.Server
import Mathlib.Data.List.Nodup
/-!
# The executor registry

What `executor_map_` keeps true under every interleaving of `CreateSession` and
`DestroySession`: each name maps to one executor, that executor carries the name and has not
been deleted, and a pending `delete executor` never targets a registered executor.  Hence
`CreateExecutor` returns a registered executor exactly for its name (`createExecutor_eq_iff`).

The registry does not say that the executor a `CreateSession` holds stays registered until its
`Link`: it need not (`link_after_destroy`).
-/

namespace EasyDK
namespace InferServer

/-- What the registry reads of an executor: its name and whether it was deleted. -/
def Executor.tag (ex : Executor) : String × Bool := (ex.name, ex.deleted)

/-- Changing an executor's sessions leaves every tag alone. -/
theorem map_tag_modify {g : Executor → Executor} (hg : ∀ ex, (g ex).tag = ex.tag) :
    ∀ (e : Nat) (l : List Executor), (l.modify g e).map Executor.tag = l.map Executor.tag
  | e, [] => by cases e <;> rfl
  | 0, ex :: l => by simp [List.modify_zero_cons, hg]
  | e + 1, ex :: l => by simp [List.modify_succ_cons, map_tag_modify hg e l]

theorem lookup_eq_of_mem {n : String} {e : Nat} : ∀ {m : List (String × Nat)},
    (m.map Prod.fst).Nodup → (n, e) ∈ m → m.lookup n = some e
  | [], _, h => absurd h (List.not_mem_nil _)
  | (k, v) :: m, hnd, h => by
    rw [List.map_cons, List.nodup_cons] at hnd
    rcases List.mem_cons.1 h with h | h
    · cases h; simp
    · have hne : (n == k) = false := by
        simpa using fun hk : n = k => hnd.1 (hk ▸ List.mem_map.2 ⟨_, h, rfl⟩)
      simp [List.lookup_cons, hne, lookup_eq_of_mem hnd.2 h]

theorem mem_of_lookup_eq {m : List (String × Nat)} {n : String} {e : Nat}
    (h : m.lookup n = some e) : (n, e) ∈ m := by
  obtain ⟨l₁, l₂, rfl, -⟩ := List.lookup_eq_some_iff.1 h
  simp

/-- `executor_map_` names live executors, under their own names, once each, and no pending
`delete executor` targets one of them. -/
structure Registry (w : Server) : Prop where
  live : ∀ n e, (n, e) ∈ w.executorMap →
    ∃ ex, w.executors[e]? = some ex ∧ ex.name = n ∧ ex.deleted = false
  nodup : (w.executorMap.map Prod.fst).Nodup
  pending : ∀ e, Call.deleteExecutor e ∈ w.calls →
    e < w.executors.length ∧ ∀ n, (n, e) ∉ w.executorMap

namespace Registry

variable {w w' : Server}

/-- A step that keeps the map and every executor's tag, and starts no deletion, keeps the
registry. -/
theorem frame (hr : Registry w) (hmap : w'.executorMap = w.executorMap)
    (htag : w'.executors.map Executor.tag = w.executors.map Executor.tag)
    (hcalls : ∀ e, Call.deleteExecutor e ∈ w'.calls → Call.deleteExecutor e ∈ w.calls) :
    Registry w' := by
  have hlen : w'.executors.length = w.executors.length := by
    simpa using congrArg List.length htag
  refine ⟨fun n e hn => ?_, hmap ▸ hr.nodup, fun e he => ?_⟩
  · obtain ⟨ex, hex, rfl, hdel⟩ := hr.live n e (hmap ▸ hn)
    have := congrArg (·[e]?) htag
    simp only [List.getElem?_map, hex, Option.map_some'] at this
    obtain ⟨ex', hex', htag'⟩ := Option.map_eq_some'.1 this
    simp only [Executor.tag, Prod.mk.injEq] at htag'
    exact ⟨ex', hex', htag'.1, htag'.2.trans hdel⟩
  · rw [hlen, hmap]
    exact hr.pending e (hcalls e he)

/-- Taking a call out of the calls in progress keeps the registry. -/
theorem erase (hr : Registry w) (c : Call) : Registry { w with calls := w.calls.erase c } :=
  hr.frame rfl rfl fun _ he => List.mem_of_mem_erase he

/-- Adding a call that deletes nothing keeps the registry. -/
theorem append (hr : Registry w) {c : Call} (hc : ∀ e, c ≠ .deleteExecutor e) :
    Registry { w with calls := w.calls ++ [c] } :=
  hr.frame rfl rfl fun e he => by
    rcases List.mem_append.1 he with he | he
    · exact he
    · exact absurd (List.mem_singleton.1 he).symm (hc e)

theorem createExecutor (hr : Registry w) (name : String) (k : Nat) :
    Registry (w.createExecutor name k).2 := by
  unfold Server.createExecutor
  cases hl : w.executorMap.lookup name with
  | some e => exact hr
  | none =>
    have hfresh : name ∉ w.executorMap.map Prod.fst := fun hm => by
      obtain ⟨⟨k, v⟩, hk, rfl⟩ := List.mem_map.1 hm
      simpa using List.lookup_eq_none_iff.1 hl _ hk
    refine ⟨fun n e hn => ?_, ?_, fun e he => ?_⟩
    · rcases List.mem_append.1 hn with hn | hn
      · obtain ⟨ex, hex, hname, hdel⟩ := hr.live n e hn
        exact ⟨ex, by rw [List.getElem?_append_left (List.getElem?_eq_some_iff.1 hex).1, hex],
          hname, hdel⟩
      · obtain ⟨rfl, rfl⟩ := Prod.mk.inj (List.mem_singleton.1 hn)
        exact ⟨{ name := n, engineNum := k }, by simp, rfl, rfl⟩
    · rw [List.map_append, List.nodup_append]
      exact ⟨hr.nodup, List.nodup_singleton _, List.disjoint_singleton.2 hfresh⟩
    · obtain ⟨hlt, hnot⟩ := hr.pending e he
      refine ⟨by simp; omega, fun n hn => ?_⟩
      rcases List.mem_append.1 hn with hn | hn
      · exact hnot n hn
      · simp at hn; omega

theorem link (hr : Registry w) (desc : SessionDesc) (e : Nat) : Registry (w.link desc e) :=
  hr.frame rfl (map_tag_modify (g := fun ex => { ex with sessions := ex.sessions ++ _ })
    (fun _ => rfl) e _) fun _ he => he

theorem unlink (hr : Registry w) (s e : Nat) : Registry (w.unlink s e) :=
  hr.frame rfl (map_tag_modify (g := fun ex => { ex with sessions := ex.sessions.erase s })
    (fun _ => rfl) e _) fun _ he => he

/-- The section of `CheckAndDestroyExecutor` keeps the registry: the name it erases is the
executor's own, so the deletion it schedules targets no registered executor. -/
theorem checkAndDestroy (hr : Registry w) {s e : Nat} {w₁ : Server} {last : Bool}
    (h : w.checkAndDestroy s e = some (w₁, last)) :
    Registry (if last then { w₁ with calls := w₁.calls ++ [.deleteExecutor e] } else w₁) := by
  have hu := hr.unlink s e
  unfold Server.checkAndDestroy at h
  cases hex : (w.unlink s e).executors[e]? with
  | none => simp [hex] at h
  | some ex =>
    simp only [hex] at h
    split_ifs at h
    · cases h
      refine ⟨fun n e' hn => hu.live n e' (List.mem_filter.1 hn).1,
        hu.nodup.sublist ((List.filter_sublist _).map _), fun e' he' => ?_⟩
      rcases List.mem_append.1 he' with he' | he'
      · obtain ⟨hlt, hnot⟩ := hu.pending e' he'
        exact ⟨hlt, fun n hn => hnot n (List.mem_filter.1 hn).1⟩
      · cases List.mem_singleton.1 he'
        refine ⟨(List.getElem?_eq_some_iff.1 hex).1, fun n hn => ?_⟩
        obtain ⟨hn, hne⟩ := List.mem_filter.1 hn
        obtain ⟨ex', hex', rfl, -⟩ := hu.live n e hn
        rw [hex] at hex'
        cases hex'
        simp at hne
    · cases h
      exact hu

/-- `delete executor` keeps the registry: it targets no registered executor. -/
theorem deleteExecutor (hr : Registry w) {e : Nat} (he : Call.deleteExecutor e ∈ w.calls) :
    Registry { w.deleteExecutor e with
      calls := w.calls.erase (.deleteExecutor e) ++ [.shrinkPool (w.thNum e)] } := by
  have hr' := (hr.erase (.deleteExecutor e)).append (c := .shrinkPool (w.thNum e)) fun _ => by simp
  obtain ⟨-, hnot⟩ := hr.pending e he
  refine ⟨fun n e' hn => ?_, hr'.nodup, fun e' he' => ?_⟩
  · obtain ⟨ex, hex, hname, hdel⟩ := hr'.live n e' hn
    have hne : e ≠ e' := fun h => hnot n (h ▸ hn)
    exact ⟨ex, by simp [Server.deleteExecutor, List.getElem?_modify, hne, hex], hname, hdel⟩
  · obtain ⟨hlt, hn⟩ := hr'.pending e' he'
    exact ⟨by simpa [Server.deleteExecutor] using hlt, hn⟩

end Registry

/-- Every step keeps the registry. -/
theorem ServerStep.registry {cfg : ServerConfig} {w w' : Server} (hs : ServerStep cfg w w')
    (hr : Registry w) : Registry w' := by
  cases hs with
  | createSession desc => exact hr.append fun _ => by simp
  | destroySession _ =>
    refine hr.frame rfl rfl fun e he => ?_
    rcases List.mem_append.1 he with he | he
    · exact he
    · simp at he
  | executorFails => exact hr.erase _
  | @advance _ c hc idle _ h =>
    have hr₀ := hr.erase c
    cases c with
    | createSession desc =>
      obtain ⟨name, -, rfl⟩ := Option.map_eq_some'.1 h
      have := hr₀.createExecutor name desc.engineNum
      rcases hce : Server.createExecutor _ name desc.engineNum with ⟨e, w₁⟩
      rw [hce] at this
      exact this.append fun _ => by split <;> simp
    | growPool desc e =>
      cases h
      exact hr₀.frame rfl rfl fun e he => by simpa using he
    | link desc e =>
      cases h
      exact hr₀.link desc e
    | destroySession s =>
      obtain ⟨⟨d, e⟩, -, rfl⟩ := Option.map_eq_some'.1 h
      dsimp only
      split
      · exact hr₀.append fun _ => by simp
      · exact hr₀
    | checkAndDestroy s e =>
      obtain ⟨⟨w₁, last⟩, h₁, rfl⟩ := Option.map_eq_some'.1 h
      exact hr₀.checkAndDestroy h₁
    | deleteExecutor e =>
      cases h
      exact hr.deleteExecutor hc
    | shrinkPool th =>
      cases h
      exact hr₀.frame rfl rfl fun e he => he

/-- Every reachable server keeps the registry. -/
theorem ServerReachable.registry {cfg : ServerConfig} {w : Server} (h : ServerReachable cfg w) :
    Registry w := by
  induction h with
  | init => exact ⟨by simp, by simp, by simp⟩
  | step _ hs ih => exact hs.registry ih

/-- Deduplication by name, under every interleaving of `CreateSession` and `DestroySession`:
`executor_map_` holds each name once and maps it to an executor of that name not deleted, a
pending `delete executor` targets no registered executor, and while an executor is registered
under a name, `CreateExecutor` returns it exactly when asked for that name. -/
theorem createExecutor_eq_iff {cfg : ServerConfig} {w : Server} (h : ServerReachable cfg w) :
    (w.executorMap.map Prod.fst).Nodup ∧
      (∀ n e, (n, e) ∈ w.executorMap →
        ∃ ex, w.executors[e]? = some ex ∧ ex.name = n ∧ ex.deleted = false) ∧
      (∀ e, Call.deleteExecutor e ∈ w.calls → ∀ n, (n, e) ∉ w.executorMap) ∧
      ∀ n e, (n, e) ∈ w.executorMap → ∀ name k, (w.createExecutor name k).1 = e ↔ name = n := by
  have hr := h.registry
  refine ⟨hr.nodup, hr.live, fun e he => (hr.pending e he).2, fun n e he name k => ?_⟩
  obtain ⟨ex, hex, rfl, -⟩ := hr.live n e he
  constructor
  · unfold Server.createExecutor
    cases hl : w.executorMap.lookup name with
    | some e' =>
      rintro rfl
      obtain ⟨ex', hex', hname, -⟩ := hr.live name _ (mem_of_lookup_eq hl)
      rw [hex] at hex'
      cases hex'
      exact hname.symm
    | none =>
      intro hlen
      have := (List.getElem?_eq_some_iff.1 hex).1
      simp only at hlen
      omega
  · rintro rfl
    simp [Server.createExecutor, lookup_eq_of_mem hr.nodup he]

/-- `createExecutor_eq_iff` once a session of `sampleDesc` is open. -/
theorem createExecutor_eq_iff_sample :
    ∃ w, ServerReachable sampleServer w ∧ ("resnet_subnet0_Pre_Post", 0) ∈ w.executorMap ∧
      (w.executorMap.map Prod.fst).Nodup ∧
      (∀ n e, (n, e) ∈ w.executorMap →
        ∃ ex, w.executors[e]? = some ex ∧ ex.name = n ∧ ex.deleted = false) ∧
      (∀ e, Call.deleteExecutor e ∈ w.calls → ∀ n, (n, e) ∉ w.executorMap) ∧
      ∀ n e, (n, e) ∈ w.executorMap → ∀ name k, (w.createExecutor name k).1 = e ↔ name = n := by
  have h := ((((@ServerReachable.init sampleServer 0).createSession sampleDesc).advance
    (c := .createSession sampleDesc) (by decide) rfl).advance (c := .growPool sampleDesc 0)
    (by decide) rfl).advance (c := .link sampleDesc 0) (by decide) rfl
  exact ⟨_, h, by decide, createExecutor_eq_iff h⟩

end InferServer
end EasyDK
