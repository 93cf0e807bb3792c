import EasyDK.InferServer.Registry
/-!
# Sessions a user holds

`CreateSession` links the session it returns to its executor, and `CheckAndDestroyExecutor`
unlinks only the session its `DestroySession` was given, which its user no longer holds.  So
under every interleaving, every session a user holds is linked to the executor it was created
on, and is held once (`held_session_linked`).  The executor may have been deleted meanwhile
(`link_after_destroy`): the links say nothing of that.
-/

namespace EasyDK
namespace InferServer

/-- The executor a `CreateSession` in progress will link its session to. -/
def Call.linkTarget? : Call → Option Nat
  | .growPool _ e | .link _ e => some e
  | _ => none

/-- The session a `DestroySession` in progress was given. -/
def Call.released? : Call → Option Nat
  | .destroySession s | .checkAndDestroy s _ => some s
  | _ => none

/-- The sessions users hold are distinct and linked to their executors; a `CreateSession` in
progress links to an executor that exists; a `DestroySession` in progress holds a session made
earlier that no user holds any more. -/
structure Held (w : Server) : Prop where
  nodup : w.held.Nodup
  linked : ∀ s ∈ w.held, ∃ desc e ex,
    w.sessions[s]? = some (desc, e) ∧ w.executors[e]? = some ex ∧ s ∈ ex.sessions
  target : ∀ c ∈ w.calls, ∀ e ∈ c.linkTarget?, e < w.executors.length
  released : ∀ c ∈ w.calls, ∀ s ∈ c.released?, s ∉ w.held ∧ s < w.sessions.length

/-- Changing executor `e` so that it keeps session `s` keeps `s` linked. -/
theorem mem_sessions_modify {g : Executor → Executor} {s : Nat}
    (hg : ∀ ex, s ∈ ex.sessions → s ∈ (g ex).sessions) (e : Nat) {l : List Executor}
    {e' : Nat} {ex : Executor} (hex : l[e']? = some ex) (hs : s ∈ ex.sessions) :
    ∃ ex', (l.modify g e)[e']? = some ex' ∧ s ∈ ex'.sessions := by
  rw [List.getElem?_modify, hex]
  split
  · exact ⟨g ex, rfl, hg ex hs⟩
  · exact ⟨ex, rfl, hs⟩

/-- The index `CreateExecutor` returns names an executor. -/
theorem Registry.createExecutor_lt {w : Server} (hr : Registry w) (name : String) (k : Nat) :
    (w.createExecutor name k).1 < (w.createExecutor name k).2.executors.length := by
  unfold Server.createExecutor
  split
  · rename_i e hl
    obtain ⟨ex, hex, -⟩ := hr.live name e (mem_of_lookup_eq hl)
    exact (List.getElem?_eq_some_iff.1 hex).1
  · simp

/-- What `CheckAndDestroyExecutor`'s section does besides `Unlink`: at most erase names from
the map. -/
theorem Server.checkAndDestroy_eq {w w₁ : Server} {s e : Nat} {last : Bool}
    (h : w.checkAndDestroy s e = some (w₁, last)) :
    ∃ m, w₁ = { w.unlink s e with executorMap := m } := by
  unfold Server.checkAndDestroy at h
  dsimp only at h
  split at h
  · cases h
  · split_ifs at h
    · cases h
      exact ⟨_, rfl⟩
    · cases h
      exact ⟨_, rfl⟩

namespace Held

variable {w : Server}

/-- The map and the pool are no part of the invariant. -/
theorem with_map (hh : Held w) (m : List (String × Nat)) : Held { w with executorMap := m } :=
  ⟨hh.nodup, hh.linked, hh.target, hh.released⟩

theorem with_threads (hh : Held w) (n : Nat) : Held { w with threads := n } :=
  ⟨hh.nodup, hh.linked, hh.target, hh.released⟩

theorem erase (hh : Held w) (c : Call) : Held { w with calls := w.calls.erase c } :=
  ⟨hh.nodup, hh.linked, fun c' hc => hh.target c' (List.mem_of_mem_erase hc),
    fun c' hc => hh.released c' (List.mem_of_mem_erase hc)⟩

theorem append (hh : Held w) {c : Call} (ht : ∀ e ∈ c.linkTarget?, e < w.executors.length)
    (hr : ∀ s ∈ c.released?, s ∉ w.held ∧ s < w.sessions.length) :
    Held { w with calls := w.calls ++ [c] } := by
  refine ⟨hh.nodup, hh.linked, fun c' hc => ?_, fun c' hc => ?_⟩ <;>
    rcases List.mem_append.1 hc with hc | hc
  · exact hh.target c' hc
  · rwa [List.mem_singleton.1 hc]
  · exact hh.released c' hc
  · rwa [List.mem_singleton.1 hc]

theorem createExecutor (hh : Held w) (name : String) (k : Nat) :
    Held (w.createExecutor name k).2 := by
  unfold Server.createExecutor
  split
  · exact hh
  · refine ⟨hh.nodup, fun s hs => ?_, fun c hc e he => ?_, hh.released⟩
    · obtain ⟨d, e, ex, hse, hex, hmem⟩ := hh.linked s hs
      exact ⟨d, e, ex, hse,
        by rw [List.getElem?_append_left (List.getElem?_eq_some_iff.1 hex).1, hex], hmem⟩
    · have := hh.target c hc e he
      simp only [List.length_append, List.length_singleton]
      omega

/-- `new Session` and `Link` make a fresh session, linked to an executor that exists. -/
theorem link (hh : Held w) {desc : SessionDesc} {e : Nat} (he : e < w.executors.length) :
    Held (w.link desc e) := by
  have hfresh : w.sessions.length ∉ w.held := fun hm => by
    obtain ⟨_, _, _, hs, -⟩ := hh.linked _ hm
    simp at hs
  refine ⟨hh.nodup.append (List.nodup_singleton _) (List.disjoint_singleton.2 hfresh),
    fun s hs => ?_, fun c hc e' he' => ?_, fun c hc s hs => ?_⟩
  · rcases List.mem_append.1 hs with hs | hs
    · obtain ⟨d, e', ex, hse, hex, hmem⟩ := hh.linked s hs
      obtain ⟨ex', hex', hmem'⟩ := mem_sessions_modify
        (g := fun ex => { ex with sessions := ex.sessions ++ [w.sessions.length] })
        (fun _ hs => List.mem_append_left _ hs) e hex hmem
      exact ⟨d, e', ex', by
        rw [Server.link, List.getElem?_append_left (List.getElem?_eq_some_iff.1 hse).1, hse],
        hex', hmem'⟩
    · rw [List.mem_singleton.1 hs]
      refine ⟨desc, e, { w.executors[e] with sessions := w.executors[e].sessions ++ _ },
        by simp [Server.link], ?_, List.mem_append_right _ (List.mem_singleton_self _)⟩
      simp only [Server.link, List.getElem?_modify, if_true, List.getElem?_eq_getElem he]
      rfl
  · simpa [Server.link] using hh.target c hc e' he'
  · obtain ⟨hn, hlt⟩ := hh.released c hc s hs
    refine ⟨fun hm => ?_, by simp [Server.link]; omega⟩
    rcases List.mem_append.1 hm with hm | hm
    · exact hn hm
    · simp at hm; omega

/-- `Unlink` of a session no user holds keeps every held session linked. -/
theorem unlink (hh : Held w) {s : Nat} (hs : s ∉ w.held) (e : Nat) : Held (w.unlink s e) := by
  refine ⟨hh.nodup, fun s' hs' => ?_, fun c hc e' he' => ?_, hh.released⟩
  · obtain ⟨d, e', ex, hse, hex, hmem⟩ := hh.linked s' hs'
    have hne : s' ≠ s := fun h => hs (h ▸ hs')
    obtain ⟨ex', hex', hmem'⟩ := mem_sessions_modify
      (g := fun ex => { ex with sessions := ex.sessions.erase s })
      (fun _ h => (List.mem_erase_of_ne hne).2 h) e hex hmem
    exact ⟨d, e', ex', hse, hex', hmem'⟩
  · simpa [Server.unlink] using hh.target c hc e' he'

theorem checkAndDestroy (hh : Held w) {s e : Nat} (hs : s ∉ w.held) {w₁ : Server} {last : Bool}
    (h : w.checkAndDestroy s e = some (w₁, last)) : Held w₁ := by
  obtain ⟨m, rfl⟩ := Server.checkAndDestroy_eq h
  exact (hh.unlink hs e).with_map m

/-- `delete executor` leaves its links as they are. -/
theorem deleteExecutor (hh : Held w) (e : Nat) : Held (w.deleteExecutor e) := by
  refine ⟨hh.nodup, fun s hs => ?_, fun c hc e' he' => ?_, hh.released⟩
  · obtain ⟨d, e', ex, hse, hex, hmem⟩ := hh.linked s hs
    obtain ⟨ex', hex', hmem'⟩ := mem_sessions_modify
      (g := fun ex => { ex with deleted := true }) (fun _ h => h) e hex hmem
    exact ⟨d, e', ex', hse, hex', hmem'⟩
  · simpa [Server.deleteExecutor] using hh.target c hc e' he'

/-- A user giving a session to `DestroySession` no longer holds it. -/
theorem destroySession (hh : Held w) {s : Nat} (hs : s ∈ w.held) :
    Held { w with held := w.held.erase s, calls := w.calls ++ [.destroySession s] } := by
  obtain ⟨_, _, _, hse, -⟩ := hh.linked s hs
  refine ⟨hh.nodup.erase s, fun s' hs' => hh.linked s' (List.mem_of_mem_erase hs'),
    fun c hc e he => ?_, fun c hc s' hs' => ?_⟩ <;> rcases List.mem_append.1 hc with hc | hc
  · exact hh.target c hc e he
  · simp [List.mem_singleton.1 hc, Call.linkTarget?] at he
  · obtain ⟨hn, hlt⟩ := hh.released c hc s' hs'
    exact ⟨fun hm => hn (List.mem_of_mem_erase hm), hlt⟩
  · simp only [List.mem_singleton.1 hc, Call.released?, Option.mem_def, Option.some.injEq] at hs'
    subst hs'
    exact ⟨hh.nodup.not_mem_erase, (List.getElem?_eq_some_iff.1 hse).1⟩

end Held

/-- Every step keeps the sessions users hold linked. -/
theorem ServerStep.held {cfg : ServerConfig} {w w' : Server} (hs : ServerStep cfg w w')
    (hr : Registry w) (hh : Held w) : Held w' := by
  cases hs with
  | createSession desc => exact hh.append (by simp [Call.linkTarget?]) (by simp [Call.released?])
  | destroySession hs => exact hh.destroySession hs
  | executorFails => exact hh.erase _
  | @advance _ c hc idle _ h =>
    have hh₀ := hh.erase c
    cases c with
    | createSession desc =>
      obtain ⟨name, -, rfl⟩ := Option.map_eq_some'.1 h
      have hlt := (hr.erase (.createSession desc)).createExecutor_lt name desc.engineNum
      have hh₁ := hh₀.createExecutor name desc.engineNum
      rcases hce : Server.createExecutor _ name desc.engineNum with ⟨e, w₁⟩
      rw [hce] at hh₁ hlt
      exact hh₁.append (by split <;> simpa [Call.linkTarget?] using hlt)
        (by split <;> simp [Call.released?])
    | growPool desc e =>
      cases h
      exact (hh₀.with_threads (Server.growThreads cfg.maxThreads desc.engineNum w.threads)).append
        (c := .link desc e) (by simpa [Call.linkTarget?] using hh.target _ hc e rfl)
        (by simp [Call.released?])
    | link desc e =>
      cases h
      exact hh₀.link (hh.target _ hc e rfl)
    | destroySession s =>
      obtain ⟨⟨d, e⟩, -, rfl⟩ := Option.map_eq_some'.1 h
      dsimp only
      split
      · exact hh₀.append (by simp [Call.linkTarget?]) fun _ hs' => by
          simpa [Call.released?] using hh.released _ hc _ hs'
      · exact hh₀
    | checkAndDestroy s e =>
      obtain ⟨⟨w₁, last⟩, h₁, rfl⟩ := Option.map_eq_some'.1 h
      have hh₁ := hh₀.checkAndDestroy (hh.released _ hc s rfl).1 h₁
      dsimp only
      split
      · exact hh₁.append (by simp [Call.linkTarget?]) (by simp [Call.released?])
      · exact hh₁
    | deleteExecutor e =>
      cases h
      exact (hh₀.deleteExecutor e).append (by simp [Call.linkTarget?]) (by simp [Call.released?])
    | shrinkPool th =>
      cases h
      exact hh₀.with_threads _

theorem ServerReachable.held {cfg : ServerConfig} {w : Server} (h : ServerReachable cfg w) :
    Held w := by
  induction h with
  | init => exact ⟨List.nodup_nil, by simp, by simp, by simp⟩
  | step hr hs ih => exact hs.held hr.registry ih

/-- Under every interleaving of `CreateSession` and `DestroySession`, the sessions users hold are
distinct, and each is linked to the executor it was created on: a `DestroySession` unlinks only
the session it was given. -/
theorem held_session_linked {cfg : ServerConfig} {w : Server} (h : ServerReachable cfg w) :
    w.held.Nodup ∧ ∀ s ∈ w.held, ∃ desc e ex,
      w.sessions[s]? = some (desc, e) ∧ w.executors[e]? = some ex ∧ s ∈ ex.sessions :=
  ⟨h.held.nodup, h.held.linked⟩

/-- `held_session_linked` once two sessions of `sampleDesc` share an executor and the first has
been destroyed. -/
theorem held_session_linked_sample :
    ∃ w, ServerReachable sampleServer w ∧ w.held = [1] ∧
      (w.held.Nodup ∧ ∀ s ∈ w.held, ∃ desc e ex,
        w.sessions[s]? = some (desc, e) ∧ w.executors[e]? = some ex ∧ s ∈ ex.sessions) := by
  have h := ((((@ServerReachable.init sampleServer 0).createSession sampleDesc).advance
    (c := .createSession sampleDesc) (by decide) rfl).advance (c := .growPool sampleDesc 0)
    (by decide) rfl).advance (c := .link sampleDesc 0) (by decide) rfl
  have h := (((h.createSession sampleDesc).advance (c := .createSession sampleDesc) (by decide)
    rfl).advance (c := .link sampleDesc 0) (by decide) rfl).destroySession (s := 0) (by decide)
  have h := (h.advance (c := .destroySession 0) (by decide) rfl).advance
    (c := .checkAndDestroy 0 0) (by decide) rfl
  exact ⟨_, h, rfl, held_session_linked h⟩

end InferServer
end EasyDK
