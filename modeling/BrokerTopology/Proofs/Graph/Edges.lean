import Mathlib.Logic.Function.Iterate
import BrokerTopology.Proofs.Graph.WellFormed
/-!
# Publish edges

A publish edge is owned by a client and counted by a topic. Read from the clients, the edges are the
list of the topics that they name, `publications`. This file says how sending and sampling change
the edges of one client, what detaching a list of edges makes of the topics, and that the number of
publishers of a topic is the number of times the topic is listed.
-/

namespace BrokerTopology

/-! ## The edges of one client -/

namespace Client

variable {c : Client}

/-- The topics that a client publishes to, in listed order. -/
def publications (c : Client) : List String :=
  c.published.values.map Edge.topic

/-- A client publishes to no topic twice. -/
theorem WellFormed.publications_nodup (hc : c.WellFormed) : c.publications.Nodup :=
  hc.published.names_nodup

/-- A client publishes to a topic when it has an edge filed under it. -/
theorem WellFormed.mem_publications_iff (hc : c.WellFormed) {topic : String} :
    topic ∈ c.publications ↔ c.published.contains topic = true := by
  rw [hc.published.contains_iff, publications, List.mem_map]

/-- A topic is listed once if the client has an edge to it, and not at all otherwise. -/
theorem WellFormed.count_publications (hc : c.WellFormed) (topic : String) :
    c.publications.count topic = if c.published.contains topic then 1 else 0 := by
  rw [hc.publications_nodup.count]
  exact if_congr hc.mem_publications_iff rfl rfl

/-- A client stays well formed when its latency changes. -/
theorem WellFormed.withLatency (hc : c.WellFormed) (latency : Latency) :
    WellFormed { c with latency := latency } :=
  ⟨hc.published, hc.filters_nodup⟩

end Client

/-- Sending along a known edge keeps the edges and restarts the one; otherwise an edge is added. -/
theorem Topology.sendAlong_spec {c : Client} (hc : c.WellFormed) (topic : String) (ttl : Int)
    (bytes : Nat) :
    ∃ published, sendAlong c topic ttl bytes =
        .ok ({ c with published := published }, !c.published.contains topic) ∧
      published.NamedBy Edge.topic ∧
      (c.published.contains topic = true ∧
          published.values =
            c.published.values.map (fun e => if e.topic = topic then e.send ttl bytes else e) ∨
        c.published.contains topic = false ∧
          published.values.Perm (Edge.fresh topic ttl bytes :: c.published.values)) := by
  cases hknown : c.published.contains topic with
  | true =>
    refine ⟨_, by rw [sendAlong, hknown]; rfl, ?_, Or.inl ⟨rfl, ?_⟩⟩
    · exact hc.published.modify fun e _ htopic => htopic
    · exact hc.published.values_modify topic fun e => e.send ttl bytes
  | false =>
    obtain ⟨published, hinsert, hnamed, hperm⟩ :=
      hc.published.insert_spec (Edge.fresh topic ttl bytes) hknown
    have hinsert' : c.published.insert topic (.fresh topic ttl bytes) = .ok published := hinsert
    refine ⟨published, ?_, hnamed, Or.inr ⟨rfl, hperm⟩⟩
    rw [sendAlong, hknown, if_neg Bool.false_ne_true, hinsert']
    rfl

namespace Client

variable {c : Client}

/-! ## Sampling one client -/

/-- A sample keeps a client well formed, and every edge either expires or stays. -/
theorem sampled_spec (hc : c.WellFormed) (secs : Float) :
    (c.sampled secs).client.WellFormed ∧
      (c.sampled secs).client.published.values.Perm
        ((c.published.values.map (Edge.sampled secs)).filter fun e => !e.isExpired) ∧
      (c.sampled secs).expired =
        ((c.published.values.map (Edge.sampled secs)).filter Edge.isExpired).map Edge.topic := by
  have hnamed : (c.published.map (Edge.sampled secs)).NamedBy Edge.topic :=
    hc.published.map fun e _ => rfl
  obtain ⟨hkept, hvalues, hremoved⟩ := hnamed.removeIf_spec Edge.isExpired
  rw [Dict.values_map] at hvalues hremoved
  refine ⟨⟨hkept, hc.filters_nodup⟩, hvalues, ?_⟩
  rw [sampled]
  dsimp only
  rw [hremoved, List.map_map]
  rfl

/-- A sample changes neither the address nor the id of a client. -/
@[simp] theorem key_sampled (c : Client) (secs : Float) : (c.sampled secs).client.key = c.key := rfl

/-- The edges before a sample are those that expire and those that stay. -/
theorem publications_perm_sampled (hc : c.WellFormed) (secs : Float) :
    c.publications.Perm ((c.sampled secs).expired ++ (c.sampled secs).client.publications) := by
  obtain ⟨-, hvalues, hexpired⟩ := sampled_spec hc secs
  have hall : c.publications = (c.published.values.map (Edge.sampled secs)).map Edge.topic := by
    rw [publications, List.map_map]
    rfl
  have hsplit := List.filter_append_perm Edge.isExpired (c.published.values.map (Edge.sampled secs))
  rw [hexpired, hall]
  refine (hsplit.symm.map Edge.topic).trans ?_
  rw [List.map_append]
  exact ((hvalues.map Edge.topic).symm).append_left _

end Client

/-! ## The edges of all clients -/

namespace Topology

variable {s : Topology}

/-- The topics that the clients publish to, once for every edge. -/
def publications (s : Topology) : List String :=
  s.clients.flatMap Client.publications

/-- The publishers of a topic are counted by the edges that name it. -/
theorem publisherCount_eq_count (hs : s.WellFormed) (topic : String) :
    s.publisherCount topic = s.publications.count topic := by
  have hwf : ∀ c ∈ s.clients, c.WellFormed := fun c hc => hs.client hc
  rw [publisherCount, publications]
  generalize s.clients = cs at hwf
  induction cs with
  | nil => rfl
  | cons c cs ih =>
    obtain ⟨hc, hcs⟩ := List.forall_mem_cons.mp hwf
    -- a client counts once or not at all, as its edges name a topic at most once
    rw [List.flatMap_cons, List.count_append, hc.count_publications, ← ih hcs, List.filter_cons]
    split
    · rw [List.length_cons, Nat.add_comm]
    · rw [Nat.zero_add]

end Topology

/-! ## Detaching edges -/

namespace Topic

/-- The topic after a number of its publish edges have gone. -/
def detachTimes (budget n : Nat) (t : Topic) : Topic :=
  (detach budget)^[n] t

variable {budget n : Nat} {t : Topic}

@[simp] theorem name_detachTimes : (t.detachTimes budget n).name = t.name := by
  induction n generalizing t with
  | zero => rfl
  | succ n ih => exact ih

@[simp] theorem subscribers_detachTimes : (t.detachTimes budget n).subscribers = t.subscribers := by
  induction n generalizing t with
  | zero => rfl
  | succ n ih => exact ih

@[simp] theorem publishers_detachTimes :
    (t.detachTimes budget n).publishers = t.publishers - n := by
  induction n generalizing t with
  | zero => rfl
  | succ n ih =>
    rw [detachTimes, Function.iterate_succ_apply, ← detachTimes, ih, detach]
    exact Nat.sub_sub t.publishers 1 n |>.trans (by rw [Nat.add_comm])

/-- Detaching keeps a topic active exactly as long as it has a publisher. -/
theorem active_iff_detachTimes (h : t.state = .active ↔ 0 < t.publishers) :
    (t.detachTimes budget n).state = .active ↔ 0 < (t.detachTimes budget n).publishers := by
  induction n generalizing t with
  | zero => exact h
  | succ n ih =>
    refine ih ?_
    rw [detach]
    dsimp only
    split
    · rename_i hlast
      rw [hlast]
      simp
    · rename_i hmore
      rw [h]
      omega

end Topic

namespace Topology

/-- Detaching the edges of a list takes from every topic as many publishers as the list has edges to
it, and changes nothing else. -/
theorem detachAll_spec (budget : Nat) {topics : Dict Topic} (h : topics.NamedBy Topic.name)
    (names : List String) :
    (detachAll budget topics names).NamedBy Topic.name ∧
      (detachAll budget topics names).values =
        topics.values.map fun t => t.detachTimes budget (names.count t.name) := by
  induction names generalizing topics with
  | nil =>
    have hnone : ∀ t ∈ topics.values, t.detachTimes budget (([] : List String).count t.name) = id t :=
      fun t _ => rfl
    refine ⟨h, ?_⟩
    rw [List.map_congr_left hnone, List.map_id]
    rfl
  | cons name names ih =>
    have hmodify : (topics.modify name (Topic.detach budget)).NamedBy Topic.name :=
      h.modify fun t _ hname => hname
    obtain ⟨hnamed, hvalues⟩ := ih hmodify
    -- the topic of the first edge is detached once more than by the rest of the list
    refine ⟨hnamed, hvalues.trans ?_⟩
    rw [h.values_modify, List.map_map]
    refine List.map_congr_left fun t _ => ?_
    simp only [Function.comp]
    split
    · rename_i hname
      have hname' : (t.detach budget).name = t.name := rfl
      rw [hname', List.count_cons, hname, beq_self_eq_true, if_pos rfl]
      rfl
    · rename_i hother
      rw [List.count_cons_of_ne fun hname => hother hname.symm]

end Topology

end BrokerTopology
