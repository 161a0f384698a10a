import BrokerTopology.Proofs.Graph.Run
/-!
# Publishers are counted right

A topic counts its publishers by hand, while the edges that it counts are owned by the clients. The
two agree after every run of operations: a topic counts the clients with an edge to it, it is active
as long as there is one, and no edge names a topic that is not listed. The invariant `Counted` says
so of the list of topics and the list of edges, which every effect changes together.
-/

namespace BrokerTopology

/-! ## Topics and edges that agree -/

/-- The topics count the edges that name them, and every edge names a listed topic. -/
structure Counted (topics : List Topic) (edges : List String) : Prop where
  publishers_eq : ∀ t ∈ topics, t.publishers = edges.count t.name
  active_iff : ∀ t ∈ topics, (t.state = .active ↔ 0 < t.publishers)
  listed : ∀ name ∈ edges, ∃ t ∈ topics, t.name = name

namespace Counted

variable {topics topics' : List Topic} {edges edges' : List String}

/-- Without topics and edges there is nothing to count. -/
theorem nil : Counted [] [] where
  publishers_eq := fun _ ht => by cases ht
  active_iff := fun _ ht => by cases ht
  listed := fun _ hname => by cases hname

/-- Neither the order of the topics nor that of the edges matters. -/
theorem congr (h : Counted topics edges) (htopics : topics'.Perm topics)
    (hedges : edges'.Perm edges) : Counted topics' edges' where
  publishers_eq := by
    intro t ht
    rw [h.publishers_eq t (htopics.mem_iff.mp ht), hedges.count_eq]
  active_iff := fun t ht => h.active_iff t (htopics.mem_iff.mp ht)
  listed := by
    intro name hname
    obtain ⟨t, ht, hsame⟩ := h.listed name (hedges.mem_iff.mp hname)
    exact ⟨t, htopics.mem_iff.mpr ht, hsame⟩

/-- A change of the topics that keeps their names may follow a change of the edges, if every topic
counts the new edges and these name no other topic. -/
theorem of_map {f : Topic → Topic} (hname : ∀ t, (f t).name = t.name)
    (hcount : ∀ t ∈ topics, (f t).publishers = edges'.count t.name)
    (hactive : ∀ t ∈ topics, ((f t).state = .active ↔ 0 < (f t).publishers))
    (hlisted : ∀ name ∈ edges', ∃ t ∈ topics, t.name = name) :
    Counted (topics.map f) edges' where
  publishers_eq := by
    intro t' ht'
    obtain ⟨t, ht, rfl⟩ := List.mem_map.mp ht'
    rw [hname, hcount t ht]
  active_iff := by
    intro t' ht'
    obtain ⟨t, ht, rfl⟩ := List.mem_map.mp ht'
    exact hactive t ht
  listed := by
    intro name hmem
    obtain ⟨t, ht, hsame⟩ := hlisted name hmem
    exact ⟨f t, List.mem_map_of_mem ht, (hname t).trans hsame⟩

/-- A change of the topics that touches neither count nor state leaves the edges counted. -/
theorem map_of_same (h : Counted topics edges) {f : Topic → Topic}
    (hname : ∀ t, (f t).name = t.name) (hcount : ∀ t, (f t).publishers = t.publishers)
    (hactive : ∀ t, ((f t).state = .active ↔ t.state = .active)) : Counted (topics.map f) edges := by
  refine of_map hname (fun t ht => ?_) (fun t ht => ?_) h.listed
  · rw [hcount, h.publishers_eq t ht]
  · rw [hactive, hcount, h.active_iff t ht]

/-! ## Edges come and go -/

/-- Edges that go are detached from the topics that they name. -/
theorem detach (h : Counted topics edges) (budget : Nat) {gone left : List String}
    (hedges : edges.Perm (gone ++ left)) :
    Counted (topics.map fun t => t.detachTimes budget (gone.count t.name)) left := by
  refine of_map (fun t => Topic.name_detachTimes) (fun t ht => ?_) (fun t ht => ?_) ?_
  · rw [Topic.publishers_detachTimes, h.publishers_eq t ht, hedges.count_eq, List.count_append,
      Nat.add_sub_cancel_left]
  · exact Topic.active_iff_detachTimes (h.active_iff t ht)
  · intro name hname
    exact h.listed name (hedges.mem_iff.mpr (List.mem_append_right gone hname))

/-- A topic that is drained has no edge and may go. -/
theorem dropDrained (h : Counted topics edges) :
    Counted (topics.filter fun t => !t.isDrained) edges where
  publishers_eq := fun t ht => h.publishers_eq t (List.mem_of_mem_filter ht)
  active_iff := fun t ht => h.active_iff t (List.mem_of_mem_filter ht)
  listed := by
    intro name hname
    obtain ⟨t, ht, rfl⟩ := h.listed name hname
    have hsome : 0 < t.publishers := by
      rw [h.publishers_eq t ht]
      exact List.count_pos_iff.mpr hname
    have hactive : t.state = .active := (h.active_iff t ht).mpr hsome
    refine ⟨t, List.mem_filter.mpr ⟨ht, ?_⟩, rfl⟩
    rw [Topic.isDrained, hactive]
    rfl

/-- A topic with a new name has no edge, and is listed without publishers. -/
theorem cons (h : Counted topics edges) {t : Topic} (hnew : ∀ u ∈ topics, u.name ≠ t.name)
    (hcount : t.publishers = 0) (hstate : t.state ≠ .active) : Counted (t :: topics) edges where
  publishers_eq := by
    refine List.forall_mem_cons.mpr ⟨?_, h.publishers_eq⟩
    rw [hcount, eq_comm, List.count_eq_zero]
    intro hname
    obtain ⟨u, hu, hsame⟩ := h.listed _ hname
    exact hnew u hu hsame
  active_iff := by
    refine List.forall_mem_cons.mpr ⟨?_, h.active_iff⟩
    rw [hcount]
    exact iff_of_false hstate (Nat.lt_irrefl 0)
  listed := by
    intro name hname
    obtain ⟨u, hu, hsame⟩ := h.listed name hname
    exact ⟨u, List.mem_cons_of_mem t hu, hsame⟩

/-- Bytes received along a known edge leave the count alone. -/
theorem receive (h : Counted topics edges) (name : String) (retain : Bool) (bytes : Nat) :
    Counted (topics.map fun t =>
      if t.name = name then Topology.received retain bytes false t else t) edges := by
  refine h.map_of_same (fun t => ?_) (fun t => ?_) (fun t => ?_)
  · split
    · rfl
    · rfl
  · split
    · rfl
    · rfl
  · split
    · exact Iff.rfl
    · exact Iff.rfl

/-- Bytes received along a new edge attach the edge to its topic. -/
theorem attach (h : Counted topics edges) {name : String} (hlisted : ∃ t ∈ topics, t.name = name)
    (retain : Bool) (bytes : Nat) :
    Counted (topics.map fun t => if t.name = name then Topology.received retain bytes true t else t)
      (name :: edges) := by
  refine of_map (fun t => ?_) (fun t ht => ?_) (fun t ht => ?_) (List.forall_mem_cons.mpr
    ⟨hlisted, h.listed⟩)
  · split
    · rfl
    · rfl
  · have hcount := h.publishers_eq t ht
    split
    · rename_i hname
      rw [List.count_cons, hname, beq_self_eq_true, if_pos rfl, ← hname, ← hcount]
      rfl
    · rename_i hother
      rw [List.count_cons_of_ne fun hname => hother hname.symm, hcount]
  · split
    · exact iff_of_true rfl (Nat.succ_pos t.publishers)
    · exact h.active_iff t ht

end Counted

namespace Topology

variable {s s' : Topology} {c c' : Client}

/-! ## Edges under a change of the clients -/

/-- Clients in another order have the same edges in another order. -/
theorem publications_perm {cs : List Client} (h : s.clients.Perm cs) :
    s.publications.Perm (cs.flatMap Client.publications) :=
  h.flatMap_right _

/-- Where a client is replaced, its edges are replaced, and the others stay. -/
theorem Replaces.publications_perm (h : Replaces s s' c c') :
    ∃ others, s.publications.Perm (c.publications ++ others) ∧
      s'.publications.Perm (c'.publications ++ others) := by
  obtain ⟨others, hbefore, hafter⟩ := h
  exact ⟨others.flatMap Client.publications, Topology.publications_perm hbefore,
    Topology.publications_perm hafter⟩

/-- Where the edges of the replaced client stay, all edges do. -/
theorem Replaces.publications_perm_of_eq (h : Replaces s s' c c')
    (hsame : c'.publications = c.publications) : s'.publications.Perm s.publications := by
  obtain ⟨others, hbefore, hafter⟩ := h.publications_perm
  rw [hsame] at hafter
  exact hafter.trans hbefore.symm

/-- Where one edge is added to the replaced client, it is the only new one. -/
theorem Replaces.publications_perm_of_cons (h : Replaces s s' c c') {name : String}
    (hnew : c'.publications.Perm (name :: c.publications)) :
    s'.publications.Perm (name :: s.publications) := by
  obtain ⟨others, hbefore, hafter⟩ := h.publications_perm
  exact (hafter.trans (hnew.append_right others)).trans (hbefore.symm.cons name)

/-- The edges before a sample are those that expire and those that stay. -/
theorem publications_perm_sampled (hs : s.WellFormed) {secs : Float}
    (hclients : s'.clients = s.clients.map fun c => (c.sampled secs).client) :
    s.publications.Perm (s.expiredEdges secs ++ s'.publications) := by
  have hwf : ∀ c ∈ s.clients, c.WellFormed := fun c hc => hs.client hc
  rw [publications, publications, hclients, expiredEdges]
  generalize s.clients = cs at hwf
  induction cs with
  | nil => exact List.Perm.refl _
  | cons c cs ih =>
    obtain ⟨hc, hcs⟩ := List.forall_mem_cons.mp hwf
    have hhere := (Client.publications_perm_sampled hc secs).append (ih hcs)
    simp only [List.map_cons, List.flatMap_cons]
    refine hhere.trans ?_
    -- the edges of the first client that stay pass the other edges that expire
    rw [List.append_assoc, List.append_assoc]
    exact List.perm_append_comm_assoc _ _ _ |>.append_left _

/-! ## Every effect keeps the counts right -/

/-- A topic that is published to for the first time is listed without publishers. -/
theorem counted_listed (hs : s.WellFormed) {topic : String} {retain : Bool} {topics : List Topic}
    (hknown : s.topics.contains topic = true ∧ topics = s.topics.values ∨
      s.topics.contains topic = false ∧ topics.Perm (s.newTopic topic retain :: s.topics.values))
    (h : Counted s.topics.values s.publications) :
    Counted topics s.publications ∧ ∃ t ∈ topics, t.name = topic := by
  rcases hknown with ⟨hmem, rfl⟩ | ⟨hnew, hperm⟩
  · exact ⟨h, hs.topics.contains_iff.mp hmem⟩
  · have hfresh := newTopic_eq hs topic retain
    have hname : (s.newTopic topic retain).name = topic := by rw [hfresh]; rfl
    refine ⟨(h.cons ?_ ?_ ?_).congr hperm (List.Perm.refl _),
      _, hperm.mem_iff.mpr List.mem_cons_self, hname⟩
    · intro u hu hsame
      rw [hs.topics.contains_iff.mpr ⟨u, hu, hsame.trans hname⟩] at hnew
      cases hnew
    · rw [hfresh]
      rfl
    · rw [hfresh]
      exact TopicState.noConfusion

/-- Publishing keeps the counts right, along a known edge as well as along a new one. -/
theorem counted_published {published : Dict Edge} {topic : String} {retain : Bool} {bytes : Nat}
    {topics : List Topic} (hreplaces : Replaces s s' c { c with published := published })
    (hedges : c.published.contains topic = true ∧ published.values = c.published.values.map (fun e =>
        if e.topic = topic then e.send s.idleBudget bytes else e) ∨
      c.published.contains topic = false ∧
        published.values.Perm (Edge.fresh topic s.idleBudget bytes :: c.published.values))
    (hmem : ∃ t ∈ topics, t.name = topic) (h : Counted topics s.publications) :
    Counted (topics.map fun t =>
      if t.name = topic then received retain bytes (!c.published.contains topic) t else t)
      s'.publications := by
  rcases hedges with ⟨hedge, hvalues⟩ | ⟨hedge, hvalues⟩
  · -- the edge is known, and the client has the same edges as before
    have hsame : Client.publications { c with published := published } = c.publications := by
      rw [Client.publications, hvalues, List.map_map]
      refine List.map_congr_left fun e _ => ?_
      rw [Function.comp]
      split <;> rfl
    rw [hedge]
    exact (h.receive topic retain bytes).congr (List.Perm.refl _)
      (hreplaces.publications_perm_of_eq hsame)
  · -- the edge is new, and is the only new one
    rw [hedge]
    exact (h.attach hmem retain bytes).congr (List.Perm.refl _)
      (hreplaces.publications_perm_of_cons (hvalues.map Edge.topic))

/-- Every effect of an operation keeps the counts right. -/
theorem counted_of_effect (hs : s.WellFormed) {op : Operation} (heffect : Effect op s s')
    (h : Counted s.topics.values s.publications) : Counted s'.topics.values s'.publications := by
  cases heffect with
  | nothing clients topics =>
    rwa [topics, publications, clients]
  | connected address id bridge op_eq clients topics =>
    -- the new client has no edge
    have hedges := publications_perm clients
    rw [topics]
    exact h.congr (List.Perm.refl _) hedges
  | disconnected c id address op_eq clients topics =>
    rw [topics]
    -- the subscriptions go first, then the edges are detached
    have hunsubscribed : Counted (s.topics.values.map fun t => t.removeSubscriber c.key)
        s.publications :=
      h.map_of_same (fun _ => rfl) (fun _ => rfl) (fun _ => Iff.rfl)
    have hdetached := hunsubscribed.detach s.idleBudget (publications_perm clients)
    rw [List.map_map] at hdetached
    exact hdetached
  | published c published id address topic retain bytes topics op_eq replaces edges known topics_eq =>
    rw [topics_eq]
    obtain ⟨hlisted, hmem⟩ := counted_listed hs known h
    exact counted_published replaces edges hmem hlisted
  | subscribed c id address filter op_eq replaces topics =>
    rw [topics]
    have hcounts := counts_gained filter c.key
    refine (h.map_of_same (name_gained filter c.key) (fun t => (hcounts t).1) fun t => ?_).congr
      (List.Perm.refl _) (replaces.publications_perm_of_eq rfl)
    rw [(hcounts t).2]
  | unsubscribed c id address filter op_eq replaces topics =>
    rw [topics]
    have hcounts := counts_lost filter (withoutFilter c filter)
    refine (h.map_of_same (name_lost filter _) (fun t => (hcounts t).1) fun t => ?_).congr
      (List.Perm.refl _) (replaces.publications_perm_of_eq rfl)
    rw [(hcounts t).2]
  | probed c latency replaces topics =>
    rw [topics]
    exact h.congr (List.Perm.refl _) (replaces.publications_perm_of_eq rfl)
  | sampled secs clients topics =>
    have hleft := (h.detach s.idleBudget (publications_perm_sampled hs clients)).dropDrained
    refine Counted.congr (hleft.map_of_same (fun t => ?_) (fun t => ?_) fun t => ?_) topics
      (List.Perm.refl _)
    · exact Topic.name_drain
    · exact Topic.publishers_drain
    · exact Topic.active_iff_drain

/-! ## Every run -/

/-- After every run a topic counts the clients that have an edge to it, it is active exactly while
it has a publisher, and every edge of a client names a topic that is listed. -/
theorem publishers_run (idleBudget : Nat) (ops : List Operation) :
    (∀ t ∈ ((empty idleBudget).run ops).topics.values,
      t.publishers = ((empty idleBudget).run ops).publisherCount t.name ∧
        (t.state = .active ↔ 0 < t.publishers)) ∧
    ∀ c ∈ ((empty idleBudget).run ops).clients, ∀ e ∈ c.published.values,
      ((empty idleBudget).run ops).topics.contains e.topic = true := by
  obtain ⟨hwf, hcounted⟩ := run_induction (P := fun s => Counted s.topics.values s.publications)
    (wellFormed_empty idleBudget) Counted.nil
    (fun _ _ _ hs heffect h => counted_of_effect hs heffect h) ops
  constructor
  · intro t ht
    refine ⟨?_, hcounted.active_iff t ht⟩
    rw [publisherCount_eq_count hwf, hcounted.publishers_eq t ht]
  · intro c hc e he
    refine hwf.topics.contains_iff.mpr (hcounted.listed e.topic ?_)
    exact List.mem_flatMap.mpr ⟨c, hc, List.mem_map_of_mem he⟩

/-- Of two publishers one is left when the other disconnects. -/
example : (((empty 3).run
    [.addClient "10.0.0.1" "p" none, .addClient "10.0.0.2" "q" none,
      .addPublish "p" "10.0.0.1" "a/b" false 5, .addPublish "q" "10.0.0.2" "a/b" true 7,
      .removeClient "p" "10.0.0.1"]).topics.values.map Topic.publishers) = [1] := by
  decide +kernel

end Topology

end BrokerTopology
