import BrokerTopology.Proofs.Dict.Layout
/-!
# Removing with a visitor

A visitor is shown every entry once, in listed order. It names the entries that go, may leave other
values in those it sees, and carries a state of its own from one entry to the next. Its verdicts on
the listed pairs decide a removal: what is taken out, and what stays with which values. The chains
through which the visitor goes do not matter, for the chains one by one are the list of all entries.
-/

namespace BrokerTopology

namespace Dict

variable {α σ : Type} {hash : String → UInt64}

/-! ## Verdicts -/

/-- The verdicts of a visitor on some pairs, shown to it one after the other. -/
def verdicts (visit : σ → String → α → Verdict α σ) (s : σ) :
    List (String × α) → List (String × Verdict α σ)
  | [] => []
  | (key, value) :: rest =>
    (key, visit s key value) :: verdicts visit (visit s key value).state rest

/-- The pairs that go, with the values that the visitor leaves. -/
def taken (vs : List (String × Verdict α σ)) : List (String × α) :=
  (vs.filter fun v => v.2.remove).map fun v => (v.1, v.2.value)

/-- The pairs that stay, with the values that the visitor leaves. -/
def kept (vs : List (String × Verdict α σ)) : List (String × α) :=
  (vs.filter fun v => !v.2.remove).map fun v => (v.1, v.2.value)

/-! ## One chain -/

/-- What marks an entry but its value. -/
def Entry.label (e : Entry α) : UInt64 × String :=
  (e.hash, e.key)

section Chain

variable (visit : σ → String → α → Verdict α σ)

/-- The verdicts on the pairs of a chain decide what goes and what stays. -/
theorem pairs_sweepChain (s : σ) (c : List (Entry α)) :
    (sweepChain visit s c).kept.map Entry.pair = kept (verdicts visit s (c.map Entry.pair)) ∧
      (sweepChain visit s c).removed.map Entry.pair =
        taken (verdicts visit s (c.map Entry.pair)) := by
  induction c generalizing s with
  | nil => exact ⟨rfl, rfl⟩
  | cons e es ih =>
    obtain ⟨hkept, hremoved⟩ := ih (visit s e.key e.value).state
    simp only [List.map_cons, Entry.pair, verdicts, kept, taken, sweepChain] at hkept hremoved ⊢
    cases hverdict : (visit s e.key e.value).remove
    · simp [hverdict, hkept, hremoved, Entry.withValue, Entry.pair]
    · simp [hverdict, hkept, hremoved, Entry.withValue, Entry.pair]

/-- What stays in a chain has been there before, up to its value. -/
theorem labels_sweepChain (s : σ) (c : List (Entry α)) :
    ((sweepChain visit s c).kept.map Entry.label).Sublist (c.map Entry.label) := by
  induction c generalizing s with
  | nil => exact List.Sublist.refl _
  | cons e es ih =>
    have hrest := ih (visit s e.key e.value).state
    rw [sweepChain]
    split
    · exact hrest.trans (List.sublist_cons_self _ _)
    · exact hrest.cons_cons e.label

/-- Every entry of a chain goes or stays. -/
theorem length_sweepChain (s : σ) (c : List (Entry α)) :
    (sweepChain visit s c).kept.length + (sweepChain visit s c).removed.length = c.length := by
  induction c generalizing s with
  | nil => rfl
  | cons e es ih =>
    have hrest := ih (visit s e.key e.value).state
    rw [sweepChain]
    split
    · simp only [List.length_cons]
      omega
    · simp only [List.length_cons]
      omega

/-- A visitor goes on in the second of two chains with the state that the first has left it. -/
theorem sweepChain_append (s : σ) (c c' : List (Entry α)) :
    sweepChain visit s (c ++ c') =
      ⟨(sweepChain visit s c).kept ++ (sweepChain visit (sweepChain visit s c).state c').kept,
        (sweepChain visit s c).removed ++ (sweepChain visit (sweepChain visit s c).state c').removed,
        (sweepChain visit (sweepChain visit s c).state c').state⟩ := by
  induction c generalizing s with
  | nil => rfl
  | cons e es ih =>
    rw [List.cons_append, sweepChain, sweepChain, ih]
    cases hverdict : (visit s e.key e.value).remove
    · rfl
    · rfl

/-! ## All chains -/

/-- Going through the chains one by one is going through all entries. -/
theorem sweepChains_eq (s : σ) (cs : List (List (Entry α))) :
    (sweepChains visit s cs).kept.flatten = (sweepChain visit s cs.flatten).kept ∧
      (sweepChains visit s cs).removed = (sweepChain visit s cs.flatten).removed ∧
      (sweepChains visit s cs).state = (sweepChain visit s cs.flatten).state := by
  induction cs generalizing s with
  | nil => exact ⟨rfl, rfl, rfl⟩
  | cons c cs ih =>
    obtain ⟨hkept, hremoved, hstate⟩ := ih (sweepChain visit s c).state
    rw [sweepChains, List.flatten_cons (l := c), sweepChain_append]
    exact ⟨congrArg _ hkept, congrArg _ hremoved, hstate⟩

/-- What stays in a chain has been in the same chain before, up to its value. -/
theorem labels_sweepChains (s : σ) (cs : List (List (Entry α))) :
    List.Forall₂ (fun kept c => (kept.map Entry.label).Sublist (c.map Entry.label))
      (sweepChains visit s cs).kept cs := by
  induction cs generalizing s with
  | nil => exact .nil
  | cons c cs ih => exact .cons (labels_sweepChain visit s c) (ih (sweepChain visit s c).state)

end Chain

/-! ## Removals -/

/-- A visit leaves as many chains as there were. -/
theorem size_kept_pos (d : Dict α) (visit : σ → String → α → Verdict α σ) (s : σ) :
    0 < (sweepChains visit s d.chains.toList).kept.toArray.size := by
  rw [List.size_toArray, length_kept_sweepChains, Array.length_toList]
  exact d.chains_pos

/-- A dictionary after the visit, in the layout it had. -/
def swept (d : Dict α) (visit : σ → String → α → Verdict α σ) (s : σ) : Dict α where
  chains := (sweepChains visit s d.chains.toList).kept.toArray
  size := d.size - (sweepChains visit s d.chains.toList).removed.length
  chains_pos := size_kept_pos d visit s

/-- A removal is a visit and, if anything went, a shrinking of the array. -/
theorem removeWhere_eq (d : Dict α) (visit : σ → String → α → Verdict α σ) (s : σ) :
    d.removeWhere visit s =
      ⟨if (sweepChain visit s d.entries).removed.isEmpty then d.swept visit s
        else (d.swept visit s).shrink,
        (sweepChain visit s d.entries).removed.map Entry.pair,
        (sweepChain visit s d.entries).state⟩ := by
  obtain ⟨-, hremoved, hstate⟩ := sweepChains_eq visit s d.chains.toList
  rw [entries, ← hremoved, ← hstate]
  rfl

/-- After the visit the entries are those that stay. -/
theorem entries_swept (d : Dict α) (visit : σ → String → α → Verdict α σ) (s : σ) :
    (d.swept visit s).entries = (sweepChain visit s d.entries).kept :=
  (sweepChains_eq visit s d.chains.toList).1

/-- A visit keeps a dictionary well formed. -/
theorem hashedBy_swept {d : Dict α} (h : d.HashedBy hash) (visit : σ → String → α → Verdict α σ)
    (s : σ) : (d.swept visit s).HashedBy hash where
  placed := by
    have hlabels := labels_sweepChains visit s d.chains.toList
    have hlength := hlabels.length_eq
    intro i hi e he
    simp only [swept, List.size_toArray, List.getElem_toArray] at hi he ⊢
    have hi' : i < d.chains.size := by
      rw [hlength] at hi
      simpa using hi
    -- an entry with the same hash was in the chain before
    have hmem := (hlabels.get hi (by simpa using hi')).subset (List.mem_map_of_mem he)
    obtain ⟨x, hx, hlabel⟩ := List.mem_map.mp hmem
    obtain ⟨hhash, -⟩ := Prod.mk.inj hlabel
    have hplaced := h.placed i hi' x (by simpa using hx)
    rw [hlength, ← hhash]
    simpa using hplaced
  hashed := by
    rw [entries_swept]
    intro e he
    have hmem := (labels_sweepChain visit s d.entries).subset (List.mem_map_of_mem he)
    obtain ⟨x, hx, hlabel⟩ := List.mem_map.mp hmem
    obtain ⟨hhash, hkey⟩ := Prod.mk.inj hlabel
    rw [← hhash, ← hkey]
    exact h.hashed x hx
  keys_nodup := by
    have hlabels := (labels_sweepChain visit s d.entries).map Prod.snd
    rw [List.map_map, List.map_map] at hlabels
    rw [keys, entries_swept]
    exact h.keys_nodup.sublist hlabels
  size_eq := by
    have hlength := length_sweepChain visit s d.entries
    obtain ⟨-, hremoved, -⟩ := sweepChains_eq visit s d.chains.toList
    rw [entries_swept, swept, h.size_eq]
    dsimp only
    rw [hremoved, ← entries]
    omega

/-- A removal with a visitor keeps a dictionary well formed, and the verdicts on the listed pairs
decide what it takes out and what stays. -/
theorem removeWhere_spec {d : Dict α} (h : d.HashedBy hash) (visit : σ → String → α → Verdict α σ)
    (s : σ) :
    (d.removeWhere visit s).dict.HashedBy hash ∧
      (d.removeWhere visit s).dict.toList.Perm (kept (verdicts visit s d.toList)) ∧
      (d.removeWhere visit s).removed = taken (verdicts visit s d.toList) := by
  obtain ⟨hkept, hremoved⟩ := pairs_sweepChain visit s d.entries
  rw [removeWhere_eq]
  refine ⟨?_, ?_, hremoved⟩
  · dsimp only
    split
    · exact hashedBy_swept h visit s
    · exact (shrinkWithin_spec _ (hashedBy_swept h visit s)).1
  · have hentries : ((d.swept visit s).entries.map Entry.pair).Perm
        (kept (verdicts visit s d.toList)) := by
      rw [entries_swept, hkept]
      exact List.Perm.refl _
    dsimp only
    split
    · exact hentries
    · exact ((shrinkWithin_spec _ (hashedBy_swept h visit s)).2.map Entry.pair).trans hentries

end Dict

end BrokerTopology
