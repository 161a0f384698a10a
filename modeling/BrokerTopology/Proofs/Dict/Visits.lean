import BrokerTopology.Proofs.Dict.Balance
/-!
# Removals with a visitor, one entry after the other

A visitor that decides about removals may write to the values that it sees and may remember what it has
seen. To know what it has been shown, let it write that down: a recording visitor carries a list of the
pairs beside the state of another visitor and decides as that one does. So a removal shows every entry
exactly once, in the order in which the dictionary has listed them, and the verdicts in that order settle
what is taken out, what stays, and with which values.

Main statement: `visited_run`.
-/

namespace BrokerTopology

namespace Dict

variable {α σ : Type}

/-! ## Recording -/

/-- A visitor that decides as another one does and writes down what it is shown. -/
def recording (visit : σ → String → α → Verdict α σ) (s : σ × List (String × α)) (key : String)
    (value : α) : Verdict α (σ × List (String × α)) :=
  let v := visit s.1 key value
  ⟨v.remove, v.value, (v.state, s.2 ++ [(key, value)])⟩

variable (visit : σ → String → α → Verdict α σ)

/-- Going through a chain, a recording visitor writes down its entries. -/
theorem sweepChain_recording (s : σ) (log : List (String × α)) (c : List (Entry α)) :
    sweepChain (recording visit) (s, log) c =
      ⟨(sweepChain visit s c).kept, (sweepChain visit s c).removed,
        ((sweepChain visit s c).state, log ++ c.map Entry.pair)⟩ := by
  induction c generalizing s log with
  | nil => rw [sweepChain, sweepChain, List.map_nil, List.append_nil]
  | cons e es ih =>
    have hrest := ih (visit s e.key e.value).state (log ++ [e.pair])
    rw [List.append_assoc, List.singleton_append, ← List.map_cons] at hrest
    rw [sweepChain, sweepChain]
    have hstate : (recording visit (s, log) e.key e.value).state =
        ((visit s e.key e.value).state, log ++ [e.pair]) := rfl
    rw [hstate, hrest]
    cases hremove : (visit s e.key e.value).remove with
    | true => simp [recording, hremove]
    | false => simp [recording, hremove]

/-- Going through several chains, it writes down the entries of all of them. -/
theorem sweepChains_recording (s : σ) (log : List (String × α)) (cs : List (List (Entry α))) :
    sweepChains (recording visit) (s, log) cs =
      ⟨(sweepChains visit s cs).kept, (sweepChains visit s cs).removed,
        ((sweepChains visit s cs).state, log ++ cs.flatten.map Entry.pair)⟩ := by
  induction cs generalizing s log with
  | nil => rw [sweepChains, sweepChains, List.flatten_nil, List.map_nil, List.append_nil]
  | cons c cs ih =>
    rw [sweepChains, sweepChain_recording]
    simp only [ih, sweepChains]
    rw [List.flatten_cons, List.map_append, List.append_assoc]

/-- A recording visitor takes out what the other one does, and has written down every pair of the
dictionary once, in listed order. -/
theorem removeWhere_recording (d : Dict α) (s : σ) :
    d.removeWhere (recording visit) (s, []) =
      ⟨(d.removeWhere visit s).dict, (d.removeWhere visit s).removed,
        ((d.removeWhere visit s).state, d.toList)⟩ := by
  simp only [removeWhere, sweepChains_recording]
  rfl

/-! ## The order of what stays -/

/-- As long as the number of chains stays, the pairs that stay are listed in the order of their
verdicts. -/
theorem toList_removeWhere {d : Dict α} {s : σ}
    (h : (d.removeWhere visit s).dict.capacity = d.capacity) :
    (d.removeWhere visit s).dict.toList = kept (verdicts visit s d.toList) := by
  have hkept : (d.swept visit s).toList = kept (verdicts visit s d.toList) := by
    rw [toList, entries_swept, toList]
    exact (pairs_sweepChain visit s d.entries).1
  rw [removeWhere_eq] at h ⊢
  dsimp only at h ⊢
  split at h
  · rename_i hnone
    rw [if_pos hnone, hkept]
  · rename_i hsome
    rw [← capacity_swept d visit s] at h
    rw [if_neg hsome, shrink_eq_self h, hkept]

/-! ## Every removal -/

/-- What a removal with a visitor does. -/
structure Visited (d : Dict α) (s : σ) : Prop where
  /-- The visitor is shown every pair once, in listed order: recording what it is shown, it takes out
  and leaves the same and ends with the list of all pairs. -/
  calls : d.removeWhere (recording visit) (s, []) =
    ⟨(d.removeWhere visit s).dict, (d.removeWhere visit s).removed,
      ((d.removeWhere visit s).state, d.toList)⟩
  /-- The pairs that it names are taken out, in listed order and with the values that it leaves. -/
  removed : (d.removeWhere visit s).removed = taken (verdicts visit s d.toList)
  /-- The others stay, with the values that it leaves. -/
  kept : (d.removeWhere visit s).dict.toList.Perm (kept (verdicts visit s d.toList))
  size : (d.removeWhere visit s).dict.size = (Dict.kept (verdicts visit s d.toList)).length
  /-- If the number of chains stays, they stay in their order. -/
  order : (d.removeWhere visit s).dict.capacity = d.capacity →
    (d.removeWhere visit s).dict.toList = Dict.kept (verdicts visit s d.toList)

/-- This is what it does to every dictionary that is reached from the empty one. -/
theorem visited_run (ops : List (Operation α)) (s : σ) :
    Visited visit ((empty : Dict α).run ops) s := by
  obtain ⟨hwf, -⟩ := run_spec ops (hashedBy_empty sdbm) (balanced_empty (α := α))
  obtain ⟨hafter, hkept, hremoved⟩ := removeWhere_spec hwf visit s
  refine ⟨removeWhere_recording visit _ s, hremoved, hkept, ?_, toList_removeWhere visit⟩
  rw [hafter.size_eq_length_toList, hkept.length_eq]

end Dict

end BrokerTopology
