import Mathlib.Algebra.Group.Nat.Defs
import BrokerTopology.Proofs.Dict.FiniteMap
/-!
# How full a dictionary is

The array of chains doubles when an insertion finds it full, and halves while a removal has left it
under a quarter full. So after every sequence of operations the number of chains is a power of two
that has room for all entries, and at least a quarter of the chains could hold one of them. With the
placement of the entries this is all that the operations rely on.

Main statement: `wellFormed_balanced_run`.
-/

namespace BrokerTopology

namespace Dict

variable {α β σ : Type}

/-- The chains are a power of two in number, no fewer than the entries, and at most four times as many
up to rounding. -/
structure Balanced (d : Dict α) : Prop where
  power : ∃ k, d.capacity = 2 ^ k
  size_le : d.size ≤ d.capacity
  quarter_le : d.capacity / 4 ≤ d.size

/-- The empty dictionary is balanced. -/
theorem balanced_empty : (empty : Dict α).Balanced where
  power := ⟨0, rfl⟩
  size_le := Nat.zero_le _
  quarter_le := by simp

/-- Whether a dictionary is balanced is seen from two numbers. -/
theorem Balanced.of_eq {d : Dict α} {d' : Dict β} (h : d.Balanced)
    (hcapacity : d'.capacity = d.capacity) (hsize : d'.size = d.size) : d'.Balanced where
  power := by rw [hcapacity]; exact h.power
  size_le := by rw [hcapacity, hsize]; exact h.size_le
  quarter_le := by rw [hcapacity, hsize]; exact h.quarter_le

/-! ## Growing -/

/-- Making room leaves room, and doubles the chains at most. -/
theorem Balanced.makeRoom {d : Dict α} (h : d.Balanced) :
    d.makeRoom.Balanced ∧ d.makeRoom.size = d.size ∧ d.makeRoom.size < d.makeRoom.capacity := by
  obtain ⟨⟨k, hk⟩, hle, hquarter⟩ := h
  have hpos : 0 < d.capacity := d.chains_pos
  rw [Dict.makeRoom]
  split
  · rename_i hfull
    have hcapacity : (d.rebuild (d.capacity * 2)).capacity = d.capacity * 2 := by
      rw [capacity_rebuild]
      omega
    have hsize : (d.rebuild (d.capacity * 2)).size = d.size := rfl
    refine ⟨⟨⟨k + 1, ?_⟩, ?_, ?_⟩, hsize, ?_⟩
    · rw [hcapacity, hk, Nat.pow_succ]
    · omega
    · omega
    · omega
  · exact ⟨⟨⟨k, hk⟩, hle, hquarter⟩, rfl, by omega⟩

/-- An entry that is filed where there is room leaves a dictionary balanced. -/
theorem Balanced.consEntry {d : Dict α} (h : d.Balanced) (hroom : d.size < d.capacity) (e : Entry α) :
    (d.consEntry e).Balanced := by
  have hcapacity : (d.consEntry e).capacity = d.capacity := d.capacity_setChain _ _
  have hsize : (d.consEntry e).size = d.size + 1 := rfl
  have hquarter := h.quarter_le
  refine ⟨?_, ?_, ?_⟩
  · rw [hcapacity]
    exact h.power
  · omega
  · omega

/-- An insertion that is not refused leaves a dictionary balanced. -/
theorem Balanced.insert {d d' : Dict α} (h : d.Balanced) {key : String} {value : α}
    (hinsert : d.insert key value = .ok d') : d'.Balanced := by
  rw [Dict.insert] at hinsert
  split at hinsert
  · cases hinsert
  · obtain ⟨hroom, -, hlt⟩ := h.makeRoom
    cases hinsert
    exact hroom.consEntry hlt _

/-! ## Shrinking -/

/-- As many halvings as the power of two has factors are enough. -/
theorem balanced_shrinkWithin {n k : Nat} {d : Dict α} (hk : d.capacity = 2 ^ k) (hn : k ≤ n)
    (hle : d.size ≤ d.capacity) : (shrinkWithin n d).Balanced := by
  induction n generalizing k d with
  | zero =>
    obtain rfl := Nat.le_zero.mp hn
    rw [Nat.pow_zero] at hk
    show d.Balanced
    exact ⟨⟨0, hk⟩, hle, by omega⟩
  | succ n ih =>
    rw [shrinkWithin]
    split
    · exact ⟨⟨k, hk⟩, hle, by omega⟩
    · rename_i hsparse
      cases k with
      | zero => exact absurd (Or.inl (Nat.le_of_eq hk)) hsparse
      | succ k =>
        have hpos : 0 < 2 ^ k := Nat.two_pow_pos k
        rw [Nat.pow_succ] at hk
        have hcapacity : (d.rebuild (d.capacity / 2)).capacity = 2 ^ k := by
          rw [capacity_rebuild]
          omega
        have hsize : (d.rebuild (d.capacity / 2)).size = d.size := rfl
        exact ih hcapacity (Nat.le_of_succ_le_succ hn) (by omega)

/-- Shrinking leaves a dictionary balanced that had only too many chains. -/
theorem balanced_shrink {d : Dict α} (hpower : ∃ k, d.capacity = 2 ^ k) (hle : d.size ≤ d.capacity) :
    d.shrink.Balanced := by
  obtain ⟨k, hk⟩ := hpower
  refine balanced_shrinkWithin hk ?_ hle
  rw [hk]
  exact Nat.le_of_lt Nat.lt_two_pow_self

/-- A shrinking that changes anything leaves fewer chains. -/
theorem shrinkWithin_eq_or_capacity_lt (n : Nat) (d : Dict α) :
    shrinkWithin n d = d ∨ (shrinkWithin n d).capacity < d.capacity := by
  induction n generalizing d with
  | zero => exact .inl rfl
  | succ n ih =>
    rw [shrinkWithin]
    split
    · exact .inl rfl
    · have hcapacity : (d.rebuild (d.capacity / 2)).capacity < d.capacity := by
        rw [capacity_rebuild]
        omega
      rcases ih (d.rebuild (d.capacity / 2)) with hsame | hless
      · rw [hsame]
        exact .inr hcapacity
      · exact .inr (Nat.lt_trans hless hcapacity)

/-- A shrinking that leaves as many chains leaves everything as it is. -/
theorem shrink_eq_self {d : Dict α} (h : d.shrink.capacity = d.capacity) : d.shrink = d :=
  (shrinkWithin_eq_or_capacity_lt d.capacity d).resolve_right (Nat.not_lt.mpr (Nat.le_of_eq h.symm))

/-- Taking out a key leaves a dictionary balanced. -/
theorem Balanced.erase {d : Dict α} (h : d.Balanced) (key : String) : (d.erase key).Balanced := by
  rw [Dict.erase]
  split
  · have hcapacity : ∀ c, (d.setChain (sdbm key) c).capacity = d.capacity := d.capacity_setChain _
    refine balanced_shrink ?_ ?_
    · obtain ⟨k, hk⟩ := h.power
      exact ⟨k, (hcapacity _).trans hk⟩
    · refine Nat.le_trans (Nat.sub_le _ _) ?_
      exact Nat.le_trans h.size_le (Nat.le_of_eq (hcapacity _).symm)
  · exact h

/-- A visit keeps the number of chains. -/
theorem capacity_swept (d : Dict α) (visit : σ → String → α → Verdict α σ) (s : σ) :
    (d.swept visit s).capacity = d.capacity := by
  rw [capacity, swept, List.size_toArray, length_kept_sweepChains, Array.length_toList, capacity]

/-- A removal with a visitor leaves a dictionary balanced, whatever it takes out. -/
theorem Balanced.removeWhere {d : Dict α} (h : d.Balanced) (visit : σ → String → α → Verdict α σ)
    (s : σ) : (d.removeWhere visit s).dict.Balanced := by
  have hcapacity := d.capacity_swept visit s
  have hsize : (d.swept visit s).size = d.size - (sweepChain visit s d.entries).removed.length := by
    rw [swept, (sweepChains_eq visit s d.chains.toList).2.1]
    rfl
  rw [removeWhere_eq]
  dsimp only
  split
  · -- nothing was taken out, and the array is left as it is
    rename_i hnone
    rw [List.isEmpty_iff] at hnone
    rw [hnone] at hsize
    exact h.of_eq hcapacity hsize
  · refine balanced_shrink ?_ ?_
    · rw [hcapacity]
      exact h.power
    · rw [hcapacity, hsize]
      exact Nat.le_trans (Nat.sub_le _ _) h.size_le

/-! ## Every operation -/

/-- Every operation leaves a dictionary balanced. -/
theorem Balanced.perform {d : Dict α} (h : d.Balanced) (op : Operation α) :
    (op.perform d).2.Balanced := by
  cases op with
  | insert key value =>
    rw [Operation.perform]
    cases hinsert : d.insert key value with
    | error e => exact h
    | ok d' => exact h.insert hinsert
  | modify key f => exact h.of_eq (d.capacity_setChain _ _) rfl
  | erase key => exact h.erase key
  | removeWhere visit s => exact h.removeWhere visit s
  | mapWithKey f => exact h.of_eq (by simp [Operation.perform, capacity, mapWithKey]) rfl
  | find | contains | size | isEmpty | keys | toList => exact h

/-- Every operation keeps a dictionary well formed. -/
theorem wellFormed_perform {d : Dict α} (h : d.WellFormed) (op : Operation α) :
    (op.perform d).2.WellFormed := by
  rw [← op.performHashed_sdbm d]
  exact (perform_refines h op).1

/-- The dictionary after several operations, the first of the list first. -/
def run (d : Dict α) (ops : List (Operation α)) : Dict α :=
  ops.foldl (fun d op => (op.perform d).2) d

/-- Every sequence of operations keeps a dictionary well formed and leaves it balanced. -/
theorem run_spec (ops : List (Operation α)) {d : Dict α} (hwf : d.WellFormed) (h : d.Balanced) :
    (d.run ops).WellFormed ∧ (d.run ops).Balanced := by
  induction ops generalizing d with
  | nil => exact ⟨hwf, h⟩
  | cons op ops ih => exact ih (wellFormed_perform hwf op) (h.perform op)

/-- After every sequence of operations, from the empty dictionary on, each entry carries the hash of its
key and lies in the chain of the hash, no key is filed twice, the count is that of the entries in all
chains, and the number of chains is a power of two, not below the count and with a quarter that is not
above it. -/
theorem wellFormed_balanced_run (ops : List (Operation α)) :
    ((empty : Dict α).run ops).WellFormed ∧ ((empty : Dict α).run ops).Balanced :=
  run_spec ops (hashedBy_empty sdbm) balanced_empty

/-- Ten entries need sixteen chains; when nine of them go at once, four chains are left. -/
example :
    (((empty : Dict Nat).run ((List.range 10).map fun n => .insert (toString n) n)).capacity,
      ((empty : Dict Nat).run (((List.range 10).map fun n => .insert (toString n) n) ++
        [.removeWhere (fun _ _ n => ⟨decide (n < 9), n, ()⟩) ()])).capacity) = (16, 4) := by
  decide +kernel

end Dict

end BrokerTopology
