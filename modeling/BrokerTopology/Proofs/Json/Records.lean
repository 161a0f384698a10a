import BrokerTopology.Proofs.Json.Reading
/-!
# Reading back records

An object is read as a plain record if each of its members is read by the field of its name and no
name stands twice; what the fields that are missing count as is for the record to say. The fields of a
variant take their values from the members of their names.
-/

namespace BrokerTopology.Json

/-! ## Plain records -/

/-- A member `written` in an object is read by one of the fields as the member `got`. -/
def Takes (fields : List Field) (written got : String × Value) : Prop :=
  got.1 = written.1 ∧ ∃ f, (fields.find? fun f => f.name == written.1) = some f ∧
    Reads f.read written.2.render got.2

/-- A member is read by the field of its name. -/
theorem takes {fields : List Field} {f : Field} {name : String} {v w : Value}
    (hfield : (fields.find? fun f => f.name == name) = some f) (h : Reads f.read v.render w) :
    Takes fields (name, v) (name, w) :=
  ⟨rfl, f, hfield, h⟩

/-- What is read so far of a record, with one member more. -/
def recordMember (got : List (String × Value)) (m : String × Value) :
    Except Error (List (String × Value)) :=
  if (got.lookup m.1).isSome then .error (.repeatedField m.1) else .ok (m :: got)

section Plain

variable {fields : List Field} {written got : List (String × Value)}

/-- A member that has a field goes to what is read so far, with the value that the field reads. -/
theorem stepsBy_recordStep {p : (String × Value) × (String × Value)} (h : Takes fields p.1 p.2) :
    StepsBy (recordStep fields) (fun got p => recordMember got p.2) p
      (memberText p.1.1 p.1.2.render) := by
  obtain ⟨hname, f, hfield, hread⟩ := h
  have hstep : ∀ got rest, Ends rest → recordStep fields got p.1.1 (':' :: p.1.2.render ++ rest) =
      recordMember got p.2 >>= fun got => pure (got, rest) := by
    intro got rest hrest
    rw [recordStep, hfield, recordMember, hname]
    dsimp only
    split
    · rfl
    · -- the colon is read, and the value behind it
      refine (bind_of_eq_ok (hread.reads rest hrest) _).trans ?_
      rw [← hname]
      rfl
  rw [memberText, quote_append]
  exact stepsBy_of_spells (spells_escape False p.1.1.toList) hstep

/-- Members with names of their own are kept, the latest first. -/
theorem foldlM_recordMember (hnodup : (got.map Prod.fst).Nodup) (before : List (String × Value))
    (hnew : ∀ m ∈ got, before.lookup m.1 = none) :
    got.foldlM recordMember before = .ok (got.reverse ++ before) := by
  induction got generalizing before with
  | nil => rfl
  | cons m ms ih =>
    rw [List.map_cons, List.nodup_cons] at hnodup
    obtain ⟨hfirst, hothers⟩ := List.forall_mem_cons.mp hnew
    rw [List.foldlM_cons, recordMember, hfirst, List.reverse_cons, List.append_assoc]
    refine ih hnodup.2 (m :: before) fun m' hm' => ?_
    -- the name that was just read does not come again
    have hother : m'.1 ≠ m.1 := fun hsame => hnodup.1 (hsame ▸ List.mem_map_of_mem hm')
    rw [List.lookup_cons, beq_eq_false_iff_ne.mpr hother]
    exact hothers m' hm'

/-- An object is read as the record that its fields complete. -/
theorem reads_asRecord {complete : List (String × Value)}
    (h : List.Forall₂ (Takes fields) written got) (hnodup : (written.map (·.1)).Nodup)
    (hcomplete : completeObject fields got.reverse = .ok complete) :
    Reads (asRecord fields) (Value.object written).render (.object complete) where
  begins := by
    rw [Value.render]
    exact ⟨'{', _, rfl, by decide⟩
  reads := by
    intro rest _
    obtain ⟨ps, rfl, rfl, htakes⟩ := exists_pairs_of_forall₂ h
    have hspread : Spread (fun p t => t = memberText p.1.1 p.1.2.render) ps
        (renderMembers (ps.map Prod.fst)) := spread_renderMembers fun p _ => rfl
    have hmembers := members_spread hspread
      (fun p hp t ht => ht ▸ stepsBy_recordStep (htakes p hp)) [] rest
    have hnames : (ps.map Prod.snd).map Prod.fst = (ps.map Prod.fst).map Prod.fst := by
      rw [List.map_map, List.map_map]
      exact List.map_congr_left fun p hp => (htakes p hp).1
    have hfold := foldlM_recordMember (hnames ▸ hnodup) [] fun _ _ => rfl
    rw [List.foldlM_map, List.append_nil] at hfold
    rw [hfold] at hmembers
    rw [render_object_append]
    refine (bind_of_eq_ok hmembers _).trans ?_
    exact bind_of_eq_ok hcomplete _

end Plain

/-! ## The fields of a variant -/

section Variant

variable {fields : List VariantField} {ms : List (String × Value)}

/-- Among members with different names each is the only one of its name. -/
theorem filter_name_eq (hnodup : (ms.map (·.1)).Nodup) {m : String × Value} (hm : m ∈ ms) :
    (ms.filter fun m' => m'.1 == m.1) = [m] := by
  induction ms with
  | nil => cases hm
  | cons m' ms ih =>
    rw [List.map_cons, List.nodup_cons] at hnodup
    obtain ⟨hnew, hnodup⟩ := hnodup
    have hother : ∀ m'' ∈ ms, m''.1 ≠ m'.1 := by
      intro m'' hm'' hsame
      rw [← hsame] at hnew
      exact hnew (List.mem_map_of_mem hm'')
    rcases List.mem_cons.mp hm with rfl | hm
    · have hnone : (ms.filter fun m' => m'.1 == m.1) = [] := by simpa using hother
      simp [hnone]
    · simp [(hother m hm).symm, ih hnodup hm]

/-- A member that a field admits is the value of the field. -/
theorem VariantField.fromMembers_of_mem {f : VariantField} {m : String × Value}
    (hnodup : (ms.map (·.1)).Nodup) (hm : m ∈ ms) (hname : m.1 = f.name)
    (hadmits : f.admits m.2 = true) : f.fromMembers ms = .ok m := by
  rw [fromMembers, ← hname, filter_name_eq hnodup hm]
  show f.check m.2 = .ok m
  rw [check, if_pos hadmits, ← hname]

/-- An object with one admitted member for each field holds the fields of the variant. -/
theorem variantFields_object
    (h : List.Forall₂ (fun f m => m.1 = f.name ∧ f.admits m.2 = true) fields ms)
    (hnodup : (ms.map (·.1)).Nodup) : variantFields fields (.object ms) = .ok ms := by
  -- some of the fields take some of the members
  have hsome : ∀ {fs ns}, List.Forall₂ (fun f m => m.1 = f.name ∧ f.admits m.2 = true) fs ns →
      ns ⊆ ms → (fs.mapM fun f : VariantField => f.fromMembers ms) = .ok ns := by
    intro fs ns hfs hns
    induction hfs with
    | nil => rfl
    | @cons f n fs ns hfirst _ ih =>
      obtain ⟨hn, hns⟩ := List.cons_subset.mp hns
      rw [List.mapM_cons, VariantField.fromMembers_of_mem hnodup hn hfirst.1 hfirst.2, ih hns]
      rfl
  exact hsome h (List.Subset.refl ms)

end Variant

end BrokerTopology.Json
