import BrokerTopology.Proofs.Json.Records
/-!
# Tagged records as lists of members

Of the text of an object nothing but its members matters to the reader of a tagged record: which they
are, in which order they stand and which values they have. So the record is a function of the list of
members, `taggedOf`. It has the variant that its one tag names, and its other members in their order.
-/

namespace BrokerTopology.Json

variable {tag : String} {variants : List String} {ms : List (String × Value)}

/-! ## From texts to members -/

/-- The variant that a value names. -/
def variantOf (variants : List String) : Value → Except Error String
  | .text t => if variants.contains t then .ok t else .error (.unknownVariant t)
  | _ => .error .wrongType

/-- What is read so far of a tagged record, with one member more. -/
def taggedMember (tag : String) (variants : List String)
    (got : Option String × List (String × Value)) (m : String × Value) :
    Except Error (Option String × List (String × Value)) :=
  if m.1 = tag then
    if got.1.isSome then .error (.repeatedField tag)
    else variantOf variants m.2 >>= fun t => pure (some t, got.2)
  else pure (got.1, m :: got.2)

/-- The tagged record that some members are. -/
def taggedOf (tag : String) (variants : List String) (ms : List (String × Value)) :
    Except Error Tagged :=
  ms.foldlM (taggedMember tag variants) (none, []) >>= fun got =>
    match got.1 with
    | some t => pure ⟨t, .object got.2.reverse⟩
    | none => .error (.missingField tag)

variable {depth : Nat} {v : Value} {t b rest : List Char}

theorem variantName_blanks (hb : Blanks b) (s : List Char) :
    variantName variants (b ++ s) = variantName variants s := by
  rw [variantName, variantName, skipBlank_blanks hb, mismatch, mismatch, skipBlank_blanks hb]

/-- A value that begins neither a text nor a container names no variant. -/
theorem variantName_scalar {c : Char} {s : List Char} (hc : isEnd c = false) (hquote : c ≠ '"')
    (harray : c ≠ '[') (hobject : c ≠ '{') :
    variantName variants (c :: s) = valueOver none (c :: s) >>= fun _ => .error .wrongType := by
  rw [variantName, mismatch, skipBlank_cons hc]
  simp [hquote, harray, hobject]

theorem variantName_numeral {n : Number} (h : Numeral n t) (hrest : Ends rest) :
    variantName variants (t ++ rest) = .error .wrongType := by
  have hread := reads_valueOver_numeral none h
  have hbegins : ∃ c s, t = c :: s ∧ c ≠ '"' ∧ c ≠ '[' ∧ c ≠ '{' := by
    rcases signedNumber_cases (signedNumber_numeral h) with ⟨s, rfl, -⟩ | ⟨c, s, rfl, hc, -⟩
    · exact ⟨'-', s, rfl, by decide⟩
    · refine ⟨c, s, rfl, ?_, ?_, ?_⟩ <;> rintro rfl <;> cases hc
  obtain ⟨c, s, rfl, hquote, harray, hobject⟩ := hbegins
  obtain ⟨d, ds, hsame, hd⟩ := hread.begins
  obtain ⟨rfl, rfl⟩ := List.cons.inj hsame
  rw [List.cons_append, variantName_scalar hd hquote harray hobject]
  exact bind_of_eq_ok (hread.reads rest hrest) _

/-- The variant that a value names is read from each of its texts. -/
theorem variantName_denotes (h : Denotes False depth v t) (hrest : Ends rest) :
    variantName variants (t ++ rest) = variantOf variants v >>= fun w => pure (w, rest) := by
  cases h with
  | null => rfl
  | bool b => cases b <;> rfl
  | number h => exact variantName_numeral h hrest
  | @text _ name body h =>
    rw [List.cons_append, List.append_assoc]
    refine (bind_of_eq_ok (textRest_spells h rest) _).trans ?_
    dsimp only [variantOf]
    cases variants.contains name <;> rfl
  | array => rfl
  | object => rfl

/-- A member goes to what is read so far. -/
theorem IsMember.stepsBy_taggedStep {p : (String × Value) × List Char} (hmember : IsMember False p t)
    (h : Denotes False (maxDepth - 1) p.1.2 p.2) :
    StepsBy (taggedStep tag variants) (fun got p => taggedMember tag variants got p.1) p t := by
  refine hmember.stepsBy fun got b b' rest hb hb' hrest => ?_
  rw [taggedStep, taggedMember]
  split
  · split
    · rfl
    · rw [afterColon_blanks hb (variantName_blanks hb' _), variantName_denotes h hrest, bind_assoc,
        bind_assoc]
      rfl
  · rw [afterColon_blanks hb (value_blanks hb' _ _), h.reads.reads rest hrest]
    rfl

/-- A tagged record is read from each text of the object with its members. -/
theorem asTagged_object (h : Denotes False maxDepth (.object ms) t) (hb : Blanks b)
    (rest : List Char) :
    asTagged tag variants (b ++ (t ++ rest)) =
      taggedOf tag variants ms >>= fun r => pure (r, rest) := by
  cases h with
  | @object _ ps s hvalues hspread =>
    have hsteps : ∀ p ∈ ps, ∀ t, IsMember False p t → StepsBy (taggedStep tag variants)
        (fun got p => taggedMember tag variants got p.1) p t :=
      fun p hp t ht => ht.stepsBy_taggedStep (hvalues p hp)
    have hmembers := members_spread hspread hsteps (none, []) rest
    rw [asTagged, skipBlank_blanks hb, List.cons_append, List.append_assoc]
    show members textRest (taggedStep tag variants) (s ++ '}' :: rest).length (none, [])
      (s ++ '}' :: rest) >>= _ = _
    rw [hmembers, taggedOf, List.foldlM_map, bind_assoc, bind_assoc]
    refine bind_congr fun got => ?_
    obtain ⟨found, others⟩ := got
    cases found <;> rfl

/-! ## The tag among the members -/

/-- Members that are no tag are kept, the latest first. -/
theorem foldlM_taggedMember (h : ∀ m ∈ ms, m.1 ≠ tag) (got : Option String × List (String × Value)) :
    ms.foldlM (taggedMember tag variants) got = .ok (got.1, ms.reverse ++ got.2) := by
  induction ms generalizing got with
  | nil => rfl
  | cons m ms ih =>
    obtain ⟨hother, hothers⟩ := List.forall_mem_cons.mp h
    rw [List.foldlM_cons, taggedMember, if_neg hother, List.reverse_cons, List.append_assoc]
    exact ih hothers (got.1, m :: got.2)

/-- After the tag has been found it may not come again. -/
theorem foldlM_taggedMember_of_some {t : String} (hmem : ∃ m ∈ ms, m.1 = tag)
    (others : List (String × Value)) :
    ms.foldlM (taggedMember tag variants) (some t, others) = .error (.repeatedField tag) := by
  induction ms generalizing others with
  | nil => simp at hmem
  | cons m ms ih =>
    rw [List.foldlM_cons, taggedMember]
    split
    · rfl
    · rename_i hother
      obtain ⟨m', hm', hname⟩ := hmem
      rcases List.mem_cons.mp hm' with rfl | hm'
      · exact absurd hname hother
      · exact ih ⟨m', hm', hname⟩ (m :: others)

/-- A value names a variant or fails to match. -/
theorem variantOf_cases (variants : List String) (v : Value) :
    (∃ t ∈ variants, v = .text t ∧ variantOf variants v = .ok t) ∨
      ∃ e, variantOf variants v = .error e ∧ e.kind = .mismatched := by
  cases v with
  | text t =>
    by_cases hmem : t ∈ variants
    · exact .inl ⟨t, hmem, rfl, if_pos (List.contains_iff_mem.mpr hmem)⟩
    · exact .inr ⟨_, if_neg fun hcontains => hmem (List.contains_iff_mem.mp hcontains), rfl⟩
  | _ => exact .inr ⟨_, rfl, rfl⟩

theorem count_names_eq_zero (h : ∀ m ∈ ms, m.1 ≠ tag) : (ms.map Prod.fst).count tag = 0 := by
  refine List.count_eq_zero.mpr fun hmem => ?_
  obtain ⟨m, hm, hname⟩ := List.mem_map.mp hmem
  exact h m hm hname

theorem filter_names_eq (h : ∀ m ∈ ms, m.1 ≠ tag) : (ms.filter fun m => m.1 ≠ tag) = ms :=
  List.filter_eq_self.mpr fun m hm => decide_eq_true (h m hm)

/-- Behind the first tag only other members are accepted. -/
theorem taggedOf_append {before after : List (String × Value)} {v : Value}
    (hbefore : ∀ m ∈ before, m.1 ≠ tag) :
    taggedOf tag variants (before ++ (tag, v) :: after) =
      variantOf variants v >>= fun t =>
        if ∃ m ∈ after, m.1 = tag then .error (.repeatedField tag)
        else pure ⟨t, .object (before ++ after)⟩ := by
  have htag : taggedMember tag variants (none, before.reverse) (tag, v) =
      variantOf variants v >>= fun t => pure (some t, before.reverse) := by
    rw [taggedMember, if_pos rfl]
    rfl
  rw [taggedOf, List.foldlM_append, foldlM_taggedMember hbefore, List.append_nil, bind_of_eq_ok rfl,
    List.foldlM_cons, htag, bind_assoc, bind_assoc]
  refine bind_congr fun t => ?_
  rw [pure_bind]
  by_cases hagain : ∃ m ∈ after, m.1 = tag
  · rw [if_pos hagain, foldlM_taggedMember_of_some hagain]
    rfl
  · have hafter : ∀ m ∈ after, m.1 ≠ tag := fun m hm hsame => hagain ⟨m, hm, hsame⟩
    rw [if_neg hagain, foldlM_taggedMember hafter, bind_of_eq_ok rfl]
    dsimp only
    rw [List.reverse_append, List.reverse_reverse, List.reverse_reverse]

/-- A tagged object is read as its tag and its other members. -/
theorem reads_asTagged {variant : String} (hvariant : variant ∈ variants)
    (h : ∀ m ∈ ms, m.1 ≠ tag ∧ m.2.Readable (maxDepth - 1)) :
    Reads (asTagged tag variants) (Value.object ((tag, .text variant) :: ms)).render
      ⟨variant, .object ms⟩ where
  begins := by
    rw [Value.render]
    exact ⟨'{', _, rfl, by decide⟩
  reads := by
    intro rest _
    have hreadable : (Value.object ((tag, .text variant) :: ms)).Readable maxDepth :=
      .object (List.forall_mem_cons.mpr ⟨.text variant, fun m hm => (h m hm).2⟩)
    have htagged : taggedOf tag variants ((tag, .text variant) :: ms) = .ok ⟨variant, .object ms⟩ := by
      have hagain : ¬ ∃ m ∈ ms, m.1 = tag := by
        rintro ⟨m, hm, hname⟩
        exact (h m hm).1 hname
      refine (taggedOf_append (List.forall_mem_nil _)).trans ?_
      rw [variantOf, if_pos (List.contains_iff_mem.mpr hvariant), bind_of_eq_ok rfl, if_neg hagain]
      rfl
    refine (asTagged_object hreadable.denotes (List.forall_mem_nil _) rest).trans ?_
    rw [htagged]
    rfl

/-- A record is what its only tag says. -/
theorem taggedOf_of_once {variant : String} (hvariant : variant ∈ variants)
    (hmem : (tag, .text variant) ∈ ms) (honce : (ms.map Prod.fst).count tag = 1) :
    taggedOf tag variants ms = .ok ⟨variant, .object (ms.filter fun m => m.1 ≠ tag)⟩ := by
  obtain ⟨before, after, rfl⟩ := List.append_of_mem hmem
  rw [List.map_append, List.map_cons, List.count_append, List.count_cons_self] at honce
  have hnone : ∀ ms : List (String × Value), (ms.map Prod.fst).count tag = 0 → ∀ m ∈ ms, m.1 ≠ tag :=
    fun ms hzero m hm hname => List.count_eq_zero.mp hzero (hname ▸ List.mem_map_of_mem hm)
  have hbefore := hnone before (by omega)
  have hafter := hnone after (by omega)
  have hagain : ¬ ∃ m ∈ after, m.1 = tag := fun ⟨m, hm, hname⟩ => hafter m hm hname
  rw [taggedOf_append hbefore, variantOf, if_pos (List.contains_iff_mem.mpr hvariant),
    bind_of_eq_ok rfl, if_neg hagain, List.filter_append, List.filter_cons_of_neg (by simp),
    filter_names_eq hbefore, filter_names_eq hafter]
  rfl

/-- Members are a tagged record if exactly one of them is a tag and it names a variant, and fail to match
otherwise. -/
theorem taggedOf_cases (tag : String) (variants : List String) (ms : List (String × Value)) :
    (∃ t ∈ variants, (tag, .text t) ∈ ms ∧ (ms.map Prod.fst).count tag = 1 ∧
      taggedOf tag variants ms = .ok ⟨t, .object (ms.filter fun m => m.1 ≠ tag)⟩) ∨
    ∃ e, taggedOf tag variants ms = .error e ∧ e.kind = .mismatched := by
  cases hfind : ms.find? fun m => m.1 = tag with
  | none =>
    have hnone : ∀ m ∈ ms, m.1 ≠ tag := by simpa using hfind
    refine .inr ⟨.missingField tag, ?_, rfl⟩
    rw [taggedOf, foldlM_taggedMember hnone]
    rfl
  | some m =>
    obtain ⟨hname, before, after, rfl, hbefore⟩ := List.find?_eq_some_iff_append.mp hfind
    obtain ⟨name, v⟩ := m
    obtain rfl : name = tag := by simpa using hname
    have hbefore : ∀ m ∈ before, m.1 ≠ name := by simpa using hbefore
    rcases variantOf_cases variants v with ⟨t, ht, rfl, hvariant⟩ | ⟨e, hvariant, he⟩
    · by_cases hagain : ∃ m ∈ after, m.1 = name
      · rw [taggedOf_append hbefore, hvariant]
        exact .inr ⟨.repeatedField name, if_pos hagain, rfl⟩
      · have hafter : ∀ m ∈ after, m.1 ≠ name := fun m hm hsame => hagain ⟨m, hm, hsame⟩
        have hmem : (name, .text t) ∈ before ++ (name, .text t) :: after :=
          List.mem_append_right before List.mem_cons_self
        have honce : ((before ++ (name, .text t) :: after).map Prod.fst).count name = 1 := by
          rw [List.map_append, List.map_cons, List.count_append, List.count_cons_self,
            count_names_eq_zero hbefore, count_names_eq_zero hafter]
        exact .inl ⟨t, ht, hmem, honce, taggedOf_of_once ht hmem honce⟩
    · rw [taggedOf_append hbefore, hvariant]
      exact .inr ⟨e, rfl, he⟩

/-! ## The fields among the members -/

section Fields

variable {fields : List VariantField} {f : VariantField} {name : String}

/-- The members of one name are as many as the name is counted. -/
theorem length_filter_name (ms : List (String × Value)) (name : String) :
    (ms.filter fun m => m.1 == name).length = (ms.map Prod.fst).count name := by
  rw [List.count, List.countP_map, List.countP_eq_length_filter]
  rfl

/-- Where a field finds no value it fails to match. -/
theorem VariantField.kind_of_fromMembers {e : Error} (h : f.fromMembers ms = .error e) :
    e.kind = .mismatched := by
  rw [fromMembers] at h
  split at h
  · cases hpresence : f.presence <;> rw [hpresence] at h <;> cases h
    rfl
  · rw [check] at h
    split at h
    · cases h
    · cases h
      rfl
  · cases h
    rfl

/-- A field that is repeated has no value, whichever values are given. -/
theorem VariantField.fromMembers_of_repeated (h : 2 ≤ (ms.map Prod.fst).count f.name) :
    f.fromMembers ms = .error (.repeatedField f.name) := by
  rw [← length_filter_name] at h
  rw [fromMembers]
  split
  · rename_i hnil
    rw [hnil] at h
    simp at h
  · rename_i hone
    rw [hone] at h
    simp at h
  · rfl

/-- The fields of a variant fail to match where one of them is repeated. -/
theorem variantFields_of_repeated (hf : f ∈ fields) (h : 2 ≤ (ms.map Prod.fst).count f.name) :
    ∃ e, variantFields fields (.object ms) = .error e ∧ e.kind = .mismatched := by
  show ∃ e, (fields.mapM fun f => f.fromMembers ms) = .error e ∧ e.kind = .mismatched
  induction fields with
  | nil => cases hf
  | cons g fields ih =>
    rw [List.mapM_cons]
    cases hfirst : g.fromMembers ms with
    | error e => exact ⟨e, rfl, VariantField.kind_of_fromMembers hfirst⟩
    | ok m =>
      rcases List.mem_cons.mp hf with rfl | hf
      · rw [VariantField.fromMembers_of_repeated h] at hfirst
        cases hfirst
      · obtain ⟨e, he, hkind⟩ := ih hf
        exact ⟨e, by rw [he]; rfl, hkind⟩

/-- A field takes its value from the members of its name. -/
theorem variantFields_congr {ms' : List (String × Value)}
    (h : ∀ f ∈ fields, (ms.filter fun m => m.1 == f.name) = ms'.filter fun m => m.1 == f.name) :
    variantFields fields (.object ms) = variantFields fields (.object ms') := by
  show (fields.mapM fun f => f.fromMembers ms) = fields.mapM fun f => f.fromMembers ms'
  induction fields with
  | nil => rfl
  | cons f fields ih =>
    obtain ⟨hfirst, hothers⟩ := List.forall_mem_cons.mp h
    rw [List.mapM_cons, List.mapM_cons, ih hothers, VariantField.fromMembers, VariantField.fromMembers,
      hfirst]

/-- A name that stands at most once finds the same member in every order. -/
theorem filter_name_of_perm {known others : List (String × Value)} (hperm : ms.Perm (known ++ others))
    (honce : (known.map Prod.fst).count name ≤ 1) (hothers : ∀ m ∈ others, m.1 ≠ name) :
    (ms.filter fun m => m.1 == name) = known.filter fun m => m.1 == name := by
  have hnone : (others.filter fun m => m.1 == name) = [] := by
    rw [← List.length_eq_zero_iff, length_filter_name, count_names_eq_zero hothers]
  have hfilter := hperm.filter fun m => m.1 == name
  rw [List.filter_append, hnone, List.append_nil] at hfilter
  rw [← length_filter_name] at honce
  generalize (known.filter fun m => m.1 == name) = l at hfilter honce
  match l, honce with
  | [], _ => exact hfilter.eq_nil
  | [m], _ => exact List.perm_singleton.mp hfilter

end Fields

end BrokerTopology.Json
