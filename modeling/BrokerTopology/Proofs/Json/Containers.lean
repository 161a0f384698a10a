import Mathlib.Data.List.Forall2
import BrokerTopology.Proofs.Json.Numbers
/-!
# Reading arrays and objects

The loops that read items and members are followed through a text in which commas stand between the
parts, with blanks around each. The loop over items gives the list of what is read. What the loop over
members makes of an object is a fold over the list of its members, whether it comes to the end or fails
before.

The arrays and objects that are written are such texts, without blanks.
-/

namespace BrokerTopology.Json

variable {α β σ : Type} {rest b b' : List Char}

/-! ## Arrays -/

section Items

variable {item : Reader α} {t : List Char} {a : α}

theorem items_blanks (hb : Blanks b) (bound : Nat) (s : List Char) :
    items item bound (b ++ s) = items item bound s := by
  rw [items.eq_def, items.eq_def]
  simp only [skipBlank_blanks hb]

theorem moreItems_blanks (hb : Blanks b) (bound : Nat) (s : List Char) :
    moreItems item bound (b ++ s) = moreItems item bound s := by
  cases bound with
  | zero => rfl
  | succ n =>
    rw [moreItems.eq_def]
    simp only [skipBlank_blanks hb]

/-- One item is read with the blanks around it, and then those that follow. -/
theorem items_part (h : Reads item t a) (hb : Blanks b) (hb' : Blanks b') (hrest : Ends rest)
    (bound : Nat) :
    items item bound (b ++ (t ++ (b' ++ rest))) =
      moreItems item bound rest >>= fun p => pure (a :: p.1, p.2) := by
  rw [items_blanks hb, items.eq_def]
  dsimp only
  rw [h.skipBlank_append]
  split
  · rename_i hnil
    exact absurd hnil h.append_ne_nil
  · -- no item begins with the bracket that closes the array
    rename_i hclose
    exact absurd hclose (h.append_ne (by decide))
  · refine (bind_of_eq_ok (h.reads _ (ends_blanks hb' hrest)) _).trans ?_
    rw [moreItems_blanks hb']

theorem moreItems_part (h : Reads item t a) (hb : Blanks b) (hb' : Blanks b') (hrest : Ends rest)
    (n : Nat) :
    moreItems item (n + 1) (',' :: (b ++ (t ++ (b' ++ rest)))) =
      moreItems item n rest >>= fun p => pure (a :: p.1, p.2) := by
  have hcomma : ∀ s, skipBlank (',' :: s) = ',' :: s := fun _ => rfl
  rw [moreItems.eq_def]
  simp only [hcomma, skipBlank_blanks hb]
  rw [h.skipBlank_append]
  split
  · rename_i hclose
    exact absurd hclose (h.append_ne (by decide))
  · refine (bind_of_eq_ok (h.reads _ (ends_blanks hb' hrest)) _).trans ?_
    rw [moreItems_blanks hb']

variable {P : β → List Char → Prop} {g : β → α} {ps : List β} {s : List Char}

/-- The items behind a comma are read up to the closing bracket. -/
theorem moreItems_spread (h : Spread P ps s) (hnonempty : ps ≠ [])
    (hread : ∀ p ∈ ps, ∀ t, P p t → Reads item t (g p)) {bound : Nat} (hbound : s.length + 1 < bound) :
    moreItems item bound (',' :: (s ++ ']' :: rest)) = .ok (ps.map g, rest) := by
  -- each comma takes one turn, and one more is left for the bracket
  obtain ⟨n, rfl⟩ := Nat.exists_eq_succ_of_ne_zero (Nat.ne_zero_of_lt hbound)
  induction h generalizing n with
  | nil => exact absurd rfl hnonempty
  | @one p t b b' ht hb hb' =>
    obtain ⟨m, rfl⟩ := Nat.exists_eq_succ_of_ne_zero (n := n) (by omega)
    rw [List.append_assoc, List.append_assoc,
      moreItems_part (hread p List.mem_cons_self t ht) hb hb' (ends_cons.mpr (by decide))]
    rfl
  | @cons p p' ps t s b b' ht hb hb' _ ih =>
    obtain ⟨hfirst, hothers⟩ := List.forall_mem_cons.mp hread
    simp only [List.length_append, List.length_cons] at hbound
    obtain ⟨m, rfl⟩ := Nat.exists_eq_succ_of_ne_zero (n := n) (by omega)
    have hmore := ih (List.cons_ne_nil p' ps) hothers m (by omega)
    rw [List.append_assoc, List.append_assoc, List.append_assoc, List.cons_append,
      moreItems_part (hfirst t ht) hb hb' (ends_cons.mpr (by decide)), hmore]
    rfl

/-- The items of an array are read up to the closing bracket. -/
theorem items_spread (h : Spread P ps s) (hread : ∀ p ∈ ps, ∀ t, P p t → Reads item t (g p))
    (rest : List Char) :
    items item (s ++ ']' :: rest).length (s ++ ']' :: rest) = .ok (ps.map g, rest) := by
  cases h with
  | nil hb =>
    rw [items_blanks hb]
    rfl
  | @one p t b b' ht hb hb' =>
    rw [List.append_assoc, List.append_assoc,
      items_part (hread p List.mem_cons_self t ht) hb hb' (ends_cons.mpr (by decide))]
    simp only [List.length_append, List.length_cons, ← Nat.add_assoc]
    rfl
  | @cons p p' ps t s b b' ht hb hb' hothers =>
    obtain ⟨hfirst, hread⟩ := List.forall_mem_cons.mp hread
    rw [List.append_assoc, List.append_assoc, List.append_assoc, List.cons_append,
      items_part (hfirst t ht) hb hb' (ends_cons.mpr (by decide)),
      moreItems_spread hothers (List.cons_ne_nil p' ps) hread]
    · rfl
    · simp only [List.length_append, List.length_cons]
      omega

end Items

/-! ## Objects -/

/-- A step reads a member from its text, with the result that `f` says. -/
def StepsBy (step : σ → String → Reader σ) (f : σ → β → Except Error σ) (p : β) (t : List Char) : Prop :=
  ∃ body, t = '"' :: body ∧ ∀ state rest, Ends rest →
    (textRest (body ++ rest) >>= fun k => step state k.1 k.2) =
      f state p >>= fun state => pure (state, rest)

section Members

variable {step : σ → String → Reader σ} {f : σ → β → Except Error σ} {p : β} {s t : List Char}

/-- A member is read if a step reads what stands behind its name. -/
theorem stepsBy_of_spells {name : String} {key tail : List Char} (hkey : Spells False name.toList key)
    (h : ∀ state rest, Ends rest →
      step state name (tail ++ rest) = f state p >>= fun state => pure (state, rest)) :
    StepsBy step f p ('"' :: (key ++ '"' :: tail)) := by
  refine ⟨_, rfl, fun state rest hrest => ?_⟩
  rw [List.append_assoc, List.cons_append]
  exact (bind_of_eq_ok (textRest_spells hkey _) _).trans (h state rest hrest)

theorem members_blanks (hb : Blanks b) (bound : Nat) (state : σ) (s : List Char) :
    members textRest step bound state (b ++ s) = members textRest step bound state s := by
  rw [members.eq_def, members.eq_def]
  simp only [skipBlank_blanks hb]

theorem moreMembers_blanks (hb : Blanks b) (bound : Nat) (state : σ) (s : List Char) :
    moreMembers textRest step bound state (b ++ s) = moreMembers textRest step bound state s := by
  cases bound with
  | zero => rfl
  | succ n =>
    rw [moreMembers.eq_def]
    simp only [skipBlank_blanks hb]

/-- Behind the opening quote of a member the step reads the member, and the members behind it follow
unless the step fails. -/
theorem step_moreMembers {body : List Char}
    (hread : ∀ state rest, Ends rest → (textRest (body ++ rest) >>= fun k => step state k.1 k.2) =
      f state p >>= fun state => pure (state, rest))
    (hb : Blanks b) (hrest : Ends rest) (state : σ) (n : Nat) :
    (textRest (body ++ (b ++ rest)) >>= fun k => step state k.1 k.2 >>= fun q =>
      moreMembers textRest step n q.1 q.2) =
      f state p >>= fun state => moreMembers textRest step n state rest := by
  rw [← bind_assoc, hread state _ (ends_blanks hb hrest), bind_assoc]
  simp only [pure_bind, moreMembers_blanks hb]

/-- One member is read with the blanks around it, and then those that follow. -/
theorem members_part (h : StepsBy step f p t) (hb : Blanks b) (hb' : Blanks b') (hrest : Ends rest)
    (state : σ) (bound : Nat) :
    members textRest step bound state (b ++ (t ++ (b' ++ rest))) =
      f state p >>= fun state => moreMembers textRest step bound state rest := by
  obtain ⟨body, rfl, hread⟩ := h
  rw [members_blanks hb, List.cons_append]
  exact step_moreMembers hread hb' hrest state bound

theorem moreMembers_part (h : StepsBy step f p t) (hb : Blanks b) (hb' : Blanks b') (hrest : Ends rest)
    (state : σ) (n : Nat) :
    moreMembers textRest step (n + 1) state (',' :: (b ++ (t ++ (b' ++ rest)))) =
      f state p >>= fun state => moreMembers textRest step n state rest := by
  obtain ⟨body, rfl, hread⟩ := h
  have hcomma : ∀ s, skipBlank (',' :: s) = ',' :: s := fun _ => rfl
  rw [moreMembers.eq_def]
  simp only [hcomma, skipBlank_blanks hb]
  exact step_moreMembers hread hb' hrest state n

variable {P : β → List Char → Prop} {ps : List β}

/-- The members behind a comma are read up to the closing bracket, or up to the first step that
fails. -/
theorem moreMembers_spread (h : Spread P ps s) (hnonempty : ps ≠ [])
    (hsteps : ∀ p ∈ ps, ∀ t, P p t → StepsBy step f p t) (state : σ) {bound : Nat}
    (hbound : s.length + 1 < bound) :
    moreMembers textRest step bound state (',' :: (s ++ '}' :: rest)) =
      ps.foldlM f state >>= fun state => pure (state, rest) := by
  obtain ⟨n, rfl⟩ := Nat.exists_eq_succ_of_ne_zero (Nat.ne_zero_of_lt hbound)
  induction h generalizing n state with
  | nil => exact absurd rfl hnonempty
  | @one p t b b' ht hb hb' =>
    obtain ⟨m, rfl⟩ := Nat.exists_eq_succ_of_ne_zero (n := n) (by omega)
    rw [List.append_assoc, List.append_assoc,
      moreMembers_part (hsteps p List.mem_cons_self t ht) hb hb' (ends_cons.mpr (by decide)),
      List.foldlM_cons, bind_assoc]
    rfl
  | @cons p p' ps t s b b' ht hb hb' _ ih =>
    obtain ⟨hfirst, hothers⟩ := List.forall_mem_cons.mp hsteps
    simp only [List.length_append, List.length_cons] at hbound
    obtain ⟨m, rfl⟩ := Nat.exists_eq_succ_of_ne_zero (n := n) (by omega)
    have hmore := fun state => ih (List.cons_ne_nil p' ps) hothers state m (by omega)
    rw [List.append_assoc, List.append_assoc, List.append_assoc, List.cons_append,
      moreMembers_part (hfirst t ht) hb hb' (ends_cons.mpr (by decide)), List.foldlM_cons, bind_assoc]
    exact bind_congr hmore

/-- The members of an object are read up to the closing bracket, or up to the first step that fails. -/
theorem members_spread (h : Spread P ps s) (hsteps : ∀ p ∈ ps, ∀ t, P p t → StepsBy step f p t)
    (state : σ) (rest : List Char) :
    members textRest step (s ++ '}' :: rest).length state (s ++ '}' :: rest) =
      ps.foldlM f state >>= fun state => pure (state, rest) := by
  cases h with
  | nil hb =>
    rw [members_blanks hb]
    rfl
  | @one p t b b' ht hb hb' =>
    rw [List.append_assoc, List.append_assoc,
      members_part (hsteps p List.mem_cons_self t ht) hb hb' (ends_cons.mpr (by decide)),
      List.foldlM_cons, bind_assoc]
    simp only [List.length_append, List.length_cons, ← Nat.add_assoc]
    rfl
  | @cons p p' ps t s b b' ht hb hb' hothers =>
    obtain ⟨hfirst, hsteps⟩ := List.forall_mem_cons.mp hsteps
    rw [List.append_assoc, List.append_assoc, List.append_assoc, List.cons_append,
      members_part (hfirst t ht) hb hb' (ends_cons.mpr (by decide)), List.foldlM_cons, bind_assoc]
    refine bind_congr fun state => moreMembers_spread hothers (List.cons_ne_nil p' ps) hsteps state ?_
    simp only [List.length_append, List.length_cons]
    omega

end Members

/-! ## What is written -/

theorem renderItems_eq (vs : List Value) :
    renderItems vs = [','].intercalate (vs.map Value.render) := by
  induction vs with
  | nil => rw [renderItems]; rfl
  | cons v vs ih =>
    cases vs with
    | nil => rw [renderItems]; simp
    | cons w vs => simp [renderItems, ih]

/-- The text of a member whose value is written as `text`. -/
def memberText (name : String) (text : List Char) : List Char :=
  quote name ++ ':' :: text

theorem renderMembers_eq (ms : List (String × Value)) :
    renderMembers ms = [','].intercalate (ms.map fun m => memberText m.1 m.2.render) := by
  induction ms with
  | nil => rw [renderMembers]; rfl
  | cons m ms ih =>
    cases ms with
    | nil => rw [renderMembers]; simp [memberText]
    | cons m' ms => simp [renderMembers, ih, memberText]

section Spread

variable {P : β → List Char → Prop}

/-- Parts that are written with nothing but commas between them. -/
theorem spread_intercalate (write : β → List Char) (ps : List β) (h : ∀ p ∈ ps, P p (write p)) :
    Spread P ps ([','].intercalate (ps.map write)) := by
  have hblanks : Blanks [] := List.forall_mem_nil _
  induction ps with
  | nil => exact .nil hblanks
  | cons p ps ih =>
    obtain ⟨hfirst, hothers⟩ := List.forall_mem_cons.mp h
    cases ps with
    | nil =>
      have hone := Spread.one hfirst hblanks hblanks
      rw [List.nil_append, List.append_nil] at hone
      simpa using hone
    | cons p' ps => exact .cons hfirst hblanks hblanks (ih hothers)

theorem spread_renderItems {v : β → Value} {ps : List β} (h : ∀ p ∈ ps, P p (v p).render) :
    Spread P ps (renderItems (ps.map v)) := by
  rw [renderItems_eq, List.map_map]
  exact spread_intercalate _ ps h

theorem spread_renderMembers {m : β → String × Value} {ps : List β}
    (h : ∀ p ∈ ps, P p (memberText (m p).1 (m p).2.render)) :
    Spread P ps (renderMembers (ps.map m)) := by
  rw [renderMembers_eq, List.map_map]
  exact spread_intercalate _ ps h

end Spread

theorem render_array_append (vs : List Value) (rest : List Char) :
    (Value.array vs).render ++ rest = '[' :: (renderItems vs ++ ']' :: rest) := by
  rw [Value.render, List.cons_append, List.append_assoc]
  rfl

theorem render_object_append (ms : List (String × Value)) (rest : List Char) :
    (Value.object ms).render ++ rest = '{' :: (renderMembers ms ++ '}' :: rest) := by
  rw [Value.render, List.cons_append, List.append_assoc]
  rfl

/-- Two lists whose members are related are made of related pairs. -/
theorem exists_pairs_of_forall₂ {R : α → β → Prop} {as : List α} {bs : List β}
    (h : List.Forall₂ R as bs) :
    ∃ ps : List (α × β), ps.map Prod.fst = as ∧ ps.map Prod.snd = bs ∧ ∀ p ∈ ps, R p.1 p.2 := by
  obtain ⟨hlength, hrel⟩ := List.forall₂_iff_zip.mp h
  exact ⟨as.zip bs, List.map_fst_zip hlength.le, List.map_snd_zip hlength.ge, fun p hp => hrel hp⟩

/-- An array is read as the values of its items. -/
theorem reads_asArray {read : Reader Value} {vs ws : List Value}
    (h : List.Forall₂ (fun v w => Reads read v.render w) vs ws) :
    Reads (asArray read) (Value.array vs).render (.array ws) where
  begins := by
    rw [Value.render]
    exact ⟨'[', _, rfl, by decide⟩
  reads := by
    intro rest _
    obtain ⟨ps, rfl, rfl, hread⟩ := exists_pairs_of_forall₂ h
    have hspread : Spread (fun p t => t = p.1.render) ps (renderItems (ps.map Prod.fst)) :=
      spread_renderItems fun p _ => rfl
    have hitems := items_spread hspread (fun p hp t ht => ht ▸ hread p hp) rest
    rw [render_array_append]
    exact bind_of_eq_ok hitems _

end BrokerTopology.Json
