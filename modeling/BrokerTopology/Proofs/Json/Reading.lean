import BrokerTopology.Proofs.Json.Containers
import BrokerTopology.Proofs.Json.Numerals
/-!
# Every text of a value is read

Whatever text denotes a value is read as that value, unless a surrogate stands alone in it. The texts
that are written for values are among the texts that denote them, so a value is read back from what is
written of it if its numbers are and its containers are not nested too deep.

Main statement: `Value.read_of_isDocument`.
-/

namespace BrokerTopology.Json

variable {b b' : List Char}

/-! ## The texts of a value -/

theorem valueOver_blanks (item : Option (Reader Value)) (hb : Blanks b) (s : List Char) :
    valueOver item (b ++ s) = valueOver item s := by
  rw [valueOver, valueOver, skipBlank_blanks hb]

theorem value_blanks (hb : Blanks b) (depth : Nat) (s : List Char) :
    value depth (b ++ s) = value depth s := by
  cases depth with
  | zero => exact valueOver_blanks none hb s
  | succ depth => exact valueOver_blanks (some (value depth)) hb s

/-- The blanks around a colon do not matter. -/
theorem afterColon_blanks {α : Type} {read : Reader α} {s : List Char} (hb : Blanks b)
    (hread : read (b' ++ s) = read s) : afterColon read (b ++ ':' :: (b' ++ s)) = read s := by
  rw [afterColon, skipBlank_blanks hb]
  exact hread

/-- A member is read from each of its texts if a step reads its value, with any blanks around the
colon. -/
theorem IsMember.stepsBy {α σ : Type} {step : σ → String → Reader σ}
    {f : σ → String × α → Except Error σ} {p : (String × α) × List Char} {t : List Char}
    (hmember : IsMember False p t)
    (h : ∀ state b b' rest, Blanks b → Blanks b' → Ends rest →
      step state p.1.1 (b ++ ':' :: (b' ++ (p.2 ++ rest))) =
        f state p.1 >>= fun state => pure (state, rest)) :
    StepsBy step (fun state p => f state p.1) p t := by
  obtain ⟨key, c, c', hkey, hc, hc', rfl⟩ := hmember
  refine stepsBy_of_spells hkey fun state rest hrest => ?_
  rw [List.append_assoc, List.cons_append, List.append_assoc]
  exact h state c c' rest hc hc' hrest

/-- A member of any value is kept with its value. -/
theorem IsMember.stepsBy_memberStep {depth : Nat} {p : (String × Value) × List Char} {t : List Char}
    (hmember : IsMember False p t) (h : Reads (value depth) p.2 p.1.2) :
    StepsBy (memberStep (value depth)) (fun ms p => pure (p.1 :: ms)) p t := by
  refine hmember.stepsBy (f := fun ms m => pure (m :: ms)) fun ms b b' rest hb hb' hrest => ?_
  rw [memberStep, afterColon_blanks hb (value_blanks hb' depth _), h.reads rest hrest]
  rfl

/-- Scalars are read alike at every depth. -/
theorem Reads.atDepth {t : List Char} {v : Value} (h : ∀ item, Reads (valueOver item) t v) (depth : Nat) :
    Reads (value depth) t v := by
  cases depth with
  | zero => exact h none
  | succ depth => exact h (some (value depth))

/-- Every text of a value is read as that value, unless a surrogate stands alone in it. -/
theorem Denotes.reads {depth : Nat} {v : Value} {t : List Char} (h : Denotes False depth v t) :
    Reads (value depth) t v := by
  induction h with
  | null => exact Reads.atDepth reads_valueOver_null _
  | bool b => exact Reads.atDepth (fun item => reads_valueOver_bool item b) _
  | number h => exact Reads.atDepth (fun item => reads_valueOver_numeral item h) _
  | text h =>
    refine Reads.atDepth (fun item => ⟨⟨'"', _, rfl, by decide⟩, fun rest _ => ?_⟩) _
    rw [List.cons_append, List.append_assoc]
    exact bind_of_eq_ok (textRest_spells h rest) _
  | array _ hspread ih =>
    refine ⟨⟨'[', _, rfl, by decide⟩, fun rest _ => ?_⟩
    rw [List.cons_append, List.append_assoc]
    exact bind_of_eq_ok (items_spread hspread (fun p hp t ht => ht ▸ ih p hp) rest) _
  | @object depth ps s _ hspread ih =>
    refine ⟨⟨'{', _, rfl, by decide⟩, fun rest _ => ?_⟩
    have hmembers :=
      members_spread hspread (fun p hp t ht => IsMember.stepsBy_memberStep ht (ih p hp)) [] rest
    have hfold : ps.foldl (fun ms p => p.1 :: ms) [] = (ps.map Prod.fst).reverse := by
      simp
    rw [List.foldlM_pure, hfold] at hmembers
    rw [List.cons_append, List.append_assoc]
    refine (bind_of_eq_ok hmembers _).trans ?_
    exact congrArg (fun got => Except.ok (Value.object got, rest)) (List.reverse_reverse _)

/-! ## Documents -/

/-- What a reader makes of a value it makes of a document, since only blanks follow. -/
theorem document_of_blanks {α : Type} {read : Reader α} {s : List Char} {text : String} {r : Except Error α}
    (hb : Blanks b) (htext : text.toList = s ++ b) (h : read (s ++ b) = r >>= fun a => pure (a, b)) :
    document read text = r := by
  have hempty : (skipBlank b).isEmpty = true := by
    have hnil := skipBlank_blanks hb []
    rw [List.append_nil] at hnil
    rw [hnil]
    rfl
  rw [document, htext, h]
  cases r with
  | error e => rfl
  | ok a => exact if_pos hempty

/-- Every document of a value is read as that value, unless a surrogate stands alone in it. -/
theorem Value.read_of_isDocument {v : Value} {text : String} (h : IsDocument False v text) :
    Value.read text = .ok v := by
  obtain ⟨b, t, b', hb, hb', hdenotes, htext⟩ := h
  rw [← List.append_assoc] at htext
  refine document_of_blanks hb' htext ?_
  rw [List.append_assoc, value_blanks hb]
  have hends : Ends b' := by
    rw [← List.append_nil b']
    exact ends_blanks hb' ends_nil
  exact hdenotes.reads.reads b' hends

/-! ## What is written -/

/-- A value whose numbers read back and whose containers are nested at most `depth` deep. -/
inductive Value.Readable : Nat → Value → Prop
  | null {depth : Nat} : Readable depth .null
  | bool {depth : Nat} (b : Bool) : Readable depth (.bool b)
  | text {depth : Nat} (s : String) : Readable depth (.text s)
  | number {depth : Nat} {n : Number} (h : n.ReadsBack) : Readable depth (.number n)
  | array {depth : Nat} {vs : List Value} (h : ∀ v ∈ vs, Readable depth v) :
      Readable (depth + 1) (.array vs)
  | object {depth : Nat} {ms : List (String × Value)} (h : ∀ m ∈ ms, Readable depth m.2) :
      Readable (depth + 1) (.object ms)

section Written

variable {lone : Prop} {depth : Nat}

/-- What is written of a name and a value is a member. -/
theorem isMember_memberText {α : Type} (lone : Prop) (p : (String × α) × List Char) :
    IsMember lone p (memberText p.1.1 p.2) :=
  ⟨escape p.1.1.toList, [], [], spells_escape lone _, List.forall_mem_nil _, List.forall_mem_nil _, by
    simp [memberText, quote]⟩

/-- Parts that are paired with what is written of them. -/
theorem exists_written {α : Type} (write : α → List Char) (as : List α) :
    ∃ ps : List (α × List Char), ps.map Prod.fst = as ∧ ∀ p ∈ ps, write p.1 = p.2 := by
  refine ⟨as.map fun a => (a, write a), ?_, List.forall_mem_map.mpr fun a _ => rfl⟩
  rw [List.map_map]
  exact List.map_id as

/-- What is written of a value denotes it, if its numbers read back. -/
theorem Value.Readable.denotes {v : Value} (h : v.Readable depth) : Denotes lone depth v v.render := by
  induction h with
  | null =>
    rw [Value.render]
    exact .null
  | bool b => exact .bool b
  | text s =>
    rw [Value.render]
    exact .text (spells_escape lone s.toList)
  | number h =>
    rw [Value.render]
    have halone := h.signedNumber_append ends_nil
    rw [List.append_nil] at halone
    exact .number (numeral_iff.mpr halone)
  | @array depth vs _ ih =>
    obtain ⟨ps, rfl, hps⟩ := exists_written Value.render vs
    rw [Value.render]
    refine .array (fun p hp => ?_) (spread_renderItems fun p hp => (hps p hp).symm)
    rw [← hps p hp]
    exact ih p.1 (List.mem_map_of_mem hp)
  | @object depth ms _ ih =>
    obtain ⟨ps, rfl, hps⟩ := exists_written (fun m : String × Value => m.2.render) ms
    rw [Value.render]
    refine .object (fun p hp => ?_) (spread_renderMembers fun p hp => ?_)
    · rw [← hps p hp]
      exact ih p.1 (List.mem_map_of_mem hp)
    · rw [hps p hp]
      exact isMember_memberText lone p

/-- What is written of a value is one of its documents. -/
theorem Value.Readable.isDocument {v : Value} (h : v.Readable maxDepth) : IsDocument lone v v.write :=
  ⟨[], v.render, [], List.forall_mem_nil _, List.forall_mem_nil _, h.denotes, by
    rw [Value.write, String.toList_ofList, List.nil_append, List.append_nil]⟩

/-- A readable value is read back from its document. -/
theorem Value.read_write {v : Value} (h : v.Readable maxDepth) : Value.read v.write = .ok v :=
  Value.read_of_isDocument h.isDocument

end Written

end BrokerTopology.Json
