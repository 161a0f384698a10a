import BrokerTopology.Proofs.Json.Grammar
/-!
# Reading back texts and constants

A reader is given a text with something behind it, and has to stop where the text ends. So what is
said of a reader is said for every rest that may follow a value: nothing, or a text that begins with a
blank, a comma or a closing bracket.

What spells a text is read as that text. Every text reads back, whatever its characters, and so do the
three constants.
-/

namespace BrokerTopology.Json

/-! ## Where a value ends -/

/-- The characters at which a value has ended. -/
def isEnd (c : Char) : Bool :=
  isBlank c || c == ',' || c == ']' || c == '}'

/-- What may follow a value. -/
def Ends (rest : List Char) : Prop :=
  ∀ c ∈ rest.head?, isEnd c = true

@[simp] theorem ends_nil : Ends [] := by
  simp [Ends]

@[simp] theorem ends_cons {c : Char} {cs : List Char} : Ends (c :: cs) ↔ isEnd c = true := by
  simp [Ends]

/-- A reader takes a text for a value, whatever follows it. The text begins with a character at which
no value ends. -/
structure Reads {α : Type} (read : Reader α) (text : List Char) (a : α) : Prop where
  begins : ∃ c cs, text = c :: cs ∧ isEnd c = false
  reads : ∀ rest, Ends rest → read (text ++ rest) = .ok (a, rest)

variable {α : Type} {read : Reader α} {text rest : List Char} {a : α} {c : Char}

/-- A character at which no value ends is not passed over as a blank. -/
theorem skipBlank_cons (h : isEnd c = false) (cs : List Char) : skipBlank (c :: cs) = c :: cs := by
  have hblank : isBlank c = false := by
    simp only [isEnd, Bool.or_eq_false_iff] at h
    exact h.1.1.1
  rw [skipBlank, List.dropWhile_cons_of_neg (by rw [hblank]; exact Bool.false_ne_true)]

/-- Blanks in front are passed over. -/
theorem skipBlank_blanks {b : List Char} (hb : Blanks b) (s : List Char) :
    skipBlank (b ++ s) = skipBlank s :=
  List.dropWhile_append_of_pos hb

/-- A value ends before blanks that end. -/
theorem ends_blanks {b : List Char} (hb : Blanks b) (hrest : Ends rest) : Ends (b ++ rest) := by
  cases b with
  | nil => exact hrest
  | cons c cs => exact ends_cons.mpr (by simp [isEnd, hb c List.mem_cons_self])

/-- A value that is read has no blanks in front. -/
theorem Reads.skipBlank_append (h : Reads read text a) (rest : List Char) :
    skipBlank (text ++ rest) = text ++ rest := by
  obtain ⟨c, cs, rfl, hc⟩ := h.begins
  exact skipBlank_cons hc (cs ++ rest)

/-- A value that is read begins with none of the characters at which values end. -/
theorem Reads.append_ne (h : Reads read text a) (hc : isEnd c = true) {cs : List Char} :
    text ++ rest ≠ c :: cs := by
  obtain ⟨d, ds, rfl, hd⟩ := h.begins
  intro heq
  obtain ⟨rfl, -⟩ := List.cons.inj heq
  rw [hc] at hd
  cases hd

theorem Reads.append_ne_nil (h : Reads read text a) : text ++ rest ≠ [] := by
  obtain ⟨d, ds, rfl, -⟩ := h.begins
  exact List.cons_ne_nil d (ds ++ rest)

/-- A document that holds one value is read as that value. -/
theorem Reads.document (h : Reads read text a) : document read (String.ofList text) = .ok a := by
  have hread := h.reads [] ends_nil
  rw [List.append_nil] at hread
  rw [Json.document, String.toList_ofList, hread]
  rfl

/-! ## One step after the other -/

/-- What has been read before a step that leads to a result. -/
theorem exists_of_bind_eq_ok {β ε : Type} {x : Except ε α} {f : α → Except ε β} {b : β}
    (h : x >>= f = .ok b) : ∃ a, x = .ok a ∧ f a = .ok b := by
  cases x with
  | error e => cases h
  | ok a => exact ⟨a, rfl, h⟩

/-- What is done after a step that has a result. -/
theorem bind_of_eq_ok {β ε : Type} {x : Except ε α} (h : x = .ok a) (f : α → Except ε β) :
    x >>= f = f a := by
  rw [h]
  rfl

/-- What is made of a value that was read is read of the same text. -/
theorem Reads.map {β : Type} {b : β} {further : α → Except Error β} (h : Reads read text a)
    (hfurther : further a = .ok b) :
    Reads (fun s => do
      let (a, rest) ← read s
      return (← further a, rest)) text b where
  begins := h.begins
  reads := by
    intro rest hrest
    refine (bind_of_eq_ok (h.reads rest hrest) _).trans ?_
    exact bind_of_eq_ok hfurther _

/-! ## Texts -/

theorem hexValue?_hexDigit : ∀ n < 16, hexValue? (hexDigit n) = some n := by
  decide

/-- A control character is the one that its four digits denote. -/
theorem hexUnit?_of_control (h : c.toNat < 0x20) :
    hexUnit? '0' '0' (hexDigit (c.toNat / 16)) (hexDigit (c.toNat % 16)) = some c.toNat := by
  have hhigh := hexValue?_hexDigit (c.toNat / 16) (by omega)
  have hlow := hexValue?_hexDigit (c.toNat % 16) (by omega)
  have hzero : hexValue? '0' = some 0 := by decide
  rw [hexUnit?, hhigh, hlow, hzero]
  exact congrArg some (by omega)

/-- A character that is written as it is reads back as it is. -/
theorem textBody_plain (hquote : c ≠ '"') (hslash : c ≠ '\\') (hcontrol : ¬ c.toNat < 0x20)
    (rest : List Char) : textBody (c :: rest) = cons c (textBody rest) := by
  rw [textBody.eq_def]
  split
  case h_7 c' rest' _ _ _ _ _ heq =>
    obtain ⟨rfl, rfl⟩ := List.cons.inj heq
    exact if_neg hcontrol
  all_goals simp_all

/-- An escape of one letter is read as its character. -/
theorem textBody_letter {e c : Char} (h : simpleEscape? e = some c) (rest : List Char) :
    textBody ('\\' :: e :: rest) = cons c (textBody rest) := by
  rw [simpleEscape?.eq_def] at h
  split at h
  all_goals cases h
  all_goals rfl

/-- No surrogate is the first half of a pair and the second half of one. -/
theorem isLowSurrogate_of_isHighSurrogate {n : Nat} (h : isHighSurrogate n = true) :
    isLowSurrogate n = false := by
  simp [isHighSurrogate, isLowSurrogate] at *
  omega

/-- What is spelled is read up to the closing quote. -/
theorem textBody_spells {cs body : List Char} (h : Spells False cs body) (rest : List Char) :
    textBody (body ++ '"' :: rest) = .ok (cs, rest) := by
  induction h with
  | nil => rfl
  | @plain c cs body hquote hslash hcontrol _ ih =>
    rw [List.cons_append, textBody_plain hquote hslash hcontrol, ih]
    rfl
  | @letter e c cs body hletter _ ih =>
    rw [List.cons_append, List.cons_append, textBody_letter hletter, ih]
    rfl
  | @unit u v w x n cs body hunit hhigh hlow _ ih =>
    simp only [List.cons_append]
    rw [textBody, hunit]
    simp only [hhigh, hlow, ih]
    rfl
  | @pair u v w x u' v' w' x' n m cs body hunit hhigh hunit' hlow _ ih =>
    simp only [List.cons_append]
    rw [textBody, hunit]
    simp only [hhigh, isLowSurrogate_of_isHighSurrogate hhigh, hunit', hlow, ih]
    rfl
  | surrogate hlone => exact hlone.elim

theorem textRest_spells {s : String} {body : List Char} (h : Spells False s.toList body)
    (rest : List Char) : textRest (body ++ '"' :: rest) = .ok (s, rest) := by
  rw [textRest, textBody_spells h]
  exact congrArg (fun t => Except.ok (t, rest)) String.ofList_toList

/-- What is written of a text spells it. -/
theorem spells_escape (lone : Prop) (cs : List Char) : Spells lone cs (escape cs) := by
  induction cs with
  | nil => exact .nil
  | cons c cs ih =>
    rw [escape, List.flatMap_cons, ← escape]
    by_cases hletter : c ∈ ['"', '\\', '\n', '\r', '\t', '\x08', '\x0c']
    · -- an escape of one letter
      simp only [List.mem_cons, List.not_mem_nil, or_false] at hletter
      rcases hletter with rfl | rfl | rfl | rfl | rfl | rfl | rfl <;> exact .letter rfl ih
    · simp only [List.mem_cons, List.not_mem_nil, or_false, not_or] at hletter
      obtain ⟨hquote, hslash, hline, hreturn, htab, hback, hfeed⟩ := hletter
      rw [escapeChar, if_neg hquote, if_neg hslash, if_neg hline, if_neg hreturn, if_neg htab,
        if_neg hback, if_neg hfeed]
      split
      · -- no control character is half of a surrogate pair
        rename_i hcontrol
        have hhigh : isHighSurrogate c.toNat = false := by
          simp [isHighSurrogate]
          omega
        have hlow : isLowSurrogate c.toNat = false := by
          simp [isLowSurrogate]
          omega
        have hunit := Spells.unit (hexUnit?_of_control hcontrol) hhigh hlow ih
        rwa [Char.ofNat_toNat] at hunit
      · rename_i hcontrol
        exact .plain hquote hslash hcontrol ih

theorem textRest_escape (s : String) (rest : List Char) :
    textRest (escape s.toList ++ '"' :: rest) = .ok (s, rest) :=
  textRest_spells (spells_escape False s.toList) rest

theorem quote_append (s : String) (rest : List Char) :
    quote s ++ rest = '"' :: (escape s.toList ++ '"' :: rest) := by
  simp [quote]

theorem reads_asText (s : String) : Reads asText (quote s) (.text s) where
  begins := ⟨'"', escape s.toList ++ ['"'], rfl, by decide⟩
  reads := by
    intro rest _
    rw [quote_append]
    exact bind_of_eq_ok (textRest_escape s rest) _

/-! ## Constants -/

theorem reads_asBool (b : Bool) : Reads asBool (Value.bool b).render (.bool b) := by
  cases b <;> rw [Value.render]
  · exact ⟨⟨'f', _, rfl, by decide⟩, fun rest _ => rfl⟩
  · exact ⟨⟨'t', _, rfl, by decide⟩, fun rest _ => rfl⟩

theorem reads_valueOver_bool (item : Option (Reader Value)) (b : Bool) :
    Reads (valueOver item) (Value.bool b).render (.bool b) := by
  cases b <;> rw [Value.render]
  · exact ⟨⟨'f', _, rfl, by decide⟩, fun rest _ => rfl⟩
  · exact ⟨⟨'t', _, rfl, by decide⟩, fun rest _ => rfl⟩

theorem reads_valueOver_null (item : Option (Reader Value)) :
    Reads (valueOver item) Value.null.render .null := by
  rw [Value.render]
  exact ⟨⟨'n', _, rfl, by decide⟩, fun rest _ => rfl⟩

theorem reads_orNull_null (read : Reader Value) : Reads (orNull read) Value.null.render .null := by
  rw [Value.render]
  exact ⟨⟨'n', _, rfl, by decide⟩, fun rest _ => rfl⟩

/-- A value that does not begin as `null` does is read as if `null` were not allowed. -/
theorem Reads.orNull {read : Reader Value} {v : Value} (h : Reads read text v)
    (hnull : text.head? ≠ some 'n') : Reads (orNull read) text v where
  begins := h.begins
  reads := by
    intro rest hrest
    obtain ⟨c, cs, rfl, hc⟩ := h.begins
    have hother : c ≠ 'n' := fun hsame => hnull (congrArg some hsame)
    rw [Json.orNull, List.cons_append, skipBlank_cons hc]
    split
    · rename_i hsame
      exact absurd (List.cons.inj hsame).1 hother
    · exact h.reads rest hrest

end BrokerTopology.Json
