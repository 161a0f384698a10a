import BrokerTopology.Proofs.Json.Numbers
/-!
# The texts of a number

A number can be written in many ways: with a point or without one, with any exponent, with zeros behind
its digits. Each part is read up to its end, so a number is read from each of its texts, and what is read
as a number is one of its texts.

Main statement: `numeral_iff`.
-/

namespace BrokerTopology.Json

variable {rest : List Char}

/-- A text that does not begin with a digit. -/
def NoDigit (s : List Char) : Prop :=
  ∀ c ∈ s.head?, c.isDigit = false

variable {ds s s' : List Char} {e : Error}

/-- Digits are read up to a character that is none. -/
theorem spanDigits_digits (h : ∀ c ∈ ds, c.isDigit = true) (hs : NoDigit s) :
    Decimal.spanDigits (ds ++ s) = (ds, s) := by
  rw [Decimal.spanDigits, List.span_eq_takeWhile_dropWhile, List.takeWhile_append_of_pos h,
    List.dropWhile_append_of_pos h]
  cases s with
  | nil => simp
  | cons c s => simp [hs c rfl]

/-- Digits are read up to the first character that is none. -/
theorem someDigits_digits (h : Digits ds) (hs : NoDigit s) :
    someDigits e (ds ++ s) = .ok (ds, s) := by
  obtain ⟨hnonempty, hdigits⟩ := h
  obtain ⟨c, cs, rfl⟩ := List.exists_cons_of_ne_nil hnonempty
  rw [List.cons_append, someDigits, if_pos (hdigits c List.mem_cons_self), ← List.cons_append,
    spanDigits_digits hdigits hs]

/-- A whole part is read up to the first character that is no digit. -/
theorem wholeDigits_whole (h : Whole ds) (hs : NoDigit s) : wholeDigits e (ds ++ s) = .ok (ds, s) := by
  rcases h with rfl | ⟨⟨hnonempty, hdigits⟩, hzero⟩
  · refine if_neg ?_
    cases s with
    | nil => exact Bool.false_ne_true
    | cons c s => simp [hs c rfl]
  · obtain ⟨c, cs, rfl⟩ := List.exists_cons_of_ne_nil hnonempty
    have hc : c ≠ '0' := fun hc => hzero (congrArg some hc)
    rw [List.cons_append, wholeDigits_of_ne_zero hc, if_pos (hdigits c List.mem_cons_self),
      ← List.cons_append, spanDigits_digits hdigits hs]

/-- A fraction is read up to the first character that is no digit. -/
theorem fractionPart_fraction {fraction : Option (List Char)} {text : List Char}
    (h : Fraction fraction text) (hs : NoDigit s) (hpoint : s.head? ≠ some '.') :
    fractionPart e (text ++ s) = .ok (fraction, s) := by
  cases h with
  | absent => exact fractionPart_of_ne hpoint
  | present h =>
    rw [List.cons_append, fractionPart, someDigits_digits h hs]
    rfl

/-- A sign is read as what it says. -/
theorem sign?_sign {negative : Bool} {sign : List Char} (hsign : Sign negative sign) (h : Digits ds) :
    Decimal.sign? (sign ++ ds) = (negative, ds) := by
  cases hsign with
  | plus => rfl
  | minus => rfl
  | absent =>
    obtain ⟨c, cs, rfl⟩ := List.exists_cons_of_ne_nil h.1
    have hdigit := h.2 c List.mem_cons_self
    rw [List.nil_append, Decimal.sign?.eq_def]
    split
    · rename_i hminus
      obtain ⟨rfl, -⟩ := List.cons.inj hminus
      cases hdigit
    · rename_i hplus
      obtain ⟨rfl, -⟩ := List.cons.inj hplus
      cases hdigit
    · rfl

/-- An exponent is read to the end. -/
theorem exponentPart_exponent {exponent : Option Int} {text : List Char} (h : Exponent exponent text) :
    exponentPart e text = .ok (exponent, []) := by
  cases h with
  | absent => rfl
  | @present letter negative sign ds hletter hsign h =>
    have hdigits := someDigits_digits (e := e) h (s := []) (by simp [NoDigit])
    rw [List.append_nil] at hdigits
    rw [exponentPart, if_pos hletter]
    simp only [sign?_sign hsign h, hdigits]
    rfl

/-- An exponent continues neither the digits before it nor a point. -/
theorem Exponent.ends {exponent : Option Int} {text : List Char} (h : Exponent exponent text) :
    NoDigit text ∧ text.head? ≠ some '.' := by
  cases h with
  | absent => exact ⟨by simp [NoDigit], by simp⟩
  | present hletter =>
    rcases hletter with rfl | rfl
    · exact ⟨fun c hc => Option.some.inj hc ▸ rfl, by simp⟩
    · exact ⟨fun c hc => Option.some.inj hc ▸ rfl, by simp⟩

/-- Neither does a point continue the digits before it. -/
theorem Fraction.noDigit {fraction : Option (List Char)} {text : List Char} (h : Fraction fraction text)
    (hs : NoDigit s) : NoDigit (text ++ s) := by
  cases h with
  | absent => exact hs
  | present => exact fun c hc => Option.some.inj hc ▸ rfl

/-- A whole part begins with a digit. -/
theorem Whole.exists_cons (h : Whole ds) : ∃ c cs, ds = c :: cs ∧ c.isDigit = true := by
  rcases h with rfl | ⟨⟨hnonempty, hdigits⟩, -⟩
  · exact ⟨'0', [], rfl, rfl⟩
  · obtain ⟨c, cs, rfl⟩ := List.exists_cons_of_ne_nil hnonempty
    exact ⟨c, cs, rfl, hdigits c List.mem_cons_self⟩

/-- A number is read from each of its texts. -/
theorem signedNumber_numeral {n : Number} {t : List Char} (h : Numeral n t) :
    signedNumber t = .ok (n, []) := by
  cases h with
  | @mk whole fractionText exponentText fraction exponent negative hwhole hfraction hexponent hvalue =>
    have hnumber : number negative (whole ++ (fractionText ++ exponentText)) = .ok (n, []) := by
      obtain ⟨hdigit, hpoint⟩ := hexponent.ends
      rw [number_eq, bind_of_eq_ok (wholeDigits_whole hwhole (hfraction.noDigit hdigit)),
        bind_of_eq_ok (fractionPart_fraction hfraction hdigit hpoint),
        bind_of_eq_ok (exponentPart_exponent hexponent), bind_of_eq_ok hvalue]
      rfl
    cases negative with
    | true => exact hnumber
    | false =>
      obtain ⟨c, cs, rfl, hc⟩ := hwhole.exists_cons
      exact (signedNumber_of_isDigit hc _).trans hnumber

/-! ## What is read as a number -/

theorem spanDigits_spec {c : Char} (hc : c.isDigit = true) (s : List Char) :
    Digits (Decimal.spanDigits (c :: s)).1 ∧
      c :: s = (Decimal.spanDigits (c :: s)).1 ++ (Decimal.spanDigits (c :: s)).2 := by
  rw [Decimal.spanDigits, List.span_eq_takeWhile_dropWhile]
  refine ⟨⟨?_, fun d hd => List.mem_takeWhile_imp hd⟩, List.takeWhile_append_dropWhile.symm⟩
  rw [List.takeWhile_cons_of_pos hc]
  exact List.cons_ne_nil c _

/-- Digits that are read are digits, and what is left follows them. -/
theorem digits_of_someDigits (h : someDigits e s = .ok (ds, s')) : Digits ds ∧ s = ds ++ s' := by
  cases s with
  | nil => cases h
  | cons c s =>
    rw [someDigits] at h
    split at h
    · rename_i hc
      have hspec := spanDigits_spec hc s
      rwa [Except.ok.inj h] at hspec
    · cases h

/-- What is read as a whole part is one, and what is left follows it. -/
theorem whole_of_wholeDigits (h : wholeDigits e s = .ok (ds, s')) : Whole ds ∧ s = ds ++ s' := by
  cases s with
  | nil => cases h
  | cons c s =>
    by_cases hc : c = '0'
    · subst hc
      rw [wholeDigits] at h
      split at h
      · cases h
      · cases h
        exact ⟨.inl rfl, rfl⟩
    · rw [wholeDigits_of_ne_zero hc] at h
      split at h
      · rename_i hdigit
        obtain ⟨hdigits, hall⟩ := spanDigits_spec hdigit s
        rw [Except.ok.inj h] at hdigits hall
        refine ⟨.inr ⟨hdigits, fun hzero => hc ?_⟩, hall⟩
        obtain ⟨cs, rfl⟩ := List.head?_eq_some_iff.mp hzero
        exact (List.cons.inj hall).1
      · cases h

/-- What is read as a fraction is the text of one, and what is left follows it. -/
theorem fraction_of_fractionPart {fraction : Option (List Char)}
    (h : fractionPart e s = .ok (fraction, s')) : ∃ text, Fraction fraction text ∧ s = text ++ s' := by
  by_cases hpoint : s.head? = some '.'
  · obtain ⟨s, rfl⟩ := List.head?_eq_some_iff.mp hpoint
    rw [fractionPart] at h
    cases hdigits : someDigits e s with
    | error e =>
      rw [hdigits] at h
      cases h
    | ok p =>
      rw [hdigits] at h
      cases h
      obtain ⟨hds, rfl⟩ := digits_of_someDigits hdigits
      exact ⟨_, .present hds, rfl⟩
  · rw [fractionPart_of_ne hpoint] at h
    cases h
    exact ⟨[], .absent, rfl⟩

theorem exists_sign (s : List Char) :
    ∃ sign, Sign (Decimal.sign? s).1 sign ∧ s = sign ++ (Decimal.sign? s).2 := by
  rw [Decimal.sign?.eq_def]
  split
  · exact ⟨_, .minus, rfl⟩
  · exact ⟨_, .plus, rfl⟩
  · exact ⟨_, .absent, rfl⟩

/-- What is read as an exponent is the text of one, and what is left follows it. -/
theorem exponent_of_exponentPart {exponent : Option Int} (h : exponentPart e s = .ok (exponent, s')) :
    ∃ text, Exponent exponent text ∧ s = text ++ s' := by
  cases s with
  | nil =>
    cases h
    exact ⟨[], .absent, rfl⟩
  | cons c s =>
    rw [exponentPart] at h
    split at h
    · rename_i hletter
      dsimp only at h
      cases hdigits : someDigits e (Decimal.sign? s).2 with
      | error e =>
        rw [hdigits] at h
        cases h
      | ok p =>
        rw [hdigits] at h
        cases h
        obtain ⟨hds, hrest⟩ := digits_of_someDigits hdigits
        obtain ⟨sign, hsign, hs⟩ := exists_sign s
        refine ⟨_, .present hletter hsign hds, ?_⟩
        rw [List.cons_append, List.append_assoc, ← hrest, ← hs]
    · cases h
      exact ⟨[], .absent, rfl⟩

/-- The texts of a number are those that are read as the number. -/
theorem numeral_iff {n : Number} {t : List Char} : Numeral n t ↔ signedNumber t = .ok (n, []) := by
  refine ⟨signedNumber_numeral, fun h => ?_⟩
  have hnumeral : ∀ {negative t}, number negative t = .ok (n, []) →
      Numeral n ((if negative then ['-'] else []) ++ t) := by
    intro negative t h
    rw [number_eq] at h
    obtain ⟨⟨ds, s₁⟩, hds, h⟩ := exists_of_bind_eq_ok h
    obtain ⟨⟨point, s₂⟩, hpoint, h⟩ := exists_of_bind_eq_ok h
    obtain ⟨⟨letter, s₃⟩, hletter, h⟩ := exists_of_bind_eq_ok h
    obtain ⟨m, hvalue, h⟩ := exists_of_bind_eq_ok h
    cases h
    -- each part leaves what the next one reads, and the last leaves nothing
    obtain ⟨hwhole, rfl⟩ := whole_of_wholeDigits hds
    obtain ⟨fractionText, hfraction, rfl⟩ := fraction_of_fractionPart hpoint
    obtain ⟨exponentText, hexponent, rfl⟩ := exponent_of_exponentPart hletter
    rw [List.append_nil]
    exact .mk negative hwhole hfraction hexponent hvalue
  rcases signedNumber_cases h with ⟨cs, rfl, hnumber⟩ | ⟨c, cs, rfl, -, hnumber⟩
  · exact hnumeral hnumber
  · exact hnumeral hnumber

/-- A numeral is read as its number where any value may stand. -/
theorem reads_valueOver_numeral (item : Option (Reader Value)) {n : Number} {t : List Char}
    (h : Numeral n t) : Reads (valueOver item) t (.number n) where
  begins := by
    rcases signedNumber_cases (signedNumber_numeral h) with ⟨cs, rfl, -⟩ | ⟨c, cs, rfl, hc, -⟩
    · exact ⟨'-', cs, rfl, by decide⟩
    · exact ⟨c, cs, rfl, isEnd_of_isDigit hc⟩
  reads := fun _ hrest =>
    valueOver_of_signedNumber item (signedNumber_append (signedNumber_numeral h) hrest)

end BrokerTopology.Json
