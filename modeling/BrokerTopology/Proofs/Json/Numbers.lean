import Mathlib.Data.List.TakeDrop
import Mathlib.Data.List.TakeWhile
import BrokerTopology.Proofs.Json.Scalars
/-!
# Reading back numbers

Texts and constants end by themselves; a number ends where a character follows that cannot continue
it. What is read of a number is then the same whatever follows.

Whole numbers within the 64-bit words read back. A double reads back if its digits alone do, which
is decided by reading them.
-/

namespace BrokerTopology.Json

variable {rest : List Char} {c : Char}

/-! ## Numbers stop where they end -/

/-- A character at which a value ends continues no number. -/
theorem continues_no_number (h : isEnd c = true) :
    c.isDigit = false ∧ c ≠ '.' ∧ ¬ (c = 'e' ∨ c = 'E') := by
  simp only [isEnd, isBlank, Bool.or_eq_true, beq_iff_eq] at h
  rcases h with (((((rfl | rfl) | rfl) | rfl) | rfl) | rfl) | rfl <;> decide

section Parts

variable {s s' ds : List Char} {e : Error}

/-- A run of digits ends where the number does. -/
theorem spanDigits_append (hrest : Ends rest) (s : List Char) :
    Decimal.spanDigits (s ++ rest) = ((Decimal.spanDigits s).1, (Decimal.spanDigits s).2 ++ rest) := by
  simp only [Decimal.spanDigits, List.span_eq_takeWhile_dropWhile]
  induction s with
  | nil =>
    cases rest with
    | nil => rfl
    | cons c cs => simp [(continues_no_number (ends_cons.mp hrest)).1]
  | cons c s ih =>
    cases hdigit : c.isDigit with
    | true => simpa [hdigit] using ih
    | false => simp [hdigit]

/-- A whole part that does not begin with a zero takes all digits there are. -/
theorem wholeDigits_of_ne_zero (hc : c ≠ '0') (s : List Char) :
    wholeDigits e (c :: s) =
      if c.isDigit then .ok (Decimal.spanDigits (c :: s)) else .error .malformedNumber := by
  rw [wholeDigits.eq_def]
  split
  · rename_i hnil
    cases hnil
  · rename_i hzero
    exact absurd (List.cons.inj hzero).1 hc
  · rename_i hcons
    obtain ⟨rfl, rfl⟩ := List.cons.inj hcons
    rfl

/-- The whole part is the same whatever follows the number. -/
theorem wholeDigits_append (h : wholeDigits e s = .ok (ds, s')) (hrest : Ends rest) :
    wholeDigits e (s ++ rest) = .ok (ds, s' ++ rest) := by
  cases s with
  | nil => cases h
  | cons c s =>
    by_cases hc : c = '0'
    · subst hc
      rw [wholeDigits] at h
      split at h
      · cases h
      · rename_i hnext
        cases h
        refine if_neg ?_
        cases s' with
        | nil =>
          cases rest with
          | nil => exact hnext
          | cons c cs => simp [(continues_no_number (ends_cons.mp hrest)).1]
        | cons c cs => exact hnext
    · rw [wholeDigits_of_ne_zero hc] at h
      split at h
      · rename_i hdigit
        rw [List.cons_append, wholeDigits_of_ne_zero hc, if_pos hdigit, ← List.cons_append,
          spanDigits_append hrest, Except.ok.inj h]
      · cases h

/-- Digits that must be there are the same whatever follows the number. -/
theorem someDigits_append (h : someDigits e s = .ok (ds, s')) (hrest : Ends rest) :
    someDigits e (s ++ rest) = .ok (ds, s' ++ rest) := by
  cases s with
  | nil => cases h
  | cons c s =>
    rw [someDigits] at h
    split at h
    · rename_i hdigit
      rw [List.cons_append, someDigits, if_pos hdigit, ← List.cons_append, spanDigits_append hrest,
        Except.ok.inj h]
    · cases h

/-- Without a point there is no fraction. -/
theorem fractionPart_of_ne (hs : s.head? ≠ some '.') : fractionPart e s = .ok (none, s) := by
  rw [fractionPart.eq_def]
  split
  · exact absurd rfl hs
  · rfl

/-- The fraction is the same whatever follows the number. -/
theorem fractionPart_append {fraction : Option (List Char)} (h : fractionPart e s = .ok (fraction, s'))
    (hrest : Ends rest) : fractionPart e (s ++ rest) = .ok (fraction, s' ++ rest) := by
  by_cases hpoint : s.head? = some '.'
  · obtain ⟨s, rfl⟩ := List.head?_eq_some_iff.mp hpoint
    rw [fractionPart] at h
    cases hdigits : someDigits e s with
    | error e =>
      rw [hdigits] at h
      cases h
    | ok p =>
      rw [hdigits] at h
      cases h
      rw [List.cons_append, fractionPart, someDigits_append hdigits hrest]
      rfl
  · rw [fractionPart_of_ne hpoint] at h
    cases h
    refine fractionPart_of_ne ?_
    cases s with
    | nil =>
      intro hhead
      obtain ⟨cs, rfl⟩ := List.head?_eq_some_iff.mp hhead
      exact (continues_no_number (ends_cons.mp hrest)).2.1 rfl
    | cons c s => exact hpoint

/-- The sign of an exponent is the same whatever follows the number. -/
theorem sign?_append (hs : s ≠ []) (rest : List Char) :
    Decimal.sign? (s ++ rest) = ((Decimal.sign? s).1, (Decimal.sign? s).2 ++ rest) := by
  obtain ⟨c, s, rfl⟩ := List.exists_cons_of_ne_nil hs
  by_cases hminus : c = '-'
  · rw [hminus]
    rfl
  by_cases hplus : c = '+'
  · rw [hplus]
    rfl
  · simp [Decimal.sign?, hminus, hplus]

/-- The exponent is the same whatever follows the number. -/
theorem exponentPart_append {exponent : Option Int} (h : exponentPart e s = .ok (exponent, s'))
    (hrest : Ends rest) : exponentPart e (s ++ rest) = .ok (exponent, s' ++ rest) := by
  cases s with
  | nil =>
    cases h
    cases rest with
    | nil => rfl
    | cons c cs =>
      rw [List.nil_append, exponentPart, if_neg (continues_no_number (ends_cons.mp hrest)).2.2]
  | cons c s =>
    rw [exponentPart] at h
    rw [List.cons_append, exponentPart]
    split at h
    · rename_i hletter
      rw [if_pos hletter]
      dsimp only at h ⊢
      cases hdigits : someDigits e (Decimal.sign? s).2 with
      | error e =>
        rw [hdigits] at h
        cases h
      | ok p =>
        have hs : s ≠ [] := by
          rintro rfl
          cases hdigits
        rw [hdigits] at h
        rw [sign?_append hs, someDigits_append hdigits hrest]
        cases h
        rfl
    · rename_i hletter
      cases h
      exact if_neg hletter

end Parts

/-- A number is read part by part. -/
theorem number_eq (negative : Bool) (s : List Char) :
    number negative s =
      wholeDigits .unexpectedEnd s >>= fun w =>
      fractionPart .unexpectedEnd w.2 >>= fun f =>
      exponentPart .unexpectedEnd f.2 >>= fun x =>
      partsValue negative w.1 f.1 x.1 >>= fun n => pure (n, x.2) := by
  rw [number]
  refine bind_congr fun w => bind_congr fun f => bind_congr fun x => ?_
  obtain ⟨fraction, s₂⟩ := f
  obtain ⟨exponent, s₃⟩ := x
  cases fraction <;> cases exponent <;> rfl

/-- What is read of a number does not depend on what follows it. -/
theorem number_append {negative : Bool} {n : Number} {s s' : List Char}
    (h : number negative s = .ok (n, s')) (hrest : Ends rest) :
    number negative (s ++ rest) = .ok (n, s' ++ rest) := by
  rw [number_eq] at h ⊢
  obtain ⟨⟨whole, s₁⟩, hwhole, h⟩ := exists_of_bind_eq_ok h
  obtain ⟨⟨fraction, s₂⟩, hfraction, h⟩ := exists_of_bind_eq_ok h
  obtain ⟨⟨exponent, s₃⟩, hexponent, h⟩ := exists_of_bind_eq_ok h
  obtain ⟨m, hvalue, h⟩ := exists_of_bind_eq_ok h
  cases h
  rw [bind_of_eq_ok (wholeDigits_append hwhole hrest),
    bind_of_eq_ok (fractionPart_append hfraction hrest),
    bind_of_eq_ok (exponentPart_append hexponent hrest), bind_of_eq_ok hvalue]
  rfl

/-! ## Numbers with a sign -/

/-- A number with its sign. -/
def signedNumber : Reader Number
  | '-' :: s => number true s
  | s => number false s

/-- Whether a number is read where its text stands alone. -/
def Number.ReadsBack (n : Number) : Prop :=
  (signedNumber n.render).toOption = some (n, [])
  deriving Decidable

section Signed

variable {n : Number} {s s' : List Char}

/-- A number without its sign begins with a digit. -/
theorem exists_digit_of_number {negative : Bool} (h : number negative s = .ok (n, s')) :
    ∃ c cs, s = c :: cs ∧ c.isDigit = true := by
  rw [number_eq] at h
  obtain ⟨w, hwhole, -⟩ := exists_of_bind_eq_ok h
  cases s with
  | nil => cases hwhole
  | cons c cs =>
    refine ⟨c, cs, rfl, ?_⟩
    by_cases hc : c = '0'
    · rw [hc]
      decide
    · rw [wholeDigits_of_ne_zero hc] at hwhole
      split at hwhole
      · assumption
      · cases hwhole

/-- A number begins with a minus sign or with a digit. -/
theorem signedNumber_cases (h : signedNumber s = .ok (n, s')) :
    (∃ cs, s = '-' :: cs ∧ number true cs = .ok (n, s')) ∨
      ∃ c cs, s = c :: cs ∧ c.isDigit = true ∧ number false (c :: cs) = .ok (n, s') := by
  rw [signedNumber.eq_def] at h
  split at h
  · exact .inl ⟨_, rfl, h⟩
  · obtain ⟨c, cs, rfl, hc⟩ := exists_digit_of_number h
    exact .inr ⟨c, cs, rfl, hc, h⟩

/-- No value ends at a digit. -/
theorem isEnd_of_isDigit (h : c.isDigit = true) : isEnd c = false := by
  rw [Bool.eq_false_iff]
  intro hend
  rw [(continues_no_number hend).1] at h
  cases h

/-- A digit begins a number. -/
theorem asNumber_of_isDigit (view : Number → Except Error Value) (hc : c.isDigit = true)
    (cs : List Char) :
    asNumber view (c :: cs) =
      number false (c :: cs) >>= fun p => view p.1 >>= fun v => pure (v, p.2) := by
  rw [asNumber, skipBlank_cons (isEnd_of_isDigit hc)]
  split
  · rename_i hminus
    obtain ⟨rfl, -⟩ := List.cons.inj hminus
    cases hc
  · rename_i hcons
    obtain ⟨rfl, rfl⟩ := List.cons.inj hcons
    exact if_pos hc
  · rename_i hnil
    cases hnil

/-- A digit begins a number also where any value may stand. -/
theorem valueOver_of_isDigit (item : Option (Reader Value)) (hc : c.isDigit = true) (cs : List Char) :
    valueOver item (c :: cs) = number false (c :: cs) >>= fun p => pure (.number p.1, p.2) := by
  rw [valueOver, skipBlank_cons (isEnd_of_isDigit hc)]
  split
  case h_9 hcons =>
    obtain ⟨rfl, rfl⟩ := List.cons.inj hcons
    exact if_pos hc
  -- the other cases begin with characters that are no digits
  all_goals simp_all

/-- A number is read as the view that the reader has of it. -/
theorem asNumber_of_signedNumber {view : Number → Except Error Value} {v : Value}
    (h : signedNumber s = .ok (n, s')) (hview : view n = .ok v) :
    asNumber view s = .ok (v, s') := by
  have hfinish : (view n >>= fun v => pure (v, s') : Except Error (Value × List Char)) =
      .ok (v, s') := bind_of_eq_ok hview _
  rcases signedNumber_cases h with ⟨cs, rfl, hnumber⟩ | ⟨c, cs, rfl, hc, hnumber⟩
  · exact (bind_of_eq_ok hnumber _).trans hfinish
  · rw [asNumber_of_isDigit view hc]
    exact (bind_of_eq_ok hnumber _).trans hfinish

/-- A number is read as itself where any value may stand. -/
theorem valueOver_of_signedNumber (item : Option (Reader Value))
    (h : signedNumber s = .ok (n, s')) : valueOver item s = .ok (.number n, s') := by
  rcases signedNumber_cases h with ⟨cs, rfl, hnumber⟩ | ⟨c, cs, rfl, hc, hnumber⟩
  · exact bind_of_eq_ok hnumber _
  · rw [valueOver_of_isDigit item hc]
    exact bind_of_eq_ok hnumber _

/-- A number that begins with a digit has no sign. -/
theorem signedNumber_of_isDigit (hc : c.isDigit = true) (cs : List Char) :
    signedNumber (c :: cs) = number false (c :: cs) := by
  rw [signedNumber.eq_def]
  split
  · rename_i hminus
    obtain ⟨rfl, -⟩ := List.cons.inj hminus
    cases hc
  · rfl

/-- What is read of a number with its sign does not depend on what follows it. -/
theorem signedNumber_append (h : signedNumber s = .ok (n, s')) (hrest : Ends rest) :
    signedNumber (s ++ rest) = .ok (n, s' ++ rest) := by
  rcases signedNumber_cases h with ⟨cs, rfl, hnumber⟩ | ⟨c, cs, rfl, hc, hnumber⟩
  · exact number_append hnumber hrest
  · rw [List.cons_append, signedNumber_of_isDigit hc]
    exact number_append hnumber hrest

end Signed

/-! ## Numbers that read back -/

namespace Number

variable {n : Number}

/-- A number that reads back does so whatever follows it. -/
theorem ReadsBack.signedNumber_append (h : n.ReadsBack) (hrest : Ends rest) :
    signedNumber (n.render ++ rest) = .ok (n, rest) := by
  have halone : signedNumber n.render = .ok (n, []) := by
    rw [ReadsBack] at h
    cases hread : signedNumber n.render with
    | error e =>
      rw [hread] at h
      cases h
    | ok p =>
      rw [hread] at h
      exact congrArg Except.ok (Option.some.inj h)
  exact Json.signedNumber_append halone hrest

/-- The text of a number that reads back begins with a minus sign or with a digit. -/
theorem ReadsBack.exists_head (h : n.ReadsBack) :
    ∃ c cs, n.render = c :: cs ∧ (c = '-' ∨ c.isDigit = true) := by
  have halone := h.signedNumber_append ends_nil
  rw [List.append_nil] at halone
  rcases signedNumber_cases halone with ⟨cs, hrender, -⟩ | ⟨c, cs, hrender, hc, -⟩
  · exact ⟨'-', cs, hrender, .inl rfl⟩
  · exact ⟨c, cs, hrender, .inr hc⟩

/-- No value ends where a number begins. -/
theorem ReadsBack.begins (h : n.ReadsBack) : ∃ c cs, n.render = c :: cs ∧ isEnd c = false := by
  obtain ⟨c, cs, hrender, rfl | hc⟩ := h.exists_head
  · exact ⟨'-', cs, hrender, by decide⟩
  · exact ⟨c, cs, hrender, isEnd_of_isDigit hc⟩

/-- A number is not taken for `null`. -/
theorem ReadsBack.head?_ne (h : n.ReadsBack) : n.render.head? ≠ some 'n' := by
  obtain ⟨c, cs, hrender, hc⟩ := h.exists_head
  rw [hrender]
  intro hhead
  obtain rfl : c = 'n' := Option.some.inj hhead
  revert hc
  decide

/-- A number that reads back is read as the view that the reader has of it. -/
theorem ReadsBack.reads_asNumber (h : n.ReadsBack) {view : Number → Except Error Value} {v : Value}
    (hview : view n = .ok v) : Reads (asNumber view) n.render v where
  begins := h.begins
  reads := fun _ hrest => asNumber_of_signedNumber (h.signedNumber_append hrest) hview

end Number

/-- The digits of a positive number do not begin with a zero. -/
theorem head?_toDigits_ne_zero {m : Nat} (hm : 0 < m) : (Nat.toDigits 10 m).head? ≠ some '0' := by
  induction m using Nat.strongRecOn with
  | _ m ih =>
    rcases Nat.lt_or_ge m 10 with hlt | hge
    · rw [Nat.toDigits_of_lt_base hlt]
      exact (by decide : ∀ d < 10, 0 < d → [Nat.digitChar d].head? ≠ some '0') m hlt hm
    · have hquotient := ih (m / 10) (by omega) (by omega)
      obtain ⟨c, cs, hdigits⟩ := List.exists_cons_of_ne_nil
        (Nat.toDigits_ne_nil (n := m / 10) (b := 10))
      rw [Nat.toDigits_of_base_le (by decide) hge, hdigits]
      rw [hdigits] at hquotient
      exact hquotient

/-- A natural number is written with one digit or more. -/
theorem exists_toDigits_eq_cons (m : Nat) :
    ∃ c cs, Nat.toDigits 10 m = c :: cs ∧ ∀ d ∈ c :: cs, d.isDigit = true := by
  obtain ⟨c, cs, hdigits⟩ := List.exists_cons_of_ne_nil (Nat.toDigits_ne_nil (n := m) (b := 10))
  refine ⟨c, cs, hdigits, fun d hd => ?_⟩
  rw [← hdigits] at hd
  exact Nat.isDigit_of_mem_toDigits (by decide) (by decide) hd

/-- The digits of a natural number are read as its whole part. -/
theorem wholeDigits_toDigits (e : Error) (m : Nat) :
    wholeDigits e (Nat.toDigits 10 m) = .ok (Nat.toDigits 10 m, []) := by
  cases m with
  | zero => rfl
  | succ m =>
    obtain ⟨c, cs, hdigits, hall⟩ := exists_toDigits_eq_cons (m + 1)
    have hc : c ≠ '0' := by
      rintro rfl
      exact head?_toDigits_ne_zero m.succ_pos (congrArg List.head? hdigits)
    have hspan : Decimal.spanDigits (c :: cs) = (c :: cs, []) := by
      rw [Decimal.spanDigits, List.span_eq_takeWhile_dropWhile, List.takeWhile_eq_self_iff.mpr hall,
        List.dropWhile_eq_nil_iff.mpr hall]
    rw [hdigits, wholeDigits_of_ne_zero hc, if_pos (hall c List.mem_cons_self), hspan]

/-- The digits of a number have its value. -/
theorem ofDigits_toDigits (m : Nat) : Decimal.ofDigits 0 (Nat.toDigits 10 m) = m :=
  Nat.ofDigitChars_eq_foldl.symm.trans Nat.ofDigitChars_ten_toDigits

/-- Digits alone are a number without point and exponent. -/
theorem number_toDigits (negative : Bool) (m : Nat) :
    number negative (Nat.toDigits 10 m) =
      wholeValue negative (Nat.toDigits 10 m) >>= fun n => pure (n, []) := by
  rw [number_eq, bind_of_eq_ok (wholeDigits_toDigits _ m)]
  rfl

/-- Digits of a number that fits a word without a sign are read as that number. -/
theorem wholeValue_toDigits {m : Nat} (h : m ≤ wordMax) :
    wholeValue false (Nat.toDigits 10 m) = .ok (.int m) := by
  rw [wholeValue, ofDigits_toDigits]
  exact if_pos h

/-- Digits behind a minus sign are read as the negative number if it fits a signed word. -/
theorem wholeValue_toDigits_of_negative {m : Nat} (hm : 0 < m)
    (h : Word.fitsSigned (-(m : Int)) = true) :
    wholeValue true (Nat.toDigits 10 m) = .ok (.int (-(m : Int))) := by
  have hfits : 0 < m ∧ Word.fitsSigned (-(m : Int)) = true := ⟨hm, h⟩
  rw [wholeValue, ofDigits_toDigits]
  exact if_pos hfits

/-- Digits alone have no sign. -/
theorem signedNumber_toDigits (m : Nat) :
    signedNumber (Nat.toDigits 10 m) = number false (Nat.toDigits 10 m) := by
  obtain ⟨c, cs, hdigits, hall⟩ := exists_toDigits_eq_cons m
  rw [hdigits, signedNumber_of_isDigit (hall c List.mem_cons_self)]

/-- Whole numbers within the 64-bit words read back. -/
theorem readsBack_int {i : Int} (hlow : -9223372036854775808 ≤ i)
    (hhigh : i < 18446744073709551616) : (Number.int i).ReadsBack := by
  rw [Number.ReadsBack, Number.render]
  split
  · have hi : -(i.natAbs : Int) = i := by omega
    have hfits : Word.fitsSigned (-(i.natAbs : Int)) = true := by
      rw [hi, Word.fitsSigned_iff]
      omega
    have hvalue := wholeValue_toDigits_of_negative (by omega) hfits
    rw [hi] at hvalue
    rw [signedNumber, number_toDigits, bind_of_eq_ok hvalue]
    rfl
  · have hi : (i.natAbs : Int) = i := by omega
    have hfits : i.natAbs ≤ wordMax := by
      rw [show wordMax = 18446744073709551615 from rfl]
      omega
    have hvalue := wholeValue_toDigits hfits
    rw [hi] at hvalue
    rw [signedNumber_toDigits, number_toDigits, bind_of_eq_ok hvalue]
    rfl

/-! ## Readers of numbers -/

/-- A number that fits a signed word reads back. -/
theorem readsBack_of_fitsSigned {i : Int} (h : Word.fitsSigned i = true) :
    (Number.int i).ReadsBack := by
  obtain ⟨hlow, hhigh⟩ := (Word.fitsSigned_iff i).mp h
  exact readsBack_int hlow (by omega)

/-- A number that fits a signed word is read as such a number. -/
theorem reads_asInt {i : Int} (h : Word.fitsSigned i = true) :
    Reads asInt (Value.int i).render (.int i) := by
  have hview : Reads asInt (Number.int i).render (.int i) :=
    (readsBack_of_fitsSigned h).reads_asNumber (if_pos h)
  rw [Value.int, Value.render]
  exact hview

/-- A double that reads back is read as a double. -/
theorem reads_asFloat {x : Float} (h : (Number.float x).ReadsBack) :
    Reads asFloat (Value.float x).render (.float x) := by
  rw [Value.float, Value.render]
  exact h.reads_asNumber rfl

end BrokerTopology.Json
