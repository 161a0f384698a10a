import Mathlib.Algebra.BigOperators.Fin
import Mathlib.Data.Nat.ModEq
import Mathlib.Tactic.Ring
import BrokerTopology.Dict.Hash
/-!
# The hash as a polynomial

The shifts of the hash recurrence multiply by `2⁶ + 2¹⁶ - 1 = 65599`, up to multiples of `2⁶⁴`. So the hash
of a string is the value of a polynomial at `65599`, with the bytes of the string for its coefficients and
the starting word in front. As `65599` is odd, a step loses nothing of the word that it starts from: two
strings with one ending have one hash only if they have one hash before the ending. This is why the hash
notices every single slip: one character for another, or two neighbours in the wrong order.

Main statement: `sdbm_polynomial`.
-/

namespace BrokerTopology

/-! ## One step -/

/-- In numbers, a step multiplies and adds the byte. -/
theorem toNat_sdbmStep (h : UInt64) (b : UInt8) :
    (sdbmStep h b).toNat = (h.toNat * 65599 + b.toNat) % 2 ^ 64 := by
  have hlow : (h <<< 6).toNat = h.toNat * 2 ^ 6 % 2 ^ 64 := by
    rw [UInt64.toNat_shiftLeft, Nat.shiftLeft_eq]
    rfl
  have hhigh : (h <<< 16).toNat = h.toNat * 2 ^ 16 % 2 ^ 64 := by
    rw [UInt64.toNat_shiftLeft, Nat.shiftLeft_eq]
    rfl
  have hlt : h.toNat < 2 ^ 64 := h.toNat_lt
  rw [sdbmStep, UInt64.toNat_sub, UInt64.toNat_add, UInt64.toNat_add, hlow, hhigh,
    UInt8.toNat_toUInt64]
  omega

/-- The same up to multiples of `2⁶⁴`. -/
theorem sdbmStep_modEq (h : UInt64) (b : UInt8) :
    (sdbmStep h b).toNat ≡ h.toNat * 65599 + b.toNat [MOD 2 ^ 64] := by
  rw [toNat_sdbmStep]
  exact Nat.mod_modEq _ _

/-- Words that agree up to multiples of `2⁶⁴` are equal. -/
theorem eq_of_toNat_modEq {h h' : UInt64} (heq : h.toNat ≡ h'.toNat [MOD 2 ^ 64]) : h = h' :=
  UInt64.toNat_inj.mp (heq.eq_of_lt_of_lt h.toNat_lt h'.toNat_lt)

/-- What two steps to one word have in common. -/
theorem modEq_of_sdbmStep_eq {h h' : UInt64} {a b : UInt8} (hstep : sdbmStep h a = sdbmStep h' b) :
    h.toNat * 65599 + a.toNat ≡ h'.toNat * 65599 + b.toNat [MOD 2 ^ 64] := by
  refine (sdbmStep_modEq h a).symm.trans ?_
  rw [hstep]
  exact sdbmStep_modEq h' b

/-- A step keeps different words apart, as the factor is odd. -/
theorem sdbmStep_left_inj {h h' : UInt64} {b : UInt8} (hstep : sdbmStep h b = sdbmStep h' b) :
    h = h' := by
  have hcoprime : Nat.Coprime (2 ^ 64) 65599 := Nat.Coprime.pow_left 64 (by decide)
  have hproduct : h.toNat * 65599 ≡ h'.toNat * 65599 [MOD 2 ^ 64] :=
    (modEq_of_sdbmStep_eq hstep).add_right_cancel' _
  exact eq_of_toNat_modEq (hproduct.cancel_right_of_coprime hcoprime)

/-- So do the steps of an ending. -/
theorem foldl_sdbmStep_inj {h h' : UInt64} (bytes : List UInt8)
    (hfold : bytes.foldl sdbmStep h = bytes.foldl sdbmStep h') : h = h' := by
  induction bytes generalizing h h' with
  | nil => exact hfold
  | cons b bytes ih =>
    rw [List.foldl_cons, List.foldl_cons] at hfold
    exact sdbmStep_left_inj (ih hfold)

/-! ## Slips -/

/-- From one word, different bytes lead to different words. -/
theorem sdbmStep_right_inj {h : UInt64} {a b : UInt8} (hstep : sdbmStep h a = sdbmStep h b) :
    a = b := by
  have hbyte : a.toNat ≡ b.toNat [MOD 2 ^ 64] := (modEq_of_sdbmStep_eq hstep).add_left_cancel' _
  have ha := a.toNat_lt
  have hb := b.toNat_lt
  exact UInt8.toNat_inj.mp (hbyte.eq_of_lt_of_lt (by omega) (by omega))

/-- Two steps in numbers. -/
theorem sdbmStep_sdbmStep_modEq (h : UInt64) (a b : UInt8) :
    (sdbmStep (sdbmStep h a) b).toNat ≡
      h.toNat * 65599 ^ 2 + (a.toNat * 65599 + b.toNat) [MOD 2 ^ 64] := by
  calc (sdbmStep (sdbmStep h a) b).toNat
      ≡ (sdbmStep h a).toNat * 65599 + b.toNat [MOD 2 ^ 64] := sdbmStep_modEq _ b
    _ ≡ (h.toNat * 65599 + a.toNat) * 65599 + b.toNat [MOD 2 ^ 64] :=
      ((sdbmStep_modEq h a).mul_right _).add_right _
    _ = h.toNat * 65599 ^ 2 + (a.toNat * 65599 + b.toNat) := by ring

/-- Two bytes lead to one word in both orders only if they are equal: their polynomials are too small to
differ by a multiple of `2⁶⁴`. -/
theorem sdbmStep_comm_inj {h : UInt64} {a b : UInt8}
    (hstep : sdbmStep (sdbmStep h a) b = sdbmStep (sdbmStep h b) a) : a = b := by
  have hsum := sdbmStep_sdbmStep_modEq h a b
  rw [hstep] at hsum
  have hpair : a.toNat * 65599 + b.toNat ≡ b.toNat * 65599 + a.toNat [MOD 2 ^ 64] :=
    (hsum.symm.trans (sdbmStep_sdbmStep_modEq h b a)).add_left_cancel' _
  have ha := a.toNat_lt
  have hb := b.toNat_lt
  -- below the modulus both sides are equal, so `65598` times the difference of the bytes is zero
  have heq := hpair.eq_of_lt_of_lt (by omega) (by omega)
  exact UInt8.toNat_inj.mp (by omega)

/-! ## The polynomial -/

/-- The value at `65599` of a polynomial: the coefficients are the bytes, the last one the constant, and
`lead` stands before them. -/
def sdbmPolynomial (lead : Nat) (bytes : List UInt8) : Nat :=
  lead * 65599 ^ bytes.length +
    ∑ i : Fin bytes.length, bytes[i].toNat * 65599 ^ (bytes.length - (i + 1))

/-- The two coefficients in front may be taken together. -/
theorem sdbmPolynomial_cons (lead : Nat) (b : UInt8) (bytes : List UInt8) :
    sdbmPolynomial lead (b :: bytes) = sdbmPolynomial (lead * 65599 + b.toNat) bytes := by
  have hsum : ∑ i : Fin (b :: bytes).length,
        (b :: bytes)[i].toNat * 65599 ^ ((b :: bytes).length - (i + 1)) =
      b.toNat * 65599 ^ bytes.length +
        ∑ i : Fin bytes.length, bytes[i].toNat * 65599 ^ (bytes.length - (i + 1)) := by
    refine (Fin.sum_univ_succ _).trans ?_
    simp
  rw [sdbmPolynomial, hsum, sdbmPolynomial, List.length_cons]
  ring

/-- Leading coefficients that agree give values that agree. -/
theorem sdbmPolynomial_modEq {lead lead' : Nat} (h : lead ≡ lead' [MOD 2 ^ 64]) (bytes : List UInt8) :
    sdbmPolynomial lead bytes ≡ sdbmPolynomial lead' bytes [MOD 2 ^ 64] :=
  (h.mul_right _).add_right _

/-- The steps along a list of bytes evaluate the polynomial, from any word on. -/
theorem foldl_sdbmStep_modEq (h : UInt64) (bytes : List UInt8) :
    (bytes.foldl sdbmStep h).toNat ≡ sdbmPolynomial h.toNat bytes [MOD 2 ^ 64] := by
  induction bytes generalizing h with
  | nil => simp [sdbmPolynomial, Nat.ModEq.refl]
  | cons b bytes ih =>
    rw [List.foldl_cons, sdbmPolynomial_cons]
    exact (ih _).trans (sdbmPolynomial_modEq (sdbmStep_modEq h b) bytes)

/-- The hash of bytes is the value of their polynomial. -/
theorem toNat_sdbmBytes (bytes : List UInt8) :
    (sdbmBytes bytes).toNat = sdbmPolynomial (2 ^ 64 - 1) bytes % 2 ^ 64 := by
  have hmod := foldl_sdbmStep_modEq 0xFFFFFFFFFFFFFFFF bytes
  rw [← Nat.mod_eq_of_lt (sdbmBytes bytes).toNat_lt]
  exact hmod

/-! ## The bytes of a string -/

/-- Reading an array of bytes from a position on. -/
theorem byteArray_toList_loop (bs : ByteArray) (i : Nat) (bytes : List UInt8) :
    ByteArray.toList.loop bs i bytes = bytes.reverse ++ bs.data.toList.drop i := by
  fun_induction ByteArray.toList.loop bs i bytes with
  | case1 i bytes hlt ih =>
    have hi : i < bs.data.toList.length := by simpa using hlt
    rw [ih, List.drop_eq_getElem_cons hi]
    simp [ByteArray.get!, hlt]
  | case2 i bytes hlt =>
    rw [List.drop_eq_nil_of_le (by simpa using Nat.le_of_not_lt hlt), List.append_nil]

theorem byteArray_toList (bs : ByteArray) : bs.toList = bs.data.toList := by
  rw [ByteArray.toList, byteArray_toList_loop, List.reverse_nil, List.nil_append, List.drop_zero]

/-- The bytes of strings in a row are those of the strings in a row. -/
theorem toUTF8_append (s t : String) :
    (s ++ t).toUTF8.toList = s.toUTF8.toList ++ t.toUTF8.toList := by
  simp [byteArray_toList, String.toByteArray_append, ByteArray.data_append]

/-- A character below 128 is one byte. -/
theorem toUTF8_toString {c : Char} (hc : c.toNat < 128) :
    c.toString.toUTF8.toList = [c.val.toUInt8] := by
  have hsize : c.utf8Size = 1 := by
    rw [Char.utf8Size_eq_one_iff, UInt32.le_iff_toNat_le]
    exact Nat.le_of_lt_succ hc
  have hbytes : c.toString.toUTF8 = [c.val.toUInt8].toByteArray := by
    rw [← String.utf8EncodeChar_eq_singleton hsize, ← List.utf8Encode_singleton]
    exact String.toByteArray_singleton
  rw [hbytes, byteArray_toList, List.data_toByteArray]

/-- The bytes below 128 tell the characters. -/
theorem eq_of_toUInt8_eq {a b : Char} (ha : a.toNat < 128) (hb : b.toNat < 128)
    (hbyte : a.val.toUInt8 = b.val.toUInt8) : a = b := by
  have hnat : a.toNat % 2 ^ 8 = b.toNat % 2 ^ 8 := congrArg UInt8.toNat hbyte
  exact Char.toNat_inj.mp (by omega)

/-! ## Strings -/

/-- The hash of a string that is not empty is that of its bytes. -/
theorem sdbm_of_ne_empty {s : String} (hs : s ≠ "") : sdbm s = sdbmBytes s.toUTF8.toList := by
  rw [sdbm, if_neg (by simpa using hs)]

/-- The hash of a string in three parts, the middle one not empty. -/
theorem sdbm_append (p : String) {m : String} (hm : m ≠ "") (s : String) :
    sdbm (p ++ m ++ s) = s.toUTF8.toList.foldl sdbmStep
      (m.toUTF8.toList.foldl sdbmStep (sdbmBytes p.toUTF8.toList)) := by
  rw [sdbm_of_ne_empty (by simp [hm]), toUTF8_append, toUTF8_append, sdbmBytes, List.foldl_append,
    List.foldl_append, sdbmBytes]

/-- Two middles give one hash only if they lead to one word before the ending. -/
theorem foldl_eq_of_sdbm_eq {p m m' s : String} (hm : m ≠ "") (hm' : m' ≠ "")
    (heq : sdbm (p ++ m ++ s) = sdbm (p ++ m' ++ s)) :
    m.toUTF8.toList.foldl sdbmStep (sdbmBytes p.toUTF8.toList) =
      m'.toUTF8.toList.foldl sdbmStep (sdbmBytes p.toUTF8.toList) := by
  rw [sdbm_append p hm, sdbm_append p hm'] at heq
  exact foldl_sdbmStep_inj s.toUTF8.toList heq

/-- Strings that differ in one character below 128 have different hashes. -/
theorem sdbm_replace_ne (p s : String) {a b : Char} (ha : a.toNat < 128) (hb : b.toNat < 128)
    (hne : a ≠ b) : sdbm (p ++ a.toString ++ s) ≠ sdbm (p ++ b.toString ++ s) := by
  intro heq
  have hmiddle := foldl_eq_of_sdbm_eq (by simp) (by simp) heq
  rw [toUTF8_toString ha, toUTF8_toString hb] at hmiddle
  exact hne (eq_of_toUInt8_eq ha hb (sdbmStep_right_inj hmiddle))

/-- So have strings that differ in the order of two neighbours. -/
theorem sdbm_swap_ne (p s : String) {a b : Char} (ha : a.toNat < 128) (hb : b.toNat < 128)
    (hne : a ≠ b) :
    sdbm (p ++ a.toString ++ b.toString ++ s) ≠ sdbm (p ++ b.toString ++ a.toString ++ s) := by
  -- the two neighbours are the middle of the string
  have hassoc : ∀ x y : String, p ++ x ++ y ++ s = p ++ (x ++ y) ++ s := fun x y =>
    congrArg (· ++ s) String.append_assoc
  intro heq
  rw [hassoc, hassoc] at heq
  have hmiddle := foldl_eq_of_sdbm_eq (by simp) (by simp) heq
  rw [toUTF8_append, toUTF8_append, toUTF8_toString ha, toUTF8_toString hb] at hmiddle
  exact hne (eq_of_toUInt8_eq ha hb (sdbmStep_comm_inj hmiddle))

/-- The hash of every string but the empty one is the value of its polynomial, modulo `2⁶⁴`. And no two
strings have one hash that differ in one character, or in the order of two neighbours, if the characters
are below 128. -/
theorem sdbm_polynomial :
    (∀ s : String, s ≠ "" → (sdbm s).toNat =
      sdbmPolynomial (2 ^ 64 - 1) s.toUTF8.toList % 2 ^ 64) ∧
    ∀ (p s : String) (a b : Char), a.toNat < 128 → b.toNat < 128 → a ≠ b →
      sdbm (p ++ a.toString ++ s) ≠ sdbm (p ++ b.toString ++ s) ∧
      sdbm (p ++ a.toString ++ b.toString ++ s) ≠ sdbm (p ++ b.toString ++ a.toString ++ s) := by
  refine ⟨fun s hs => ?_, fun p s a b ha hb hne => ⟨?_, ?_⟩⟩
  · rw [sdbm_of_ne_empty hs]
    exact toNat_sdbmBytes _
  · exact sdbm_replace_ne p s ha hb hne
  · exact sdbm_swap_ne p s ha hb hne

/-- The hash of a topic with a character of two bytes, and slips in the topic behind that character. -/
theorem sdbm_polynomial_topic :
    "küche/t1" ≠ "" ∧ (sdbm "küche/t1").toNat =
      sdbmPolynomial (2 ^ 64 - 1) "küche/t1".toUTF8.toList % 2 ^ 64 ∧
    't'.toNat < 128 ∧ '1'.toNat < 128 ∧ 't' ≠ '1' ∧
    sdbm ("küche/" ++ "t" ++ "/on") ≠ sdbm ("küche/" ++ "1" ++ "/on") ∧
    sdbm ("küche/" ++ "t" ++ "1" ++ "/on") ≠ sdbm ("küche/" ++ "1" ++ "t" ++ "/on") := by
  have hslips := sdbm_polynomial.2 "küche/" "/on" 't' '1' (by decide) (by decide) (by decide)
  exact ⟨by decide, sdbm_polynomial.1 "küche/t1" (by decide), by decide, by decide, by decide, hslips⟩

end BrokerTopology
