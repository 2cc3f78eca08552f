import Mathlib.Algebra.Group.Nat.Defs
import Mathlib.Tactic.Conv
import Mathlib.Tactic.SplitIfs
import ModelIR.Proofs.PathCharacters

/-!
# Bytes that are read as text

What text is written as is read as the same text (`Lossy.decode_ofString`). Bytes that are no text
are read as something, too, but never as characters below U+0080: those are read from their own byte
only (`Lossy.eq_of_step`), so that what is read as a word of such characters is the word itself
(`Lossy.decode_eq_iff`).
-/

namespace ModelIR

namespace Lossy

/-! ## First bytes -/

theorem lead_one {b : UInt8} (h : b.toNat < 0x80) : lead b = some (b.toNat, []) := by
  rw [lead, if_pos (UInt8.lt_iff_toNat_lt.2 h)]

theorem lead_two {b : UInt8} (h : 0xC2 ≤ b.toNat) (h' : b.toNat < 0xE0) :
    lead b = some (b.toNat - 0xC0, [(0x80, 0xBF)]) := by
  simp only [lead, UInt8.lt_iff_toNat_lt, UInt8.reduceToNat]
  rw [if_neg (by omega), if_neg (by omega), if_pos h']

theorem lead_three {b : UInt8} (h : 0xE0 ≤ b.toNat) (h' : b.toNat < 0xF0) :
    lead b = some (b.toNat - 0xE0, [(if b.toNat = 0xE0 then 0xA0 else 0x80,
      if b.toNat = 0xED then 0x9F else 0xBF), (0x80, 0xBF)]) := by
  simp only [lead, UInt8.lt_iff_toNat_lt, ← UInt8.toNat_inj, UInt8.reduceToNat]
  rw [if_neg (by omega), if_neg (by omega), if_neg (by omega)]
  split_ifs <;> first | omega | simp_all

theorem lead_four {b : UInt8} (h : 0xF0 ≤ b.toNat) (h' : b.toNat < 0xF5) :
    lead b = some (b.toNat - 0xF0, [(if b.toNat = 0xF0 then 0x90 else 0x80,
      if b.toNat = 0xF4 then 0x8F else 0xBF), (0x80, 0xBF), (0x80, 0xBF)]) := by
  simp only [lead, UInt8.lt_iff_toNat_lt, ← UInt8.toNat_inj, UInt8.reduceToNat]
  rw [if_neg (by omega), if_neg (by omega), if_neg (by omega), if_neg (by omega),
    if_neg (by omega), if_neg (by omega)]
  split_ifs <;> first | omega | simp_all

/-! ## Reading what was written -/

theorem follow_cons {low high b : UInt8} (h : low.toNat ≤ b.toNat) (h' : b.toNat ≤ high.toNat)
    (bits : Nat) (ranges : List (UInt8 × UInt8)) (bytes : List UInt8) :
    follow bits ((low, high) :: ranges) (b :: bytes) =
      follow (bits * 64 + (b.toNat - 0x80)) ranges bytes := by
  rw [follow, if_pos (by simp [UInt8.le_iff_toNat_le, h, h'])]

theorem follow_tail {b : UInt8} (h : 0x80 ≤ b.toNat) (h' : b.toNat < 0xC0) (bits : Nat)
    (ranges : List (UInt8 × UInt8)) (bytes : List UInt8) :
    follow bits ((0x80, 0xBF) :: ranges) (b :: bytes) =
      follow (bits * 64 + (b.toNat - 0x80)) ranges bytes :=
  have hlow : (0x80 : UInt8).toNat ≤ b.toNat := h
  have hhigh : b.toNat ≤ (0xBF : UInt8).toNat := Nat.le_of_lt_succ h'
  follow_cons hlow hhigh bits ranges bytes

theorem follow_nil {bits : Nat} {c : Char} (h : bits = c.toNat) (bytes : List UInt8) :
    follow bits [] bytes = (some c, bytes) := by
  rw [follow, h, Char.ofNat_toNat]

theorem step_eq {b : UInt8} {bytes rest : List UInt8} {bits : Nat} {ranges : List (UInt8 × UInt8)}
    {c : Char} (hlead : lead b = some (bits, ranges))
    (hfollow : follow bits ranges bytes = (some c, rest)) : step b bytes = (c, rest) := by
  rw [step, hlead]
  simp only [hfollow, Option.getD_some]

/-- The bytes of a character are read as the character, whatever follows. -/
theorem step_utf8EncodeChar (c : Char) (bytes : List UInt8) :
    ∃ b tail, String.utf8EncodeChar c = b :: tail ∧ step b (tail ++ bytes) = (c, bytes) := by
  have hc : c.toNat < 0xD800 ∨ 0xDFFF < c.toNat ∧ c.toNat < 0x110000 := c.valid
  have htail : ∀ n, (UInt8.ofNat (n % 64 + 128)).toNat = n % 64 + 128 := fun n =>
    UInt8.toNat_ofNat_of_lt' (by simp only [UInt8.size]; omega)
  have h₁ := htail (c.toNat / 4096)
  have h₂ := htail (c.toNat / 64)
  have h₃ := htail c.toNat
  rw [String.utf8EncodeChar]
  simp only [show c.val.toNat = c.toNat from rfl]
  split_ifs
  all_goals refine ⟨_, _, rfl, ?_⟩
  · have h : (UInt8.ofNat c.toNat).toNat = c.toNat :=
      UInt8.toNat_ofNat_of_lt' (by simp only [UInt8.size]; omega)
    refine step_eq (lead_one (by omega)) ?_
    exact follow_nil h bytes
  · have h : (UInt8.ofNat (c.toNat / 64 % 32 + 192)).toNat = c.toNat / 64 + 192 := by simp; omega
    refine step_eq (lead_two (by omega) (by omega)) ?_
    rw [List.singleton_append, follow_tail (by omega) (by omega)]
    exact follow_nil (by omega) bytes
  · have h : (UInt8.ofNat (c.toNat / 4096 % 16 + 224)).toNat = c.toNat / 4096 + 224 := by
      simp; omega
    refine step_eq (lead_three (by omega) (by omega)) ?_
    rw [List.cons_append, List.singleton_append, follow_cons, follow_tail (by omega) (by omega)]
    · exact follow_nil (by omega) bytes
    · split_ifs <;> simp only [UInt8.reduceToNat] <;> omega
    · split_ifs <;> simp only [UInt8.reduceToNat] <;> omega
  · have h : (UInt8.ofNat (c.toNat / 262144 % 8 + 240)).toNat = c.toNat / 262144 + 240 := by
      simp; omega
    refine step_eq (lead_four (by omega) (by omega)) ?_
    rw [List.cons_append, List.cons_append, List.singleton_append, follow_cons,
      follow_tail (by omega) (by omega), follow_tail (by omega) (by omega)]
    · exact follow_nil (by omega) bytes
    · split_ifs <;> simp only [UInt8.reduceToNat] <;> omega
    · split_ifs <;> simp only [UInt8.reduceToNat] <;> omega

theorem chars_flatMap_utf8EncodeChar : ∀ text : List Char,
    chars (text.flatMap String.utf8EncodeChar) = text
  | [] => by rw [List.flatMap_nil, chars]
  | c :: text => by
    obtain ⟨b, tail, hbytes, hstep⟩ := step_utf8EncodeChar c (text.flatMap String.utf8EncodeChar)
    rw [List.flatMap_cons, hbytes, List.cons_append, chars, hstep,
      chars_flatMap_utf8EncodeChar text]

theorem chars_ofString (text : String) : chars (Path.ofString text).bytes = text.toList := by
  have hbytes : (Path.ofString text).bytes = text.toList.flatMap String.utf8EncodeChar := by
    conv_lhs => rw [← String.ofList_toList (s := text)]
    exact List.toList_data_toByteArray
  rw [hbytes, chars_flatMap_utf8EncodeChar]

/-- The path that a text spells has the text. -/
theorem decode_ofString (text : String) : decode (Path.ofString text).bytes = text := by
  rw [decode, chars_ofString, String.ofList_toList]

/-! ## Characters that have a byte of their own -/

theorem le_of_follow : ∀ {ranges : List (UInt8 × UInt8)} {bits : Nat} {bytes rest : List UInt8}
    {c : Char}, follow bits ranges bytes = (some c, rest) →
      ∃ n, c = Char.ofNat n ∧ bits * 64 ^ ranges.length ≤ n
  | [], bits, bytes, rest, c, h => by
    rw [follow, Prod.mk.injEq, Option.some.injEq] at h
    exact ⟨bits, h.1.symm, by simp⟩
  | (low, high) :: ranges, bits, [], rest, c, h => by simp [follow] at h
  | (low, high) :: ranges, bits, b :: bytes, rest, c, h => by
    rw [follow] at h
    split_ifs at h
    · obtain ⟨n, hc, hn⟩ := le_of_follow h
      refine ⟨n, hc, Nat.le_trans ?_ hn⟩
      rw [List.length_cons, Nat.pow_succ', ← Nat.mul_assoc]
      exact Nat.mul_le_mul_right _ (Nat.le_add_right _ _)
    · simp at h

/-- The first byte of a character that takes several, and the range of the second byte, tell that it
is not below U+0080. -/
theorem exists_of_lead {b : UInt8} {bits : Nat} {ranges : List (UInt8 × UInt8)}
    (hb : 0x80 ≤ b.toNat) (h : lead b = some (bits, ranges)) :
    ∃ low high others, ranges = (low, high) :: others ∧ ∀ b' : UInt8, low.toNat ≤ b'.toNat →
      0x80 ≤ (bits * 64 + (b'.toNat - 0x80)) * 64 ^ others.length := by
  simp only [lead, UInt8.lt_iff_toNat_lt, ← UInt8.toNat_inj, UInt8.reduceToNat] at h
  split_ifs at h
  all_goals first
    | omega
    | obtain ⟨rfl, rfl⟩ := Prod.mk.inj (Option.some.inj h)
      refine ⟨_, _, _, rfl, fun b' hlow => ?_⟩
      simp only [UInt8.reduceToNat] at hlow
      simp only [List.length_cons, List.length_nil]
      omega

/-- A number that is no character stands for U+0000, so that this one has no byte of its own. -/
theorem le_or_eq_zero_of_ofNat {n : Nat} (h : 0x80 ≤ n) :
    0x80 ≤ (Char.ofNat n).toNat ∨ (Char.ofNat n).toNat = 0 := by
  by_cases hvalid : n.isValidChar
  · rw [Char.ofNat, dif_pos hvalid]
    exact .inl h
  · rw [Char.ofNat, dif_neg hvalid]
    exact .inr rfl

theorem le_or_eq_zero_of_step {b : UInt8} (hb : 0x80 ≤ b.toNat) (bytes : List UInt8) :
    0x80 ≤ (step b bytes).1.toNat ∨ (step b bytes).1.toNat = 0 := by
  have hreplaced : 0x80 ≤ ('\uFFFD' : Char).toNat := by decide
  rw [step]
  rcases hlead : lead b with _ | ⟨bits, ranges⟩
  · exact .inl hreplaced
  obtain ⟨low, high, others, rfl, hothers⟩ := exists_of_lead hb hlead
  rcases bytes with _ | ⟨b', bytes⟩
  · exact .inl hreplaced
  by_cases hrange : low ≤ b' && b' ≤ high
  · rcases hfollow : follow (bits * 64 + (b'.toNat - 0x80)) others bytes with ⟨_ | c, rest⟩
    · simp only [follow, if_pos hrange, hfollow]
      exact .inl hreplaced
    · obtain ⟨n, rfl, hn⟩ := le_of_follow hfollow
      simp only [follow, if_pos hrange, hfollow, Option.getD_some]
      rw [Bool.and_eq_true, decide_eq_true_eq] at hrange
      exact le_or_eq_zero_of_ofNat (Nat.le_trans (hothers b' (UInt8.le_iff_toNat_le.1 hrange.1)) hn)
  · simp only [follow, if_neg hrange]
    exact .inl hreplaced

/-- A character below U+0080, apart from U+0000, is read from its own byte only. -/
theorem eq_of_step {b : UInt8} {bytes rest : List UInt8} {c : Char} (hc : c.toNat < 0x80)
    (hzero : c.toNat ≠ 0) (h : step b bytes = (c, rest)) : b.toNat = c.toNat ∧ rest = bytes := by
  by_cases hb : b.toNat < 0x80
  · rw [step, lead_one hb] at h
    obtain ⟨rfl, rfl⟩ := Prod.mk.inj h
    have hvalid : b.toNat.isValidChar := .inl (by omega)
    rw [Option.getD_some, Char.ofNat, dif_pos hvalid]
    exact ⟨rfl, rfl⟩
  · have hle := le_or_eq_zero_of_step (Nat.le_of_not_lt hb) bytes
    simp only [h] at hle
    omega

theorem bytes_of_chars : ∀ {text : List Char} {bytes : List UInt8}, chars bytes = text →
    (∀ c ∈ text, c.toNat < 0x80 ∧ c.toNat ≠ 0) → bytes = text.map fun c => UInt8.ofNat c.toNat
  | text, [], h, _ => by
    rw [chars] at h
    rw [← h, List.map_nil]
  | text, b :: bytes, h, htext => by
    rw [chars] at h
    subst h
    obtain ⟨hc, htext⟩ := List.forall_mem_cons.1 htext
    obtain ⟨hb, hrest⟩ := eq_of_step hc.1 hc.2 (Prod.eta (step b bytes)).symm
    rw [hrest] at htext ⊢
    rw [List.map_cons, ← bytes_of_chars rfl htext, ← hb, UInt8.ofNat_toNat]

/-- A word of characters that have a byte of their own is read from no other bytes. -/
theorem decode_eq_iff {bytes : List UInt8} {text : String}
    (htext : ∀ c ∈ text.toList, c.toNat < 0x80 ∧ c.toNat ≠ 0) :
    decode bytes = text ↔ bytes = (Path.ofString text).bytes := by
  constructor
  · intro h
    have hchars : chars bytes = text.toList := by rw [← h, decode, String.toList_ofList]
    rw [bytes_of_chars hchars htext, bytes_of_chars (chars_ofString text) htext]
  · rintro rfl
    exact decode_ofString text

theorem suffix_follow (bits : Nat) (ranges : List (UInt8 × UInt8)) (bytes : List UInt8) :
    (follow bits ranges bytes).2 <:+ bytes := by
  fun_induction follow bits ranges bytes with
  | case1 => exact List.suffix_rfl
  | case2 => exact List.suffix_rfl
  | case3 bits low high ranges b bytes _ ih => exact ih.trans (List.suffix_cons b bytes)
  | case4 => exact List.suffix_rfl

theorem suffix_step (b : UInt8) (bytes : List UInt8) : (step b bytes).2 <:+ bytes := by
  rw [step]
  split
  · exact List.suffix_rfl
  · exact suffix_follow ..

/-- A slash is read from a slash. -/
theorem slash_mem_chars_iff {bytes : List UInt8} : '/' ∈ chars bytes ↔ Path.slash ∈ bytes := by
  constructor
  · fun_induction chars bytes with
    | case1 => simp
    | case2 b bytes ih =>
      intro h
      rcases List.mem_cons.1 h with hslash | h
      · have hstep : step b bytes = ('/', (step b bytes).2) := Prod.ext hslash.symm rfl
        obtain ⟨hb, -⟩ := eq_of_step (by decide) (by decide) hstep
        exact List.mem_cons.2 (.inl (UInt8.toNat_inj.1 hb.symm))
      · exact List.mem_cons_of_mem _ ((suffix_step b bytes).subset (ih h))
  · intro h
    obtain ⟨front, rest, rfl⟩ := List.append_of_mem h
    rw [chars_append_slash]
    exact List.mem_append_right _ List.mem_cons_self

end Lossy

end ModelIR
