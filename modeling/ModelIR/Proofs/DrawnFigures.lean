import Mathlib.Algebra.GroupWithZero.Nat
import Mathlib.Tactic.ByContra
import Mathlib.Tactic.SplitIfs
import ModelIR.Manifest.Record

/-!
# Drawn figures

A draw from the numbers up to `n` takes one word of a source or two, and looks at no others
(`exists_takes_draw`). A second word is only taken if the lower half of the first product is above
`2 ^ 64 - n`. That product is `n * 2 ^ 64 - n` at most, so in that case its upper half is below
`n - 1`, and a carry does not lead out of the range. Figures are four draws, and those of one test
begin with the word where those of the test before it have left off (`Footprint.drawn_in_range`).
-/

namespace ModelIR

namespace WordSource

variable {α β : Type} {x : StateM WordSource α} {w : WordSource} {a : α} {b : β} {k l n : Nat}

/-- The source behind the next words. -/
def skip (w : WordSource) (k : Nat) : WordSource :=
  { w with used := w.used + k }

theorem skip_skip (w : WordSource) (k l : Nat) : (w.skip k).skip l = w.skip (k + l) := by
  simp [skip, Nat.add_assoc]

/-- From every source that goes on with the same `k` words, `x` answers `a` and leaves off behind
these words. -/
def Takes (x : StateM WordSource α) (w : WordSource) (a : α) (k : Nat) : Prop :=
  ∀ w' : WordSource, (∀ i < k, w'.word (w'.used + i) = w.word (w.used + i)) →
    x.run w' = (a, w'.skip k)

theorem Takes.run (h : Takes x w a k) : x.run w = (a, w.skip k) :=
  h w fun _ _ => rfl

theorem takes_pure (w : WordSource) (a : α) : Takes (pure a) w a 0 :=
  fun _ _ => rfl

theorem takes_next (w : WordSource) : Takes next w (w.word w.used) 1 := by
  intro w' h
  have hword : w'.word w'.used = w.word w.used := h 0 Nat.one_pos
  rw [← hword]
  rfl

theorem Takes.bind {f : α → StateM WordSource β} (hx : Takes x w a k)
    (hf : Takes (f a) (w.skip k) b l) : Takes (x >>= f) w b (k + l) := by
  intro w' h
  rw [StateT.run_bind, hx w' fun i hi => h i (by omega)]
  refine (hf (w'.skip k) fun i hi => ?_).trans (by rw [skip_skip])
  have hword := h (k + i) (by omega)
  simpa [skip, Nat.add_assoc] using hword

/-! ## One draw -/

/-- The upper half of the product of the next word and a number. -/
def upper (w : WordSource) (n : Nat) : Nat :=
  (w.word w.used).toNat * n / wordCount

/-- The lower half. -/
def lower (w : WordSource) (n : Nat) : Nat :=
  (w.word w.used).toNat * n % wordCount

theorem halves_le (w : WordSource) (n : Nat) :
    w.upper n * wordCount + w.lower n ≤ n * wordCount - n := by
  have hword : (w.word w.used).toNat < wordCount := UInt64.toNat_lt (w.word w.used)
  calc w.upper n * wordCount + w.lower n = (w.word w.used).toNat * n := Nat.div_add_mod' ..
    _ ≤ (wordCount - 1) * n := Nat.mul_le_mul_right n (by omega)
    _ = n * wordCount - n := by rw [Nat.sub_mul, Nat.one_mul, Nat.mul_comm]

theorem upper_lt (w : WordSource) (hn : 0 < n) : w.upper n < n := by
  have hle := w.halves_le n
  have hpos : 0 < n * wordCount := Nat.mul_pos hn (by decide)
  by_contra hge
  have := Nat.mul_le_mul_right wordCount (Nat.le_of_not_lt hge)
  omega

/-- Where the upper half is as great as it can be, the lower half is too small for a second word. -/
theorem upper_lt_of_lower (h : wordCount - n < w.lower n) : w.upper n + 1 < n := by
  have hle := w.halves_le n
  by_contra hge
  have hupper : (n - 1) * wordCount ≤ w.upper n * wordCount :=
    Nat.mul_le_mul_right wordCount (by omega)
  rw [Nat.sub_mul, Nat.one_mul] at hupper
  omega

theorem takes_draw_one (h : ¬ w.lower n > wordCount - n) : Takes (draw n) w (1 + w.upper n) 1 := by
  refine (takes_next w).bind (l := 0) ?_
  change Takes (if w.lower n > wordCount - n then _ else _) _ _ _
  rw [if_neg h]
  exact takes_pure _ _

theorem takes_draw_two (h : w.lower n > wordCount - n) : Takes (draw n) w
    (1 + w.upper n + if w.lower n + (w.skip 1).upper n ≥ wordCount then 1 else 0) 2 := by
  refine (takes_next w).bind (l := 1) ?_
  change Takes (if w.lower n > wordCount - n then _ else _) _ _ _
  rw [if_pos h]
  exact (takes_next (w.skip 1)).bind (l := 0) (takes_pure _ _)

theorem exists_takes_draw (w : WordSource) (hn : 0 < n) :
    ∃ a k, Takes (draw n) w a k ∧ 1 ≤ a ∧ a ≤ n ∧ (k = 1 ∨ k = 2) := by
  by_cases h : w.lower n > wordCount - n
  · have hupper := upper_lt_of_lower h
    refine ⟨_, 2, takes_draw_two h, by omega, ?_, .inr rfl⟩
    split_ifs <;> omega
  · have hupper := w.upper_lt hn
    exact ⟨_, 1, takes_draw_one h, by omega, by omega, .inl rfl⟩

end WordSource

/-! ## Figures -/

namespace Footprint

open WordSource

variable {w : WordSource}

structure InRange (f : Footprint) : Prop where
  vmsize : 1 ≤ f.vmsize ∧ f.vmsize ≤ 1103949
  vmpeak : 1 ≤ f.vmpeak ∧ f.vmpeak ≤ 1103949
  vmrss : 1 ≤ f.vmrss ∧ f.vmrss ≤ 129329
  vmhwm : 1 ≤ f.vmhwm ∧ f.vmhwm ≤ 129329

theorem exists_takes_random (w : WordSource) :
    ∃ f k, Takes random w f k ∧ f.InRange ∧ 4 ≤ k ∧ k ≤ 8 := by
  obtain ⟨a, k₁, ha, hrange₁, hrange₁', hk₁⟩ := exists_takes_draw w (n := maxVirtual) (by decide)
  obtain ⟨b, k₂, hb, hrange₂, hrange₂', hk₂⟩ :=
    exists_takes_draw (w.skip k₁) (n := maxVirtual) (by decide)
  obtain ⟨c, k₃, hc, hrange₃, hrange₃', hk₃⟩ :=
    exists_takes_draw ((w.skip k₁).skip k₂) (n := maxResident) (by decide)
  obtain ⟨d, k₄, hd, hrange₄, hrange₄', hk₄⟩ :=
    exists_takes_draw (((w.skip k₁).skip k₂).skip k₃) (n := maxResident) (by decide)
  refine ⟨⟨a, b, c, d⟩, k₁ + (k₂ + (k₃ + (k₄ + 0))), ?_, ?_, by omega, by omega⟩
  · exact ha.bind (hb.bind (hc.bind (hd.bind (takes_pure _ _))))
  · exact ⟨⟨hrange₁, hrange₁'⟩, ⟨hrange₂, hrange₂'⟩, ⟨hrange₃, hrange₃'⟩, ⟨hrange₄, hrange₄'⟩⟩

/-- Figures that are drawn one behind the other, and how many words each takes: the words behind
those of the figures before. -/
inductive Drawn : WordSource → List (Footprint × Nat) → Prop
  | nil (w : WordSource) : Drawn w []
  | cons {w : WordSource} {f : Footprint} {k : Nat} {rest : List (Footprint × Nat)}
    (takes : Takes random w f k) (range : f.InRange) (least : 4 ≤ k) (most : k ≤ 8)
    (behind : Drawn (w.skip k) rest) : Drawn w ((f, k) :: rest)

/-- Of each element of a list something is made with figures at random. -/
theorem exists_drawn_mapM {α β : Type} (make : α → Footprint → β) : ∀ (l : List α) (w : WordSource),
    ∃ drawn, Drawn w drawn ∧ drawn.length = l.length ∧
      (l.mapM fun a => do return make a (← random)).run w =
        (List.zipWith make l (drawn.map Prod.fst), w.skip (drawn.map Prod.snd).sum)
  | [], w => ⟨[], .nil w, rfl, rfl⟩
  | a :: l, w => by
    obtain ⟨f, k, htakes, hrange, hleast, hmost⟩ := exists_takes_random w
    obtain ⟨drawn, hdrawn, hlength, hrun⟩ := exists_drawn_mapM make l (w.skip k)
    refine ⟨(f, k) :: drawn, .cons htakes hrange hleast hmost hdrawn, by simp [hlength], ?_⟩
    have hmake : (do return make a (← random)).run w = (make a f, w.skip k) :=
      (htakes.bind (f := fun f => pure (make a f)) (takes_pure (w.skip k) (make a f))).run
    rw [List.mapM_cons, StateT.run_bind, hmake]
    change ((l.mapM fun a => do return make a (← random)) >>= fun made =>
      pure (make a f :: made)).run
      (w.skip k) = _
    rw [StateT.run_bind, hrun]
    rw [List.map_cons, List.map_cons, List.zipWith_cons_cons, List.sum_cons, ← skip_skip]
    rfl

/-- Of two lists, the second is kept where it is paired with the first. -/
theorem zipWith_second {α β : Type} {l : List α} {l' : List β} (h : l'.length ≤ l.length) :
    List.zipWith (fun _ b => b) l l' = l' :=
  List.map_zip_eq_zipWith.symm.trans (List.map_snd_zip h)

/-- Every draw is in its range and takes one word or two. So figures are in their ranges and take
four words to eight, however many are drawn, and each of them goes on where those before it have
left off. The records of the tests of a model have three of them. -/
theorem drawn_in_range (w : WordSource) :
    (∀ n, 1 ≤ n → ∃ a k, Takes (draw n) w a k ∧ 1 ≤ a ∧ a ≤ n ∧ (k = 1 ∨ k = 2)) ∧
    (∀ count, ∃ drawn, Drawn w drawn ∧ drawn.length = count ∧
      ((List.replicate count ()).mapM fun _ => random).run w =
        (drawn.map Prod.fst, w.skip (drawn.map Prod.snd).sum)) ∧
    ∀ model, ∃ drawn, Drawn w drawn ∧ drawn.length = 3 ∧ ∃ records,
      (ReferenceRecord.forAllTests model).run w = (records, w.skip (drawn.map Prod.snd).sum) ∧
        records.map ReferenceRecord.memory = drawn.map Prod.fst := by
  refine ⟨fun n hn => exists_takes_draw w hn, fun count => ?_, fun model => ?_⟩
  · obtain ⟨drawn, hdrawn, hlength, hrun⟩ :=
      exists_drawn_mapM (fun _ f => f) (List.replicate count ()) w
    simp only [bind_pure] at hrun
    rw [zipWith_second (by simp [hlength])] at hrun
    exact ⟨drawn, hdrawn, by simpa using hlength, hrun⟩
  · obtain ⟨drawn, hdrawn, hlength, hrun⟩ := exists_drawn_mapM
      (fun test f => ReferenceRecord.mk model.path.toText model.precision test referenceDevice f)
      TestKind.all w
    refine ⟨drawn, hdrawn, hlength, _, hrun, ?_⟩
    rw [List.map_zipWith]
    exact zipWith_second (by simp [hlength])

/-- The first word leads to the last number but one of `1` to `129329`, and the second carries. -/
def carryingSource : WordSource :=
  .cycle [0xFFFF7E466095CDFA, 0xFFFFFFFFFFFFFFFF]

/-- The carry leads to the last number, and not out of the range. -/
theorem carryingSource_in_range : 1 ≤ maxResident ∧
    Takes (draw maxResident) carryingSource maxResident 2 := by
  have hone : 1 ≤ maxResident := by decide
  refine ⟨hone, ?_⟩
  obtain ⟨a, k, htakes, -, -, -⟩ := (drawn_in_range carryingSource).1 maxResident hone
  have hvalue : ((draw maxResident).run carryingSource).1 = maxResident := by decide
  have hused : ((draw maxResident).run carryingSource).2.used = 2 := by decide
  rw [htakes.run] at hvalue hused
  obtain rfl : a = maxResident := hvalue
  obtain rfl : k = 2 := (Nat.zero_add k).symm.trans hused
  exact htakes

end Footprint

end ModelIR
