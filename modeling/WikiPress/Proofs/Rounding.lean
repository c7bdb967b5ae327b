import WikiPress.Binary64

/-!
# Whole numbers as doubles

A whole number below `2 ^ 53` is a double, and one above does not fall below `2 ^ 53` when it is rounded. So
doubles are in the order of the whole numbers they come from, as long as the greater side is below `2 ^ 53`.
-/

namespace WikiPress.Binary64

/-! ## Order -/

section
variable (n : Nat) (x : Binary64)

/-- The value of a double is at least a whole number. -/
def AtLeast : Prop :=
  x = .infinite false ∨ ∃ m e, x = .finite false m e ∧ n * Nat.pow 2 (-e).toNat ≤ m * Nat.pow 2 e.toNat

/-- The value of a double is a whole number. -/
def IsWhole : Prop :=
  ∃ m e, x = .finite false m e ∧ m * Nat.pow 2 e.toNat = n * Nat.pow 2 (-e).toNat

end

theorem le_finite (m n : Nat) (e f : Int) : (finite false m e).le (finite false n f) = true ↔
    m * Nat.pow 2 e.toNat * Nat.pow 2 (-f).toNat ≤ n * Nat.pow 2 f.toNat * Nat.pow 2 (-e).toNat := by
  simp only [le, ratio, powerRatio, Bool.false_eq_true, if_false, decide_eq_true_eq]
  norm_cast

theorem le_refl {x : Binary64} (h : x ≠ nan) : x.le x = true := by
  cases x with
  | finite s m e => simp [le]
  | infinite s => simp [le]
  | nan => exact absurd rfl h

theorem le_of_le {x y : Binary64} {a b : Nat} (hx : AtLeast a x) (hy : IsWhole b y) (h : x.le y = true) : a ≤ b := by
  obtain ⟨n, f, rfl, hn⟩ := hy
  obtain rfl | ⟨m, e, rfl, hm⟩ := hx
  · simp [le] at h
  · rw [le_finite] at h
    have hp : 0 < Nat.pow 2 (-e).toNat := Nat.two_pow_pos _
    have hq : 0 < Nat.pow 2 (-f).toNat := Nat.two_pow_pos _
    refine Nat.le_of_mul_le_mul_right ?_ (Nat.mul_pos hp hq)
    calc a * (Nat.pow 2 (-e).toNat * Nat.pow 2 (-f).toNat)
        = a * Nat.pow 2 (-e).toNat * Nat.pow 2 (-f).toNat := (Nat.mul_assoc ..).symm
      _ ≤ m * Nat.pow 2 e.toNat * Nat.pow 2 (-f).toNat := Nat.mul_le_mul_right _ hm
      _ ≤ n * Nat.pow 2 f.toNat * Nat.pow 2 (-e).toNat := h
      _ = b * Nat.pow 2 (-f).toNat * Nat.pow 2 (-e).toNat := by rw [hn]
      _ = b * (Nat.pow 2 (-e).toNat * Nat.pow 2 (-f).toNat) := by rw [Nat.mul_assoc, Nat.mul_comm (Nat.pow 2 (-f).toNat)]

/-! ## Rounding -/

theorem pack_ne_nan (negative : Bool) (m : Nat) (e : Int) : pack negative m e ≠ nan := by
  unfold pack
  split
  split <;> exact fun h => nomatch h

theorem ofRatio_ne_nan (negative : Bool) (num den : Nat) : ofRatio negative num den ≠ nan := by
  unfold ofRatio
  split
  · exact fun h => nomatch h
  · exact pack_ne_nan negative _ _

theorem div_le_roundHalfEven (num den : Nat) : num / den ≤ roundHalfEven num den := by
  simp only [roundHalfEven]
  split
  · omega
  · split
    · omega
    · split <;> omega

theorem roundHalfEven_le (num : Nat) {den : Nat} (h : 0 < den) : 2 * roundHalfEven num den * den ≤ 2 * num + den := by
  have hsplit : num / den * den + num % den = num := Nat.div_add_mod' num den
  have hnext : (num / den + 1) * den = num / den * den + den := Nat.succ_mul ..
  rw [Nat.mul_assoc]
  simp only [roundHalfEven]
  split
  · omega
  · split
    · omega
    · split <;> omega

theorem roundHalfEven_mul (n : Nat) {den : Nat} (h : 0 < den) : roundHalfEven (n * den) den = n := by
  simp [roundHalfEven, Nat.mul_div_cancel n h, h]

theorem pow_log2_le {n : Nat} (h : 0 < n) : Nat.pow 2 n.log2 ≤ n :=
  Nat.log2_self_le (Nat.pos_iff_ne_zero.1 h)

theorem finite_atLeast {m : Nat} {e : Int} (hm : Nat.pow 2 52 ≤ m) (he : 1 ≤ e) :
    AtLeast (Nat.pow 2 53) (finite false m e) := by
  have hzero : (-e).toNat = 0 := by omega
  have hup : Nat.pow 2 1 ≤ Nat.pow 2 e.toNat := Nat.pow_le_pow_right (by decide) (by omega)
  refine .inr ⟨m, e, rfl, ?_⟩
  rw [hzero, show Nat.pow 2 53 * Nat.pow 2 0 = Nat.pow 2 52 * Nat.pow 2 1 from by decide]
  exact Nat.mul_le_mul hm hup

/-- A full significand keeps its leading bit when it moves up. -/
theorem pack_atLeast {m : Nat} {e : Int} (hm : Nat.pow 2 52 ≤ m) (he : 1 ≤ e) :
    AtLeast (Nat.pow 2 53) (pack false m e) := by
  unfold pack
  by_cases hfull : m = Nat.pow 2 53
  · rw [if_pos hfull]
    dsimp only
    split
    · exact .inl rfl
    · exact finite_atLeast (Nat.le_refl _) (by omega)
  · rw [if_neg hfull]
    dsimp only
    split
    · exact .inl rfl
    · exact finite_atLeast hm he

/-! ## Ratios -/

theorem log2_le_of_le_mul {a b k : Nat} (ha : 0 < a) (h : a ≤ b * Nat.pow 2 k) : a.log2 ≤ b.log2 + k := by
  have hlt : Nat.pow 2 a.log2 < Nat.pow 2 (b.log2 + 1 + k) :=
    calc Nat.pow 2 a.log2 ≤ a := pow_log2_le ha
      _ ≤ b * Nat.pow 2 k := h
      _ < Nat.pow 2 (b.log2 + 1) * Nat.pow 2 k := Nat.mul_lt_mul_of_pos_right Nat.lt_log2_self (Nat.two_pow_pos k)
      _ = Nat.pow 2 (b.log2 + 1 + k) := (Nat.pow_add 2 ..).symm
  have hlog : a.log2 < b.log2 + 1 + k := (Nat.pow_lt_pow_iff_right (by decide)).1 hlt
  omega

/-- A ratio near the whole numbers is rounded in units that are a fraction `1 / 2 ^ n`. -/
theorem exponentOf_fraction {num den : Nat} (hnum : 0 < num) (hden : 0 < den) (hleast : den ≤ num * Nat.pow 2 53)
    (hmost : num < den * Nat.pow 2 53) : ∃ n : Nat, exponentOf num den = -(n : Int) ∧
      den * Nat.pow 2 52 ≤ num * Nat.pow 2 n ∧ num * Nat.pow 2 n < den * Nat.pow 2 53 := by
  have hlt (k : Nat) : k < Nat.pow 2 (k.log2 + 1) := Nat.lt_log2_self
  have hadd (a b : Nat) : Nat.pow 2 a * Nat.pow 2 b = Nat.pow 2 (a + b) := (Nat.pow_add 2 a b).symm
  have habove : num.log2 ≤ den.log2 + 53 := log2_le_of_le_mul hnum (Nat.le_of_lt hmost)
  have hbelow : den.log2 ≤ num.log2 + 53 := log2_le_of_le_mul hden hleast
  -- The guess is never too great, and by one too small if the quotient is not below `2 ^ 53` in its units.
  obtain ⟨g, hg⟩ : ∃ g, num.log2 + g = den.log2 + 53 := Nat.le.dest (by omega)
  have hguess : max ((num.log2 : Int) - den.log2 - 53) leastExponent = -(g : Int) := by
    rw [leastExponent]
    omega
  have hunits : inUnits (-(g : Int)) num den = (num * Nat.pow 2 g, den) := by
    simp [inUnits]
  simp only [exponentOf, hguess, hunits]
  split
  · rename_i hfits
    refine ⟨g, rfl, ?_, hfits⟩
    calc den * Nat.pow 2 52 ≤ Nat.pow 2 (den.log2 + 1) * Nat.pow 2 52 := Nat.mul_le_mul_right _ (Nat.le_of_lt (hlt den))
      _ = Nat.pow 2 num.log2 * Nat.pow 2 g := by rw [hadd, hadd, hg, Nat.add_right_comm]
      _ ≤ num * Nat.pow 2 g := Nat.mul_le_mul_right _ (pow_log2_le hnum)
  · rename_i hfull
    cases g with
    | zero => exact absurd (by simpa using hmost) hfull
    | succ n =>
      refine ⟨n, by omega, ?_, ?_⟩
      · have htwice (k e : Nat) : k * Nat.pow 2 (e + 1) = 2 * (k * Nat.pow 2 e) := by
          rw [Nat.mul_comm 2, Nat.mul_assoc]
          rfl
        rw [htwice num n, htwice den 52] at hfull
        omega
      · calc num * Nat.pow 2 n < Nat.pow 2 (num.log2 + 1) * Nat.pow 2 n :=
              Nat.mul_lt_mul_of_pos_right (hlt num) (Nat.two_pow_pos _)
          _ = Nat.pow 2 den.log2 * Nat.pow 2 53 := by rw [hadd, hadd, ← hg]; congr 1; omega
          _ ≤ den * Nat.pow 2 53 := Nat.mul_le_mul_right _ (pow_log2_le hden)

theorem ofRatio_fraction {num den : Nat} (hnum : 0 < num) (hden : 0 < den) (hleast : den ≤ num * Nat.pow 2 53)
    (hmost : num < den * Nat.pow 2 53) : ∃ n : Nat,
      ofRatio false num den = pack false (roundHalfEven (num * Nat.pow 2 n) den) (-(n : Int)) ∧
      den * Nat.pow 2 52 ≤ num * Nat.pow 2 n ∧ num * Nat.pow 2 n < den * Nat.pow 2 53 := by
  obtain ⟨n, hn, hlow, hhigh⟩ := exponentOf_fraction hnum hden hleast hmost
  refine ⟨n, ?_, hlow, hhigh⟩
  unfold ofRatio
  rw [if_neg (Nat.pos_iff_ne_zero.1 hnum), hn]
  simp [inUnits]

/-- A ratio that is a whole number below `2 ^ 53` is rounded to itself. -/
theorem ofRatio_isWhole {n den : Nat} (hden : 0 < den) (h : n < Nat.pow 2 53) :
    IsWhole n (ofRatio false (n * den) den) := by
  obtain rfl | hn := Nat.eq_zero_or_pos n
  · exact ⟨0, leastExponent, by rw [Nat.zero_mul]; rfl, by simp⟩
  have hleast : den ≤ n * den * Nat.pow 2 53 :=
    Nat.le_trans (Nat.le_mul_of_pos_left den hn) (Nat.le_mul_of_pos_right _ (Nat.two_pow_pos 53))
  have hmost : n * den < den * Nat.pow 2 53 := by
    rw [Nat.mul_comm]
    exact Nat.mul_lt_mul_of_pos_left h hden
  obtain ⟨e, he, -, hhigh⟩ := ofRatio_fraction (Nat.mul_pos hn hden) hden hleast hmost
  rw [Nat.mul_right_comm, roundHalfEven_mul _ hden] at he
  rw [Nat.mul_right_comm, Nat.mul_comm den] at hhigh
  have hfits : n * Nat.pow 2 e < Nat.pow 2 53 := Nat.lt_of_mul_lt_mul_right hhigh
  refine ⟨n * Nat.pow 2 e, -(e : Int), ?_, by simp⟩
  rw [he, pack, if_neg (Nat.ne_of_lt hfits)]
  exact if_neg (by rw [greatestExponent]; omega)

/-! ## Whole numbers -/

/-- A whole number is rounded at the exponent of its leading bit. -/
theorem exponentOf_whole {n : Nat} (h : 0 < n) : exponentOf n 1 = (n.log2 : Int) - 52 := by
  have hguess : max ((n.log2 : Int) - ((1 : Nat).log2 : Nat) - 53) leastExponent = (n.log2 : Int) - 53 := by
    have : (1 : Nat).log2 = 0 := by decide
    rw [this, leastExponent]
    omega
  have hfull : Nat.pow 2 ((n.log2 : Int) - 53).toNat * Nat.pow 2 53 ≤ n * Nat.pow 2 (-((n.log2 : Int) - 53)).toNat :=
    calc Nat.pow 2 ((n.log2 : Int) - 53).toNat * Nat.pow 2 53
        = Nat.pow 2 n.log2 * Nat.pow 2 (-((n.log2 : Int) - 53)).toNat := by
          rw [Nat.pow_eq, Nat.pow_eq, Nat.pow_eq, Nat.pow_eq, ← Nat.pow_add, ← Nat.pow_add]
          congr 1
          omega
      _ ≤ n * Nat.pow 2 (-((n.log2 : Int) - 53)).toNat := Nat.mul_le_mul_right _ (pow_log2_le h)
  simp only [exponentOf, hguess, inUnits, Nat.one_mul]
  rw [if_neg (Nat.not_lt.2 hfull)]
  omega

/-- A whole number as the significand and the exponent that it is rounded to. -/
theorem ofNat_eq {n : Nat} (h : 0 < n) : ofNat n =
    pack false (roundHalfEven (n * Nat.pow 2 (52 - (n.log2 : Int)).toNat) (Nat.pow 2 ((n.log2 : Int) - 52).toNat))
      ((n.log2 : Int) - 52) := by
  unfold ofNat ofRatio
  rw [if_neg (Nat.pos_iff_ne_zero.1 h), exponentOf_whole h]
  simp only [inUnits, Nat.one_mul, Int.neg_sub]

theorem ofNat_isWhole {n : Nat} (h : n < Nat.pow 2 53) : IsWhole n (ofNat n) := by
  have hratio := ofRatio_isWhole Nat.one_pos h
  rwa [Nat.mul_one] at hratio

theorem ofNat_atLeast_of_ge {n : Nat} (h : Nat.pow 2 53 ≤ n) : AtLeast (Nat.pow 2 53) (ofNat n) := by
  have hn : 0 < n := Nat.lt_of_lt_of_le (Nat.two_pow_pos 53) h
  have hlog : 53 ≤ n.log2 := (Nat.le_log2 (Nat.pos_iff_ne_zero.1 hn)).2 h
  have hwhole : (52 - (n.log2 : Int)).toNat = 0 := by omega
  rw [ofNat_eq hn, hwhole, show Nat.pow 2 0 = 1 from rfl, Nat.mul_one]
  refine pack_atLeast (Nat.le_trans ((Nat.le_div_iff_mul_le (Nat.two_pow_pos _)).2 ?_) (div_le_roundHalfEven ..))
    (by omega)
  calc Nat.pow 2 52 * Nat.pow 2 ((n.log2 : Int) - 52).toNat
      = Nat.pow 2 n.log2 := by
        rw [Nat.pow_eq, Nat.pow_eq, Nat.pow_eq, ← Nat.pow_add]
        congr 1
        omega
    _ ≤ n := pow_log2_le hn

theorem atLeast_of_isWhole {n : Nat} {x : Binary64} (h : IsWhole n x) : AtLeast n x := by
  obtain ⟨m, e, rfl, hm⟩ := h
  exact .inr ⟨m, e, rfl, Nat.le_of_eq hm.symm⟩

theorem ofNat_atLeast (n : Nat) : AtLeast (min n (Nat.pow 2 53)) (ofNat n) := by
  rcases Nat.lt_or_ge n (Nat.pow 2 53) with h | h
  · rw [Nat.min_eq_left (Nat.le_of_lt h)]
    exact atLeast_of_isWhole (ofNat_isWhole h)
  · rw [Nat.min_eq_right h]
    exact ofNat_atLeast_of_ge h

/-! ## Whole numbers in order -/

theorem ofInt_natCast (n : Nat) : ofInt n = ofNat n := by
  unfold ofInt ofNat
  rw [Int.natAbs_natCast, decide_eq_false (Int.not_lt.2 (Int.natCast_nonneg n))]

/-- **Comparing whole numbers as doubles.** The comparison is that of the numbers, if the greater side is below
`2 ^ 53`. -/
theorem le_of_ofInt_le {n : Int} {m : Nat} (hm : m < Nat.pow 2 53) (h : (ofInt n).le (ofNat m) = true) : n ≤ m := by
  rcases Int.lt_or_le n 0 with hneg | hnat
  · omega
  · obtain ⟨k, rfl⟩ := Int.eq_ofNat_of_zero_le hnat
    rw [ofInt_natCast] at h
    have hle : min k (Nat.pow 2 53) ≤ m := le_of_le (ofNat_atLeast k) (ofNat_isWhole hm) h
    have hk : k ≤ m := by
      rcases Nat.le_total k (Nat.pow 2 53) with hk | hk
      · rwa [Nat.min_eq_left hk] at hle
      · rw [Nat.min_eq_right hk] at hle
        exact absurd hm (Nat.not_lt.2 hle)
    exact Int.ofNat_le.2 hk

end WikiPress.Binary64
