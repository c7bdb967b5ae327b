import WikiPress.Proofs.Changes

/-!
# Heights in proportion

The height of a narrowed medium is computed in doubles: a product, a quotient, and the nearest whole number. Below
`2 ^ 52` nothing is lost on the way. The product is exact, and the quotient is rounded so finely that it comes out on
the same side of every half as before.
-/

namespace WikiPress.Binary64

/-! ## Operations -/

theorem two_pow_toNat (e f : Int) : Nat.pow 2 e.toNat * Nat.pow 2 f.toNat * Nat.pow 2 (-(e + f)).toNat =
    Nat.pow 2 (-e).toNat * Nat.pow 2 (-f).toNat * Nat.pow 2 (e + f).toNat := by
  simp only [Nat.pow_eq, ← Nat.pow_add]
  congr 1
  omega

theorem mul_isWhole {a b : Nat} {x y : Binary64} (hx : IsWhole a x) (hy : IsWhole b y) (h : a * b < Nat.pow 2 53) :
    IsWhole (a * b) (x.mul y) := by
  obtain ⟨m, e, rfl, hm⟩ := hx
  obtain ⟨n, f, rfl, hn⟩ := hy
  have hproduct : m * n * Nat.pow 2 (e + f).toNat = a * b * Nat.pow 2 (-(e + f)).toNat := by
    refine Nat.eq_of_mul_eq_mul_right (Nat.mul_pos (Nat.two_pow_pos (-e).toNat) (Nat.two_pow_pos (-f).toNat)) ?_
    calc m * n * Nat.pow 2 (e + f).toNat * (Nat.pow 2 (-e).toNat * Nat.pow 2 (-f).toNat)
        = m * n * (Nat.pow 2 (-e).toNat * Nat.pow 2 (-f).toNat * Nat.pow 2 (e + f).toNat) := by ac_rfl
      _ = (m * Nat.pow 2 e.toNat) * (n * Nat.pow 2 f.toNat) * Nat.pow 2 (-(e + f)).toNat := by
        rw [← two_pow_toNat]
        ac_rfl
      _ = a * b * Nat.pow 2 (-(e + f)).toNat * (Nat.pow 2 (-e).toNat * Nat.pow 2 (-f).toNat) := by
        rw [hm, hn]
        ac_rfl
  have hunit : 0 < Nat.pow 2 (-(e + f)).toNat := Nat.two_pow_pos _
  have hratio := ofRatio_isWhole hunit h
  rwa [← hproduct] at hratio

/-- The quotient of whole numbers is rounded once, from the ratio as it is. -/
theorem div_eq_ofRatio {a b : Nat} {x y : Binary64} (hx : IsWhole a x) (hy : IsWhole b y) (hb : 0 < b) :
    ∃ num den, x.div y = ofRatio false num den ∧ 0 < den ∧ num * b = a * den := by
  obtain ⟨m, e, rfl, hm⟩ := hx
  obtain ⟨n, f, rfl, hn⟩ := hy
  have hpos : 0 < n := Nat.pos_of_ne_zero fun hzero => by
    have := Nat.mul_pos hb (Nat.two_pow_pos (-f).toNat)
    rw [hzero, Nat.zero_mul] at hn
    exact Nat.ne_of_lt this hn
  refine ⟨m * Nat.pow 2 (e - f).toNat, n * Nat.pow 2 (-(e - f)).toNat, ?_, ?_, ?_⟩
  · simp [div, powerRatio, Nat.pos_iff_ne_zero.1 hpos]
  · exact Nat.mul_pos hpos (Nat.two_pow_pos _)
  · have hpow := two_pow_toNat e (-f)
    rw [Int.neg_neg, ← Int.sub_eq_add_neg] at hpow
    refine Nat.eq_of_mul_eq_mul_right (Nat.mul_pos (Nat.two_pow_pos (-e).toNat) (Nat.two_pow_pos (-f).toNat)) ?_
    calc m * Nat.pow 2 (e - f).toNat * b * (Nat.pow 2 (-e).toNat * Nat.pow 2 (-f).toNat)
        = m * (b * Nat.pow 2 (-f).toNat) * (Nat.pow 2 (-e).toNat * Nat.pow 2 (e - f).toNat) := by ac_rfl
      _ = m * n * (Nat.pow 2 (-e).toNat * Nat.pow 2 f.toNat * Nat.pow 2 (e - f).toNat) := by
        rw [← hn]
        ac_rfl
      _ = (m * Nat.pow 2 e.toNat) * n * (Nat.pow 2 (-f).toNat * Nat.pow 2 (-(e - f)).toNat) := by
        rw [← hpow]
        ac_rfl
      _ = a * (n * Nat.pow 2 (-(e - f)).toNat) * (Nat.pow 2 (-e).toNat * Nat.pow 2 (-f).toNat) := by
        rw [hm]
        ac_rfl

/-! ## Rounding twice -/

/-- A quotient that was rounded in units of `1 / (2 * v)` and is then rounded to a whole number, a half going up, is
rounded like the quotient itself, if its denominator is below the number of units. -/
theorem round_of_rounded {a b r v : Nat} (hb : 0 < b) (hlt : b < 2 * v) (hlow : ∀ c, c * b ≤ a * (2 * v) → c ≤ r)
    (hhigh : 2 * r * b ≤ 2 * a * (2 * v) + b) : (2 * r + 2 * v) / (2 * (2 * v)) = (2 * a + b) / (2 * b) := by
  have hodd (j c : Nat) : (2 * j + 1) * c = j * (2 * c) + c := by
    rw [Nat.succ_mul, Nat.mul_comm 2 j, Nat.mul_assoc]
  have hsucc (j c : Nat) : (j + 1) * (2 * c) = j * (2 * c) + 2 * c := Nat.succ_mul ..
  obtain ⟨k, hk⟩ : ∃ k, (2 * a + b) / (2 * b) = k := ⟨_, rfl⟩
  have hleast : k * (2 * b) ≤ 2 * a + b := hk ▸ Nat.div_mul_le_self ..
  have hmost : 2 * a + b < (k + 1) * (2 * b) :=
    (Nat.div_lt_iff_lt_mul (Nat.mul_pos Nat.two_pos hb)).1 (hk ▸ Nat.lt_succ_self k)
  rw [hk]
  refine Nat.div_eq_of_lt_le ?_ ?_
  · -- A half is a whole number of units, so what is rounded to units does not fall below it.
    cases k with
    | zero => simp
    | succ j =>
      have hhalf : (2 * j + 1) * b ≤ 2 * a := by
        rw [hsucc] at hleast
        rw [hodd]
        omega
      have hunits : (2 * j + 1) * v ≤ r := hlow _ <|
        calc (2 * j + 1) * v * b = (2 * j + 1) * b * v := Nat.mul_right_comm ..
          _ ≤ 2 * a * v := Nat.mul_le_mul_right v hhalf
          _ = a * (2 * v) := by ac_rfl
      rw [hodd] at hunits
      rw [hsucc, Nat.mul_left_comm j 2]
      omega
  · -- A quotient below a half is below it by more than what the rounding to units adds.
    have hhalf : 2 * a + 1 ≤ (2 * k + 1) * b := by
      rw [hsucc] at hmost
      rw [hodd]
      omega
    have hbelow : 2 * r * b < (2 * k + 1) * (2 * v) * b :=
      calc 2 * r * b ≤ 2 * a * (2 * v) + b := hhigh
        _ < 2 * a * (2 * v) + 2 * v := Nat.add_lt_add_left hlt _
        _ = (2 * a + 1) * (2 * v) := (Nat.succ_mul ..).symm
        _ ≤ (2 * k + 1) * b * (2 * v) := Nat.mul_le_mul_right _ hhalf
        _ = (2 * k + 1) * (2 * v) * b := Nat.mul_right_comm ..
    have hunits : 2 * r < (2 * k + 1) * (2 * v) := Nat.lt_of_mul_lt_mul_right hbelow
    rw [hodd] at hunits
    rw [hsucc]
    omega

/-- Packing keeps the value, and with it the nearest whole number. -/
theorem round64_pack (m n : Nat) : (pack false m (-((n + 1 : Nat) : Int))).round64 =
    min ((2 * m + 2 * Nat.pow 2 n) / (2 * (2 * Nat.pow 2 n))) greatest64 := by
  have hgreatest : ¬ greatestExponent < -((n + 1 : Nat) : Int) := by rw [greatestExponent]; omega
  have hgreatest' : ¬ greatestExponent < -(n : Int) := by rw [greatestExponent]; omega
  have htwice : Nat.pow 2 (n + 1) = 2 * Nat.pow 2 n := Nat.mul_comm ..
  have hunits (k : Nat) : powerRatio (-(k : Int)) = (1, Nat.pow 2 k) := by simp [powerRatio]
  unfold pack
  by_cases hfull : m = Nat.pow 2 53
  · have hup : -((n + 1 : Nat) : Int) + 1 = -(n : Int) := by omega
    rw [if_pos hfull, hup]
    dsimp only
    rw [if_neg hgreatest', round64, hunits, hfull]
    dsimp only
    rw [← Nat.mul_div_mul_left _ _ Nat.two_pos, Nat.mul_add, Nat.mul_one]
  · rw [if_neg hfull]
    dsimp only
    rw [if_neg hgreatest, round64, hunits, htwice]
    dsimp only
    rw [Nat.mul_one]

theorem round64_zero (e : Int) : (finite false 0 e).round64 = 0 := by
  have hpos : 0 < Nat.pow 2 (-e).toNat := Nat.two_pow_pos _
  have hhalf : Nat.pow 2 (-e).toNat / (2 * Nat.pow 2 (-e).toNat) = 0 := Nat.div_eq_of_lt (by omega)
  rw [round64, powerRatio]
  dsimp only
  rw [Nat.zero_mul, Nat.mul_zero, Nat.zero_add, hhalf, Nat.zero_min]

/-- The nearest whole number to a ratio is not lost when the ratio is rounded to a double first. -/
theorem round64_ofRatio {num den a b : Nat} (hden : 0 < den) (hb : 0 < b) (hb' : b ≤ Nat.pow 2 53)
    (ha : a < Nat.pow 2 52) (h : num * b = a * den) :
    (ofRatio false num den).round64 = (2 * a + b) / (2 * b) := by
  have hbound : (2 * a + b) / (2 * b) ≤ greatest64 := by
    have hle : 2 * a + b ≤ 2 * b * Nat.pow 2 52 :=
      calc 2 * a + b ≤ 2 * a * b + 2 * b := by
            have := Nat.le_mul_of_pos_right (2 * a) hb
            omega
        _ = 2 * b * (a + 1) := by rw [Nat.mul_add, Nat.mul_one, Nat.mul_right_comm]
        _ ≤ 2 * b * Nat.pow 2 52 := Nat.mul_le_mul_left _ ha
    exact Nat.le_trans (Nat.div_le_of_le_mul hle) (by decide)
  obtain rfl | hpos := Nat.eq_zero_or_pos a
  · have hzero : num = 0 := by
      rw [Nat.zero_mul] at h
      exact (Nat.mul_eq_zero.1 h).resolve_right (Nat.pos_iff_ne_zero.1 hb)
    have hlt : b < 2 * b := by omega
    rw [hzero, Nat.mul_zero, Nat.zero_add, Nat.div_eq_of_lt hlt]
    exact round64_zero leastExponent
  have hnum : 0 < num := Nat.pos_of_mul_pos_right (h ▸ Nat.mul_pos hpos hden)
  have hleast : den ≤ num * Nat.pow 2 53 :=
    calc den ≤ a * den := Nat.le_mul_of_pos_left den hpos
      _ = num * b := h.symm
      _ ≤ num * Nat.pow 2 53 := Nat.mul_le_mul_left num hb'
  have hmost : num < den * Nat.pow 2 53 :=
    calc num ≤ num * b := Nat.le_mul_of_pos_right num hb
      _ = den * a := h.trans (Nat.mul_comm ..)
      _ < den * Nat.pow 2 53 := Nat.mul_lt_mul_of_pos_left (Nat.lt_trans ha (by decide)) hden
  obtain ⟨e, he, hlow, -⟩ := ofRatio_fraction hnum hden hleast hmost
  have hscaled : num * Nat.pow 2 e * b = a * Nat.pow 2 e * den := by
    rw [Nat.mul_right_comm, h, Nat.mul_right_comm]
  -- The denominator is below the number of units because the numerator is below `2 ^ 52`.
  have hunits : b * (Nat.pow 2 52 * den) < Nat.pow 2 e * (Nat.pow 2 52 * den) :=
    calc b * (Nat.pow 2 52 * den) = den * Nat.pow 2 52 * b := by ac_rfl
      _ ≤ num * Nat.pow 2 e * b := Nat.mul_le_mul_right b hlow
      _ = a * (Nat.pow 2 e * den) := by rw [hscaled, Nat.mul_assoc]
      _ < Nat.pow 2 52 * (Nat.pow 2 e * den) := Nat.mul_lt_mul_of_pos_right ha (Nat.mul_pos (Nat.two_pow_pos e) hden)
      _ = Nat.pow 2 e * (Nat.pow 2 52 * den) := by ac_rfl
  have hlt : b < Nat.pow 2 e := Nat.lt_of_mul_lt_mul_right hunits
  obtain _ | n := e
  · exact absurd hlt (Nat.not_lt.2 hb)
  have htwice : Nat.pow 2 (n + 1) = 2 * Nat.pow 2 n := Nat.mul_comm ..
  rw [htwice] at hlt hscaled
  rw [he, round64_pack, htwice, round_of_rounded hb hlt ?_ ?_, Nat.min_eq_left hbound]
  · intro c hc
    refine Nat.le_trans ((Nat.le_div_iff_mul_le hden).2 ?_) (div_le_roundHalfEven ..)
    refine Nat.le_of_mul_le_mul_right ?_ hb
    calc c * den * b = c * b * den := Nat.mul_right_comm ..
      _ ≤ a * (2 * Nat.pow 2 n) * den := Nat.mul_le_mul_right den hc
      _ = num * (2 * Nat.pow 2 n) * b := hscaled.symm
  · refine Nat.le_of_mul_le_mul_right ?_ hden
    calc 2 * roundHalfEven (num * (2 * Nat.pow 2 n)) den * b * den
        = 2 * roundHalfEven (num * (2 * Nat.pow 2 n)) den * den * b := Nat.mul_right_comm ..
      _ ≤ (2 * (num * (2 * Nat.pow 2 n)) + den) * b := Nat.mul_le_mul_right b (roundHalfEven_le _ hden)
      _ = 2 * (num * (2 * Nat.pow 2 n) * b) + den * b := by rw [Nat.add_mul, Nat.mul_assoc]
      _ = (2 * a * (2 * Nat.pow 2 n) + b) * den := by
        rw [hscaled, Nat.add_mul, Nat.mul_comm den b]
        ac_rfl

end WikiPress.Binary64

namespace WikiPress.Upload

open Json (Value Fields Number PathStep)

theorem scaledHeight_eq {limit width height : Nat} (hlimit : 0 < limit) (hwide : limit < width)
    (hwidth : width < Nat.pow 2 53) (hproduct : limit * height < Nat.pow 2 52) :
    scaledHeight limit (.integer height) (.integer width) = (2 * limit * height + width) / (2 * width) := by
  have hpos : 0 < width := Nat.lt_trans hlimit hwide
  have hsmall : limit * height < Nat.pow 2 53 := Nat.lt_trans hproduct (by decide)
  have hheight : height < Nat.pow 2 53 := Nat.lt_of_le_of_lt (Nat.le_mul_of_pos_left height hlimit) hsmall
  have hscaled := Binary64.mul_isWhole (Binary64.ofNat_isWhole (Nat.lt_trans hwide hwidth))
    (Binary64.ofNat_isWhole hheight) hsmall
  obtain ⟨num, den, hdiv, hden, hratio⟩ := Binary64.div_eq_ofRatio hscaled (Binary64.ofNat_isWhole hwidth) hpos
  rw [scaledHeight, Number.toBinary64, Number.toBinary64, Binary64.ofInt_natCast, Binary64.ofInt_natCast, hdiv,
    Binary64.round64_ofRatio hden hpos (Nat.le_of_lt hwidth) hproduct hratio, Nat.mul_assoc]

theorem scaled_le {limit width : Nat} (height : Nat) (hwide : limit < width) :
    (2 * limit * height + width) / (2 * width) ≤ height := by
  refine Nat.le_of_lt_succ ((Nat.div_lt_iff_lt_mul (by omega)).2 ?_)
  calc 2 * limit * height + width ≤ 2 * width * height + width :=
        Nat.add_le_add_right (Nat.mul_le_mul_right _ (Nat.mul_le_mul_left 2 (Nat.le_of_lt hwide))) _
    _ < 2 * width * height + 2 * width := by omega
    _ = (height + 1) * (2 * width) := by rw [Nat.mul_comm (height + 1), Nat.mul_add, Nat.mul_one]

/-- **Heights in proportion.** A medium wider than the limit gets the height that keeps its proportions, rounded as
the exact quotient is rounded, a half going up. It is never higher than before. -/
theorem clampWidths_height {tree : Value} {medium : List PathStep} {fields attrs : Fields} {type : String}
    {limit width height : Nat}
    (hlimit : 0 < limit) (hwide : limit < width) (hwidth : width < Nat.pow 2 53)
    (hproduct : limit * height < Nat.pow 2 52) (hat : tree.at? medium = some (.object fields))
    (htype : fields.lookup "type" = some (.string type)) (hmedium : type ∈ ["media", "mediaInline", "mediaGroup"])
    (hattrs : fields.lookup "attrs" = some (.object attrs))
    (hw : attrs.lookup "width" = some (.number (.integer width)))
    (hh : attrs.lookup "height" = some (.number (.integer height))) :
    (clampWidths (some limit) tree).at? (medium ++ [.key "attrs", .key "height"]) =
        some (.number (.integer ((2 * limit * height + width) / (2 * width) : Nat))) ∧
      (2 * limit * height + width) / (2 * width) ≤ height := by
  have hexcess : (Number.integer width).toBinary64.le (.ofNat limit) = false := by
    refine Bool.eq_false_iff.2 fun hle => ?_
    have hle : (width : Int) ≤ limit := Binary64.le_of_ofInt_le (Nat.lt_trans hwide hwidth) hle
    omega
  refine ⟨?_, scaled_le height hwide⟩
  rw [← scaledHeight_eq hlimit hwide hwidth hproduct]
  refine (clampWidths_changedAt (some limit) tree _).written _ ?_
  exact ⟨limit, medium, fields, attrs, _, rfl, hlimit, hat, ⟨type, hmedium, htype⟩, hattrs, hw, hexcess,
    .inr ⟨_, hh, rfl, rfl⟩⟩

/-- A medium in which half of the width of a limit below it is a fraction just below a half. -/
def nearHalf : Value :=
  .array [.object [("attrs", .object [("height", .number (.integer 1)),
    ("width", .number (.integer 9007199254740991))]), ("type", .string "mediaInline")]]

/-- The quotient is 0.49999999999999994 as a double. -/
theorem clampWidths_height_nearHalf :
    4503599627370495 * 1 < Nat.pow 2 52 ∧
      (clampWidths (some 4503599627370495) nearHalf).at? [.index 0, .key "attrs", .key "height"] =
        some (.number (.integer 0)) := by
  have hproduct : 4503599627370495 * 1 < Nat.pow 2 52 := by decide
  have hheight := clampWidths_height (by decide) (by decide) (by decide) hproduct
    (show nearHalf.at? [.index 0] = _ from rfl) rfl (by decide) rfl rfl rfl
  exact ⟨hproduct, hheight.1⟩

end WikiPress.Upload
