import EdgeFleet.Decimal.Shortest
import EdgeFleet.Proofs.Decimal.Rounding

namespace EdgeFleet.Decimal

theorem ten_zpow_eq (k : Int) : (10 : ℚ) ^ k = 10 ^ k.toNat / 10 ^ (-k).toNat := by
  rw [← zpow_natCast, ← zpow_natCast, ← zpow_sub₀ (by norm_num)]
  congr 1
  omega

/-- A power of ten is compared with one of two by `10 ^ 3 < 2 ^ 10` and `2 ^ 3 < 10`. -/
theorem ten_zpow_le_two_zpow {a b : Int} (h : 10 * a ≤ 3 * b) (h' : 3 * a ≤ b) :
    (10 : ℚ) ^ a ≤ 2 ^ b := by
  rcases le_total 0 a with ha | ha
  · obtain ⟨k, rfl⟩ := Int.eq_ofNat_of_zero_le ha
    obtain ⟨n, rfl⟩ := Int.eq_ofNat_of_zero_le (show 0 ≤ b by omega)
    have hcube : ((10 : ℚ) ^ k) ^ 3 ≤ (2 ^ n) ^ 3 := by
      calc ((10 : ℚ) ^ k) ^ 3 = (10 ^ 3) ^ k := pow_right_comm _ _ _
        _ ≤ (2 ^ 10) ^ k := by gcongr; norm_num
        _ = 2 ^ (10 * k) := (pow_mul _ _ _).symm
        _ ≤ 2 ^ (n * 3) := pow_le_pow_right₀ one_le_two (by omega)
        _ = (2 ^ n) ^ 3 := pow_mul _ _ _
    exact (pow_le_pow_iff_left₀ (by positivity) (by positivity) (by decide)).mp hcube
  · obtain ⟨k, hk⟩ := Int.eq_ofNat_of_zero_le (show 0 ≤ -a by omega)
    have hbase : (2 : ℚ) ^ (3 * k) ≤ 10 ^ k := by
      rw [pow_mul]
      gcongr
      norm_num
    calc (10 : ℚ) ^ a = (10 ^ k)⁻¹ := by
          rw [← zpow_natCast, ← zpow_neg]
          congr 1
          omega
      _ ≤ (2 ^ (3 * k))⁻¹ := by gcongr
      _ = 2 ^ (3 * a) := by
          rw [← zpow_natCast, ← zpow_neg]
          congr 1
          push_cast
          omega
      _ ≤ 2 ^ b := zpow_le_zpow_right₀ one_le_two h'

namespace Interval

variable {i : Interval} (hden : 0 < i.den)

include hden

theorem le_of_scaled {d n : Nat} {k : Int}
    (h : d * Nat.pow 10 k.toNat * i.den ≤ n * Nat.pow 10 (-k).toNat) :
    (d : ℚ) * 10 ^ k ≤ n / i.den := by
  have hcast : (d : ℚ) * 10 ^ k.toNat * i.den ≤ n * 10 ^ (-k).toNat := by exact_mod_cast h
  rw [le_div_iff₀ (Nat.cast_pos.mpr hden), ten_zpow_eq]
  calc (d : ℚ) * (10 ^ k.toNat / 10 ^ (-k).toNat) * i.den
      = d * 10 ^ k.toNat * i.den / 10 ^ (-k).toNat := by ring
    _ ≤ n := by
        rw [div_le_iff₀ (by positivity)]
        exact hcast

theorem floor_le (k : Int) : (i.floor k : ℚ) * 10 ^ k ≤ i.value / i.den := by
  apply le_of_scaled hden
  calc i.floor k * Nat.pow 10 k.toNat * i.den = i.floor k * (i.den * Nat.pow 10 k.toNat) := by ring
    _ ≤ i.value * Nat.pow 10 (-k).toNat := Nat.div_mul_le_self _ _

theorem one_le_floor {k : Int} (h : (10 : ℚ) ^ k ≤ i.value / i.den) : 1 ≤ i.floor k := by
  rw [ten_zpow_eq, div_le_div_iff₀ (by positivity) (Nat.cast_pos.mpr hden)] at h
  have hnat : Nat.pow 10 k.toNat * i.den ≤ i.value * Nat.pow 10 (-k).toNat := by
    exact_mod_cast h
  have hpos : 0 < i.den * Nat.pow 10 k.toNat := Nat.mul_pos hden (Nat.pow_pos (by decide))
  rw [floor, Nat.one_le_div_iff hpos, Nat.mul_comm]
  exact hnat

omit hden in
theorem point_le_of_holds {d : Nat} {k : Int} (h : i.holds d k = true) :
    d * Nat.pow 10 k.toNat * i.den ≤ i.high * Nat.pow 10 (-k).toNat := by
  simp only [holds] at h
  split at h
  · simp only [Bool.and_eq_true, decide_eq_true_eq] at h
    exact h.2
  · simp only [Bool.and_eq_true, decide_eq_true_eq] at h
    exact h.2.le

theorem onGrid?_spec {k : Int} {d : Nat} (h : i.onGrid? k = some d) :
    1 ≤ d ∧ (d : ℚ) * 10 ^ k ≤ i.high / i.den := by
  have hspec : 1 ≤ d ∧ i.holds d k = true := by
    simp only [onGrid?] at h
    have hbelow (hb : (i.floor k ≠ 0 && i.holds (i.floor k) k) = true) :
        1 ≤ i.floor k ∧ i.holds (i.floor k) k = true := by
      simp only [Bool.and_eq_true, decide_eq_true_eq] at hb
      exact ⟨Nat.pos_of_ne_zero hb.1, hb.2⟩
    split at h
    · rename_i hb ha
      obtain rfl := Option.some.inj h
      split
      · exact hbelow hb
      · exact ⟨Nat.succ_pos _, ha⟩
    · rename_i hb _
      obtain rfl := Option.some.inj h
      exact hbelow hb
    · rename_i ha
      obtain rfl := Option.some.inj h
      exact ⟨Nat.succ_pos _, ha⟩
    · cases h
  exact ⟨hspec.1, le_of_scaled hden (point_le_of_holds hspec.2)⟩

/-- The search ends on a positive point, if the value is not below the last grid. -/
theorem search_spec (hvalue : i.value ≤ i.high) (fuel : Nat) {k : Int}
    (h : (10 : ℚ) ^ (k - fuel) ≤ i.value / i.den) :
    1 ≤ (i.search fuel k).digits ∧
      ((i.search fuel k).digits : ℚ) * 10 ^ (i.search fuel k).exponent ≤ i.high / i.den := by
  -- by induction on the grids that are left; on the last one the neighbour below is taken
  induction fuel generalizing k with
  | zero =>
    have hlast : (10 : ℚ) ^ k ≤ i.value / i.den := by
      convert h using 2
      omega
    refine ⟨one_le_floor hden hlast, (floor_le hden k).trans ?_⟩
    gcongr
  | succ fuel ih =>
    rw [search]
    split
    · rename_i d hd
      exact onGrid?_spec hden hd
    · apply ih
      convert h using 2
      push_cast
      omega

end Interval

namespace Scientific

def value (s : Scientific) : ℚ := s.digits * 10 ^ s.exponent

theorem normal_spec (fuel : Nat) {s : Scientific} (h : 1 ≤ s.digits) :
    1 ≤ (normal fuel s).digits ∧ (normal fuel s).value = s.value := by
  induction fuel generalizing s with
  | zero => exact ⟨h, rfl⟩
  | succ fuel ih =>
    rw [normal]
    split
    · rename_i hzero
      obtain ⟨n, hn⟩ := Nat.dvd_of_mod_eq_zero hzero.2
      have hdiv : s.digits / 10 = n := by omega
      have hvalue : value ⟨s.digits / 10, s.exponent + 1⟩ = s.value := by
        rw [value, value, hdiv, hn, zpow_add_one₀ (by norm_num)]
        push_cast
        ring
      rw [← hvalue]
      apply ih
      change 1 ≤ s.digits / 10
      omega
    · exact ⟨h, rfl⟩

end Scientific

theorem Interval.of_spec {m : Nat} {q : Int} :
    0 < (of m q).den ∧ ((of m q).value : ℚ) / (of m q).den = m * 2 ^ q ∧
      ((of m q).high : ℚ) / (of m q).den = (m + 1 / 2) * 2 ^ q := by
  unfold of
  rcases le_or_gt 0 q with hq | hq
  · obtain ⟨k, rfl⟩ := Int.eq_ofNat_of_zero_le hq
    simp only [if_pos hq, Int.toNat_natCast, Nat.pow_eq, zpow_natCast]
    refine ⟨by decide, ?_, ?_⟩
    · push_cast
      ring
    · push_cast
      ring
  · obtain ⟨k, rfl⟩ : ∃ k : Nat, q = -k := ⟨(-q).toNat, by omega⟩
    simp only [if_neg (not_le.mpr hq), neg_neg, Int.toNat_natCast, Nat.pow_eq, zpow_neg, zpow_natCast]
    refine ⟨by positivity, ?_, ?_⟩
    · push_cast
      field_simp
    · push_cast
      field_simp
      ring

/-- Forty digits below the first one, a power of ten is small against the value. -/
theorem startExponent_spec {m : Nat} (hm : 0 < m) {q : Int} (hlow : -1074 ≤ q)
    (hhigh : (Nat.log2 m : Int) + q ≤ 1023) :
    (10 : ℚ) ^ (startExponent m q - 40) ≤ m * 2 ^ q := by
  have hlog : (2 : ℚ) ^ Nat.log2 m ≤ m := by exact_mod_cast Nat.log2_self_le hm.ne'
  have hstart : 10 * (startExponent m q - 40) ≤ 3 * (Nat.log2 m + q) ∧
      3 * (startExponent m q - 40) ≤ Nat.log2 m + q := by
    simp only [startExponent]
    split
    · omega
    · rw [Int.fdiv_eq_ediv_of_nonneg _ (by decide)]
      omega
  calc (10 : ℚ) ^ (startExponent m q - 40) ≤ 2 ^ ((Nat.log2 m : Int) + q) :=
        ten_zpow_le_two_zpow hstart.1 hstart.2
    _ = 2 ^ Nat.log2 m * 2 ^ q := by rw [zpow_add₀ two_ne_zero, zpow_natCast]
    _ ≤ m * 2 ^ q := by gcongr

namespace Double

variable {x : Double}

theorem scaled_bounds (hf : x.Finite) :
    x.scaled.1 < 2 ^ 53 ∧ -1074 ≤ x.scaled.2 ∧ x.scaled.2 ≤ 971 := by
  have hfraction : x.magnitudeBits % exponentPlace < exponentPlace := Nat.mod_lt _ (by decide)
  have hexponent : x.magnitudeBits / exponentPlace < 0x7FF :=
    (Nat.div_lt_iff_lt_mul (by decide)).mpr hf
  have hplace : exponentPlace = 2 ^ 52 := rfl
  simp only [scaled]
  generalize x.magnitudeBits / exponentPlace = exponent at *
  generalize x.magnitudeBits % exponentPlace = fraction at *
  split
  · dsimp only
    omega
  · dsimp only
    omega

theorem scaled_pos (hz : x.isZero = false) : 0 < x.scaled.1 := by
  have hbits : x.magnitudeBits ≠ 0 := by simpa [isZero] using hz
  have hsplit := Nat.div_add_mod x.magnitudeBits exponentPlace
  simp only [scaled]
  split
  · rename_i h0
    rw [h0, Nat.mul_zero, Nat.zero_add] at hsplit
    dsimp only
    omega
  · exact Nat.add_pos_left (by decide) _

/-- The shortest decimal is positive, and not above the middle between the double and the next one. -/
theorem shortest_spec (hf : x.Finite) (hz : x.isZero = false) :
    1 ≤ (shortest x).digits ∧ (shortest x).value ≤ (x.scaled.1 + 1 / 2) * 2 ^ x.scaled.2 := by
  obtain ⟨hsig, hlow, hhigh⟩ := scaled_bounds hf
  have hpos := scaled_pos hz
  obtain ⟨hden, hvalue, htop⟩ := Interval.of_spec (m := x.scaled.1) (q := x.scaled.2)
  have hlog : Nat.log2 x.scaled.1 < 53 := (Nat.log2_lt hpos.ne').mpr hsig
  have hstart := startExponent_spec hpos hlow (by omega)
  rw [← hvalue] at hstart
  have hle : (Interval.of x.scaled.1 x.scaled.2).value ≤ (Interval.of x.scaled.1 x.scaled.2).high := by
    simp only [Interval.of]
    gcongr
    omega
  obtain ⟨hone, hmiddle⟩ := Interval.search_spec hden hle 40 hstart
  obtain ⟨hdigits, hsame⟩ := Scientific.normal_spec 20 hone
  rw [htop] at hmiddle
  exact ⟨hdigits, hsame.trans_le hmiddle⟩

theorem shortest_le_overflow (hf : x.Finite) (hz : x.isZero = false) :
    (shortest x).value ≤ overflow := by
  obtain ⟨hsig, -, hhigh⟩ := scaled_bounds hf
  have hm : (x.scaled.1 : ℚ) + 1 ≤ 2 ^ 53 := by exact_mod_cast hsig
  calc (shortest x).value ≤ (x.scaled.1 + 1 / 2) * 2 ^ x.scaled.2 := (shortest_spec hf hz).2
    _ ≤ (2 ^ 53 - 1 / 2) * 2 ^ (971 : Int) := by
        have hpow : (2 : ℚ) ^ x.scaled.2 ≤ 2 ^ (971 : Int) := zpow_le_zpow_right₀ one_le_two hhigh
        exact mul_le_mul (by linarith) hpow (by positivity) (by norm_num)
    _ = overflow := by
        rw [two_zpow_top, overflow, ← mul_assoc]
        norm_num

/-- The shortest decimal of a significand with an exponent. -/
def shortestOf (m : Nat) (q : Int) : Scientific :=
  Scientific.normal 20 ((Interval.of m q).search 40 (startExponent m q))

/-- The four greatest doubles are too close to the end for a bound, so they are read one by one. -/
theorem isSome_ofDecimal?_top (j : Fin 4) :
    (shortestOf (2 ^ 53 - 1 - j) 971).digits ≤ 0xFFFFFFFFFFFFFFFF ∧
      (ofDecimal? (shortestOf (2 ^ 53 - 1 - j) 971).digits
        (shortestOf (2 ^ 53 - 1 - j) 971).exponent).isSome = true := by
  revert j
  decide +kernel

theorem middle_le_safeLimit {m : Nat} {q : Int} (hm : m < 2 ^ 53) (hq : q ≤ 971)
    (h : q = 971 → m + 5 ≤ 2 ^ 53) : ((m : ℚ) + 1 / 2) * 2 ^ q ≤ safeLimit := by
  -- one place lower a full significand is far enough from the end
  rcases hq.lt_or_eq with hlt | rfl
  · have hm' : (m : ℚ) + 1 / 2 ≤ 2 ^ 54 - 9 := by
      have hcast : (m : ℚ) < 2 ^ 53 := by exact_mod_cast hm
      linarith
    have hpow : (2 : ℚ) ^ q ≤ 2 ^ 970 := by
      rw [← zpow_natCast]
      exact zpow_le_zpow_right₀ one_le_two (by omega)
    exact mul_le_mul hm' hpow (by positivity) (by norm_num)
  · have hm' : (m : ℚ) + 5 ≤ 2 ^ 53 := by exact_mod_cast h rfl
    calc ((m : ℚ) + 1 / 2) * 2 ^ (971 : Int) = (2 * m + 1) * 2 ^ 970 := by
          rw [two_zpow_top, ← mul_assoc]
          congr 1
          ring
      _ ≤ safeLimit := by
          unfold safeLimit
          gcongr
          linarith

/-- The shortest decimal of a finite double has a double again, also when digits behind those of 64 bits
are dropped. -/
theorem isSome_ofDecimal?_shortest (hf : x.Finite) (hz : x.isZero = false) {s dropped : Nat}
    (hle : s * 10 ^ dropped ≤ (shortest x).digits)
    (hall : (shortest x).digits ≤ 0xFFFFFFFFFFFFFFFF → s = (shortest x).digits ∧ dropped = 0) :
    (ofDecimal? s ((shortest x).exponent + dropped)).isSome = true := by
  obtain ⟨hsig, hlow, hhigh⟩ := scaled_bounds hf
  -- only the four doubles at the end need all their digits, and these fit 64 bits
  by_cases htop : x.scaled.2 = 971 ∧ 2 ^ 53 < x.scaled.1 + 5
  · have hread := isSome_ofDecimal?_top ⟨2 ^ 53 - 1 - x.scaled.1, by omega⟩
    have hm : 2 ^ 53 - 1 - (2 ^ 53 - 1 - x.scaled.1) = x.scaled.1 := by omega
    have hshortest : shortestOf x.scaled.1 971 = shortest x := by
      rw [← htop.1]
      rfl
    simp only [hm, hshortest] at hread
    obtain ⟨rfl, rfl⟩ := hall hread.1
    rw [Int.natCast_zero, add_zero]
    exact hread.2
  · apply isSome_ofDecimal?
    intro he
    have hmiddle := middle_le_safeLimit hsig hhigh (by omega)
    have hcast : (s : ℚ) * 10 ^ dropped ≤ (shortest x).digits := by exact_mod_cast hle
    calc (s : ℚ) * 10 ^ ((shortest x).exponent + dropped).toNat
        = s * 10 ^ dropped * 10 ^ (shortest x).exponent := by
          rw [← zpow_natCast, Int.toNat_of_nonneg he, add_comm, zpow_add₀ (by norm_num),
            zpow_natCast, mul_assoc]
      _ ≤ (shortest x).digits * 10 ^ (shortest x).exponent := by gcongr
      _ ≤ (x.scaled.1 + 1 / 2) * 2 ^ x.scaled.2 := (shortest_spec hf hz).2
      _ ≤ safeLimit := hmiddle

end Double

end EdgeFleet.Decimal
