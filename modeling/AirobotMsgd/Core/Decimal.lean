/-
Binary64 numbers in decimal: seventeen digits, as `printf("%.17g")` writes them, and back.

`IsDouble q` says that q is a double, that is rounding does not change it. The decimal next to q with seventeen digits is
less than a quarter of a unit in the last place away from q, and rounding it gives q again.

- `roundQ_eq_of_near`: a number this close to a double is rounded to it.
- `isDouble_roundQ`: what rounding gives is a double.
- `roundQ_shown`: **seventeen digits suffice**.
- `exists_prints`: the text that is printed, and what it denotes.
-/
import AirobotMsgd.Core.Double
import AirobotMsgd.Core.JsonText

namespace AirobotMsgd.Double

open AirobotMsgd.Bytes AirobotMsgd.JsonText

/-! ## Rounding to a double -/

/-- q is a double -/
def IsDouble (q : ℚ) : Prop := roundQ q = q

theorem roundHalfEven_of_near {x : ℚ} {n : ℤ} (h : |x - n| < 1 / 2) : roundHalfEven x = n := by
  have h1 := abs_le.1 (roundHalfEven_sub_le x)
  have h2 := abs_lt.1 h
  have hlow : (-1 : ℚ) < roundHalfEven x - n := by linarith
  have hhigh : (roundHalfEven x - n : ℚ) < 1 := by linarith
  have h3 : -1 < roundHalfEven x - n := by exact_mod_cast hlow
  have h4 : roundHalfEven x - n < 1 := by exact_mod_cast hhigh
  omega

theorem le_roundHalfEven {x : ℚ} {n : ℤ} (h : (n : ℚ) ≤ x) : n ≤ roundHalfEven x := by
  have h1 := abs_le.1 (roundHalfEven_sub_le x)
  have h2 : (n : ℚ) < roundHalfEven x + 1 := by linarith
  have h3 : n < roundHalfEven x + 1 := by exact_mod_cast h2
  omega

theorem roundHalfEven_le {x : ℚ} {n : ℤ} (h : x ≤ n) : roundHalfEven x ≤ n := by
  have h1 := abs_le.1 (roundHalfEven_sub_le x)
  have h2 : (roundHalfEven x : ℚ) < n + 1 := by linarith
  have h3 : roundHalfEven x < n + 1 := by exact_mod_cast h2
  omega

/-- a number closer than half a unit to a multiple of its unit -/
theorem roundQ_of_near {y : ℚ} {n : ℤ} {e : ℤ} (he : ulpExp y = e) (h : |y - n * 2 ^ e| < 2 ^ (e - 1)) :
    roundQ y = n * 2 ^ e := by
  have hpos : (0 : ℚ) < 2 ^ e := by positivity
  have hnear : |y / 2 ^ e - n| < 1 / 2 := by
    rw [show y / 2 ^ e - n = (y - n * 2 ^ e) / 2 ^ e by field_simp, abs_div, abs_of_pos hpos, div_lt_iff₀ hpos]
    rw [zpow_sub₀ two_ne_zero] at h
    linarith
  rw [roundQ, he, roundHalfEven_of_near hnear]

theorem IsDouble.eq_mul {q : ℚ} (h : IsDouble q) : ∃ n : ℤ, q = n * 2 ^ ulpExp q := ⟨_, h.symm⟩

theorem log_lt {q : ℚ} (hq : 0 < q) {k : ℤ} (h : q < 2 ^ k) : Int.log 2 q < k := by
  have h1 := (Int.zpow_log_le_self (R := ℚ) (b := 2) one_lt_two hq).trans_lt h
  exact (zpow_lt_zpow_iff_right₀ (a := (2 : ℚ)) one_lt_two).1 (by exact_mod_cast h1)

theorem le_log {q : ℚ} {k : ℤ} (h : 2 ^ k ≤ q) : k ≤ Int.log 2 q := by
  have h1 := h.trans_lt (Int.lt_zpow_succ_log_self (R := ℚ) (b := 2) one_lt_two q)
  have h2 := (zpow_lt_zpow_iff_right₀ (a := (2 : ℚ)) one_lt_two).1 (by exact_mod_cast h1)
  omega

theorem log_bounds {q : ℚ} (hq : 0 < q) : (2 : ℚ) ^ Int.log 2 q ≤ q ∧ q < 2 ^ (Int.log 2 q + 1) :=
  ⟨by exact_mod_cast Int.zpow_log_le_self (R := ℚ) (b := 2) one_lt_two hq,
    by exact_mod_cast Int.lt_zpow_succ_log_self (R := ℚ) (b := 2) one_lt_two q⟩

/-- a double and the numbers next to it are below the next power of two -/
theorem near_lt_pow {q y : ℚ} {n k e : ℤ} (hq : q = n * 2 ^ e) (hk : q < 2 ^ k) (hek : e ≤ k)
    (h : y - q < 2 ^ (e - 1)) : y < 2 ^ k := by
  obtain ⟨j, hj⟩ := Int.eq_ofNat_of_zero_le (show 0 ≤ k - e by omega)
  have hpow : (2 : ℚ) ^ k = (2 ^ j : ℤ) * 2 ^ e := by
    rw [show k = j + e by omega, zpow_add₀ two_ne_zero]
    push_cast
    rw [zpow_natCast]
  have hpos : (0 : ℚ) < 2 ^ e := by positivity
  rw [hq, hpow] at hk
  have hn : n < 2 ^ j := by exact_mod_cast (mul_lt_mul_iff_of_pos_right hpos).1 hk
  have hn' : (n : ℚ) ≤ (2 ^ j : ℤ) - 1 := by exact_mod_cast Int.le_sub_one_of_lt hn
  have hhalf : (2 : ℚ) ^ (e - 1) = 2 ^ e / 2 := by rw [zpow_sub₀ two_ne_zero, zpow_one]
  have hmul : (n : ℚ) * 2 ^ e ≤ ((2 ^ j : ℤ) - 1) * 2 ^ e := mul_le_mul_of_nonneg_right hn' hpos.le
  rw [hpow]
  rw [hhalf, hq] at h
  linarith

/-- **A number next to a double is rounded to it**: closer than a quarter of its unit in the last place, and half as far
below a power of two, where the unit changes. -/
theorem roundQ_eq_of_near {q y : ℚ} (hq : 0 < q) (hd : IsDouble q) (h : |y - q| < q / 2 ^ 54) : roundQ y = q := by
  obtain ⟨n, hn⟩ := hd.eq_mul
  obtain ⟨hk1, hk2⟩ := log_bounds hq
  generalize hk : Int.log 2 q = k at hk1 hk2
  have hE : ulpExp q = max (k - 52) (-1074) := by rw [ulpExp, hk]
  generalize ulpExp q = e at hn hE
  have hpos : (0 : ℚ) < 2 ^ e := by positivity
  have hn1 : 1 ≤ n := by
    by_contra hneg
    have : (n : ℚ) ≤ 0 := by exact_mod_cast (by omega : n ≤ 0)
    have := mul_nonpos_of_nonpos_of_nonneg this hpos.le
    linarith
  have hek : e ≤ k := by
    have h1 : (2 : ℚ) ^ e < 2 ^ (k + 1) := by
      refine lt_of_le_of_lt ?_ hk2
      rw [hn]
      exact le_mul_of_one_le_left hpos.le (by exact_mod_cast hn1)
    have := (zpow_lt_zpow_iff_right₀ (a := (2 : ℚ)) one_lt_two).1 h1
    omega
  have hdist : |y - q| < 2 ^ (e - 1) := by
    calc |y - q| < q / 2 ^ 54 := h
      _ < 2 ^ (k + 1) / 2 ^ 54 := by gcongr
      _ = 2 ^ (k - 53) := by
          rw [show k - 53 = k + 1 - 54 by ring, zpow_sub₀ two_ne_zero]
          norm_cast
      _ ≤ 2 ^ (e - 1) := zpow_le_zpow_right₀ one_le_two (by omega)
  obtain ⟨hlow, hhigh⟩ := abs_lt.1 hdist
  obtain ⟨hlow', -⟩ := abs_lt.1 h
  have hypos : 0 < y := by
    have : q / 2 ^ 54 < q := div_lt_self hq (by norm_num)
    linarith
  have hupper : Int.log 2 y < k + 1 := log_lt hypos (near_lt_pow hn hk2 (by omega) hhigh)
  by_cases hexp : ulpExp y = e
  · rw [hn]
    exact roundQ_of_near hexp (by rwa [← hn])
  · -- below a power of two the unit is half as large, and q is that power
    have hy : ulpExp y = max (Int.log 2 y - 52) (-1074) := rfl
    generalize ulpExp y = ey at hexp hy
    have hbelow : Int.log 2 y < k := by
      by_contra hge
      refine hexp ?_
      rw [hy, hE, show Int.log 2 y = k by omega]
    have he52 : e = k - 52 := by
      by_contra hne
      refine hexp ?_
      omega
    have hy2 : y < 2 ^ k := by
      have := (log_bounds hypos).2
      exact this.trans_le (zpow_le_zpow_right₀ one_le_two (by omega))
    have hpow : (2 : ℚ) ^ k = 2 ^ 52 * 2 ^ e := by
      rw [he52, zpow_sub₀ two_ne_zero]
      norm_cast
      field_simp
    have hhalf : (2 : ℚ) ^ (e - 1) = 2 ^ e / 2 := by rw [zpow_sub₀ two_ne_zero, zpow_one]
    have hn52 : n = 2 ^ 52 := by
      rw [hn, hpow] at hk1
      have h1 : (2 ^ 52 : ℚ) ≤ n := (mul_le_mul_iff_of_pos_right hpos).1 hk1
      have h2 : (2 ^ 52 : ℤ) ≤ n := by exact_mod_cast h1
      by_contra hne
      have h3 : (2 ^ 52 + 1 : ℤ) ≤ n := by omega
      have h4 : ((2 ^ 52 + 1 : ℤ) : ℚ) * 2 ^ e ≤ n * 2 ^ e :=
        mul_le_mul_of_nonneg_right (by exact_mod_cast h3) hpos.le
      push_cast at h4
      rw [hpow] at hy2
      rw [hhalf, hn] at hlow
      linarith
    have hqk : q = 2 ^ k := by
      rw [hn, hn52, hpow]
      norm_num
    have hnear : |y - (2 ^ 53 : ℤ) * 2 ^ (k - 53)| < 2 ^ (k - 53 - 1) := by
      have h1 : ((2 ^ 53 : ℤ) : ℚ) * 2 ^ (k - 53) = q := by
        rw [hqk, zpow_sub₀ two_ne_zero]
        norm_cast
        field_simp
      have h2 : q / 2 ^ 54 = 2 ^ (k - 53 - 1) := by
        rw [hqk, show k - 53 - 1 = k - 54 by ring, zpow_sub₀ two_ne_zero]
        norm_cast
      rw [h1, ← h2]
      exact h
    have hge : k - 1 ≤ Int.log 2 y := by
      refine le_log ?_
      have h1 : (2 : ℚ) ^ (k - 1) = q / 2 := by rw [hqk, zpow_sub₀ two_ne_zero, zpow_one]
      have h2 : q / 2 ^ 54 < q / 2 := by
        gcongr
        norm_num
      rw [h1]
      linarith
    have hexp' : ulpExp y = k - 53 := by
      rw [ulpExp]
      omega
    rw [roundQ_of_near hexp' hnear, hqk, zpow_sub₀ two_ne_zero]
    norm_cast
    field_simp

/-! ## Doubles -/

theorem isDouble_of_multiple {q : ℚ} {n e : ℤ} (h : q = n * 2 ^ e) (he : ulpExp q ≤ e) : IsDouble q := by
  obtain ⟨j, hj⟩ := Int.eq_ofNat_of_zero_le (show 0 ≤ e - ulpExp q by omega)
  have hdiv : q / 2 ^ ulpExp q = ((n * 2 ^ j : ℤ) : ℚ) := by
    rw [div_eq_iff (by positivity)]
    conv_lhs => rw [h, show e = j + ulpExp q by omega, zpow_add₀ two_ne_zero, zpow_natCast]
    push_cast
    ring
  rw [IsDouble, roundQ, hdiv, roundHalfEven_intCast, ← hdiv]
  field_simp

/-- an integer of at most 53 bits, times a power of two -/
theorem isDouble_mul_zpow {n : ℕ} {e : ℤ} (hn : n ≤ 2 ^ 53) (he : -1074 ≤ e) : IsDouble (n * 2 ^ e) := by
  have hpos : (0 : ℚ) < 2 ^ e := by positivity
  rcases Nat.eq_zero_or_pos n with rfl | hn0
  · simp [IsDouble, roundQ, roundHalfEven]
  rcases hn.eq_or_lt with rfl | hlt
  · have hpow : ((2 ^ 53 : ℕ) : ℚ) * 2 ^ e = ((2 ^ 52 : ℤ) : ℚ) * 2 ^ (e + 1) := by
      rw [zpow_add₀ two_ne_zero]
      push_cast
      ring
    refine isDouble_of_multiple hpow (le_trans (ulpExp_le (k := e + 53) (by positivity) ?_ (by omega)) (by omega))
    calc ((2 ^ 53 : ℕ) : ℚ) * 2 ^ e < 2 ^ 54 * 2 ^ e := by gcongr; norm_num
      _ = 2 ^ (e + 53 + 1) := by rw [show e + 53 + 1 = 54 + e by ring, zpow_add₀ two_ne_zero]; norm_cast
  · refine isDouble_of_multiple (n := n) (e := e) (by push_cast; rfl)
      (le_trans (ulpExp_le (k := e + 52) (by positivity) ?_ (by omega)) (by omega))
    calc (n : ℚ) * 2 ^ e < 2 ^ 53 * 2 ^ e := by gcongr; exact_mod_cast hlt
      _ = 2 ^ (e + 52 + 1) := by rw [show e + 52 + 1 = 53 + e by ring, zpow_add₀ two_ne_zero]; norm_cast

theorem le_ulpExp (q : ℚ) : -1074 ≤ ulpExp q := le_max_right _ _

/-- **Rounding gives a double.** -/
theorem isDouble_roundQ {q : ℚ} (hq : 0 ≤ q) : IsDouble (roundQ q) := by
  have hpos : (0 : ℚ) < 2 ^ ulpExp q := by positivity
  have h0 : 0 ≤ roundHalfEven (q / 2 ^ ulpExp q) := le_roundHalfEven (by push_cast; positivity)
  have h53 : roundHalfEven (q / 2 ^ ulpExp q) ≤ 2 ^ 53 := by
    refine roundHalfEven_le ?_
    rw [div_le_iff₀ hpos]
    rcases hq.eq_or_lt with rfl | hq
    · positivity
    · calc q ≤ 2 ^ (Int.log 2 q + 1) := (log_bounds hq).2.le
        _ ≤ 2 ^ (53 + ulpExp q) := zpow_le_zpow_right₀ one_le_two (by unfold ulpExp; omega)
        _ = ((2 ^ 53 : ℤ) : ℚ) * 2 ^ ulpExp q := by rw [zpow_add₀ two_ne_zero]; norm_cast
  obtain ⟨n, hn⟩ := Int.eq_ofNat_of_zero_le h0
  rw [roundQ, hn]
  rw [hn] at h53
  exact isDouble_mul_zpow (by exact_mod_cast h53) (le_ulpExp q)

theorem roundQ_nonneg {q : ℚ} (hq : 0 ≤ q) : 0 ≤ roundQ q := by
  have h0 : 0 ≤ roundHalfEven (q / 2 ^ ulpExp q) := le_roundHalfEven (by push_cast; positivity)
  have h1 : (0 : ℚ) ≤ roundHalfEven (q / 2 ^ ulpExp q) := by exact_mod_cast h0
  exact mul_nonneg h1 (by positivity)

/-! ## Seventeen digits -/

/-- the seventeen digits next to q, and the exponent of the first one -/
def decimal17 (q : ℚ) : ℕ × ℤ :=
  let x := Int.log 10 q
  let d := (roundHalfEven (q / 10 ^ (x - 16))).toNat
  if d = 10 ^ 17 then (10 ^ 16, x + 1) else (d, x)

/-- the number they denote -/
def shown (q : ℚ) : ℚ := (decimal17 q).1 * 10 ^ ((decimal17 q).2 - 16)

theorem log10_bounds {q : ℚ} (hq : 0 < q) : (10 : ℚ) ^ Int.log 10 q ≤ q ∧ q < 10 ^ (Int.log 10 q + 1) :=
  ⟨by exact_mod_cast Int.zpow_log_le_self (R := ℚ) (b := 10) (by norm_num) hq,
    by exact_mod_cast Int.lt_zpow_succ_log_self (R := ℚ) (b := 10) (by norm_num) q⟩

theorem scaled_bounds {q : ℚ} (hq : 0 < q) :
    10 ^ 16 ≤ q / 10 ^ (Int.log 10 q - 16) ∧ q / 10 ^ (Int.log 10 q - 16) < 10 ^ 17 := by
  obtain ⟨h1, h2⟩ := log10_bounds hq
  have hpos : (0 : ℚ) < 10 ^ (Int.log 10 q - 16) := by positivity
  constructor
  · rw [le_div_iff₀ hpos, ← zpow_natCast, ← zpow_add₀ (by norm_num)]
    simpa using h1
  · rw [div_lt_iff₀ hpos, ← zpow_natCast, ← zpow_add₀ (by norm_num)]
    rwa [show ((17 : ℕ) : ℤ) + (Int.log 10 q - 16) = Int.log 10 q + 1 by push_cast; ring]

theorem decimal17_digits {q : ℚ} (hq : 0 < q) : 10 ^ 16 ≤ (decimal17 q).1 ∧ (decimal17 q).1 < 10 ^ 17 := by
  obtain ⟨h1, h2⟩ := scaled_bounds hq
  have hlow : (10 ^ 16 : ℤ) ≤ roundHalfEven (q / 10 ^ (Int.log 10 q - 16)) := le_roundHalfEven (by exact_mod_cast h1)
  have hhigh : roundHalfEven (q / 10 ^ (Int.log 10 q - 16)) ≤ 10 ^ 17 := roundHalfEven_le (by exact_mod_cast h2.le)
  simp only [decimal17]
  split_ifs <;> simp only <;> omega

theorem shown_eq (q : ℚ) :
    shown q = ((roundHalfEven (q / 10 ^ (Int.log 10 q - 16))).toNat : ℚ) * 10 ^ (Int.log 10 q - 16) := by
  simp only [shown, decimal17]
  split_ifs with h
  · rw [h]
    push_cast
    rw [show Int.log 10 q + 1 - 16 = 1 + (Int.log 10 q - 16) by ring, zpow_add₀ (by norm_num)]
    ring
  · rfl

/-- the error is half a unit in the last of the seventeen digits -/
theorem shown_sub_le {q : ℚ} (hq : 0 < q) : |shown q - q| < q / 2 ^ 54 := by
  have hpos : (0 : ℚ) < 10 ^ (Int.log 10 q - 16) := by positivity
  have hz := (scaled_bounds hq).1
  have h0 : 0 ≤ roundHalfEven (q / 10 ^ (Int.log 10 q - 16)) := le_roundHalfEven (by push_cast; positivity)
  have hcast : ((roundHalfEven (q / 10 ^ (Int.log 10 q - 16))).toNat : ℚ) =
      (roundHalfEven (q / 10 ^ (Int.log 10 q - 16)) : ℚ) := by exact_mod_cast Int.toNat_of_nonneg h0
  have hround := roundHalfEven_sub_le (q / 10 ^ (Int.log 10 q - 16))
  rw [shown_eq, hcast]
  generalize Int.log 10 q - 16 = x at *
  calc |(roundHalfEven (q / 10 ^ x) : ℚ) * 10 ^ x - q| = |(roundHalfEven (q / 10 ^ x) : ℚ) - q / 10 ^ x| * 10 ^ x := by
        rw [← abs_of_pos hpos, ← abs_mul, sub_mul, abs_of_pos hpos, div_mul_cancel₀ _ hpos.ne']
    _ ≤ 1 / 2 * 10 ^ x := by gcongr
    _ < q / 2 ^ 54 := by
        rw [le_div_iff₀ hpos] at hz
        rw [lt_div_iff₀ (by positivity)]
        linarith

/-- **Seventeen digits suffice.** -/
theorem roundQ_shown {q : ℚ} (hq : 0 < q) (hd : IsDouble q) : roundQ (shown q) = q :=
  roundQ_eq_of_near hq hd (shown_sub_le hq)

/-! ## Integers of at most seventeen digits -/

theorem shown_natCast {n : ℕ} (h0 : 0 < n) (h : n < 10 ^ 17) : shown n = n := by
  have hn : (0 : ℚ) < n := by exact_mod_cast h0
  have hlog : Int.log 10 (n : ℚ) = Nat.log 10 n := by exact_mod_cast Int.log_natCast (R := ℚ) 10 n
  have hle : Nat.log 10 n ≤ 16 := Nat.lt_succ_iff.1 (Nat.log_lt_of_lt_pow h0.ne' h)
  obtain ⟨j, hj⟩ := Nat.exists_eq_add_of_le hle
  have hdiv : (n : ℚ) / 10 ^ (Int.log 10 (n : ℚ) - 16) = ((n * 10 ^ j : ℤ) : ℚ) := by
    rw [div_eq_iff (by positivity), hlog, show ((Nat.log 10 n : ℕ) : ℤ) - 16 = -(j : ℤ) by omega, zpow_neg, zpow_natCast]
    push_cast
    field_simp
  have hnonneg : ((n * 10 ^ j : ℤ)).toNat = n * 10 ^ j := by
    exact_mod_cast Int.toNat_natCast (n * 10 ^ j)
  rw [shown_eq, hdiv, roundHalfEven_intCast, hnonneg, hlog, show ((Nat.log 10 n : ℕ) : ℤ) - 16 = -(j : ℤ) by omega,
    zpow_neg, zpow_natCast]
  push_cast
  field_simp

theorem log_le_decimal17 (q : ℚ) : Int.log 10 q ≤ (decimal17 q).2 := by
  simp only [decimal17]
  split_ifs <;> simp only <;> omega

theorem lt_of_decimal17 {q : ℚ} (hq : 0 < q) (hx : (decimal17 q).2 < 17) : q < 10 ^ 17 := by
  have hlog := log_le_decimal17 q
  refine (log10_bounds hq).2.trans_le ?_
  rw [← zpow_natCast]
  exact zpow_le_zpow_right₀ (by norm_num) (by push_cast; omega)

/-- a double that is shown as an integer of at most seventeen digits is that integer -/
theorem eq_of_shown {q : ℚ} (hq : 0 < q) (hd : IsDouble q) (hx : (decimal17 q).2 < 17) {m : ℕ} (h : shown q = m) :
    q = m := by
  have hround : roundQ m = q := by rw [← h]; exact roundQ_shown hq hd
  rcases Nat.lt_or_ge m (2 ^ 53) with hm | hm
  · rw [← hround, roundQ_natCast hm]
  · -- the double next to so large an integer is an integer
    have hlog : 53 ≤ Int.log 2 (m : ℚ) := le_log (by exact_mod_cast hm)
    obtain ⟨j, hj⟩ := Int.eq_ofNat_of_zero_le (show 0 ≤ ulpExp m by unfold ulpExp; omega)
    have hint : q = ((roundHalfEven ((m : ℚ) / 2 ^ ulpExp m) * 2 ^ j : ℤ) : ℚ) := by
      rw [← hround, roundQ, hj, zpow_natCast]
      push_cast
      rfl
    generalize roundHalfEven ((m : ℚ) / 2 ^ ulpExp m) * 2 ^ j = k at hint
    have hk0 : 0 < k := by
      rw [hint] at hq
      exact_mod_cast hq
    obtain ⟨n, rfl⟩ := Int.eq_ofNat_of_zero_le hk0.le
    have hn : q = n := by rw [hint]; push_cast; rfl
    have hlt : n < 10 ^ 17 := by
      have := lt_of_decimal17 hq hx
      rw [hn] at this
      exact_mod_cast this
    rw [← h, hn, shown_natCast (by exact_mod_cast hk0) hlt]

theorem decimal17_of_natCast {m : ℕ} (h0 : 0 < m) (h : m < 10 ^ 17) :
    0 ≤ (decimal17 m).2 ∧ (decimal17 m).2 < 17 := by
  have hm : (0 : ℚ) < m := by exact_mod_cast h0
  have hshown := shown_natCast h0 h
  obtain ⟨hlow, hhigh⟩ := decimal17_digits hm
  rw [shown] at hshown
  generalize (decimal17 (m : ℚ)).1 = d at *
  generalize (decimal17 (m : ℚ)).2 = x at *
  have hpos : (0 : ℚ) < 10 ^ (x - 16) := by positivity
  constructor
  · have h1 : (1 : ℚ) < 10 ^ (x + 1) := by
      calc (1 : ℚ) ≤ m := by exact_mod_cast h0
        _ = d * 10 ^ (x - 16) := hshown.symm
        _ < 10 ^ (17 : ℤ) * 10 ^ (x - 16) := by gcongr; exact_mod_cast hhigh
        _ = 10 ^ (x + 1) := by rw [← zpow_add₀ (by norm_num)]; congr 1; ring
    have := (one_lt_zpow_iff_right₀ (a := (10 : ℚ)) (by norm_num)).1 h1
    omega
  · have h1 : (10 : ℚ) ^ x < 10 ^ (17 : ℤ) := by
      calc (10 : ℚ) ^ x = 10 ^ (16 : ℤ) * 10 ^ (x - 16) := by rw [← zpow_add₀ (by norm_num)]; congr 1; ring
        _ ≤ d * 10 ^ (x - 16) := by gcongr; exact_mod_cast hlow
        _ = m := hshown
        _ < 10 ^ (17 : ℤ) := by exact_mod_cast h
    exact (zpow_lt_zpow_iff_right₀ (a := (10 : ℚ)) (by norm_num)).1 h1

/-! ## Above the subnormal numbers -/

theorem log_minNormal : Int.log 10 ((2 : ℚ) ^ (-1022 : ℤ)) = -308 := by
  have h0 : (0 : ℚ) < 2 ^ (-1022 : ℤ) := by positivity
  obtain ⟨h1, h2⟩ := log10_bounds h0
  have hlow : (10 : ℚ) ^ (-308 : ℤ) ≤ 2 ^ (-1022 : ℤ) := by
    have h : (2 : ℕ) ^ 1022 ≤ 10 ^ 308 := by decide +kernel
    rw [zpow_neg, zpow_neg]
    exact inv_anti₀ (by positivity) (by exact_mod_cast h)
  have hhigh : (2 : ℚ) ^ (-1022 : ℤ) < 10 ^ (-307 : ℤ) := by
    have h : (10 : ℕ) ^ 307 < 2 ^ 1022 := by decide +kernel
    rw [zpow_neg, zpow_neg]
    exact inv_strictAnti₀ (by positivity) (by exact_mod_cast h)
  have h3 := (zpow_lt_zpow_iff_right₀ (a := (10 : ℚ)) (by norm_num)).1 (h1.trans_lt hhigh)
  have h4 := (zpow_lt_zpow_iff_right₀ (a := (10 : ℚ)) (by norm_num)).1 (hlow.trans_lt h2)
  omega

/-- the digits of the least normal number are rounded up -/
theorem le_shown_minNormal : (2 : ℚ) ^ (-1022 : ℤ) ≤ shown (2 ^ (-1022 : ℤ)) := by
  have hz : (2 : ℚ) ^ (-1022 : ℤ) / 10 ^ ((-308 : ℤ) - 16) = 10 ^ 324 / 2 ^ 1022 := by
    rw [show (-308 : ℤ) - 16 = -(324 : ℕ) by norm_num, show (-1022 : ℤ) = -(1022 : ℕ) by norm_num, zpow_neg, zpow_neg,
      zpow_natCast, zpow_natCast]
    field_simp
  have hup : ((10 ^ 324 : ℕ) : ℚ) ≤ ((22250738585072014 * 2 ^ 1022 : ℕ) : ℚ) := by
    exact Nat.cast_le.2 (by decide +kernel)
  have hdown : (((2 * 22250738585072014 - 1) * 2 ^ 1022 : ℕ) : ℚ) < ((2 * 10 ^ 324 : ℕ) : ℚ) := by
    exact Nat.cast_lt.2 (by decide +kernel)
  have hpos : (0 : ℚ) < 2 ^ 1022 := by positivity
  have hle : (10 : ℚ) ^ 324 / 2 ^ 1022 ≤ (22250738585072014 : ℤ) := by
    rw [div_le_iff₀ hpos]
    simpa only [Nat.cast_mul, Nat.cast_pow, Nat.cast_ofNat, Int.cast_ofNat] using hup
  have hround : roundHalfEven ((10 : ℚ) ^ 324 / 2 ^ 1022) = 22250738585072014 := by
    refine roundHalfEven_of_near ?_
    rw [abs_sub_comm, abs_of_nonneg (sub_nonneg.2 hle), sub_lt_comm, lt_div_iff₀ hpos]
    simp only [Nat.cast_mul, Nat.cast_pow, Nat.cast_ofNat] at hdown
    generalize (2 : ℚ) ^ 1022 = b at hdown ⊢
    generalize (10 : ℚ) ^ 324 = a at hdown ⊢
    push_cast at hdown ⊢
    linarith
  rw [shown_eq, log_minNormal, hz, hround]
  have hten : (0 : ℚ) < 10 ^ ((-308 : ℤ) - 16) := by positivity
  rw [← div_le_iff₀ hten, hz]
  exact hle

/-- what is shown of a normal number is in the normal range -/
theorem le_shown {q : ℚ} (hd : IsDouble q) (hq : 2 ^ (-1022 : ℤ) ≤ q) : 2 ^ (-1022 : ℤ) ≤ shown q := by
  rcases hq.eq_or_lt with rfl | hlt
  · exact le_shown_minNormal
  · -- the next double is too far above
    have hpos : (0 : ℚ) < q := lt_of_le_of_lt (by positivity) hlt
    obtain ⟨n, hn⟩ := hd.eq_mul
    obtain ⟨j, hj⟩ := Int.eq_ofNat_of_zero_le (show 0 ≤ ulpExp q + 1074 by have := le_ulpExp q; omega)
    have hu : (0 : ℚ) < 2 ^ (-1074 : ℤ) := by positivity
    have hmin : (2 : ℚ) ^ (-1022 : ℤ) = ((2 ^ 52 : ℤ) : ℚ) * 2 ^ (-1074 : ℤ) := by
      have h := zpow_add₀ (two_ne_zero (α := ℚ)) 52 (-1074)
      rw [show (52 : ℤ) + -1074 = -1022 by norm_num, zpow_ofNat] at h
      rw [h, Int.cast_pow, Int.cast_ofNat]
    have hmul : q = ((n * 2 ^ j : ℤ) : ℚ) * 2 ^ (-1074 : ℤ) := by
      conv_lhs => rw [hn, show ulpExp q = j + -1074 by omega, zpow_add₀ two_ne_zero, zpow_natCast]
      generalize (2 : ℚ) ^ (-1074 : ℤ) = u
      push_cast
      ring
    rw [hmin] at hlt ⊢
    have hsub := (abs_lt.1 (shown_sub_le hpos)).1
    generalize shown q = y at hsub ⊢
    generalize (2 : ℚ) ^ (-1074 : ℤ) = u at hu hlt hmul ⊢
    rw [hmul] at hlt
    have hstep : (2 ^ 52 : ℤ) + 1 ≤ n * 2 ^ j := by exact_mod_cast (mul_lt_mul_iff_of_pos_right hu).1 hlt
    have hq1 : (((2 ^ 52 : ℤ) + 1 : ℤ) : ℚ) * u ≤ q := by
      rw [hmul]
      exact mul_le_mul_of_nonneg_right (by exact_mod_cast hstep) hu.le
    push_cast at hq1 ⊢
    linarith

/-- **Seventeen digits read as the number**, and in range, if it is no subnormal one. -/
theorem ofRat_shown {neg : Bool} {q : ℚ} (hd : IsDouble q) (hq : q = 0 ∨ 2 ^ (-1022 : ℤ) ≤ q) (hmax : q < 2 ^ 1024) :
    ofRat neg (shown q) = (.finite neg q, false) := by
  rcases hq with rfl | hq
  · have h0 : shown 0 = 0 := by simp [shown, decimal17, roundHalfEven]
    have hround : roundQ 0 = 0 := hd
    simp only [ofRat, h0, hround, if_neg (not_le.2 hmax), ne_eq, not_true_eq_false, and_false, decide_false]
  · have hpos : (0 : ℚ) < q := lt_of_lt_of_le (by positivity) hq
    have hle := le_shown hd hq
    simp only [ofRat, roundQ_shown hpos hd, if_neg (not_le.2 hmax), Prod.mk.injEq, decide_eq_false_iff_not, true_and]
    rintro ⟨htiny, -⟩
    rw [round53_eq hle, roundQ_shown hpos hd] at htiny
    exact absurd hq (not_le.2 htiny)

/-! ## The text -/

/-- without the zeros at the end -/
def stripZeros (ds : Str) : Str := ds.rdropWhile (· == 48)

/-- a point and the digits behind it, if there are any -/
def fraction (ds : Str) : Str := if stripZeros ds = [] then [] else 46 :: stripZeros ds

/-- at least two digits -/
def toDec2 (n : ℕ) : Str := if n < 10 then 48 :: toDec n else toDec n

/-- `%.17g` of a number that is not negative -/
def formatG (q : ℚ) : Str :=
  if q = 0 then [48]
  else
    let (d, x) := decimal17 q
    let ds := toDec d
    if x < -4 ∨ 17 ≤ x then
      ds.take 1 ++ fraction (ds.drop 1) ++ 101 :: (if x < 0 then 45 else 43) :: toDec2 x.natAbs
    else if x < 0 then 48 :: fraction (List.replicate (-x - 1).toNat 48 ++ ds)
    else ds.take (x + 1).toNat ++ fraction (ds.drop (x + 1).toNat)

theorem decValue_append (a b : Str) : decValue (a ++ b) = decValue a * 10 ^ b.length + decValue b := by
  induction b using List.reverseRecOn with
  | nil => simp [decValue]
  | append_singleton b c ih =>
    rw [← List.append_assoc, decValue_snoc, ih, decValue_snoc, List.length_append, List.length_singleton, pow_succ]
    ring

theorem decValue_zeros (j : ℕ) : decValue (List.replicate j 48) = 0 := by
  induction j with
  | zero => rfl
  | succ j ih => simp [List.replicate_succ, decValue_cons, ih]

theorem digit_le {b : UInt8} (hb : isDigit b = true) : b.toNat - 48 ≤ 9 := by
  simp only [isDigit, Bool.and_eq_true, decide_eq_true_eq] at hb
  have : b.toNat ≤ 57 := UInt8.le_iff_toNat_le.1 hb.2
  omega

theorem decValue_lt_pow {ds : Str} (h : ∀ b ∈ ds, isDigit b = true) : decValue ds < 10 ^ ds.length := by
  induction ds with
  | nil => exact Nat.one_pos
  | cons b ds ih =>
    have hb := digit_le (h b List.mem_cons_self)
    have hds := ih fun c hc => h c (List.mem_cons_of_mem b hc)
    rw [decValue_cons, List.length_cons, pow_succ]
    calc (b.toNat - 48) * 10 ^ ds.length + decValue ds < 9 * 10 ^ ds.length + 10 ^ ds.length := by
          exact Nat.add_lt_add_of_le_of_lt (Nat.mul_le_mul_right _ hb) hds
      _ = 10 ^ ds.length * 10 := by ring

theorem toDec_head {n : ℕ} (h : 0 < n) : (toDec n).head? ≠ some 48 := by
  induction n using Nat.strong_induction_on with
  | _ n ih =>
    by_cases hn : n < 10
    · rw [toDec_lt hn]
      interval_cases n <;> decide
    · rw [toDec_ge (by omega), List.head?_append_of_ne_nil _ (toDec_ne_nil _)]
      exact ih (n / 10) (by omega) (by omega)

theorem length_toDec {n k : ℕ} (hlow : 10 ^ k ≤ n) (hhigh : n < 10 ^ (k + 1)) : (toDec n).length = k + 1 := by
  have h1 := length_toDec_le (Nat.succ_pos k) hhigh
  have h2 := decValue_lt_pow (isDigit_toDec n)
  rw [decValue_toDec] at h2
  have h3 := (Nat.pow_lt_pow_iff_right (a := 10) (by norm_num)).1 (hlow.trans_lt h2)
  omega

theorem exists_strip (ds : Str) : ∃ j, ds = stripZeros ds ++ List.replicate j 48 := by
  induction ds using List.reverseRecOn with
  | nil => exact ⟨0, rfl⟩
  | append_singleton ds c ih =>
    by_cases hc : c = 48
    · subst hc
      obtain ⟨j, hj⟩ := ih
      refine ⟨j + 1, ?_⟩
      rw [stripZeros, List.rdropWhile_concat_pos _ _ _ rfl, ← stripZeros, List.replicate_succ', ← List.append_assoc, ← hj]
    · exact ⟨0, by simp [stripZeros, hc]⟩

theorem stripZeros_eq_nil {ds : Str} (hd : ∀ b ∈ ds, isDigit b = true) (h : decValue ds = 0) : stripZeros ds = [] := by
  induction ds with
  | nil => rfl
  | cons b ds ih =>
    rw [decValue_cons, Nat.add_eq_zero_iff, Nat.mul_eq_zero] at h
    have hb := hd b List.mem_cons_self
    have hds := ih (fun c hc => hd c (List.mem_cons_of_mem b hc)) h.2
    simp only [stripZeros, List.rdropWhile_eq_nil_iff, beq_iff_eq] at hds ⊢
    refine List.forall_mem_cons.2 ⟨?_, hds⟩
    simp only [isDigit, Bool.and_eq_true, decide_eq_true_eq] at hb
    have h48 : 48 ≤ b.toNat := UInt8.le_iff_toNat_le.1 hb.1
    have hpow : (10 : ℕ) ^ ds.length ≠ 0 := by positivity
    exact UInt8.toNat_inj.1 (by simp only [UInt8.reduceToNat]; omega)

/-! ## The text as a number -/

/-- digits, a point and digits without the zeros at their end, and an exponent -/
def numeral (neg : Bool) (a b : Str) (exp : Option (UInt8 × Option UInt8 × Str))
    (ha : Digits a ∧ (a.head? = some 48 → a = [48])) (hb : ∀ c ∈ b, isDigit c = true)
    (hexp : ∀ e ∈ exp, (e.1 = 101 ∨ e.1 = 69) ∧ (∀ c ∈ e.2.1, c = 43 ∨ c = 45) ∧ Digits e.2.2) : Number where
  neg := neg
  int := a
  frac := if stripZeros b = [] then none else some (stripZeros b)
  exp := exp
  int_ok := ha
  frac_ok ds hds := by
    split_ifs at hds with hnil
    · cases hds
    · obtain rfl : stripZeros b = ds := Option.some.inj hds
      exact ⟨hnil, fun c hc => hb c ((List.rdropWhile_prefix _ _).subset hc)⟩
  exp_ok := hexp

section
variable {neg : Bool} {a b : Str} {exp : Option (UInt8 × Option UInt8 × Str)}
  {ha : Digits a ∧ (a.head? = some 48 → a = [48])} {hb : ∀ c ∈ b, isDigit c = true}
  {hexp : ∀ e ∈ exp, (e.1 = 101 ∨ e.1 = 69) ∧ (∀ c ∈ e.2.1, c = 43 ∨ c = 45) ∧ Digits e.2.2}

theorem numeral_text : (numeral neg a b exp ha hb hexp).text =
    (if neg then [45] else []) ++ a ++ fraction b ++ exp.elim [] fun e => e.1 :: e.2.1.toList ++ e.2.2 := by
  by_cases h : stripZeros b = [] <;>
    simp [numeral, Number.text, Number.signText, Number.fracText, Number.expText, fraction, h]

/-- the zeros at the end do not count -/
theorem numeral_mag : (numeral neg a b exp ha hb hexp).mag =
    decValue (a ++ b) * (10 : ℚ) ^ ((numeral neg a b exp ha hb hexp).expValue - b.length) := by
  have hfrac : (numeral neg a b exp ha hb hexp).frac.getD [] = stripZeros b := by
    simp only [numeral]
    split_ifs with h
    · exact h.symm
    · rfl
  obtain ⟨j, hj⟩ := exists_strip b
  rw [Number.mag, hfrac]
  generalize (numeral neg a b exp ha hb hexp).expValue = e
  have hval : decValue (a ++ b) = decValue (a ++ stripZeros b) * 10 ^ j := by
    conv_lhs => rw [hj, ← List.append_assoc, decValue_append, decValue_zeros]
    simp
  have hlen : (b.length : ℤ) = (stripZeros b).length + j := by
    conv_lhs => rw [hj]
    simp
  rw [hval, hlen]
  push_cast
  rw [show e - ((stripZeros b).length : ℤ) = j + (e - ((stripZeros b).length + j)) by ring, zpow_add₀ (by norm_num),
    zpow_natCast]
  simp only [numeral]
  ring

theorem numeral_isInteger : (numeral neg a b exp ha hb hexp).isInteger = true ↔ stripZeros b = [] ∧ exp = none := by
  simp only [Number.isInteger, numeral, Bool.and_eq_true, Option.isNone_iff_eq_none]
  split_ifs with h <;> simp [h]

end

theorem mag_of_isInteger {n : Number} (h : n.isInteger = true) : n.mag = decValue n.int := by
  simp only [Number.isInteger, Bool.and_eq_true, Option.isNone_iff_eq_none] at h
  simp [Number.mag, Number.expValue, h.1, h.2]

theorem take_ok {ds : Str} (hds : Digits ds) (hhead : ds.head? ≠ some 48) {k : ℕ} (hk : 0 < k) :
    Digits (ds.take k) ∧ ((ds.take k).head? = some 48 → ds.take k = [48]) := by
  obtain ⟨k, rfl⟩ := Nat.exists_eq_add_of_lt hk
  obtain ⟨b, ds, rfl⟩ := List.exists_cons_of_ne_nil hds.1
  simp only [Nat.zero_add, List.take_succ_cons, List.head?_cons] at hhead ⊢
  refine ⟨⟨List.cons_ne_nil _ _, fun c hc => hds.2 c ?_⟩, fun h => absurd h hhead⟩
  exact (List.take_subset (k + 1) (b :: ds)) (by simpa using hc)

theorem digits_toDec2 (n : ℕ) : Digits (toDec2 n) := by
  unfold toDec2
  split_ifs
  · exact ⟨List.cons_ne_nil _ _, List.forall_mem_cons.2 ⟨rfl, isDigit_toDec n⟩⟩
  · exact ⟨toDec_ne_nil n, isDigit_toDec n⟩

theorem decValue_toDec2 (n : ℕ) : decValue (toDec2 n) = n := by
  unfold toDec2
  split_ifs
  · rw [decValue_cons, decValue_toDec]
    simp
  · exact decValue_toDec n

/-- the text is a number: the one with these digits -/
structure Prints (neg : Bool) (text : Str) (q : ℚ) (n : Number) : Prop where
  text : n.text = (if neg then [45] else []) ++ text
  neg : n.neg = neg
  mag : n.mag = q

section
variable (neg : Bool) {d : ℕ} {x : ℤ}

theorem prints_exponent (hlow : 10 ^ 16 ≤ d) (hhigh : d < 10 ^ 17) :
    ∃ n, Prints neg ((toDec d).take 1 ++ fraction ((toDec d).drop 1) ++
      101 :: (if x < 0 then 45 else 43) :: toDec2 x.natAbs) (d * 10 ^ (x - 16)) n ∧ n.isInteger = false := by
  have hds : Digits (toDec d) := ⟨toDec_ne_nil d, isDigit_toDec d⟩
  have hlen := length_toDec hlow hhigh
  refine ⟨numeral neg ((toDec d).take 1) ((toDec d).drop 1) (some (101, some (if x < 0 then 45 else 43), toDec2 x.natAbs))
    (take_ok hds (toDec_head (by omega)) Nat.one_pos) (fun c hc => hds.2 c (List.mem_of_mem_drop hc)) ?_, ⟨?_, rfl, ?_⟩,
    ?_⟩
  · rintro e he
    obtain rfl := Option.some.inj he
    refine ⟨.inl rfl, ?_, digits_toDec2 _⟩
    split_ifs <;> simp
  · rw [numeral_text]
    simp
  · have hexp : ∀ a b ha hb hexp, (numeral neg a b (some (101, some (if x < 0 then 45 else 43), toDec2 x.natAbs))
        ha hb hexp).expValue = x := by
      intro a b ha hb hexp
      simp only [numeral, Number.expValue, Option.elim_some, decValue_toDec2]
      by_cases hx : x < 0
      · rw [if_pos hx, if_pos rfl]
        omega
      · rw [if_neg hx, if_neg (by decide)]
        omega
    rw [numeral_mag, hexp, List.take_append_drop, decValue_toDec, List.length_drop, hlen]
    rfl
  · rw [← Bool.not_eq_true, numeral_isInteger]
    simp

theorem prints_below_one (hx : x < 0) (hlow : 10 ^ 16 ≤ d) (hhigh : d < 10 ^ 17) :
    ∃ n, Prints neg (48 :: fraction (List.replicate (-x - 1).toNat 48 ++ toDec d)) (d * 10 ^ (x - 16)) n ∧
      n.isInteger = false := by
  have hlen := length_toDec hlow hhigh
  refine ⟨numeral neg [48] (List.replicate (-x - 1).toNat 48 ++ toDec d) none ?_ ?_ (by simp), ⟨?_, rfl, ?_⟩, ?_⟩
  · exact ⟨⟨by simp, by simp [isDigit]⟩, fun _ => rfl⟩
  · intro c hc
    rcases List.mem_append.1 hc with hc | hc
    · rw [List.eq_of_mem_replicate hc]
      rfl
    · exact isDigit_toDec d c hc
  · rw [numeral_text]
    simp
  · rw [numeral_mag, decValue_append, decValue_append, decValue_zeros, decValue_toDec, List.length_append,
      List.length_replicate, hlen]
    have hexp : ∀ a b ha hb hexp, (numeral neg a b none ha hb hexp).expValue = 0 := fun _ _ _ _ _ => rfl
    have hcast : (((-x - 1).toNat + (16 + 1) : ℕ) : ℤ) = 16 - x := by omega
    rw [hexp, hcast]
    simp [decValue]
  · rw [← Bool.not_eq_true, numeral_isInteger]
    rintro ⟨h, -⟩
    -- the first of the seventeen digits is not zero
    obtain ⟨c, cs, hcs⟩ := List.exists_cons_of_ne_nil (toDec_ne_nil d)
    have hc : c = 48 := by
      have := List.rdropWhile_eq_nil_iff.1 h c (by simp [hcs])
      simpa using this
    exact toDec_head (show 0 < d by omega) (by rw [hcs, hc]; rfl)

theorem prints_fixed (hx0 : 0 ≤ x) (hx : x < 17) (hlow : 10 ^ 16 ≤ d) (hhigh : d < 10 ^ 17) :
    ∃ n, Prints neg ((toDec d).take (x + 1).toNat ++ fraction ((toDec d).drop (x + 1).toNat)) (d * 10 ^ (x - 16)) n ∧
      (n.isInteger = true ↔ ∃ m : ℕ, (d : ℚ) * 10 ^ (x - 16) = m) ∧ n.int.length ≤ 17 := by
  have hds : Digits (toDec d) := ⟨toDec_ne_nil d, isDigit_toDec d⟩
  have hlen := length_toDec hlow hhigh
  have hb : ∀ c ∈ (toDec d).drop (x + 1).toNat, isDigit c = true := fun c hc => hds.2 c (List.mem_of_mem_drop hc)
  have hprints : Prints neg ((toDec d).take (x + 1).toNat ++ fraction ((toDec d).drop (x + 1).toNat))
      (d * 10 ^ (x - 16)) (numeral neg ((toDec d).take (x + 1).toNat) ((toDec d).drop (x + 1).toNat) none
        (take_ok hds (toDec_head (by omega)) (by omega)) hb (by simp)) := by
    refine ⟨?_, rfl, ?_⟩
    · rw [numeral_text]
      simp
    · have hexp : ∀ a b ha hb hexp, (numeral neg a b none ha hb hexp).expValue = 0 := fun _ _ _ _ _ => rfl
      rw [numeral_mag, hexp, List.take_append_drop, decValue_toDec, List.length_drop, hlen]
      congr 2
      omega
  refine ⟨_, hprints, ?_, ?_⟩
  · rw [numeral_isInteger]
    constructor
    · rintro ⟨hnil, -⟩
      refine ⟨decValue ((toDec d).take (x + 1).toNat), ?_⟩
      rw [← hprints.mag, mag_of_isInteger (numeral_isInteger.2 ⟨hnil, rfl⟩)]
      rfl
    · rintro ⟨m, hm⟩
      refine ⟨stripZeros_eq_nil hb ?_, rfl⟩
      -- the digits behind the point are those of a multiple of a larger power of ten
      have hsplit := decValue_append ((toDec d).take (x + 1).toNat) ((toDec d).drop (x + 1).toNat)
      rw [List.take_append_drop, decValue_toDec] at hsplit
      have hlt := decValue_lt_pow hb
      generalize hj : ((toDec d).drop (x + 1).toNat).length = j at hsplit hlt
      have hjx : x - 16 = -(j : ℤ) := by
        rw [List.length_drop, hlen] at hj
        omega
      have hdm : d = m * 10 ^ j := by
        rw [hjx, zpow_neg, zpow_natCast, ← div_eq_mul_inv, div_eq_iff (by positivity)] at hm
        exact_mod_cast hm
      have hmod : decValue ((toDec d).drop (x + 1).toNat) % 10 ^ j = 0 := by
        have h1 : d % 10 ^ j = 0 := by rw [hdm, Nat.mul_mod_left]
        rw [hsplit, Nat.mul_add_mod_self_right] at h1
        exact h1
      rwa [Nat.mod_eq_of_lt hlt] at hmod
  · have h17 : ((toDec d).take (x + 1).toNat).length ≤ 17 := (List.length_take_le _ _).trans (by omega)
    exact h17

end

/-- **`%.17g` of a double** is a number that reads as this double, and an integer exactly if the double is one of at
most seventeen digits. -/
theorem exists_prints (neg : Bool) {q : ℚ} (hq : 0 ≤ q) (hd : IsDouble q) :
    ∃ n, Prints neg (formatG q) (shown q) n ∧ (n.isInteger = true ↔ ∃ m : ℕ, m < 10 ^ 17 ∧ q = m) ∧
      (n.isInteger = true → n.int.length ≤ 17) := by
  rcases hq.eq_or_lt with rfl | hpos
  · refine ⟨numeral neg [48] [] none ⟨⟨by simp, by simp [isDigit]⟩, fun _ => rfl⟩ (by simp) (by simp),
      ⟨?_, rfl, ?_⟩, ?_, ?_⟩
    · rw [numeral_text]
      simp [formatG, fraction, stripZeros]
    · rw [numeral_mag]
      simp [decValue, shown, decimal17, roundHalfEven]
    · rw [numeral_isInteger]
      exact ⟨fun _ => ⟨0, by norm_num, by simp⟩, fun _ => ⟨rfl, rfl⟩⟩
    · exact fun _ => by simp [numeral]
  obtain ⟨hlow, hhigh⟩ := decimal17_digits hpos
  have hint : ∀ m : ℕ, m < 10 ^ 17 → q = m → 0 ≤ (decimal17 q).2 ∧ (decimal17 q).2 < 17 := by
    rintro m hm rfl
    exact decimal17_of_natCast (by exact_mod_cast hpos) hm
  have hnone : ¬ (0 ≤ (decimal17 q).2 ∧ (decimal17 q).2 < 17) → ∀ n : Number, n.isInteger = false →
      (n.isInteger = true ↔ ∃ m : ℕ, m < 10 ^ 17 ∧ q = m) ∧ (n.isInteger = true → n.int.length ≤ 17) := by
    intro hx n hni
    have hno : ¬ n.isInteger = true := by simp [hni]
    refine ⟨⟨fun h => absurd h hno, ?_⟩, fun h => absurd h hno⟩
    rintro ⟨m, hm, hqm⟩
    exact absurd (hint m hm hqm) hx
  simp only [formatG, if_neg hpos.ne']
  by_cases hexp : (decimal17 q).2 < -4 ∨ 17 ≤ (decimal17 q).2
  · obtain ⟨n, hn, hni⟩ := prints_exponent neg (x := (decimal17 q).2) hlow hhigh
    rw [if_pos hexp]
    exact ⟨n, hn, hnone (by omega) n hni⟩
  rw [if_neg hexp]
  by_cases hneg : (decimal17 q).2 < 0
  · obtain ⟨n, hn, hni⟩ := prints_below_one neg hneg hlow hhigh
    rw [if_pos hneg]
    exact ⟨n, hn, hnone (by omega) n hni⟩
  · obtain ⟨n, hn, hni, hlen⟩ := prints_fixed neg (x := (decimal17 q).2) (by omega) (by omega) hlow hhigh
    rw [if_neg hneg]
    refine ⟨n, hn, ?_, fun _ => hlen⟩
    rw [hni]
    constructor
    · rintro ⟨m, hm⟩
      have hqm := eq_of_shown hpos hd (by omega) hm
      refine ⟨m, ?_, hqm⟩
      have hlt := lt_of_decimal17 hpos (by omega)
      rw [hqm] at hlt
      exact_mod_cast hlt
    · rintro ⟨m, hm, rfl⟩
      exact ⟨m, shown_natCast (by exact_mod_cast hpos) hm⟩

end AirobotMsgd.Double
