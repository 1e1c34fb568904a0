import Mathlib.Algebra.Order.Field.Basic
import Mathlib.Tactic.Linarith
import Mathlib.Tactic.Ring

/-!
# Token buckets

A bucket holds at most `burst` tokens and gains `rate` of them in each unit of time. It is refilled
lazily: a call brings it up to date, whether or not a token is left for the call to draw. Unrolled,
the capped recurrence is a minimum over all windows that end at a call: a call is admitted exactly
when no such window would hold more than `burst + rate * length` admitted calls
(`admissions_eq_true`, `admissions_of_full`). So no window of any length does
(`countP_window_le`).
-/

namespace Foundations

/-- The tokens that were left at the last call, and its time. -/
structure TokenBucket (K : Type*) where
  tokens : K
  lastRefill : K
  deriving DecidableEq

namespace TokenBucket

variable {K : Type*} [Field K] [LinearOrder K] (burst rate : K)

/-- The tokens at a time, before one is drawn. -/
def level (now : K) (b : TokenBucket K) : K := min burst (b.tokens + (now - b.lastRefill) * rate)

/-- A call: is it admitted, and what is left? -/
def draw (now : K) (b : TokenBucket K) : Bool × TokenBucket K :=
  let level := b.level burst rate now
  if level < 1 then (false, ⟨level, now⟩) else (true, ⟨level - 1, now⟩)

/-- The bucket after calls at these times. -/
def drawAll (b : TokenBucket K) (times : List K) : TokenBucket K :=
  times.foldl (fun b now => (b.draw burst rate now).2) b

/-- Which calls at these times are admitted. -/
def admissions : TokenBucket K → List K → List Bool
  | _, [] => []
  | b, now :: times =>
    (b.draw burst rate now).1 :: admissions (b.draw burst rate now).2 times

theorem draw_admitted (now : K) (b : TokenBucket K) :
    (b.draw burst rate now).1 = true ↔ 1 ≤ b.level burst rate now := by
  simp only [draw]
  split_ifs with h
  · simpa using h
  · simpa using h

theorem draw_tokens (now : K) (b : TokenBucket K) :
    (b.draw burst rate now).2.tokens =
      b.level burst rate now - if (b.draw burst rate now).1 then 1 else 0 := by
  by_cases h : b.level burst rate now < 1
  · simp [draw, h]
  · simp [draw, h]

theorem draw_lastRefill (now : K) (b : TokenBucket K) :
    (b.draw burst rate now).2.lastRefill = now := by
  simp only [draw]
  split_ifs <;> rfl

variable {burst rate}

theorem length_admissions (b : TokenBucket K) (times : List K) :
    (admissions burst rate b times).length = times.length := by
  induction times generalizing b with
  | nil => rfl
  | cons now times ih => exact congrArg (· + 1) (ih _)

/-- The calls with their admissions. -/
def calls (burst rate : K) (b : TokenBucket K) (times : List K) : List (K × Bool) :=
  times.zip (admissions burst rate b times)

theorem calls_cons (b : TokenBucket K) (now : K) (times : List K) :
    calls burst rate b (now :: times) =
      (now, (b.draw burst rate now).1) :: calls burst rate (b.draw burst rate now).2 times := rfl

theorem map_snd_calls (b : TokenBucket K) (times : List K) :
    (calls burst rate b times).map Prod.snd = admissions burst rate b times :=
  List.map_snd_zip (length_admissions b times).le

omit [LinearOrder K] in
/-- The number of admitted calls among so many, as an element of the field. -/
theorem count_take_succ (a : Bool) (as : List Bool) (k : ℕ) :
    ((((a :: as).take (k + 1)).count true : ℕ) : K) =
      ((as.take k).count true : ℕ) + if a then 1 else 0 := by
  rw [List.take_succ_cons, List.count_cons]
  cases a <;> simp

variable [IsStrictOrderedRing K]

/-! ## Admission -/

/-- **A call is admitted exactly when no window that ends with it is too full**: neither those that
begin with a call, nor the one that begins with what is in the bucket. -/
theorem admissions_eq_true {times : List K} (b : TokenBucket K) {k : ℕ} {now : K}
    (hnow : times[k]? = some now) :
    (admissions burst rate b times)[k]? = some true ↔
      (((admissions burst rate b times).take k).count true : ℕ) + 1 ≤
          b.tokens + (now - b.lastRefill) * rate ∧
        ∀ j ≤ k, ∀ start, times[j]? = some start →
          ((((admissions burst rate b times).take k).drop j).count true : ℕ) + 1 ≤
            burst + (now - start) * rate := by
  induction times generalizing b k with
  | nil => cases hnow
  | cons first times ih =>
    have hlevel : ∀ x : K, x ≤ b.level burst rate first ↔
        x ≤ burst ∧ x ≤ b.tokens + (first - b.lastRefill) * rate := fun x => le_min_iff
    cases k with
    | zero =>
      obtain rfl : first = now := by simpa using hnow
      simp only [admissions, List.getElem?_cons_zero, Option.some.injEq, draw_admitted, hlevel,
        List.take_zero, List.count_nil, Nat.cast_zero, zero_add]
      constructor
      · rintro ⟨hburst, htokens⟩
        refine ⟨htokens, fun j hj start hstart => ?_⟩
        obtain rfl : j = 0 := by omega
        obtain rfl : first = start := by simpa using hstart
        simpa using hburst
      · rintro ⟨htokens, hwindows⟩
        have hburst := hwindows 0 le_rfl first rfl
        exact ⟨by simpa using hburst, htokens⟩
    | succ k =>
      rw [List.getElem?_cons_succ] at hnow
      simp only [admissions, List.getElem?_cons_succ]
      rw [ih _ hnow, draw_tokens, draw_lastRefill, count_take_succ]
      set admitted := (b.draw burst rate first).1
      set later := admissions burst rate (b.draw burst rate first).2 times
      set taken : K := if admitted then 1 else 0
      have hwindow : ((later.take k).count true : ℕ) + 1 ≤
          b.level burst rate first - taken + (now - first) * rate ↔
        ((later.take k).count true : ℕ) + taken + 1 ≤ burst + (now - first) * rate ∧
          ((later.take k).count true : ℕ) + taken + 1 ≤
            b.tokens + (now - b.lastRefill) * rate := by
        have hsplit := hlevel (((later.take k).count true : ℕ) + 1 + taken - (now - first) * rate)
        constructor
        · intro h
          obtain ⟨hburst, htokens⟩ := hsplit.mp (by linarith)
          exact ⟨by linarith, by linarith⟩
        · rintro ⟨hburst, htokens⟩
          linarith [hsplit.mpr ⟨by linarith, by linarith⟩]
      rw [hwindow]
      constructor
      · rintro ⟨⟨hburst, htokens⟩, hwindows⟩
        refine ⟨htokens, fun j hj start hstart => ?_⟩
        cases j with
        | zero =>
          obtain rfl : first = start := by simpa using hstart
          rw [List.drop_zero, count_take_succ]
          exact hburst
        | succ j =>
          rw [List.take_succ_cons, List.drop_succ_cons]
          exact hwindows j (by omega) start (by simpa using hstart)
      · rintro ⟨htokens, hwindows⟩
        have hburst := hwindows 0 (Nat.zero_le _) first rfl
        rw [List.drop_zero, count_take_succ] at hburst
        refine ⟨⟨hburst, htokens⟩, fun j hj start hstart => ?_⟩
        have hlater := hwindows (j + 1) (by omega) start (by simpa using hstart)
        rwa [List.take_succ_cons, List.drop_succ_cons] at hlater

/-- A bucket that starts full only has to look at the windows that begin with a call. -/
theorem admissions_of_full {times : List K} {b : TokenBucket K} (hfull : b.tokens = burst)
    (hrate : 0 ≤ rate) (hsorted : (b.lastRefill :: times).Pairwise (· ≤ ·)) {k : ℕ} {now : K}
    (hnow : times[k]? = some now) :
    (admissions burst rate b times)[k]? = some true ↔
      ∀ j ≤ k, ∀ start, times[j]? = some start →
        ((((admissions burst rate b times).take k).drop j).count true : ℕ) + 1 ≤
          burst + (now - start) * rate := by
  rw [admissions_eq_true b hnow]
  refine and_iff_right_of_imp fun hwindows => ?_
  have hpos : 0 < times.length := by
    obtain ⟨hk, -⟩ := List.getElem?_eq_some_iff.mp hnow
    omega
  have hfirst := hwindows 0 (Nat.zero_le _) _ (List.getElem?_eq_getElem hpos)
  have hle : b.lastRefill ≤ times[0] := List.rel_of_pairwise_cons hsorted (List.getElem_mem hpos)
  rw [List.drop_zero] at hfirst
  rw [hfull]
  linarith [mul_le_mul_of_nonneg_right hle hrate]

/-! ## Bounds -/

/-- Calls in the order of time keep a bucket between empty and full. -/
theorem draw_bounds {b : TokenBucket K} (htokens : 0 ≤ b.tokens) (hburst : 0 ≤ burst)
    (hrate : 0 ≤ rate) {now : K} (hnow : b.lastRefill ≤ now) :
    0 ≤ (b.draw burst rate now).2.tokens ∧ (b.draw burst rate now).2.tokens ≤ burst := by
  have hlevel : 0 ≤ b.level burst rate now := by
    have hgain := mul_nonneg (sub_nonneg.mpr hnow) hrate
    exact le_min hburst (by linarith)
  have hle : b.level burst rate now ≤ burst := min_le_left _ _
  have hadmitted := draw_admitted burst rate now b
  rw [draw_tokens]
  split_ifs with h
  · have hone := hadmitted.mp h
    exact ⟨by linarith, by linarith⟩
  · rw [sub_zero]
    exact ⟨hlevel, hle⟩

theorem drawAll_bounds {b : TokenBucket K} (htokens : 0 ≤ b.tokens) (hfull : b.tokens ≤ burst)
    (hrate : 0 ≤ rate) {times : List K} (hsorted : (b.lastRefill :: times).Pairwise (· ≤ ·)) :
    0 ≤ (b.drawAll burst rate times).tokens ∧ (b.drawAll burst rate times).tokens ≤ burst := by
  induction times generalizing b with
  | nil => exact ⟨htokens, hfull⟩
  | cons now times ih =>
    obtain ⟨hfirst, htimes⟩ := List.pairwise_cons.mp hsorted
    obtain ⟨hnonneg, hle⟩ := draw_bounds htokens (htokens.trans hfull) hrate
      (hfirst now List.mem_cons_self)
    apply ih hnonneg hle
    rwa [draw_lastRefill]

/-- From now to the end there is no more than what is left, and what is gained. -/
theorem countP_until_le {b : TokenBucket K} (htokens : 0 ≤ b.tokens) (hburst : 0 ≤ burst)
    (hrate : 0 ≤ rate) {times : List K} (hsorted : (b.lastRefill :: times).Pairwise (· ≤ ·))
    {stop : K} (hstop : b.lastRefill ≤ stop) :
    ((calls burst rate b times).countP (fun x => x.2 && decide (x.1 ≤ stop)) : K) ≤
      b.tokens + (stop - b.lastRefill) * rate := by
  have hgain := mul_nonneg (sub_nonneg.mpr hstop) hrate
  induction times generalizing b with
  | nil =>
    rw [calls, List.zip_nil_left, List.countP_nil, Nat.cast_zero]
    linarith
  | cons now times ih =>
    obtain ⟨hfirst, htimes⟩ := List.pairwise_cons.mp hsorted
    have hnow := hfirst now List.mem_cons_self
    by_cases hle : now ≤ stop
    · obtain ⟨hnonneg, -⟩ := draw_bounds htokens hburst hrate hnow
      have hlast := draw_lastRefill burst rate now b
      have hrest := ih hnonneg (by rwa [hlast]) (by rwa [hlast])
        (by rw [hlast]; exact mul_nonneg (sub_nonneg.mpr hle) hrate)
      have hlevel : b.level burst rate now ≤ b.tokens + (now - b.lastRefill) * rate :=
        min_le_right _ _
      rw [hlast, draw_tokens] at hrest
      rw [calls_cons, List.countP_cons]
      cases hadmitted : (b.draw burst rate now).1 <;> simp [hadmitted, hle] at hrest ⊢ <;> linarith
    · -- every later call is after the end
      have hnone : (calls burst rate b (now :: times)).countP
          (fun x => x.2 && decide (x.1 ≤ stop)) = 0 := by
        refine List.countP_eq_zero.mpr fun x hx => ?_
        have hx' : x.1 ∈ now :: times := (List.of_mem_zip hx).1
        have hlater : now ≤ x.1 := by
          rcases List.mem_cons.mp hx' with heq | hmem
          · exact heq.ge
          · exact List.rel_of_pairwise_cons htimes hmem
        have hafter : ¬ x.1 ≤ stop := fun h => hle (hlater.trans h)
        simp [hafter]
      rw [hnone, Nat.cast_zero]
      linarith

/-- **A window of any length holds no more admitted calls than the bucket can give in it.** -/
theorem countP_window_le {b : TokenBucket K} (htokens : 0 ≤ b.tokens) (hburst : 0 ≤ burst)
    (hrate : 0 ≤ rate) {times : List K} (hsorted : (b.lastRefill :: times).Pairwise (· ≤ ·))
    {start stop : K} (hle : start ≤ stop) :
    ((calls burst rate b times).countP
        (fun x => x.2 && (decide (start ≤ x.1) && decide (x.1 ≤ stop))) : K) ≤
      burst + (stop - start) * rate := by
  have hgain := mul_nonneg (sub_nonneg.mpr hle) hrate
  induction times generalizing b with
  | nil =>
    rw [calls, List.zip_nil_left, List.countP_nil, Nat.cast_zero]
    linarith
  | cons now times ih =>
    obtain ⟨hfirst, htimes⟩ := List.pairwise_cons.mp hsorted
    obtain ⟨hnonneg, -⟩ := draw_bounds htokens hburst hrate (hfirst now List.mem_cons_self)
    have hlast := draw_lastRefill burst rate now b
    have hrest := ih hnonneg (by rwa [hlast])
    rw [calls_cons, List.countP_cons]
    by_cases hbefore : start ≤ now
    · -- the window begins here: whatever came before, the bucket is at most full
      by_cases hafter : now ≤ stop
      · have hlater : ((b.draw burst rate now).2.lastRefill :: times).Pairwise (· ≤ ·) := by
          rwa [hlast]
        have hreaches : (b.draw burst rate now).2.lastRefill ≤ stop := by rwa [hlast]
        have huntil := countP_until_le hnonneg hburst hrate hlater hreaches
        have hmono : (calls burst rate (b.draw burst rate now).2 times).countP
              (fun x => x.2 && (decide (start ≤ x.1) && decide (x.1 ≤ stop))) ≤
            (calls burst rate (b.draw burst rate now).2 times).countP
              (fun x => x.2 && decide (x.1 ≤ stop)) :=
          List.countP_mono_left fun x _ hx => by simp_all
        have hcount := (Nat.cast_le (α := K).mpr hmono).trans huntil
        have hlevel : b.level burst rate now ≤ burst := min_le_left _ _
        have hshift := mul_le_mul_of_nonneg_right hbefore hrate
        rw [hlast, draw_tokens] at hcount
        cases hadmitted : (b.draw burst rate now).1 <;>
          simp [hadmitted, hbefore, hafter] at hcount ⊢ <;> linarith
      · simpa [hafter] using hrest
    · simpa [hbefore] using hrest

end TokenBucket

/-! ## Calls at a distance -/

section Spaced

variable {K : Type*} [Field K] [LinearOrder K] [IsStrictOrderedRing K] {d start stop : K}

/-- A window holds no more calls at a distance `d` than fit into it. -/
theorem length_le_of_spaced {times : List K} (hspaced : times.Pairwise fun a b => a + d ≤ b)
    (hin : ∀ a ∈ times, start ≤ a ∧ a ≤ stop) (hd : 0 ≤ d) (hle : start ≤ stop) :
    d * times.length ≤ stop - start + d := by
  induction times generalizing start with
  | nil =>
    simp only [List.length_nil, Nat.cast_zero, mul_zero]
    linarith
  | cons a times ih =>
    obtain ⟨hfirst, hspaced⟩ := List.pairwise_cons.mp hspaced
    obtain ⟨ha, hstop⟩ := hin a (by simp)
    rw [List.length_cons, Nat.cast_succ, mul_add, mul_one]
    cases times with
    | nil =>
      simp only [List.length_nil, Nat.cast_zero, mul_zero]
      linarith
    | cons b times =>
      have hnext : a + d ≤ stop := (hfirst b (by simp)).trans (hin b (by simp)).2
      have hrest := ih hspaced (fun x hx => ⟨hfirst x hx, (hin x (by simp [hx])).2⟩) hnext
      linarith

end Spaced

end Foundations
