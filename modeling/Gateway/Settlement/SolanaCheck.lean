import Gateway.Foundations.FirstMatch
import Gateway.Foundations.Json
import Gateway.Merchant.Records

/-!
# The Solana balance check

`checkSolanaPayment` asks one question per accepted mint and walks the token accounts of each
reply. An order is satisfied by the first account whose balance, less what the merchant's earlier
orders have claimed of the asset, reaches 99% of the amount; it then claims the whole amount.

The arithmetic is that of Python's default decimal context. With watermarks and amounts in whole
cents, rounding to 28 digits never changes the verdict on a balance that is a JSON number
(`round_sub_lt_iff`), so that a match says what it seems to say (`checkSolanaPayment_covered`), and
replies that report the balances of the accounts are matched exactly when some balance suffices
(`checkSolanaPayment_of_reports`). Whatever is reported, the verdict is monotone in the watermark
and the amount (`not_enough_of_fallsShort`).
-/

namespace Gateway

open Foundations Foundations.Decimal

/-! ## The code -/

/-- `_MIN_PAYMENT_FRACTION`. -/
def minPaymentFraction : ℚ := 99 / 100

/-- `_SOLANA_STABLECOIN_MINTS`, in the order of the table. -/
def solanaStablecoinMints : List (String × Asset) :=
  [("EPjFWdd5AufqSSqeM2qN1xzybapC8G4wEGGkZwyTDt1v", .usdc),
   ("Es9vMFrzaCERmJfrF4H2FYD4KCoNkY11McCe8BenwNYB", .usdt)]

/-- The payment that satisfies an order, with the watermark to persist. `uiAmount` is the balance
entry of the account that was accepted; the code drops it, the ledger remembers it. -/
structure SolanaMatch where
  asset : Asset
  amount : ℚ
  newConsumed : ℚ
  uiAmount : Json

/-- `j.get(key) or {}`. -/
def getOrEmpty (key : String) (j : Json) : Option Json := (j.get? key).map (·.orElse (.obj []))

/-- `(reply.get("result") or {}).get("value") or []`. -/
def accountsOf (reply : Json) : Option Json :=
  (getOrEmpty "result" reply).bind fun result =>
    (result.get? "value").map (·.orElse (.arr []))

/-- The balance entry of a token account, `None` included. -/
def uiAmountOf (account : Json) : Option Json :=
  (getOrEmpty "account" account).bind fun account =>
    (getOrEmpty "data" account).bind fun data =>
      (getOrEmpty "parsed" data).bind fun parsed =>
        (getOrEmpty "info" parsed).bind fun info =>
          (getOrEmpty "tokenAmount" info).bind fun tokenAmount =>
            tokenAmount.get? "uiAmount"

/-- Is the balance, less what has been consumed of it, below 99% of the amount? -/
def fallsShort (balance : Value) (consumed expected : ℚ) : Option Bool :=
  (balance.subFinite .default consumed).bind fun available =>
    (Context.default.mul expected minPaymentFraction).bind fun threshold =>
      available.ltFinite threshold

/-- The body of the loop over the token accounts of a mint. -/
def checkAccount (asset : Asset) (consumed expected : ℚ) (account : Json) :
    Option (Option SolanaMatch) :=
  (uiAmountOf account).bind fun uiAmount =>
    if uiAmount.isNull then some none
    else
      uiAmount.decimal?.bind fun balance =>
        (fallsShort balance consumed expected).bind fun short =>
          if short then some none
          else (Context.default.add consumed expected).map fun newConsumed =>
            some { asset, amount := expected, newConsumed, uiAmount }

/-- The body of the loop over the mints. A reply that is missing, or malformed above the list of
accounts, is logged and skipped; the list itself is walked outside the `try`. -/
def checkMint (replies : String → Option Json) (consumed : Asset → ℚ) (expected : ℚ) :
    String × Asset → Option (Option SolanaMatch)
  | (mint, asset) =>
    match (replies mint).bind accountsOf with
    | none => some none
    | some accounts =>
      accounts.iter?.bind fun accounts =>
        firstMatch (checkAccount asset (consumed asset) expected) accounts

/-- `check_solana_payment`: the outer option says whether it raised. -/
def checkSolanaPayment (replies : String → Option Json) (solanaAddress : Option String)
    (expected : ℚ) (consumed : Asset → ℚ) : Option (Option SolanaMatch) :=
  if solanaAddress.getD "" = "" then some none
  else firstMatch (checkMint replies consumed expected) solanaStablecoinMints

/-- There is a mint for every asset. -/
theorem exists_mint (a : Asset) : ∃ x ∈ solanaStablecoinMints, x.2 = a := by
  cases a
  · exact ⟨_, List.mem_cons_self, rfl⟩
  · exact ⟨_, List.mem_cons_of_mem _ List.mem_cons_self, rfl⟩

/-! ## Rounding does not change the verdict -/

/-- A positive amount of an order: whole cents, below the range of its column. -/
structure IsAmount (e : ℚ) : Prop where
  scaled : Scaled 2 e
  pos : 0 < e
  lt : e < 10 ^ 8

/-- A positive value of the column of amounts. -/
theorem IsAmount.of_column {x : Numeric 10 2} (hx : 0 < x.value) : IsAmount x.value where
  scaled := Scaled.numeric x
  pos := hx
  lt := (abs_lt.mp (x.abs_value_lt (by norm_num))).2

/-- A watermark made of claims: whole cents and not negative. -/
structure IsWatermark (c : ℚ) : Prop where
  scaled : Scaled 2 c
  nonneg : 0 ≤ c

theorem IsWatermark.scaled_mono {c : ℚ} (hc : IsWatermark c) : Scaled 19 c :=
  hc.scaled.mono (by norm_num)

theorem representable_of_scaled {s : ℕ} (hs : s ≤ 28) {x : ℚ} (hx : Scaled s x)
    (hb : |x| < 10 ^ (28 - s : ℤ)) : Context.default.Representable x :=
  hx.representable hb (by simp only [Context.etiny, Context.default]; omega)

/-- Sums of cents are exact, as long as they have digits to spare. -/
theorem add_of_scaled {c x : ℚ} (hc : Scaled 2 c) (hx : Scaled 2 x) (h : |c + x| < 10 ^ 21) :
    Context.default.add c x = some (c + x) := by
  refine Context.finish_of_representable
    (representable_of_scaled (s := 2) (by norm_num) (hc.add hx) (h.trans (by norm_num))) ?_
  exact h.trans_le (pow_le_pow_right₀ (by norm_num) (by decide))

/-- A sum that leaves the range of the watermark's column stays outside when it is rounded. -/
theorem le_of_add {c x y : ℚ} (hc : 10 ^ 14 ≤ c) (hx : 0 < x)
    (h : Context.default.add c x = some y) : 10 ^ 14 ≤ y := by
  obtain ⟨-, rfl⟩ := Context.finish_eq_some.mp h
  have hrep : Context.default.Representable (10 ^ 14) :=
    representable_of_scaled (s := 0) (by norm_num) ⟨10 ^ 14, by norm_num⟩ (by norm_num)
  exact Context.le_round hrep (by linarith)

/-- A JSON number has at most nineteen digits after the point, or is tiny. -/
theorem scaled_or_tiny_of_number {j : Json} {q : ℚ} (h : j.number? = some q) :
    Scaled 19 q ∨ |q| < 1 / 1000 := by
  cases j with
  | int n =>
    obtain rfl : (n : ℚ) = q := by simpa [Json.number?] using h
    refine .inl ⟨n * 10 ^ 19, ?_⟩
    rw [eq_div_iff (by positivity)]
    push_cast
    ring
  | float f =>
    cases f with
    | finite m e hm =>
      obtain rfl : (m : ℚ) * 10 ^ e = q := by simpa [Json.number?] using h
      by_cases he : -19 ≤ e
      · left
        refine ⟨m * 10 ^ (e + 19).toNat, ?_⟩
        have hz : (10 : ℚ) ^ e * 10 ^ (19 : ℕ) = 10 ^ (e + 19).toNat := by
          rw [← zpow_natCast, ← zpow_natCast, ← zpow_add₀ (by norm_num)]
          congr 1
          push_cast
          omega
        push_cast
        rw [eq_div_iff (by positivity), mul_assoc, hz]
      · right
        have hm' : |(m : ℚ)| < 10 ^ 17 := by exact_mod_cast hm
        have hp : (0 : ℚ) < 10 ^ e := Context.ten_zpow_pos e
        have he' : (10 : ℚ) ^ e ≤ 10 ^ (-20 : ℤ) := zpow_le_zpow_right₀ (by norm_num) (by omega)
        calc |(m : ℚ) * 10 ^ e| = |(m : ℚ)| * 10 ^ e := by rw [abs_mul, abs_of_pos hp]
          _ < 10 ^ 17 * 10 ^ e := mul_lt_mul_of_pos_right hm' hp
          _ ≤ 10 ^ 17 * 10 ^ (-20 : ℤ) := mul_le_mul_of_nonneg_left he' (by norm_num)
          _ = 1 / 1000 := by norm_num
    | infinity s => simp [Json.number?] at h
    | nan => simp [Json.number?] at h
  | _ => simp [Json.number?] at h

section Threshold

variable {e : ℚ} (he : IsAmount e)

include he

theorem IsAmount.cent_le : 1 / 100 ≤ e := by
  obtain ⟨k, rfl⟩ := he.scaled
  have hk : (0 : ℚ) < k := by
    have := he.pos
    by_contra hk
    exact absurd this (not_lt.mpr (div_nonpos_of_nonpos_of_nonneg (not_lt.mp hk) (by norm_num)))
  have : (1 : ℚ) ≤ k := by exact_mod_cast hk
  rw [div_le_div_iff₀ (by norm_num) (by norm_num)]
  linarith

theorem IsAmount.threshold_scaled : Scaled 4 (e * minPaymentFraction) := by
  obtain ⟨k, hk⟩ := he.scaled
  exact ⟨k * 99, by rw [hk, minPaymentFraction]; push_cast; ring⟩

theorem IsAmount.threshold_lt : e * minPaymentFraction < 10 ^ 8 := by
  have := he.pos
  have := he.lt
  unfold minPaymentFraction
  linarith

theorem IsAmount.threshold_ge : 99 / 10000 ≤ e * minPaymentFraction := by
  have := he.cent_le
  unfold minPaymentFraction
  linarith

theorem IsAmount.threshold_representable :
    Context.default.Representable (e * minPaymentFraction) := by
  have := he.threshold_ge
  apply representable_of_scaled (by norm_num) he.threshold_scaled
  rw [abs_of_pos (by linarith)]
  exact he.threshold_lt.trans (by norm_num)

/-- The product in the code is exact. -/
theorem IsAmount.mul_fraction :
    Context.default.mul e minPaymentFraction = some (e * minPaymentFraction) := by
  have := he.threshold_ge
  apply Context.finish_of_representable he.threshold_representable
  rw [abs_of_pos (by linarith)]
  exact he.threshold_lt.trans_le (pow_le_pow_right₀ (by norm_num) (by decide))

/-- A number of at most nineteen digits after the point that lies below the threshold is separated
from it by a representable number. -/
theorem IsAmount.round_lt_of_scaled {x : ℚ} (hx : Scaled 19 x) (h : x < e * minPaymentFraction) :
    Context.default.round x < e * minPaymentFraction := by
  have ht : Scaled 19 (e * minPaymentFraction) := he.threshold_scaled.mono (by norm_num)
  have hunit : Scaled 19 ((1 : ℚ) / 10 ^ 19) := ⟨1, by norm_num⟩
  refine Context.round_lt (representable_of_scaled (by norm_num) (ht.sub hunit) ?_)
    (hx.le_sub_unit ht h) (by norm_num)
  have := he.threshold_ge
  have := he.threshold_lt
  rw [abs_lt]
  constructor <;> norm_num <;> linarith

/-- **Rounding does not change the verdict** on a balance that is a JSON number. -/
theorem IsAmount.round_sub_lt_iff {b c : ℚ} {j : Json} (hb : j.number? = some b)
    (hc : Scaled 19 c) (hc0 : 0 ≤ c) :
    Context.default.round (b - c) < e * minPaymentFraction ↔ b - c < e * minPaymentFraction := by
  constructor
  · intro h
    by_contra hn
    exact absurd h (not_lt.mpr (Context.le_round he.threshold_representable (not_lt.mp hn)))
  · intro h
    rcases scaled_or_tiny_of_number hb with hs | ht
    · exact he.round_lt_of_scaled (hs.sub hc) h
    · -- a tiny balance leaves less than a tenth of a cent
      have hmid : Context.default.Representable (1 / 1000) :=
        representable_of_scaled (s := 3) (by norm_num) ⟨1, by norm_num⟩ (by norm_num)
      have hle : b - c ≤ 1 / 1000 := by linarith [(abs_lt.mp ht).2]
      exact Context.round_lt hmid hle (by linarith [he.threshold_ge])

theorem IsAmount.add_watermark {c : ℚ} (hc : IsWatermark c) (hlt : c < 10 ^ 20) :
    Context.default.add c e = some (c + e) := by
  apply add_of_scaled hc.scaled he.scaled
  rw [abs_of_nonneg (add_nonneg hc.nonneg he.pos.le)]
  linarith [he.lt]

end Threshold

/-! ## What a match says -/

section Verdict

variable {replies : String → Option Json} {solanaAddress : Option String} {e : ℚ}
  {consumed : Asset → ℚ}

/-- The verdict on a finite balance compares what the context makes of both sides. -/
theorem eq_of_fallsShort {b c e : ℚ} {short : Bool} (h : fallsShort (.finite b) c e = some short) :
    short = decide (Context.default.round (b - c) <
      Context.default.round (e * minPaymentFraction)) := by
  obtain ⟨available, hsub, h⟩ := Option.bind_eq_some_iff.mp h
  obtain ⟨threshold, hmul, h⟩ := Option.bind_eq_some_iff.mp h
  obtain ⟨x, hx, rfl⟩ := Option.map_eq_some_iff.mp hsub
  obtain ⟨-, rfl⟩ := Context.finish_eq_some.mp hx
  obtain ⟨-, rfl⟩ := Context.finish_eq_some.mp hmul
  exact (Option.some.inj h).symm

theorem fallsShort_finite {b c : ℚ} {j : Json} (he : IsAmount e) (hb : j.number? = some b)
    (hc : Scaled 19 c) (hc0 : 0 ≤ c) {short : Bool}
    (h : fallsShort (.finite b) c e = some short) :
    short = decide (b < c + e * minPaymentFraction) := by
  rw [eq_of_fallsShort h, Context.round_of_representable he.threshold_representable,
    decide_eq_decide, he.round_sub_lt_iff hb hc hc0, sub_lt_iff_lt_add']

/-- **The verdict is monotone**: a balance that falls short does so of more, after more has been
claimed of it. -/
theorem not_enough_of_fallsShort {v : Value} {c c' e e' : ℚ} (h : fallsShort v c e = some true)
    (hc : c ≤ c') (he : e ≤ e') : fallsShort v c' e' ≠ some false := by
  intro h'
  cases v with
  | finite b =>
    have hshort := of_decide_eq_true (eq_of_fallsShort h).symm
    have henough := of_decide_eq_false (eq_of_fallsShort h').symm
    have hleft : Context.default.round (b - c') ≤ Context.default.round (b - c) :=
      Context.round_mono (by linarith)
    have hright : Context.default.round (e * minPaymentFraction) ≤
        Context.default.round (e' * minPaymentFraction) := by
      refine Context.round_mono (mul_le_mul_of_nonneg_right he ?_)
      norm_num [minPaymentFraction]
    exact henough ((hleft.trans_lt hshort).trans_le hright)
  | infinity negative =>
    simp only [fallsShort, Value.subFinite, Option.bind_some, Value.ltFinite] at h h'
    obtain ⟨_, -, h⟩ := Option.bind_eq_some_iff.mp h
    obtain ⟨_, -, h'⟩ := Option.bind_eq_some_iff.mp h'
    cases h.symm.trans h'
  | nan signaling =>
    cases signaling <;> simp [fallsShort, Value.subFinite, Value.ltFinite] at h

theorem checkAccount_eq_match {asset : Asset} {c : ℚ} {account : Json} {m : SolanaMatch}
    (h : checkAccount asset c e account = some (some m)) :
    m.asset = asset ∧ m.amount = e ∧ Context.default.add c e = some m.newConsumed ∧
      uiAmountOf account = some m.uiAmount ∧
      ∃ balance, m.uiAmount.decimal? = some balance ∧ fallsShort balance c e = some false := by
  unfold checkAccount at h
  obtain ⟨ui, hui, h⟩ := Option.bind_eq_some_iff.mp h
  split_ifs at h with hn
  · simp at h
  · obtain ⟨balance, hb, h⟩ := Option.bind_eq_some_iff.mp h
    obtain ⟨short, hs, h⟩ := Option.bind_eq_some_iff.mp h
    cases short with
    | true => simp at h
    | false =>
      simp only [Bool.false_eq_true, if_false] at h
      obtain ⟨n, hn, hm⟩ := Option.map_eq_some_iff.mp h
      obtain rfl := Option.some.inj hm
      exact ⟨rfl, rfl, hn, hui, balance, hb, hs⟩

/-- A match claims the amount of the order on top of the watermark of its asset, for an account
that did not fall short. -/
theorem checkSolanaPayment_eq_match {m : SolanaMatch}
    (h : checkSolanaPayment replies solanaAddress e consumed = some (some m)) :
    m.amount = e ∧ Context.default.add (consumed m.asset) e = some m.newConsumed ∧
      ∃ balance, m.uiAmount.decimal? = some balance ∧
        fallsShort balance (consumed m.asset) e = some false := by
  unfold checkSolanaPayment at h
  split_ifs at h
  · simp at h
  · obtain ⟨⟨mint, asset⟩, -, h⟩ := firstMatch_sound h
    simp only [checkMint] at h
    split at h
    · simp at h
    · obtain ⟨accounts, -, h⟩ := Option.bind_eq_some_iff.mp h
      obtain ⟨account, -, h⟩ := firstMatch_sound h
      obtain ⟨rfl, ha, hadd, -, hb⟩ := checkAccount_eq_match h
      exact ⟨ha, hadd, hb⟩

/-- **A match is covered**: the balance that satisfied the order reaches everything claimed before
plus 99% of the amount. -/
theorem checkSolanaPayment_covered {m : SolanaMatch}
    (h : checkSolanaPayment replies solanaAddress e consumed = some (some m)) (he : IsAmount e)
    (hc : IsWatermark (consumed m.asset)) {b : ℚ} (hb : m.uiAmount.number? = some b) :
    consumed m.asset + e * minPaymentFraction ≤ b := by
  obtain ⟨-, -, balance, hbal, hs⟩ := checkSolanaPayment_eq_match h
  obtain rfl : Value.finite b = balance := by
    rw [Json.decimal?_of_number hb] at hbal
    exact Option.some.inj hbal
  have := fallsShort_finite he hb hc.scaled_mono hc.nonneg hs
  simpa using this

/-! ## Replies that report balances -/

/-- The reply lists token accounts whose balances are the numbers `balances`. -/
def ReportsBalances (reply : Option Json) (balances : List ℚ) : Prop :=
  ∃ value accounts, reply.bind accountsOf = some value ∧ value.iter? = some accounts ∧
    List.Forall₂ (fun account b => ∃ ui, uiAmountOf account = some ui ∧ ui.number? = some b)
      accounts balances

/-- The balances that a reply lists, when all of them are numbers. -/
def reportedBalances (reply : Option Json) : Option (List ℚ) :=
  (reply.bind accountsOf).bind fun value => value.iter?.bind fun accounts =>
    accounts.mapM fun account => (uiAmountOf account).bind Json.number?

theorem reportsBalances_iff {reply : Option Json} {balances : List ℚ} :
    ReportsBalances reply balances ↔ reportedBalances reply = some balances := by
  have hall : ∀ (accounts : List Json) (balances : List ℚ),
      (accounts.mapM fun account => (uiAmountOf account).bind Json.number?) = some balances ↔
        List.Forall₂ (fun account b => ∃ ui, uiAmountOf account = some ui ∧ ui.number? = some b)
          accounts balances := by
    intro accounts
    induction accounts with
    | nil => intro balances; cases balances <;> simp [pure]
    | cons account accounts ih =>
      intro balances
      simp only [List.mapM_cons, Option.bind_eq_bind, Option.bind_eq_some_iff, Option.pure_def,
        Option.some.injEq]
      constructor
      · rintro ⟨b, ⟨ui, hui, hb⟩, bs, hbs, rfl⟩
        exact .cons ⟨ui, hui, hb⟩ ((ih bs).mp hbs)
      · rintro (_ | ⟨⟨ui, hui, hb⟩, hbs⟩)
        exact ⟨_, ⟨ui, hui, hb⟩, _, (ih _).mpr hbs, rfl⟩
  unfold ReportsBalances reportedBalances
  simp only [Option.bind_eq_some_iff, hall]
  constructor
  · rintro ⟨value, accounts, hv, hi, h⟩
    exact ⟨value, hv, accounts, hi, h⟩
  · rintro ⟨value, hv, accounts, hi, h⟩
    exact ⟨value, accounts, hv, hi, h⟩

instance (reply : Option Json) (balances : List ℚ) : Decidable (ReportsBalances reply balances) :=
  decidable_of_iff _ reportsBalances_iff.symm

/-- A match is of a balance that one of the replies reports. -/
theorem balance_of_match {balances : Asset → List ℚ} {m : SolanaMatch}
    (h : checkSolanaPayment replies solanaAddress e consumed = some (some m))
    (hr : ∀ x ∈ solanaStablecoinMints, (replies x.1).bind accountsOf = none ∨
      ReportsBalances (replies x.1) (balances x.2)) :
    ∃ b ∈ balances m.asset, m.uiAmount.number? = some b := by
  unfold checkSolanaPayment at h
  split_ifs at h
  · simp at h
  · obtain ⟨⟨mint, asset⟩, hx, h⟩ := firstMatch_sound h
    simp only [checkMint] at h
    rcases hr _ hx with hnone | ⟨value, accounts, hv, hi, hall⟩
    · simp [hnone] at h
    · simp only [hv, hi, Option.bind_some] at h
      obtain ⟨account, hmem, h⟩ := firstMatch_sound h
      obtain ⟨rfl, -, -, hui, -⟩ := checkAccount_eq_match h
      obtain ⟨i, hi, rfl⟩ := List.getElem_of_mem hmem
      obtain ⟨hlen, hget⟩ := List.forall₂_iff_get.mp hall
      obtain ⟨ui, hui', hnum⟩ := hget i hi (hlen ▸ hi)
      obtain rfl : ui = m.uiAmount := Option.some.inj (hui'.symm.trans hui)
      exact ⟨_, List.get_mem _ _, hnum⟩

/-- The balance entries of the token accounts that a reply lists, when all of them can be read. -/
def entriesOf (reply : Option Json) : Option (List Json) :=
  (reply.bind accountsOf).bind fun value => value.iter?.bind fun accounts =>
    accounts.mapM uiAmountOf

theorem entriesOf_eq_some {reply : Option Json} {entries : List Json} :
    entriesOf reply = some entries ↔ ∃ value accounts, reply.bind accountsOf = some value ∧
      value.iter? = some accounts ∧ accounts.mapM uiAmountOf = some entries := by
  simp only [entriesOf, Option.bind_eq_some_iff]
  constructor
  · rintro ⟨value, hv, accounts, hi, h⟩
    exact ⟨value, accounts, hv, hi, h⟩
  · rintro ⟨value, accounts, hv, hi, h⟩
    exact ⟨value, hv, accounts, hi, h⟩

/-- A match is of an entry that one of the replies lists. -/
theorem entry_of_match {entries : Asset → List Json} {m : SolanaMatch}
    (h : checkSolanaPayment replies solanaAddress e consumed = some (some m))
    (hr : ∀ x ∈ solanaStablecoinMints, entriesOf (replies x.1) = some (entries x.2)) :
    m.uiAmount ∈ entries m.asset := by
  unfold checkSolanaPayment at h
  split_ifs at h
  · simp at h
  · obtain ⟨⟨mint, asset⟩, hx, h⟩ := firstMatch_sound h
    obtain ⟨value, accounts, hv, hi, hall⟩ := entriesOf_eq_some.mp (hr _ hx)
    simp only [checkMint, hv, hi, Option.bind_some] at h
    obtain ⟨account, hmem, h⟩ := firstMatch_sound h
    obtain ⟨rfl, -, -, hui, -⟩ := checkAccount_eq_match h
    obtain ⟨ui, hmem, hui'⟩ := exists_of_mapM hall hmem
    obtain rfl : ui = m.uiAmount := Option.some.inj (hui'.symm.trans hui)
    exact hmem

theorem short_of_checkAccount {asset : Asset} {c : ℚ} {account ui : Json} {balance : Value}
    (h : checkAccount asset c e account = some none) (hui : uiAmountOf account = some ui)
    (hb : ui.decimal? = some balance) : fallsShort balance c e = some true := by
  unfold checkAccount at h
  rw [hui, Option.bind_some, if_neg (by simp [Json.isNull_of_decimal hb]), hb,
    Option.bind_some] at h
  obtain ⟨short, hs, h⟩ := Option.bind_eq_some_iff.mp h
  cases short with
  | true => exact hs
  | false =>
    obtain ⟨n, -, hn⟩ := Option.map_eq_some_iff.mp h
    cases hn

/-- Without a match, every balance that the replies list falls short. -/
theorem short_of_unpaid {entries : Asset → List Json} (ha : solanaAddress.getD "" ≠ "")
    (h : checkSolanaPayment replies solanaAddress e consumed = some none)
    (hr : ∀ x ∈ solanaStablecoinMints, entriesOf (replies x.1) = some (entries x.2)) {a : Asset}
    {ui : Json} (hui : ui ∈ entries a) {balance : Value} (hb : ui.decimal? = some balance) :
    fallsShort balance (consumed a) e = some true := by
  rw [checkSolanaPayment, if_neg ha] at h
  obtain ⟨x, hx, rfl⟩ := exists_mint a
  have hmint := firstMatch_eq_none.mp h x hx
  obtain ⟨value, accounts, hv, hi, hall⟩ := entriesOf_eq_some.mp (hr x hx)
  simp only [checkMint, hv, hi, Option.bind_some] at hmint
  obtain ⟨account, hmem, hui⟩ := mem_of_mapM hall hui
  exact short_of_checkAccount (firstMatch_eq_none.mp hmint account hmem) hui hb

/-- Two numbers in range have a difference in range. -/
theorem sub_of_le_emax {b c : ℚ} (hb0 : 0 ≤ b) (hb : b ≤ 10 ^ Context.default.emax) (hc0 : 0 ≤ c)
    (hc : c ≤ 10 ^ Context.default.emax) :
    Context.default.sub b c = some (Context.default.round (b - c)) := by
  have hle : |Context.default.round (b - c)| ≤ 10 ^ Context.default.emax :=
    Context.abs_round_le (by decide) (abs_le.mpr ⟨by linarith, by linarith⟩)
  refine Context.finish_eq_some.mpr ⟨hle.trans_lt ?_, rfl⟩
  exact zpow_lt_zpow_right₀ (by norm_num) (lt_add_one _)

theorem fallsShort_of_number {b c : ℚ} {j : Json} (he : IsAmount e) (hc : Scaled 19 c)
    (hc0 : 0 ≤ c) (hlt : c ≤ 10 ^ Context.default.emax) (hb : j.number? = some b) (hb0 : 0 ≤ b)
    (hblt : b ≤ 10 ^ Context.default.emax) :
    fallsShort (.finite b) c e = some (decide (b < c + e * minPaymentFraction)) := by
  have hsub := sub_of_le_emax hb0 hblt hc0 hlt
  have : ∃ short, fallsShort (.finite b) c e = some short := by
    simp [fallsShort, Value.subFinite, hsub, he.mul_fraction, Value.ltFinite]
  obtain ⟨short, hs⟩ := this
  rw [hs, fallsShort_finite he hb hc hc0 hs]

theorem checkAccount_of_number {asset : Asset} {b c : ℚ} {account ui : Json} (he : IsAmount e)
    (hc : Scaled 19 c) (hc0 : 0 ≤ c) (hlt : c ≤ 10 ^ Context.default.emax)
    (hadd : Context.default.add c e = some (c + e)) (hui : uiAmountOf account = some ui)
    (hb : ui.number? = some b) (hb0 : 0 ≤ b) (hblt : b ≤ 10 ^ Context.default.emax) :
    checkAccount asset c e account =
      some (if b < c + e * minPaymentFraction then none
        else some { asset, amount := e, newConsumed := c + e, uiAmount := ui }) := by
  unfold checkAccount
  simp only [hui, Option.bind_some, Json.isNull_of_number hb, Bool.false_eq_true, if_false,
    Json.decimal?_of_number hb, fallsShort_of_number he hc hc0 hlt hb hb0 hblt, hadd,
    Option.map_some, decide_eq_true_eq]
  split_ifs <;> rfl

/-- Whatever is below `10 ^ 20` is in range. -/
theorem le_emax {x : ℚ} (h : x < 10 ^ 20) : x ≤ 10 ^ Context.default.emax := by
  apply h.le.trans
  rw [← zpow_natCast]
  exact zpow_le_zpow_right₀ (by norm_num) (by decide)

/-- The verdict on accounts with these balances: none of them suffices, or the claim of the order
was satisfied by one that does. -/
def Judged (asset : Asset) (c e : ℚ) (balances : List ℚ) : Option SolanaMatch → Prop
  | none => ∀ b ∈ balances, b < c + e * minPaymentFraction
  | some m => m.asset = asset ∧ m.amount = e ∧ m.newConsumed = c + e ∧
      ∃ b ∈ balances, m.uiAmount.number? = some b ∧ c + e * minPaymentFraction ≤ b

theorem judged_accounts {asset : Asset} {c : ℚ} (he : IsAmount e) (hc : IsWatermark c)
    (hlt : c < 10 ^ 20) {accounts : List Json} {balances : List ℚ}
    (hr : List.Forall₂ (fun account b => ∃ ui, uiAmountOf account = some ui ∧
      ui.number? = some b) accounts balances)
    (hbs : ∀ b ∈ balances, 0 ≤ b ∧ b < 10 ^ 20) :
    ∃ r, firstMatch (checkAccount asset c e) accounts = some r ∧ Judged asset c e balances r := by
  induction hr with
  | nil => exact ⟨none, rfl, by simp [Judged]⟩
  | cons hd tl ih =>
    rename_i account b accounts balances
    obtain ⟨ui, hui, hb⟩ := hd
    obtain ⟨hb0, hblt⟩ := hbs b (by simp)
    have hacc : checkAccount asset c e account = _ :=
      checkAccount_of_number he hc.scaled_mono hc.nonneg (le_emax hlt) (he.add_watermark hc hlt)
        hui hb hb0 (le_emax hblt)
    by_cases hshort : b < c + e * minPaymentFraction
    · rw [if_pos hshort] at hacc
      obtain ⟨r, hr, hj⟩ := ih fun b' hb' => hbs b' (by simp [hb'])
      refine ⟨r, by rw [firstMatch_cons_of_none hacc, hr], ?_⟩
      cases r with
      | none =>
        intro b' hb'
        rcases List.mem_cons.mp hb' with rfl | hb'
        · exact hshort
        · exact hj b' hb'
      | some m =>
        obtain ⟨ha, hm, hn, b', hb', hnum, hle⟩ := hj
        exact ⟨ha, hm, hn, b', by simp [hb'], hnum, hle⟩
    · rw [if_neg hshort] at hacc
      exact ⟨_, firstMatch_cons_of_match hacc _, rfl, rfl, rfl, b, by simp, hb,
        not_lt.mp hshort⟩

theorem judged_mint {mint : String} {asset : Asset} {balances : List ℚ} (he : IsAmount e)
    (hc : IsWatermark (consumed asset)) (hlt : consumed asset < 10 ^ 20)
    (hr : ReportsBalances (replies mint) balances) (hbs : ∀ b ∈ balances, 0 ≤ b ∧ b < 10 ^ 20) :
    ∃ r, checkMint replies consumed e (mint, asset) = some r ∧
      Judged asset (consumed asset) e balances r := by
  obtain ⟨value, accounts, hv, hi, hr⟩ := hr
  simp only [checkMint, hv, hi, Option.bind_some]
  exact judged_accounts he hc hlt hr hbs

/-- **Replies that report the balances of the accounts are judged by them**: there is a match for
some asset exactly when one of its balances reaches the watermark plus 99% of the amount. -/
theorem checkSolanaPayment_of_reports {balances : Asset → List ℚ} (ha : solanaAddress.getD "" ≠ "")
    (he : IsAmount e) (hc : ∀ a, IsWatermark (consumed a)) (hlt : ∀ a, consumed a < 10 ^ 20)
    (hr : ∀ x ∈ solanaStablecoinMints, ReportsBalances (replies x.1) (balances x.2))
    (hbs : ∀ a, ∀ b ∈ balances a, 0 ≤ b ∧ b < 10 ^ 20) :
    ∃ r, checkSolanaPayment replies solanaAddress e consumed = some r ∧
      match r with
      | none => ∀ a, Judged a (consumed a) e (balances a) none
      | some m => Judged m.asset (consumed m.asset) e (balances m.asset) (some m) := by
  have hmint : ∀ x ∈ solanaStablecoinMints, ∃ r, checkMint replies consumed e x = some r ∧
      Judged x.2 (consumed x.2) e (balances x.2) r := by
    rintro ⟨mint, asset⟩ hx
    exact judged_mint he (hc asset) (hlt asset) (hr _ hx) (hbs asset)
  have hsome : (firstMatch (checkMint replies consumed e) solanaStablecoinMints).isSome := by
    refine firstMatch_isSome fun x hx => ?_
    obtain ⟨r, hr, -⟩ := hmint x hx
    rw [hr, Option.isSome_some]
  obtain ⟨r, hr⟩ := Option.isSome_iff_exists.mp hsome
  refine ⟨r, by rw [checkSolanaPayment, if_neg ha, hr], ?_⟩
  cases r with
  | none =>
    intro a
    have hall := firstMatch_eq_none.mp hr
    obtain ⟨x, hx, rfl⟩ := exists_mint a
    obtain ⟨r', hr', hj⟩ := hmint x hx
    obtain rfl : none = r' := Option.some.inj ((hall x hx).symm.trans hr')
    exact hj
  | some m =>
    obtain ⟨x, hx, hm⟩ := firstMatch_sound hr
    obtain ⟨r', hr', hj⟩ := hmint x hx
    obtain rfl : some m = r' := Option.some.inj (hm.symm.trans hr')
    have hasset : m.asset = x.2 := hj.1
    show Judged m.asset (consumed m.asset) e (balances m.asset) (some m)
    rw [hasset]
    exact hj

end Verdict

end Gateway
