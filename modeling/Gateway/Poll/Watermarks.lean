import Gateway.Poll.Sessions

/-!
# The watermarks and the ledger of claims

`LedgerHolds` is the invariant that ties the watermarks to the claims: every stored watermark is
the total that the ledger holds on its account, every order records its own claim, and the ledger
is covered. A pass keeps, for each watermark it has read, that its copy is what it read plus its
unsaved claims (`MarksOk`); so that saving it adds these claims to the stored watermark, which
nobody else has claimed on meanwhile.

The addition of a watermark and an amount is exact as long as the watermark is in the range of its
column. A pass whose copy has left that range can no longer commit (`Overflowed`); nothing is asked
of it.
-/

namespace Gateway

open Foundations

/-- The watermarks that the pass has read. -/
def Pass.mark (pass : Pass) (k : MerchantId × Asset) : ℚ :=
  (pass.merchants k.1).elim 0 fun t => t.base.consumed k.2

/-- What holds of a pass's copy `t` of the stored merchant `m`, for one asset. -/
structure MarkCopy (pass : Pass) (id : MerchantId) (t : Tracked Merchant) (m : Merchant)
    (a : Asset) : Prop where
  sum : t.cur.consumed a = t.base.consumed a + Ledger.total pass.claims (id, a)
  cents : Scaled 2 (t.base.consumed a)
  base_lt : |t.base.consumed a| < 10 ^ 14
  cur_lt : |t.cur.consumed a| < 10 ^ 15
  /-- A watermark with unsaved claims is stored as it was read. -/
  row : (∃ c ∈ pass.claims, c.account = (id, a)) → m.consumed a = t.base.consumed a

/-- What holds of a pass that may still commit. -/
structure MarksOk (merchants : Table Merchant) (pass : Pass) : Prop where
  copy : ∀ id t m, pass.merchants id = some t → merchants.find? id = some m →
    ∀ a, MarkCopy pass id t m a
  cents : ∀ c ∈ pass.claims, Scaled 2 c.amount
  copied : ∀ c ∈ pass.claims, ∃ t, pass.merchants c.account.1 = some t
  covered : Ledger.CoveredFrom minPaymentFraction pass.mark pass.claims

/-- A watermark in the session has left the range of its column. -/
def Overflowed (merchants : Table Merchant) (pass : Pass) : Prop :=
  ∃ id t m a, pass.merchants id = some t ∧ merchants.find? id = some m ∧
    t.base.consumed a < 10 ^ 14 ∧ 10 ^ 14 ≤ t.cur.consumed a

/-- A pass that cannot commit any more, or whose watermarks are in order. -/
def MarksHold (merchants : Table Merchant) (pass : Pass) : Prop :=
  Overflowed merchants pass ∨ MarksOk merchants pass

/-- What holds of the stored rows and the ledger. -/
structure StoredOk (s : System) : Prop where
  marks : ∀ m ∈ s.merchants.rows, ∀ a, m.consumed a = Ledger.total s.ledger (m.id, a) ∧
    |m.consumed a| < 10 ^ 14
  orders : ∀ o ∈ s.orders.rows,
    (s.ledger.filter fun c => c.owner = o.id).map claimEntry = o.claimed
  known : ∀ c ∈ s.ledger, (∃ o, s.orders.find? c.owner = some o) ∧
    ∃ m, s.merchants.find? c.account.1 = some m
  cents : ∀ c ∈ s.ledger, Scaled 2 c.amount
  covered : Ledger.CoveredFrom minPaymentFraction (fun _ => 0) s.ledger

/-- The invariant of the watermarks. -/
structure LedgerHolds (s : System) : Prop extends StoredOk s where
  passes : ∀ p pass, s.passes p = some pass → MarksHold s.merchants pass
  exclusive : ∀ p q pass pass', p ≠ q → s.passes p = some pass → s.passes q = some pass' →
    ∀ c ∈ pass.claims, ∀ c' ∈ pass'.claims, c.account ≠ c'.account

theorem scaled_total {l : List PaymentClaim} (h : ∀ c ∈ l, Scaled 2 c.amount)
    (k : MerchantId × Asset) : Scaled 2 (Ledger.total l k) := by
  refine Scaled.sum fun x hx => ?_
  obtain ⟨c, hc, rfl⟩ := List.mem_map.mp hx
  exact h c (List.mem_of_mem_filter hc)

/-! ## One pass -/

section Pass

variable {merchants merchants' : Table Merchant} {pass pass' : Pass}

/-- Only the copies of merchants and the claims matter. -/
theorem MarksHold.congr (h : MarksHold merchants pass) (hm : pass'.merchants = pass.merchants)
    (hc : pass'.claims = pass.claims) : MarksHold merchants pass' := by
  rcases h with ⟨id, t, m, a, ht, hrest⟩ | h
  · exact .inl ⟨id, t, m, a, by rw [hm, ht], hrest⟩
  · right
    have hmark : pass'.mark = pass.mark := by
      funext k
      simp [Pass.mark, hm]
    exact
      { copy := fun id t m ht hf a => by
          obtain ⟨h₁, h₂, h₃, h₄, h₅⟩ := h.copy id t m (by rw [← hm, ht]) hf a
          exact ⟨by rw [hc]; exact h₁, h₂, h₃, h₄, by rw [hc]; exact h₅⟩
        cents := hc ▸ h.cents
        copied := by rw [hc, hm]; exact h.copied
        covered := by rw [hc, hmark]; exact h.covered }

/-- Other sessions may write the merchants on whose watermarks the pass has no claim. -/
theorem MarksHold.mono (h : MarksHold merchants pass)
    (hok : ∀ id t, pass.merchants id = some t → ∃ m, merchants.find? id = some m)
    (hrows : ∀ id m, merchants.find? id = some m → ∃ m', merchants'.find? id = some m' ∧
      ∀ a, (∃ c ∈ pass.claims, c.account = (id, a)) → m'.consumed a = m.consumed a) :
    MarksHold merchants' pass := by
  rcases h with ⟨id, t, m, a, ht, hf, hlt⟩ | h
  · obtain ⟨m', hf', -⟩ := hrows id m hf
    exact .inl ⟨id, t, m', a, ht, hf', hlt⟩
  · right
    refine ⟨?_, h.cents, h.copied, h.covered⟩
    intro id t m' ht hf' a
    obtain ⟨m, hf⟩ := hok id t ht
    obtain ⟨m₁, hf₁, hcons⟩ := hrows id m hf
    obtain rfl : m₁ = m' := Option.some.inj (hf₁.symm.trans hf')
    have hcopy := h.copy id t m ht hf a
    exact { hcopy with row := fun hc => (hcons a hc).trans (hcopy.row hc) }

/-- A claim on another watermark leaves a copy in order. -/
theorem MarkCopy.append {id : MerchantId} {t : Tracked Merchant} {m : Merchant} {a : Asset}
    (h : MarkCopy pass id t m a) {c : Option PaymentClaim}
    (hclaims : pass'.claims = pass.claims ++ c.toList) (hne : ∀ cl ∈ c, cl.account ≠ (id, a)) :
    MarkCopy pass' id t m a := by
  refine { h with sum := ?_, row := ?_ }
  · rw [hclaims, Ledger.total_append, Ledger.total_eq_zero (l := c.toList) (by simpa using hne),
      add_zero]
    exact h.sum
  · rintro ⟨cl, hcl, hacc⟩
    rw [hclaims, List.mem_append, Option.mem_toList] at hcl
    rcases hcl with hcl | hcl
    · exact h.row ⟨cl, hcl, hacc⟩
    · exact absurd hacc (hne cl hcl)

/-- A pass whose copies have just been read or committed. -/
theorem MarksOk.of_clean (hclaims : pass.claims = [])
    (hcopy : ∀ id t, pass.merchants id = some t → ∀ a, t.cur.consumed a = t.base.consumed a ∧
      Scaled 2 (t.base.consumed a) ∧ |t.base.consumed a| < 10 ^ 14) : MarksOk merchants pass where
  copy := by
    intro id t m ht _ a
    obtain ⟨he, hs, hlt⟩ := hcopy id t ht a
    refine ⟨by simp [hclaims, he], hs, hlt, ?_, by simp [hclaims]⟩
    rw [he]
    exact hlt.trans (by norm_num)
  cents := by simp [hclaims]
  copied := by simp [hclaims]
  covered := by simp [hclaims]

/-- What the pass would commit fits, so that no watermark has left its range. -/
theorem fits_of_canSave {s : System} (h : s.canSave pass) {id : MerchantId} {t : Tracked Merchant}
    {m : Merchant} (ht : pass.merchants id = some t) (hf : s.merchants.find? id = some m) :
    Merchant.fits t := by
  simp only [System.canSave, System.fits, Bool.and_eq_true, List.all_eq_true] at h
  obtain ⟨-, -, hm⟩ := h
  obtain ⟨hmem, rfl⟩ := Table.find?_eq_some.mp hf
  have := hm m hmem
  rw [key_merchant] at ht
  simpa [ht] using this

theorem marksOk_of_canSave {s : System} (h : s.canSave pass) (hm : MarksHold s.merchants pass) :
    MarksOk s.merchants pass := by
  rcases hm with ⟨id, t, m, a, ht, hf, hbase, hcur⟩ | hm
  · exact absurd (Merchant.lt_of_fits (fits_of_canSave h ht hf) hbase) (not_lt.mpr hcur)
  · exact hm

namespace MarksOk

variable {id : MerchantId} {t : Tracked Merchant} {m : Merchant}

theorem cur_scaled (h : MarksOk merchants pass) (ht : pass.merchants id = some t)
    (hf : merchants.find? id = some m) (a : Asset) : Scaled 2 (t.cur.consumed a) := by
  have hcopy := h.copy id t m ht hf a
  rw [hcopy.sum]
  exact hcopy.cents.add (scaled_total h.cents _)

/-- A watermark that fits its column is in its range. -/
theorem cur_lt (h : MarksOk merchants pass) (ht : pass.merchants id = some t)
    (hf : merchants.find? id = some m) (hfits : Merchant.fits t) (a : Asset) :
    |t.cur.consumed a| < 10 ^ 14 := by
  by_cases hclean : t.cur.consumed a = t.base.consumed a
  · rw [hclean]
    exact (h.copy id t m ht hf a).base_lt
  · have hcheck := Merchant.checkBack_of_fits hfits a
    rw [checkBack_dirty hclean] at hcheck
    have := (fitsNumeric_of_scaled (by norm_num) (by norm_num) (h.cur_scaled ht hf a)).mp hcheck
    simpa using this

/-- **A commit adds the pass's claims** to a stored watermark. -/
theorem consumed_write (h : MarksOk merchants pass) (ht : pass.merchants id = some t)
    (hf : merchants.find? id = some m) (a : Asset) :
    (Merchant.write t m).consumed a = m.consumed a + Ledger.total pass.claims (id, a) := by
  have hcopy := h.copy id t m ht hf a
  have hsum := hcopy.sum
  rw [Merchant.consumed_write]
  by_cases hc : ∃ c ∈ pass.claims, c.account = (id, a)
  · rw [hcopy.row hc, writeBackAs_fresh (storeNumeric_of_scaled (by norm_num)
      (h.cur_scaled ht hf a)), hsum]
  · rw [Ledger.total_eq_zero_of_not_mem hc, add_zero] at hsum ⊢
    rw [hsum, writeBackAs_clean]

end MarksOk

end Pass

/-! ## A visit -/

section Visit

variable {s : System} {p : PassId} {pass : Pass} {id : OrderId} {rest : List OrderId}
  {t : Tracked MerchantOrder} {o' : MerchantOrder} {m' : Option Merchant} {c : Confirmation}

theorem claims_afterVisit_paid (pass : Pass) (id : OrderId) (rest : List OrderId)
    (o' : MerchantOrder) (m' : Option Merchant) (c : Confirmation) :
    (pass.afterVisit id rest (.paid o' m' c)).claims =
    pass.claims ++ c.claim.toList := by
  simp only [Pass.claims, Pass.afterVisit, List.filterMap_append]
  cases hc : c.claim <;> simp [hc]

/-- A visit changes no watermark that a pass has read. -/
theorem mark_afterVisit (v : Visit) : (pass.afterVisit id rest v).mark = pass.mark := by
  funext k
  cases v with
  | expired o => rfl
  | unpaid => rfl
  | paid o m c =>
    cases m with
    | none => rfl
    | some m =>
      simp only [Pass.mark, Pass.afterVisit]
      by_cases hk : k.1 = m.id
      · rw [hk, Function.update_self]
        cases pass.merchants m.id <;> rfl
      · rw [Function.update_of_ne hk]

/-- A visit that finds a payment changes the copy of the order's merchant, if there is one. -/
theorem merchants_of_confirms (id : OrderId) (rest : List OrderId) {o : MerchantOrder}
    (hok : SessionOk s.orders s.merchants pass)
    (hc : Confirms o ((pass.merchants o.merchantId).map Tracked.cur) o' m' c) :
    (m' = none ∧ c.claim = none) ∨ ∃ t₀ m₁, m' = some m₁ ∧ pass.merchants o.merchantId = some t₀ ∧
      (pass.afterVisit id rest (.paid o' m' c)).merchants =
        Function.update pass.merchants o.merchantId (some (t₀.set m₁)) := by
  cases hm' : m' with
  | none =>
    left
    refine ⟨rfl, ?_⟩
    cases hcl : c.claim with
    | none => rfl
    | some cl =>
      obtain ⟨_, _, m₁, _, he, _⟩ := hc.claim cl hcl
      rw [hm'] at he
      cases he
  | some m₁ =>
    right
    have hmer := hc.merchant_eq
    rw [hm'] at hmer
    cases hm : pass.merchants o.merchantId with
    | none =>
      rw [hm] at hmer
      cases hmer
    | some t₀ =>
      rw [hm] at hmer
      have hid : m₁.id = o.merchantId := (Option.some.inj hmer).trans (hok.merchants _ t₀ hm).1
      exact ⟨t₀, m₁, rfl, rfl, by simp [Pass.afterVisit, hid, hm]⟩

theorem total_claim {cl : PaymentClaim} (k : MerchantId × Asset) (h : c.claim = some cl) :
    Ledger.total c.claim.toList k = if cl.account = k then cl.amount else 0 := by
  rw [h, Option.toList_some, Ledger.total_cons, Ledger.total_nil, add_zero]

/-- A claim is added exactly to a watermark in its range. -/
theorem consumed_of_confirms {o : MerchantOrder} {t₀ : Tracked Merchant} {m₁ : Merchant}
    {a : Asset} (hc : Confirms o (some t₀.cur) o' (some m₁) c)
    (hcents : Scaled 2 (t₀.cur.consumed a)) (hlt : |t₀.cur.consumed a| < 10 ^ 15)
    (hfresh : ∀ cl ∈ c.claim, cl.account = (o.merchantId, a) →
      0 < cl.amount ∨ |t₀.cur.consumed a| < 10 ^ 14) :
    m₁.consumed a = t₀.cur.consumed a + Ledger.total c.claim.toList (o.merchantId, a) ∧
      (10 ^ 14 ≤ m₁.consumed a ∨ |m₁.consumed a| < 10 ^ 15) := by
  by_cases hcl : ∃ cl ∈ c.claim, cl.account = (o.merchantId, a)
  · obtain ⟨cl, hcl, hacc⟩ := hcl
    obtain ⟨b, _, _, h₀, h₁, -, hacc', hamt, hadd, -⟩ := hc.claim cl hcl
    cases h₀
    cases h₁
    obtain rfl : a = b := (Prod.mk.inj (hacc.symm.trans hacc')).2
    have hx : |cl.amount| < 10 ^ 8 := by
      rw [hamt]
      exact o.amountUsd.abs_value_lt (by norm_num)
    obtain ⟨hx₁, hx₂⟩ := abs_lt.mp hx
    obtain ⟨hc₁, hc₂⟩ := abs_lt.mp hlt
    have hsum : |t₀.cur.consumed a + cl.amount| < 10 ^ 21 := by
      rw [abs_lt]
      constructor <;> linarith
    rw [add_of_scaled hcents (hamt ▸ Scaled.numeric _) hsum] at hadd
    have hadd' := Option.some.inj hadd
    refine ⟨by rw [total_claim _ hcl, if_pos hacc, hadd'], ?_⟩
    rcases le_or_gt (10 ^ 14) (m₁.consumed a) with hle | hgt
    · exact .inl hle
    · right
      rw [abs_lt]
      rcases hfresh cl hcl hacc with hpos | hsmall
      · constructor <;> linarith
      · obtain ⟨hs₁, -⟩ := abs_lt.mp hsmall
        constructor <;> linarith
  · have hnone : ∀ cl ∈ c.claim, cl.account ≠ (o.merchantId, a) := fun cl h he => hcl ⟨cl, h, he⟩
    have hun : m₁.consumed a = t₀.cur.consumed a := Option.some.inj (hc.unclaimed a hnone)
    rw [Ledger.total_eq_zero (by simpa using hnone), add_zero, hun]
    exact ⟨rfl, .inr hlt⟩

section Paid

variable {o : MerchantOrder} {t₀ : Tracked Merchant} {m₁ : Merchant}
  (ht₀ : pass.merchants o.merchantId = some t₀) (hc : Confirms o (some t₀.cur) o' (some m₁) c)
  (hmer : (pass.afterVisit id rest (.paid o' (some m₁) c)).merchants =
    Function.update pass.merchants o.merchantId (some (t₀.set m₁)))
  (hsmall : ∀ a, ∀ cl ∈ c.claim, cl.account = (o.merchantId, a) →
    0 < cl.amount ∨ |t₀.cur.consumed a| < 10 ^ 14)

include ht₀ hc hmer hsmall

/-- A watermark beyond its range stays there. -/
theorem Overflowed.paid (h : Overflowed s.merchants pass) :
    Overflowed s.merchants (pass.afterVisit id rest (.paid o' (some m₁) c)) := by
  obtain ⟨k, t, m, a, ht, hf, hbase, hcur⟩ := h
  by_cases hk : k = o.merchantId
  · subst hk
    rw [ht₀] at ht
    cases ht
    refine ⟨_, t₀.set m₁, m, a, by rw [hmer, Function.update_self], hf, hbase, ?_⟩
    rw [Tracked.set_cur]
    by_cases hcl : ∃ cl ∈ c.claim, cl.account = (o.merchantId, a)
    · obtain ⟨cl, hcl, hacc⟩ := hcl
      obtain ⟨b, _, _, h₀, h₁, -, hacc', -, hadd, -⟩ := hc.claim cl hcl
      cases h₀
      cases h₁
      obtain rfl : a = b := (Prod.mk.inj (hacc.symm.trans hacc')).2
      rcases hsmall a cl hcl hacc with hpos | hlt
      · exact le_of_add hcur hpos hadd
      · exact absurd hcur (not_le.mpr (abs_lt.mp hlt).2)
    · have hun : m₁.consumed a = t₀.cur.consumed a :=
        Option.some.inj (hc.unclaimed a fun cl hcl' he => hcl ⟨cl, hcl', he⟩)
      rw [hun]
      exact hcur
  · exact ⟨k, t, m, a, by rw [hmer, Function.update_of_ne hk, ht], hf, hbase, hcur⟩

omit hmer in
/-- The copy of the merchant that is paid, with the watermark that the claim makes of it. -/
theorem MarksOk.copy_paid (h : MarksOk s.merchants pass) {m₀ : Merchant}
    (hm₀ : s.merchants.find? o.merchantId = some m₀)
    (hfresh : ∀ cl ∈ c.claim, s.Unclaimed p pass cl.account)
    (hrange : ∀ a, m₁.consumed a < 10 ^ 14) (a : Asset) :
    MarkCopy (pass.afterVisit id rest (.paid o' (some m₁) c)) o.merchantId (t₀.set m₁) m₀ a := by
  have hclaims := claims_afterVisit_paid pass id rest o' (some m₁) c
  have hcopy := h.copy _ t₀ m₀ ht₀ hm₀ a
  obtain ⟨hsum, hlt⟩ :=
    consumed_of_confirms hc (h.cur_scaled ht₀ hm₀ a) hcopy.cur_lt (hsmall a)
  refine ⟨?_, hcopy.cents, hcopy.base_lt, hlt.resolve_left (not_le.mpr (hrange a)), ?_⟩
  · rw [Tracked.set_cur, hsum, hclaims, Ledger.total_append, hcopy.sum, add_assoc,
      Tracked.set_base]
  · rintro ⟨cl, hcl, hacc⟩
    rw [hclaims, List.mem_append, Option.mem_toList] at hcl
    rcases hcl with hcl | hcl
    · exact hcopy.row ⟨cl, hcl, hacc⟩
    · have hread := (hfresh cl hcl).1 m₀ t₀
      rw [hacc] at hread
      exact (hread hm₀ ht₀).symm

omit hmer hsmall in
/-- The claim is covered by what was read. -/
theorem MarksOk.covered_paid (h : MarksOk s.merchants pass) {m₀ : Merchant}
    (hm₀ : s.merchants.find? o.merchantId = some m₀) :
    Ledger.CoveredFrom minPaymentFraction
      (pass.afterVisit id rest (.paid o' (some m₁) c)).mark
      (pass.afterVisit id rest (.paid o' (some m₁) c)).claims := by
  rw [claims_afterVisit_paid, mark_afterVisit, Ledger.coveredFrom_append]
  refine ⟨h.covered, ?_⟩
  cases hcl : c.claim with
  | none => trivial
  | some cl =>
    obtain ⟨a, _, _, h₀, h₁, -, hacc, hamt, -, hcov⟩ := hc.claim cl hcl
    cases h₀
    cases h₁
    have hcur : pass.mark cl.account + Ledger.total pass.claims cl.account =
        t₀.cur.consumed a := by
      rw [hacc, (h.copy _ t₀ m₀ ht₀ hm₀ a).sum, Pass.mark, ht₀]
      rfl
    refine ⟨?_, trivial⟩
    simp only [hcur]
    intro hnn hpos b hb
    refine hcov ⟨hamt ▸ Scaled.numeric _, hpos, ?_⟩ ⟨h.cur_scaled ht₀ hm₀ a, hnn⟩ b hb
    rw [hamt]
    exact (abs_lt.mp (o.amountUsd.abs_value_lt (by norm_num))).2

/-- Watermarks in order stay so, unless one leaves its range. -/
theorem MarksOk.paid (h : MarksOk s.merchants pass) {m₀ : Merchant}
    (hm₀ : s.merchants.find? o.merchantId = some m₀)
    (hfresh : ∀ cl ∈ c.claim, s.Unclaimed p pass cl.account) :
    Overflowed s.merchants (pass.afterVisit id rest (.paid o' (some m₁) c)) ∨
      MarksOk s.merchants (pass.afterVisit id rest (.paid o' (some m₁) c)) := by
  have hclaims := claims_afterVisit_paid pass id rest o' (some m₁) c
  have hmem : ∀ cl, cl ∈ (pass.afterVisit id rest (.paid o' (some m₁) c)).claims ↔
      cl ∈ pass.claims ∨ cl ∈ c.claim := by
    intro cl
    rw [hclaims, List.mem_append, Option.mem_toList, Option.mem_def]
  have hacc : ∀ cl ∈ c.claim, cl.account.1 = o.merchantId ∧ Scaled 2 cl.amount := by
    intro cl hcl
    obtain ⟨_, _, _, _, _, _, hacc, hamt, _⟩ := hc.claim cl hcl
    exact ⟨by rw [hacc], hamt ▸ Scaled.numeric _⟩
  by_cases hover : ∃ a, 10 ^ 14 ≤ m₁.consumed a
  · obtain ⟨a, ha⟩ := hover
    exact .inl ⟨o.merchantId, t₀.set m₁, m₀, a, by rw [hmer, Function.update_self], hm₀,
      (abs_lt.mp (h.copy _ t₀ m₀ ht₀ hm₀ a).base_lt).2, ha⟩
  right
  refine ⟨?_, ?_, ?_, MarksOk.covered_paid ht₀ hc h hm₀⟩
  · intro k t m ht hf a
    rw [hmer] at ht
    by_cases hk : k = o.merchantId
    · subst hk
      rw [Function.update_self] at ht
      cases ht
      rw [hm₀] at hf
      cases hf
      exact MarksOk.copy_paid ht₀ hc hsmall h hm₀ hfresh
        (fun a => not_le.mp fun hle => hover ⟨a, hle⟩) a
    · rw [Function.update_of_ne hk] at ht
      refine (h.copy k t m ht hf a).append hclaims fun cl hcl he => hk ?_
      rw [← (hacc cl hcl).1, he]
  · intro cl hcl
    rcases (hmem cl).mp hcl with hcl | hcl
    · exact h.cents cl hcl
    · exact (hacc cl hcl).2
  · intro cl hcl
    rw [hmer]
    by_cases hk : cl.account.1 = o.merchantId
    · exact ⟨_, by rw [hk, Function.update_self]⟩
    · rw [Function.update_of_ne hk]
      rcases (hmem cl).mp hcl with hcl | hcl
      · exact h.copied cl hcl
      · exact absurd (hacc cl hcl).1 hk

end Paid

/-- **A fresh claim keeps the watermarks of the session in order.** -/
theorem MarksHold.paid {o : MerchantOrder} (h : MarksHold s.merchants pass)
    (hok : SessionOk s.orders s.merchants pass)
    (hc : Confirms o ((pass.merchants o.merchantId).map Tracked.cur) o' m' c)
    (hfresh : ∀ cl ∈ c.claim, s.Unclaimed p pass cl.account ∧ (0 < cl.amount ∨
      ∀ t, pass.merchants cl.account.1 = some t → |t.cur.consumed cl.account.2| < 10 ^ 14)) :
    MarksHold s.merchants (pass.afterVisit id rest (.paid o' m' c)) := by
  rcases merchants_of_confirms id rest hok hc with ⟨rfl, hnone⟩ | ⟨t₀, m₁, rfl, ht₀, hmer⟩
  · refine h.congr rfl ?_
    rw [claims_afterVisit_paid, hnone, Option.toList_none, List.append_nil]
  · rw [ht₀] at hc
    have hsmall : ∀ a, ∀ cl ∈ c.claim, cl.account = (o.merchantId, a) →
        0 < cl.amount ∨ |t₀.cur.consumed a| < 10 ^ 14 := by
      intro a cl hcl hacc
      refine (hfresh cl hcl).2.imp_right fun hall => ?_
      rw [hacc] at hall
      exact hall t₀ ht₀
    obtain ⟨m₀, hm₀⟩ := (hok.merchants _ t₀ ht₀).2
    rcases h with h | h
    · exact .inl (h.paid ht₀ hc hmer hsmall)
    · exact h.paid ht₀ hc hmer hsmall hm₀ fun cl hcl => (hfresh cl hcl).1

end Visit

/-! ## A commit -/

section Save

variable {s : System} {p : PassId} {pass : Pass}

/-- The merchants as they are stored after a commit. -/
theorem StoredOk.merchant_of_saved (h : StoredOk s) (hm : MarksOk s.merchants pass)
    (hsave : s.canSave pass) {id : MerchantId} {m : Merchant}
    (hf : s.merchants.find? id = some m) :
    ∃ m', (s.save pass).merchants.find? id = some m' ∧ m'.id = m.id ∧
      ∀ a, m'.consumed a = m.consumed a + Ledger.total pass.claims (id, a) ∧
        |m'.consumed a| < 10 ^ 14 := by
  have hfind := s.find?_save_merchants pass id
  rw [hf] at hfind
  have hrow := fun a => h.marks m (Table.find?_eq_some.mp hf).1 a
  cases ht : pass.merchants id with
  | none =>
    rw [ht] at hfind
    refine ⟨m, hfind, rfl, fun a => ?_⟩
    have hzero : Ledger.total pass.claims (id, a) = 0 := by
      refine Ledger.total_eq_zero fun c hc he => ?_
      obtain ⟨t, ht'⟩ := hm.copied c hc
      rw [he, ht] at ht'
      cases ht'
    rw [hzero, add_zero]
    exact ⟨rfl, (hrow a).2⟩
  | some t =>
    rw [ht] at hfind
    have hsum := hm.consumed_write ht hf
    refine ⟨_, hfind, rfl, fun a => ⟨hsum a, ?_⟩⟩
    show |(Merchant.write t m).consumed a| < 10 ^ 14
    rw [hsum a]
    by_cases hc : ∃ c ∈ pass.claims, c.account = (id, a)
    · have hcopy := hm.copy id t m ht hf a
      rw [hcopy.row hc, ← hcopy.sum]
      exact hm.cur_lt ht hf (fits_of_canSave hsave ht hf) a
    · rw [Ledger.total_eq_zero_of_not_mem hc, add_zero]
      exact (hrow a).2

/-- The claims of an order in the ledger are the ones its row records, after a commit too. -/
theorem StoredOk.orders_of_saved (h : StoredOk s) (hs : SessionsHold s)
    (hp : s.passes p = some pass) {o' : MerchantOrder} (ho' : o' ∈ (s.save pass).orders.rows) :
    ((s.ledger ++ pass.claims).filter fun c => c.owner = o'.id).map claimEntry = o'.claimed := by
  have hok := hs.ok p pass hp
  obtain ⟨o, hf, hcase⟩ := hs.row_of_saved hp ho'
  obtain ⟨hmem, hid⟩ := Table.find?_eq_some.mp hf
  have hold := h.orders o hmem
  rw [key_order] at hid
  rw [List.filter_append, List.map_append, ← hid, hold, hid]
  rcases hcase with ⟨hnot, rfl⟩ | ⟨t, ht, hne, hpend, -, -, hcl⟩
  · have hnone : pass.claims.filter (fun c => c.owner = o'.id) = [] := by
      rw [List.filter_eq_nil_iff]
      intro cl hcl
      obtain ⟨c, hc, hcl'⟩ := List.mem_filterMap.mp hcl
      obtain ⟨⟨t, ht⟩, howner⟩ := hok.unsaved c hc
      have hco := howner cl hcl'
      intro he
      have he' : c.order = o'.id := by rw [← hco]; simpa using he
      rw [he'] at ht
      obtain ⟨_, -, hcopy⟩ := hok.orders _ t ht
      exact hnot ⟨t, ht, (hcopy.unsaved c hc he').1⟩
    rw [hnone, List.map_nil, List.append_nil]
  · obtain ⟨_, -, hcopy⟩ := hok.orders _ t ht
    have hclaims := hcopy.claims
    rw [if_neg hne] at hclaims
    rw [hs.unclaimed o hmem hpend, List.nil_append, hclaims, hcl]

/-- **A commit appends the pass's claims to the ledger**, and adds them to the watermarks. -/
theorem StoredOk.save (h : StoredOk s) (hs : SessionsHold s) (hp : s.passes p = some pass)
    (hm : MarksOk s.merchants pass) (hsave : s.canSave pass) : StoredOk (s.save pass) where
  marks := by
    intro m' hm' a
    have hf' := Table.find?_of_mem hm'
    rw [key_merchant] at hf'
    cases hf : s.merchants.find? m'.id with
    | none =>
      rw [s.find?_save_merchants, hf] at hf'
      cases hf'
    | some m =>
      obtain ⟨m₁, hf₁, hid, hcons⟩ := h.merchant_of_saved hm hsave hf
      obtain rfl : m₁ = m' := Option.some.inj (hf₁.symm.trans hf')
      obtain ⟨hmem, -⟩ := Table.find?_eq_some.mp hf
      refine ⟨?_, (hcons a).2⟩
      rw [(hcons a).1, (h.marks m hmem a).1, hid]
      exact (Ledger.total_append _ _ _).symm
  orders := fun o' ho' => h.orders_of_saved hs hp ho'
  known := by
    intro c hc
    have hok := hs.ok p pass hp
    have hknown : (∃ o, s.orders.find? c.owner = some o) ∧
        ∃ m, s.merchants.find? c.account.1 = some m := by
      rcases List.mem_append.mp hc with hc | hc
      · exact h.known c hc
      · obtain ⟨t, ht⟩ := hm.copied c hc
        obtain ⟨cf, hcf, hcl⟩ := List.mem_filterMap.mp hc
        obtain ⟨⟨t', ht'⟩, howner⟩ := hok.unsaved cf hcf
        obtain ⟨o, ho, -⟩ := hok.orders _ t' ht'
        exact ⟨⟨o, by rw [howner c hcl, ho]⟩, (hok.merchants _ t ht).2⟩
    obtain ⟨⟨o, ho⟩, m, hm'⟩ := hknown
    obtain ⟨o', ho', -⟩ := hok.find?_saved ho
    exact ⟨⟨o', ho'⟩, SessionOk.find?_saved_merchants s pass hm'⟩
  cents := by
    intro c hc
    rcases List.mem_append.mp hc with hc | hc
    · exact h.cents c hc
    · exact hm.cents c hc
  covered := by
    show Ledger.CoveredFrom minPaymentFraction (fun _ => 0) (s.ledger ++ pass.claims)
    rw [Ledger.coveredFrom_append]
    refine ⟨h.covered, hm.covered.congr fun c hc => ?_⟩
    -- what the pass has read of a claimed watermark is the total of the ledger
    obtain ⟨t, ht⟩ := hm.copied c hc
    obtain ⟨-, m, hf⟩ := (hs.ok p pass hp).merchants _ t ht
    obtain ⟨hmem, hid⟩ := Table.find?_eq_some.mp hf
    have hread := (hm.copy _ t m ht hf c.account.2).row ⟨c, hc, rfl⟩
    rw [key_merchant] at hid
    rw [Pass.mark, ht, Option.elim_some, ← hread, (h.marks m hmem _).1, hid, zero_add]

end Save

/-! ## All passes -/

namespace LedgerHolds

variable {s : System} {p : PassId} {pass pass' : Pass}

theorem setPass (h : LedgerHolds s) (hpass : MarksHold s.merchants pass')
    (hex : ∀ q other, q ≠ p → s.passes q = some other → ∀ c ∈ pass'.claims, ∀ c' ∈ other.claims,
      c.account ≠ c'.account) : LedgerHolds (s.setPass p pass') where
  toStoredOk := { h.toStoredOk with }
  passes := by
    intro q other hq
    rcases System.passes_setPass hq with ⟨rfl, rfl⟩ | ⟨-, hold⟩
    · exact hpass
    · exact h.passes q other hold
  exclusive := by
    intro q q' other other' hne hq hq' c hc c' hc'
    rcases System.passes_setPass hq with ⟨rfl, rfl⟩ | ⟨hqp, hold⟩ <;>
      rcases System.passes_setPass hq' with ⟨rfl, rfl⟩ | ⟨hqp', hold'⟩
    · exact absurd rfl hne
    · exact hex q' other' hqp' hold' c hc c' hc'
    · exact (hex q other hqp hold c' hc' c hc).symm
    · exact h.exclusive q q' other other' hne hold hold' c hc c' hc'

/-- A pass goes on with no new claim. -/
theorem setPass_of_claims (h : LedgerHolds s) (hp : s.passes p = some pass)
    (hpass : MarksHold s.merchants pass') (hc : ∀ c ∈ pass'.claims, c ∈ pass.claims) :
    LedgerHolds (s.setPass p pass') :=
  h.setPass hpass fun q other hq hother c hcl =>
    h.exclusive p q pass other hq.symm hp hother c (hc c hcl)

theorem endPass (h : LedgerHolds s) (p : PassId) : LedgerHolds (s.endPass p) where
  toStoredOk := { h.toStoredOk with }
  passes := fun q other hq => h.passes q other (System.passes_endPass hq).2
  exclusive := fun q q' other other' hne hq hq' =>
    h.exclusive q q' other other' hne (System.passes_endPass hq).2 (System.passes_endPass hq').2

/-- The pass commits and goes on. -/
theorem save (h : LedgerHolds s) (hs : SessionsHold s) (hp : s.passes p = some pass)
    (hsave : s.canSave pass) (stage : Stage) :
    LedgerHolds ((s.save pass).setPass p { pass.synced with stage := stage }) := by
  have hok := hs.ok p pass hp
  have hm := marksOk_of_canSave hsave (h.passes p pass hp)
  have hstored := h.toStoredOk.save hs hp hm hsave
  refine { { hstored with } with passes := ?_, exclusive := ?_ }
  · intro q other hq
    rcases System.passes_setPass hq with ⟨rfl, rfl⟩ | ⟨hqp, hold⟩
    · right
      refine MarksOk.of_clean rfl fun id t ht a => ?_
      obtain ⟨t₀, ht₀, rfl⟩ := Option.map_eq_some_iff.mp ht
      obtain ⟨-, m, hf⟩ := hok.merchants id t₀ ht₀
      exact ⟨rfl, hm.cur_scaled ht₀ hf a,
        hm.cur_lt ht₀ hf (fits_of_canSave hsave ht₀ hf) a⟩
    · refine (h.passes q other hold).mono
        (fun id t ht => ((hs.ok q other hold).merchants id t ht).2) ?_
      intro id m hf
      obtain ⟨m', hf', -, hcons⟩ := h.toStoredOk.merchant_of_saved hm hsave hf
      refine ⟨m', hf', ?_⟩
      rintro a ⟨c, hc, hacc⟩
      rw [(hcons a).1, Ledger.total_eq_zero fun c' hc' he =>
        h.exclusive p q pass other hqp.symm hp hold c' hc' c hc (he.trans hacc.symm), add_zero]
  · intro q q' other other' hne hq hq' c hc c' hc'
    rcases System.passes_setPass hq with ⟨rfl, rfl⟩ | ⟨hqp, hold⟩
    · cases hc
    · rcases System.passes_setPass hq' with ⟨rfl, rfl⟩ | ⟨hqp', hold'⟩
      · cases hc'
      · exact h.exclusive q q' other other' hne hold hold' c hc c' hc'

/-- A pass visits its next order. -/
theorem visit (h : LedgerHolds s) (hs : SessionsHold s) {id : OrderId} {rest : List OrderId}
    {t : Tracked MerchantOrder} {v : Visit} {a : Answers} (hp : s.passes p = some pass)
    (hv : visitOrder pass.now a t.cur ((pass.merchants t.cur.merchantId).map Tracked.cur) = some v)
    (hfresh : s.ClaimsUnclaimed p pass id v) : LedgerHolds (s.visited p pass id rest v) := by
  have hok := hs.ok p pass hp
  have hmarks := h.passes p pass hp
  rcases visitOrder_cases hv with rfl | rfl | ⟨o', m', c, rfl, hc⟩
  · exact h.setPass_of_claims hp (hmarks.congr rfl rfl) fun _ hcl => hcl
  · exact h.setPass_of_claims hp (hmarks.congr rfl rfl) fun _ hcl => hcl
  · have hset : LedgerHolds (s.setPass p (pass.afterVisit id rest (.paid o' m' c))) := by
      apply h.setPass (hmarks.paid hok hc hfresh)
      intro q other hq hother cl hcl cl' hcl'
      rw [claims_afterVisit_paid, List.mem_append, Option.mem_toList] at hcl
      rcases hcl with hcl | hcl
      · exact h.exclusive p q pass other hq.symm hp hother cl hcl cl' hcl'
      · exact ((hfresh cl hcl).1.2 q other hq hother cl' hcl').symm
    exact { { hset.toStoredOk with } with passes := hset.passes, exclusive := hset.exclusive }

/-- Another transaction commits. -/
theorem other (h : LedgerHolds s) (hs : SessionsHold s) {m : Merchant}
    {order : Option MerchantOrder} {s' : System} (hstep : s.other m order = some s') :
    LedgerHolds s' := by
  have hfind : ∀ {id o}, s.orders.find? id = some o → s'.orders.find? id = some o :=
    System.find?_other hstep
  have hmarks : ∀ {id m₀}, s.merchants.find? id = some m₀ →
      ∃ m', s'.merchants.find? id = some m' ∧ ∀ a, m'.consumed a = m₀.consumed a :=
    System.find?_merchants_other hstep
  have hrows : ∀ o ∈ s'.orders.rows,
      (s.ledger.filter fun c => c.owner = o.id).map claimEntry = o.claimed := by
    obtain ⟨-, orders, rfl, horders⟩ := System.other_eq_some hstep
    intro o ho
    rcases horders with rfl | ⟨o₀, -, hadd, hins⟩
    · exact h.orders o ho
    · obtain ⟨hnone, hrows⟩ := Table.insert?_eq_some hins
      rw [hrows, List.mem_append, List.mem_singleton] at ho
      rcases ho with ho | rfl
      · exact h.orders o ho
      · -- a new order is unknown to the ledger
        simp only [System.mayAdd, Bool.and_eq_true, decide_eq_true_eq] at hadd
        have hnew : s.ledger.filter (fun c => c.owner = o.id) = [] := by
          rw [List.filter_eq_nil_iff]
          intro c hc he
          obtain ⟨⟨o₁, ho₁⟩, -⟩ := h.known c hc
          rw [key_order, ← show c.owner = o.id by simpa using he, ho₁] at hnone
          cases hnone
        rw [hnew, MerchantOrder.claimed, hadd.2, List.map_nil]
  obtain ⟨hmay, orders, rfl, -⟩ := System.other_eq_some hstep
  refine ⟨⟨?_, hrows, ?_, h.cents, h.covered⟩, ?_, h.exclusive⟩
  · intro m' hm' a
    have hf' := Table.find?_of_mem hm'
    rw [key_merchant, Table.find?_put] at hf'
    split_ifs at hf' with hk
    · cases hf'
      rcases System.mayWrite_cases hmay with ⟨hnone, hzero⟩ | ⟨stored, hsome, hcons⟩
      · -- a new merchant has no claims
        rw [hzero a, Ledger.total_eq_zero]
        · simp
        · intro c hc he
          obtain ⟨-, m₁, hm₁⟩ := h.known c hc
          rw [he, hnone] at hm₁
          cases hm₁
      · obtain ⟨hmem, hid⟩ := Table.find?_eq_some.mp hsome
        rw [key_merchant] at hid
        rw [hcons a, ← hid]
        exact h.marks stored hmem a
    · exact h.marks m' (Table.find?_eq_some.mp hf').1 a
  · intro c hc
    obtain ⟨⟨o, ho⟩, m', hm'⟩ := h.known c hc
    obtain ⟨m'', hm'', -⟩ := hmarks hm'
    exact ⟨⟨o, hfind ho⟩, m'', hm''⟩
  · intro q other hq
    refine (h.passes q other hq).mono (fun id t ht => ((hs.ok q other hq).merchants id t ht).2) ?_
    intro id m' hf
    obtain ⟨m'', hf', hcons⟩ := hmarks hf
    exact ⟨m'', hf', fun a _ => hcons a⟩

/-- **Fresh events keep the watermarks in step with the ledger.** -/
theorem step (h : LedgerHolds s) (hs : SessionsHold s) {e : Event} {s' : System}
    (hf : s.OnVisit s.ClaimsUnclaimed e) (hstep : s.step e = some s') : LedgerHolds s' := by
  cases Move.of_step hstep with
  | none hp => exact h
  | begin hp hpending =>
    refine h.setPass (.inr (MarksOk.of_clean rfl fun id t ht => ?_)) ?_
    · cases ht
    · intro q other _ _ c hc
      cases hc
  | @load p pass hp hst =>
    have hempty : pass.claims = [] := by rw [Pass.claims, (hs.ok p pass hp).opened hst]; rfl
    refine h.setPass_of_claims hp (.inr (MarksOk.of_clean hempty fun id t ht a => ?_))
      fun _ hc => hc
    simp only [System.loadedMerchants] at ht
    split_ifs at ht
    obtain ⟨m, hm, rfl⟩ := Option.map_eq_some_iff.mp ht
    obtain ⟨hsum, hlt⟩ := h.marks m (Table.find?_eq_some.mp hm).1 a
    exact ⟨rfl, hsum ▸ scaled_total h.cents _, hlt⟩
  | @visit p a pass id rest t v hp hst htodo ht hv =>
    refine h.visit hs hp hv (hf pass id rest v hp ?_)
    simp [Pass.nextVisit, htodo, ht, hv]
  | raise hp _ => exact h.endPass _
  | mark hp _ _ =>
    exact h.setPass_of_claims hp ((h.passes _ _ hp).congr rfl rfl) fun _ hc => hc
  | pushSave hp _ hsave => exact h.save hs hp hsave _
  | finishSave hp hsave =>
    rw [← System.endPass_setPass]
    exact (h.save hs hp hsave .looping).endPass _
  | finishLost hp _ => exact h.endPass _
  | abort hp => exact h.endPass _
  | other hother => exact h.other hs hother

end LedgerHolds

/-! ## What the invariant says of the rows -/

/-- The orders of a merchant that were paid on Solana in an asset. -/
def System.solanaPaid (s : System) (m : MerchantId) (a : Asset) : List MerchantOrder :=
  s.orders.rows.filter fun o =>
    o.merchantId = m ∧ o.paidChain = some .solana ∧ o.paidAsset = some a

theorem sum_map_filter {α : Type*} (f : α → Prop) [DecidablePred f] (w : α → ℚ) (l : List α) :
    (l.map fun x => if f x then w x else 0).sum = ((l.filter fun x => f x).map w).sum := by
  rw [List.sum_map_ite]
  simp

/-- What an order adds to the watermark of an account. -/
theorem sum_claimed (o : MerchantOrder) (m : MerchantId) (a : Asset) :
    (o.claimed.map fun x => if x.1 = (m, a) then x.2 else 0).sum =
      if o.merchantId = m ∧ o.paidChain = some .solana ∧ o.paidAsset = some a then
        o.paidAmount.getD 0 else 0 := by
  unfold MerchantOrder.claimed
  split
  · rename_i asset amount hchain hasset hamount
    by_cases h : o.merchantId = m ∧ asset = a
    · obtain ⟨rfl, rfl⟩ := h
      simp [hchain, hasset, hamount]
    · rw [if_neg (by
        rintro ⟨hm, -, ha⟩
        rw [hasset] at ha
        exact h ⟨hm, Option.some.inj ha⟩)]
      have : ¬ (o.merchantId, asset) = (m, a) := by
        intro he
        exact h (Prod.mk.inj he)
      simp [this]
  · rename_i hnot
    split_ifs with h
    · obtain ⟨-, hchain, hasset⟩ := h
      cases hq : o.paidAmount with
      | none => rfl
      | some q => exact absurd hq (hnot a q hchain hasset)
    · rfl

namespace StoredOk

variable {s : System} (h : StoredOk s)

include h

/-- **A watermark is the sum of the amounts of the orders paid on it.** -/
theorem consumed_eq_sum {m : Merchant} (hm : m ∈ s.merchants.rows) (a : Asset) :
    m.consumed a = ((s.solanaPaid m.id a).map fun o => o.paidAmount.getD 0).sum := by
  have hrow : ∀ o ∈ s.orders.rows, ((s.ledger.filter fun c => c.owner = Keyed.key o).map fun c =>
      if c.account = (m.id, a) then c.amount else 0).sum =
        if o.merchantId = m.id ∧ o.paidChain = some .solana ∧ o.paidAsset = some a then
          o.paidAmount.getD 0 else 0 := by
    intro o ho
    rw [← sum_claimed, ← h.orders o ho, List.map_map]
    rfl
  rw [(h.marks m hm a).1, Ledger.total, ← sum_map_filter,
    ← s.orders.sum_rows Claim.owner _ s.ledger, List.map_congr_left hrow, sum_map_filter,
    System.solanaPaid]
  · intro c hc
    obtain ⟨⟨o, ho⟩, -⟩ := h.known c hc
    obtain ⟨hmem, hid⟩ := Table.find?_eq_some.mp ho
    exact ⟨o, hmem, hid⟩

/-- Each order contributes at most once. -/
theorem owners_nodup : (s.ledger.map Claim.owner).Nodup := by
  rw [List.nodup_iff_count_le_one]
  intro id
  by_cases hid : id ∈ s.ledger.map Claim.owner
  · obtain ⟨c, hc, rfl⟩ := List.mem_map.mp hid
    obtain ⟨⟨o, ho⟩, -⟩ := h.known c hc
    obtain ⟨hmem, hkey⟩ := Table.find?_eq_some.mp ho
    have hlen := congrArg List.length (h.orders o hmem)
    rw [key_order] at hkey
    rw [List.length_map, hkey] at hlen
    have hone : o.claimed.length ≤ 1 := by
      unfold MerchantOrder.claimed
      split <;> simp
    rw [← hlen] at hone
    rw [List.count, List.countP_map, List.countP_eq_length_filter]
    exact hone
  · rw [List.count_eq_zero_of_not_mem hid]
    exact Nat.zero_le 1

/-- A claim in the ledger is the one that the row of its order records. -/
theorem claimed_of_mem {c : PaymentClaim} (hc : c ∈ s.ledger) {o : MerchantOrder}
    (ho : o ∈ s.orders.rows) (howner : c.owner = o.id) : o.claimed = [claimEntry c] := by
  have hmem : claimEntry c ∈ o.claimed := by
    rw [← h.orders o ho]
    exact List.mem_map_of_mem (List.mem_filter.mpr ⟨hc, by simpa using howner⟩)
  unfold MerchantOrder.claimed at hmem ⊢
  split at hmem
  · rw [List.mem_singleton] at hmem
    rw [hmem]
  · cases hmem

end StoredOk

end Gateway
