import Gateway.Merchant.Webhook
import Gateway.Poll.Rows
import Gateway.Settlement.Backing
import Gateway.Settlement.Spellings

/-!
# What merchants are told

A pass posts a webhook from its own copy of an order, before it commits, while other passes and
transactions write the same rows. In every interleaving, and with any providers below the payment
check, each webhook is a JSON text from which its receiver reads the identifier, the reference and
the amount of a stored order as they stay for good, and the receipt that the pass is about to store
(`webhooks_read`). The floats of the text are no exception: whatever balance the rounds decide on,
it is a number that is sent with an error of at most `2 ^ -51` of it.
-/

namespace Gateway

open Foundations Foundations.Decimal

/-! ## Amounts that are sent -/

/-- The number that a receiver reads for an amount. -/
structure SentAs (amount v : ℚ) : Prop where
  value_eq : (Binary64.ofRat amount).value? = some v
  close : |v - amount| ≤ |amount| / 2 ^ 51
  exact_of_digits : Binary64.HasDigits 15 amount → v = amount

theorem exists_sentAs_of_normal {amount : ℚ} (h : Binary64.IsNormal amount) :
    ∃ v, SentAs amount v := by
  obtain ⟨v, hv, hclose⟩ := Binary64.exists_value?_ofRat h
  refine ⟨v, hv, hclose, fun hdigits => ?_⟩
  rw [Binary64.value?_ofRat_of_digits hdigits h] at hv
  exact (Option.some.inj hv).symm

theorem sentAs_numeric (x : Numeric 10 2) : SentAs x.value x.value where
  value_eq := value?_ofRat_numeric x
  close := by
    rw [sub_self, abs_zero]
    positivity
  exact_of_digits := fun _ => rfl

/-! ### What the rounds decide -/

/-- What the check reads has been decided by rounds of a run, as far as it does not raise. -/
def RoundReads (s : Rounds) (reads : ConsensusReads) : Prop :=
  ∀ v contract holder result, reads v contract holder = some result →
    ∃ r round raws, s.active r = some round ∧ round.validator = v ∧
      round.contractAddress = contract ∧ round.holderAddress = holder ∧
      round.results = some raws ∧ v.ethCallBalanceOf raws = some result

/-- A round decides on a 256-bit number, whoever votes. -/
theorem RoundReads.uint256 {es : List RoundEvent} {s : Rounds}
    (h : exec Rounds.step Rounds.initial es = some s) {reads : ConsensusReads}
    (hreads : RoundReads s reads) {v : RpcConsensusValidator} {contract holder : String}
    {result : ConsensusResult} (hread : reads v contract holder = some result) {raw : ℤ}
    (hraw : result.value = some raw) : 0 ≤ raw ∧ raw < 2 ^ 256 := by
  obtain ⟨r, round, raws, hr, rfl, -, -, hraws, hresult⟩ := hreads v contract holder result hread
  rcases RpcConsensusValidator.ethCallBalanceOf_cases (ActiveRound.results_eq_some hraws).1 with
    ⟨-, result', hresult', -, hnone⟩ | ⟨vote, -, hquorum, ⟨-, hraise⟩ | ⟨n, result', hn, hresult', -,
      hsome⟩⟩
  · obtain rfl : result = result' := Option.some.inj (hresult.symm.trans hresult')
    rw [hnone] at hraw
    cases hraw
  · rw [hraise] at hresult
    cases hresult
  · obtain rfl : result = result' := Option.some.inj (hresult.symm.trans hresult')
    obtain rfl : n = raw := Option.some.inj (hsome.symm.trans hraw)
    have hvote : 0 < raws.count (some vote) := by
      have := round.validator.two_le_quorum
      omega
    exact uint256_of_decodeVote (Rounds.isValidHexUint_of_vote h hr hraws hvote) hn

/-- What the EVM check reports is the quotient of a 256-bit number, rounded to 28 digits. -/
theorem quotient_of_checkEvmPayment {es : List RoundEvent} {s : Rounds}
    (h : exec Rounds.step Rounds.initial es = some s) {settings : Settings} {reads : ConsensusReads}
    (hreads : RoundReads s reads) {evmAddress : String} {amountUsd : ℚ} {m : EvmMatch}
    (hm : checkEvmPayment settings reads evmAddress amountUsd = some (some m)) :
    ∃ (t : EvmToken) (raw : ℤ), 0 < raw ∧ raw < 2 ^ 256 ∧
      m.amount = Context.default.round (t.quotient raw) := by
  rw [checkEvmPayment_eq] at hm
  obtain ⟨t, -, ht⟩ := firstMatch_sound hm
  obtain ⟨v, hv⟩ := evmValidator_ok settings t.chain t.rpcUrl
  simp only [checkToken, hv, checkContract] at ht
  obtain ⟨consensus, hread, ht⟩ := Option.bind_eq_some_iff.mp ht
  split_ifs at ht
  · obtain ⟨raw, hraw, ht⟩ := Option.bind_eq_some_iff.mp ht
    obtain ⟨h0, hlt⟩ := hreads.uint256 h hread hraw
    split_ifs at ht with hzero
    · simp at ht
    · rw [EvmToken.div_eq h0 hlt, Option.bind_some] at ht
      obtain ⟨threshold, -, ht⟩ := Option.bind_eq_some_iff.mp ht
      split_ifs at ht
      · simp at ht
      · cases ht
        exact ⟨t, raw, lt_of_le_of_ne h0 (Ne.symm hzero), hlt, rfl⟩
  · simp at ht

/-- The least unit of a token is a number that a decimal context represents. -/
theorem representable_unit : Context.default.Representable (1 / 10 ^ 18) := by
  refine representable_of_scaled (s := 18) (by norm_num) ⟨1, by norm_num⟩ ?_
  rw [abs_of_pos (by norm_num)]
  norm_num

/-- **Whatever balance is decided on can be sent.** -/
theorem isNormal_quotient {t : EvmToken} {raw : ℤ} (h0 : 0 < raw) (hlt : raw < 2 ^ 256) :
    Binary64.IsNormal (Context.default.round (t.quotient raw)) := by
  have hunit : 1 / 10 ^ 18 ≤ t.quotient raw := by
    have hraw : (1 : ℚ) ≤ raw := by exact_mod_cast h0
    have hpow : (10 : ℚ) ^ evmStablecoinDecimals t.chain ≤ 10 ^ 18 :=
      pow_le_pow_right₀ (by norm_num) (evmStablecoinDecimals_le t.chain)
    exact div_le_div₀ (by linarith) hraw (by positivity) hpow
  have hlow := Context.le_round representable_unit hunit
  refine .of_digits (le_trans ?_ (hlow.trans (le_abs_self _))) ?_
  · norm_num
  · refine (Context.abs_round_le (by decide) (EvmToken.abs_quotient_le h0.le hlt)).trans ?_
    norm_num

/-! ### The payments of a visit -/

/-- The EVM verdict about an order comes from the EVM check, in rounds of a run. -/
def RoundCheck (o : MerchantOrder) (evm : Option (Option EvmMatch)) : Prop :=
  ∃ es s settings reads, exec Rounds.step Rounds.initial es = some s ∧ RoundReads s reads ∧
    evm = checkEvmPayment settings reads o.evmAddress o.amountUsd.value

theorem exists_sentAs_of_payment {a : Answers} {o : MerchantOrder} {m : Option Merchant}
    {payment : Payment} (hevm : RoundCheck o a.evm)
    (h : findPayment a o m = some (some payment)) : ∃ v, SentAs payment.amount v := by
  cases payment with
  | evm found =>
    obtain ⟨es, s, settings, reads, hs, hreads, heq⟩ := hevm
    rw [evm_of_findPayment h] at heq
    obtain ⟨t, raw, h0, hlt, hamount⟩ := quotient_of_checkEvmPayment hs hreads heq.symm
    rw [Payment.amount, hamount]
    exact exists_sentAs_of_normal (isNormal_quotient h0 hlt)
  | solana found =>
    obtain ⟨m₀, -, hcheck⟩ := findPayment_solana h
    obtain ⟨hamount, -, -⟩ := checkSolanaPayment_eq_match hcheck
    rw [Payment.amount, hamount]
    exact ⟨_, sentAs_numeric o.amountUsd⟩

/-! ## The copies of the passes -/

/-- The columns of an order that nothing writes once it is stored. -/
def MerchantOrder.heading (o : MerchantOrder) :
    OrderId × MerchantId × Option String × String × Numeric 10 2 × Timestamp :=
  (o.id, o.merchantId, o.orderReference, o.terms)

theorem heading_of_visit {now : Timestamp} {a : Answers} {o o' : MerchantOrder}
    {m : Option Merchant} {v : Visit} (h : visitOrder now a o m = some v)
    (ho' : v.order? = some o') : o'.heading = o.heading := by
  rcases visitOrder_cases h with rfl | rfl | ⟨o₁, m₁, c, rfl, -⟩
  · cases ho'
    rfl
  · cases ho'
  · cases ho'
    obtain ⟨-, payment, -, hconfirm⟩ := confirm_of_visit h
    cases m with
    | none =>
      cases hconfirm
      rfl
    | some m =>
      simp only [confirm, Visit.paid.injEq] at hconfirm
      obtain ⟨rfl, -⟩ := hconfirm
      split_ifs <;> rfl

/-- A pass works on copies of stored orders. -/
def Pass.Headed (orders : Table MerchantOrder) (pass : Pass) : Prop :=
  ∀ id t, pass.orders id = some t → ∃ o, orders.find? id = some o ∧ t.cur.heading = o.heading

/-- The copies of the passes have the headings of their stored rows. -/
def System.Headed (s : System) : Prop := ∀ p pass, s.passes p = some pass → pass.Headed s.orders

/-- A stored order stays, with its heading. -/
def System.Keeps (s s' : System) : Prop :=
  ∀ id o, s.orders.find? id = some o → ∃ o', s'.orders.find? id = some o' ∧ o'.heading = o.heading

namespace System

variable {s s' : System} {p : PassId} {pass pass' : Pass}

theorem Keeps.refl (s : System) : s.Keeps s := fun _ o ho => ⟨o, ho, rfl⟩

theorem keeps_save (s : System) (pass : Pass) : s.Keeps (s.save pass) := by
  intro id o ho
  rw [s.find?_save, ho, Option.map_some]
  cases pass.orders id <;> exact ⟨_, rfl, rfl⟩

/-- **An event leaves the headings of the orders alone.** -/
theorem keeps_of_move {e : Event} (h : Move s e s') : s.Keeps s' := by
  cases h with
  | finishSave _ _ => exact s.keeps_save _
  | pushSave _ _ _ => exact s.keeps_save _
  | other hother => exact fun id o ho => ⟨o, find?_other hother ho, rfl⟩
  | @visit _ _ _ _ _ _ v _ _ _ _ _ => cases v <;> exact .refl s
  | _ => exact .refl s

theorem keeps_of_exec {es : List Event} (h : exec step s es = some s') : s.Keeps s' := by
  intro id o ho
  have hstep : ∀ (s₁ : System) e s₂,
      (∃ o₁, s₁.orders.find? id = some o₁ ∧ o₁.heading = o.heading) → s₁.step e = some s₂ →
        ∃ o₂, s₂.orders.find? id = some o₂ ∧ o₂.heading = o.heading := by
    rintro s₁ e s₂ ⟨o₁, ho₁, hheading⟩ hstep
    obtain ⟨o₂, ho₂, hsame⟩ := keeps_of_move (.of_step hstep) id o₁ ho₁
    exact ⟨o₂, ho₂, hsame.trans hheading⟩
  exact exec_invariant hstep h ⟨o, ho, rfl⟩

end System

namespace Pass.Headed

variable {s s' : System} {pass : Pass}

theorem mono (h : pass.Headed s.orders) (hs : s.Keeps s') : pass.Headed s'.orders := by
  intro id t ht
  obtain ⟨o, ho, hheading⟩ := h id t ht
  obtain ⟨o', ho', hsame⟩ := hs id o ho
  exact ⟨o', ho', hheading.trans hsame.symm⟩

theorem openPass {now : Timestamp} {pending : List MerchantOrder}
    (hpending : s.isPendingList pending) : (System.openPass now pending).Headed s.orders := by
  intro id t ht
  obtain ⟨ho, -⟩ := EvmWorld.copy_of_openPass hpending ht
  exact ⟨t.cur, ho, rfl⟩

theorem visited (h : pass.Headed s.orders) {id : OrderId} (rest : List OrderId)
    {t : Tracked MerchantOrder} {a : Answers} {m : Option Merchant} {v : Visit}
    (ht : pass.orders id = some t) (hv : visitOrder pass.now a t.cur m = some v) :
    (pass.afterVisit id rest v).Headed s.orders := by
  intro i t' ht'
  rw [PassWhole.orders_afterVisit] at ht'
  cases ho : v.order? with
  | none =>
    rw [ho] at ht'
    exact h i t' ht'
  | some o =>
    rw [ho, Option.elim_some, Function.update_apply] at ht'
    split_ifs at ht' with hi
    · subst hi
      rw [ht, Option.map_some, Option.some.injEq] at ht'
      obtain ⟨row, hrow, hheading⟩ := h i t ht
      exact ⟨row, hrow, by rw [← ht', Tracked.set_cur, heading_of_visit hv ho, hheading]⟩
    · exact h i t' ht'

end Pass.Headed

namespace System.Headed

variable {s s' : System} {p : PassId} {pass pass' : Pass}

/-- A pass goes on over the same orders. -/
theorem setPass (h : s.Headed) (hpass : pass'.Headed s.orders) : (s.setPass p pass').Headed := by
  intro q other hq
  rcases System.passes_setPass hq with ⟨rfl, rfl⟩ | ⟨-, hold⟩
  · exact hpass
  · exact h q other hold

theorem endPass (h : s.Headed) (p : PassId) : (s.endPass p).Headed :=
  fun q other hq => h q other (System.passes_endPass hq).2

theorem save (h : s.Headed) (hp : s.passes p = some pass) (stage : Stage) :
    ((s.save pass).setPass p { pass.synced with stage := stage }).Headed := by
  have hsaved : (s.save pass).Headed := fun q other hq => (h q other hq).mono (s.keeps_save pass)
  refine hsaved.setPass fun id t' ht' => ?_
  obtain ⟨t, ht, rfl⟩ := Option.map_eq_some_iff.mp ht'
  exact (h p pass hp).mono (s.keeps_save pass) id t ht

/-- **Every event leaves the passes with copies of stored orders.** -/
theorem step (h : s.Headed) {e : Event} (hmove : Move s e s') : s'.Headed := by
  cases hmove with
  | none _ => exact h
  | begin _ hpending => exact h.setPass (.openPass hpending)
  | load hp _ => exact h.setPass fun id t ht => h _ _ hp id t ht
  | @visit p a pass id rest t v hp _ _ ht hv =>
    have hset := h.setPass (p := p) ((h p pass hp).visited rest ht hv)
    cases v <;> exact hset
  | raise _ _ => exact h.endPass _
  | mark hp _ _ => exact h.setPass fun id t ht => h _ _ hp id t ht
  | pushSave hp _ _ => exact h.save hp _
  | finishSave hp _ =>
    rw [← System.endPass_setPass]
    exact (h.save hp .looping).endPass _
  | finishLost _ _ => exact h.endPass _
  | abort _ => exact h.endPass _
  | other hother =>
    have hkeeps := System.keeps_of_move (.other hother)
    obtain ⟨-, orders, rfl, -⟩ := System.other_eq_some hother
    exact fun q other hq => (h q other hq).mono hkeeps

end System.Headed

/-! ## Secrets -/

@[simp] theorem Merchant.webhookSecret_confirmed (clock : Timestamp) (payment : Payment) (q : ℚ)
    (m : Merchant) :
    ((m.claimPayment payment).bookVolume clock q).webhookSecret = m.webhookSecret := by
  have hclaim : (m.claimPayment payment).webhookSecret = m.webhookSecret := by
    cases payment with
    | evm em => rfl
    | solana sm =>
      rw [claimPayment]
      cases sm.asset <;> rfl
  rw [← hclaim]
  unfold bookVolume
  split_ifs
  · exact webhookSecret_ensureBillingCycleCurrent clock _
  · rfl

/-- A merchant had this secret at some moment of a run. -/
def System.HadSecret (s₀ : System) (es : List Event) (k : MerchantId) (secret : String) : Prop :=
  ∃ es₁ s₁ m, es₁ <+: es ∧ exec System.step s₀ es₁ = some s₁ ∧ s₁.merchants.find? k = some m ∧
    m.webhookSecret = secret

/-- The passes work on copies of merchants that have the secrets of stored rows. -/
def System.Signs (had : MerchantId → String → Prop) (s : System) : Prop :=
  ∀ p pass, s.passes p = some pass → ∀ k c, pass.merchants k = some c →
    c.cur.id = k ∧ had k c.cur.webhookSecret

/-- **The secrets in the sessions were stored** when the passes read them. -/
theorem System.signs_of_exec {s₀ s : System} {es : List Event} (h0 : ∀ p, s₀.passes p = none)
    (hes : exec System.step s₀ es = some s) : s.Signs (s₀.HadSecret es) := by
  have hstart : s₀.Signs (s₀.HadSecret es) := by
    intro p pass hp
    rw [h0 p] at hp
    cases hp
  have run : Run System.step (fun _ _ => True) s₀ es s :=
    .of_exec_of_forall (fun _ _ _ => trivial) hes
  refine (run.reached (exec_nil s₀)).invariant (fun s₁ e s₂ hs hreached hstep => ?_) hstart
  obtain ⟨-, es₁, hbefore, hexec⟩ := hreached
  refine (Move.of_step hstep).copies (fun _ _ hc => hc.1) (fun k m hm => ?_)
    (fun _ _ _ _ _ hc => ⟨by simp [hc.1], by simpa using hc.2⟩) (fun _ _ hc => hc) hs
  exact ⟨(Table.find?_eq_some.mp hm).2, es₁, s₁, m, hbefore, hexec, hm, rfl⟩

/-! ## The webhooks of a run -/

/-- The notice tells of an order, and of the receipt that it has been paid with. -/
structure WebhookNotice.Tells (n : WebhookNotice) (o : MerchantOrder) (r : Receipt) : Prop where
  orderId_eq : n.orderId = o.id
  orderReference_eq : n.orderReference = o.orderReference
  amountUsd_eq : n.amountUsd = o.amountUsd.value
  paidAsset_eq : n.paidAsset = r.asset
  paidChain_eq : n.paidChain = r.chain
  paidAt_eq : n.paidAt = r.paidAt
  paidAmount_sent : SentAs r.amount n.paidAmount

/-- The EVM verdicts of the visits of orders that are not due come from rounds of a run. -/
def System.ChecksByRounds (s : System) : Event → Prop
  | .visit p a => ∀ pass id rest r t, s.passes p = some pass →
      pass.nextVisit a = some (id, rest, r) → pass.orders id = some t →
      pass.now < t.cur.expiresAt → RoundCheck t.cur a.evm
  | _ => True

section Webhooks

variable (hmacSha256 : (key data : Bytes) → Bytes)

/-- A webhook is delivered when it is posted and accepted. -/
theorem deliverWebhook_eq (merchant : Merchant) (order : MerchantOrder) (response : Option ℕ) :
    deliverWebhook merchant response =
      ((webhookRequest hmacSha256 merchant order).isSome && response.any (· < 400)) := by
  unfold deliverWebhook webhookRequest
  split_ifs with hurl
  · rfl
  · cases response <;> rfl

/-- The webhook that an event posts. -/
def System.webhook (s : System) : Event → Option WebhookRequest
  | .visit p a =>
    (s.passes p).bind fun pass => (pass.nextVisit a).bind fun next =>
      match next.2.2 with
      | some (.paid order (some merchant) _) => webhookRequest hmacSha256 merchant order
      | _ => none
  | _ => none

variable {hmacSha256}

/-- A webhook is about an order that a visit pays. -/
theorem System.webhook_eq_some {s : System} {e : Event} {request : WebhookRequest}
    (h : s.webhook hmacSha256 e = some request) : ∃ p a pass id rest t order merchant c,
      e = .visit p a ∧ s.passes p = some pass ∧ pass.todo = id :: rest ∧ pass.orders id = some t ∧
        visitOrder pass.now a t.cur ((pass.merchants t.cur.merchantId).map Tracked.cur) =
          some (.paid order (some merchant) c) ∧
        webhookRequest hmacSha256 merchant order = some request := by
  cases e with
  | visit p a =>
    obtain ⟨pass, hp, h⟩ := Option.bind_eq_some_iff.mp h
    obtain ⟨⟨id, rest, r⟩, hnext, h⟩ := Option.bind_eq_some_iff.mp h
    obtain ⟨htodo, t, ht, hr⟩ := Pass.nextVisit_eq_some hnext
    simp only at h
    split at h
    · rename_i order merchant c
      exact ⟨p, a, pass, id, rest, t, order, merchant, c, rfl, hp, htodo, ht, hr.symm, h⟩
    · cases h
  | _ => cases h

/-- What is posted is the payload, with its signature. -/
theorem webhookRequest_eq_some {merchant : Merchant} {order : MerchantOrder}
    {request : WebhookRequest} (h : webhookRequest hmacSha256 merchant order = some request) :
    request.content = JsonText.dumps order.webhookPayload ∧
      request.headers.lookup "X-Zynost-Signature" =
        some (signWebhookPayload hmacSha256 merchant.webhookSecret request.content) := by
  unfold webhookRequest at h
  split_ifs at h
  obtain rfl := Option.some.inj h
  exact ⟨rfl, rfl⟩

/-- The merchant that a webhook is for has the identifier and the secret that the pass has read. -/
theorem merchant_of_visit {now : Timestamp} {a : Answers} {o o' : MerchantOrder}
    {m : Option Merchant} {m' : Merchant} {c : Confirmation}
    (h : visitOrder now a o m = some (.paid o' (some m') c)) :
    ∃ m₀, m = some m₀ ∧ m'.id = m₀.id ∧ m'.webhookSecret = m₀.webhookSecret := by
  obtain ⟨-, payment, -, hconfirmed⟩ := confirm_of_visit h
  cases m with
  | none => cases hconfirmed
  | some m₀ =>
    simp only [confirm, Visit.paid.injEq, Option.some.injEq] at hconfirmed
    obtain ⟨-, rfl, -⟩ := hconfirmed
    exact ⟨m₀, rfl, by simp, by simp⟩

/-- **Merchants are told what is stored.** In every interleaving of passes with other transactions,
whoever the providers are that vote in the rounds of the checks: the receiver of a webhook reads the
identifier, reference and amount of a stored order, which stay as they are, and the receipt that is
now in the session of the pass, which is for at least 99% of the amount on an EVM chain and for the
whole amount on Solana, and made out in time. The webhook is signed with the secret in the pass's
copy of the order's merchant, which was stored when the pass read it. -/
theorem webhooks_read {s₀ s s₁ s' : System} {es es' : List Event} {e : Event}
    (h0 : ∀ p, s₀.passes p = none) (hes : exec System.step s₀ es = some s)
    (he : s.step e = some s₁) (hes' : exec System.step s₁ es' = some s')
    (hids : ∀ o ∈ s.orders.rows, o.id < 2 ^ 128)
    (htimes : ∀ p pass, s.passes p = some pass → Calendar.InRange pass.now)
    (hchecks : s.ChecksByRounds e) {request : WebhookRequest}
    (hpost : s.webhook hmacSha256 e = some request) :
    ∃ n o r p pass t c, readWebhook request.content = some n ∧
      s'.orders.find? n.orderId = some o ∧ n.Tells o r ∧ fairReceipt o.terms r.stored ∧
      s₁.passes p = some pass ∧ pass.orders o.id = some t ∧ t.cur.Carries r ∧
      pass.merchants o.merchantId = some c ∧ s₀.HadSecret es o.merchantId c.cur.webhookSecret ∧
      request.headers.lookup "X-Zynost-Signature" =
        some (signWebhookPayload hmacSha256 c.cur.webhookSecret request.content) := by
  obtain ⟨p, a, pass, id, rest, t, order, merchant, c, rfl, hp, htodo, ht, hv, hrequest⟩ :=
    System.webhook_eq_some hpost
  obtain ⟨hcontent, hsignature⟩ := webhookRequest_eq_some hrequest
  have hnext : pass.nextVisit a = some (id, rest, some (.paid order (some merchant) c)) := by
    simp only [Pass.nextVisit, htodo, ht, Option.map_some, hv]
  -- the visit has found a payment in time
  obtain ⟨hearly, -, payment, hfound, hcarries⟩ := receipt_of_visit hv
  have hround := hchecks pass id rest _ t hp hnext ht hearly
  obtain ⟨v, hsent⟩ := exists_sentAs_of_payment hround hfound
  obtain ⟨-, -, settings, reads, -, -, hevm⟩ := hround
  have hfair := fairReceipt_of_payment hearly hfound hevm
  -- the order that it has visited is stored
  have hheaded : s.Headed := by
    refine exec_invariant (fun s₁ e s₂ h hs => h.step (.of_step hs)) hes fun p pass hp => ?_
    rw [h0 p] at hp
    cases hp
  obtain ⟨o, ho, hcopy⟩ := hheaded p pass hp id t ht
  obtain ⟨hmem, hid⟩ := Table.find?_eq_some.mp ho
  obtain ⟨o₁, ho₁, hstep⟩ := System.keeps_of_move (.of_step he) id o ho
  obtain ⟨o', ho', hrest⟩ := System.keeps_of_exec hes' id o₁ ho₁
  have hterms : order.terms = t.cur.terms := (visited_of_visitOrder hv rfl).1
  have horder : order.heading = o'.heading := by
    rw [heading_of_visit hv rfl, hcopy, hrest, hstep]
  have hid' : o'.id = id := (Table.find?_eq_some.mp ho').2
  simp only [MerchantOrder.heading, Prod.mk.injEq] at horder
  obtain ⟨horderId, hmerchant, hreference, hsame⟩ := horder
  have hamount : order.amountUsd = o'.amountUsd := congrArg (fun terms => terms.2.1) hsame
  have hlt : order.id < 2 ^ 128 := by
    rw [horderId, hid', ← hid]
    exact hids o hmem
  have hread := readWebhook_payload hlt hcarries.1 hcarries.2.1 hcarries.2.2.1 hcarries.2.2.2
    (htimes p pass hp) hsent.value_eq
  -- its merchant has signed with a secret that was stored
  obtain ⟨m₀, hm₀, hown, hsecret⟩ := merchant_of_visit hv
  obtain ⟨c₀, hc₀, rfl⟩ := Option.map_eq_some_iff.mp hm₀
  obtain ⟨hkey, hhad⟩ := System.signs_of_exec h0 hes p pass hp _ c₀ hc₀
  have hmerchantId : o'.merchantId = merchant.id := by
    rw [hown, hkey, ← hmerchant]
    have hheading := heading_of_visit hv rfl
    simp only [MerchantOrder.heading, Prod.mk.injEq] at hheading
    exact hheading.2.1
  -- and the session now holds the receipt
  obtain ⟨pass', hp', he⟩ := Option.bind_eq_some_iff.mp he
  obtain rfl := Option.some.inj (hp.symm.trans hp')
  split_ifs at he
  rw [hnext, Option.map_some, Option.some.injEq] at he
  subst he
  refine ⟨_, o', payment.receipt pass.now, p, _, t.set order, c₀.set merchant,
    (congrArg readWebhook hcontent).trans hread,
    ?_, ⟨horderId, hreference, congrArg Numeric.value hamount, rfl, rfl, rfl, hsent⟩, ?_,
    System.passes_setPass_self .., ?_, hcarries, ?_, ?_, hsignature⟩
  · rw [horderId, hid']
    exact ho'
  · rw [← hsame, hterms]
    exact hfair
  · rw [hid', PassWhole.orders_afterVisit]
    simp [Visit.order?, ht]
  · have hcopy : pass.merchants merchant.id = some c₀ := by rw [hown, hkey, hc₀]
    simp [Pass.afterVisit, hmerchantId, hcopy]
  · rw [Tracked.set_cur, hsecret, hmerchantId, hown, hkey]
    exact hhad

end Webhooks

/-! ### A webhook with a reference -/

/-- An order of $5 with a reference. -/
def toldOrder : MerchantOrder :=
  { sampleOrder 1 with
    evmAddress := "0xab", amountUsd := fiveDollars, orderReference := some "Käse \"Nr. 1\"" }

/-- What the check of its visit reads: one round, and nothing else. -/
def toldReads : ConsensusReads := fun v contract holder =>
  if v = keyedValidator ∧ contract = "0x55d398326f99059ff775485246999027b3197955" ∧
      holder = "0xab" then
    v.ethCallBalanceOf [some "0x4563918244f40000", some "0x4563918244f40000", some "0x0"]
  else none

/-- The answers to a visit in whose round one provider reports an empty address. -/
def toldAnswers : Answers :=
  { sampleAnswers 0 with
    evm := checkEvmPayment keyedSettings toldReads "0xab" fiveDollars.value }

/-- The order is created, and a pass comes to it. -/
def toldRun : List Event :=
  [.other sampleMerchant (some toldOrder), .begin 0 99 [toldOrder], .loadMerchants 0]

/-- Is the next order of the pass at the address of the sample, and of its amount? -/
def System.isTold (s : System) : Bool :=
  (s.passes 0).all fun pass => pass.now = 99 && pass.todo.all fun id =>
    (pass.orders id).all fun t => t.cur.evmAddress = "0xab" && t.cur.amountUsd = fiveDollars

theorem roundReads_told : ∃ s, exec Rounds.step Rounds.initial lyingRound = some s ∧
    RoundReads s toldReads := by
  obtain ⟨s, round, hs, hround, hraws, hv, hcontract, hholder⟩ := exec_lyingRound
  refine ⟨s, hs, fun v contract holder result hread => ?_⟩
  unfold toldReads at hread
  split_ifs at hread with hasked
  obtain ⟨rfl, rfl, rfl⟩ := hasked
  exact ⟨0, round, _, hround, hv, hcontract, hholder, hraws, hread⟩

theorem webhooks_read_told : ∃ s s₁ request n o r,
    exec System.step (sampleSystem [] (by decide)) toldRun = some s ∧
      s.step (.visit 0 toldAnswers) = some s₁ ∧
      s.webhook (fun key data => key ++ data) (.visit 0 toldAnswers) = some request ∧
      readWebhook request.content = some n ∧ s₁.orders.find? n.orderId = some o ∧ n.Tells o r := by
  have hrun : ((exec System.step (sampleSystem [] (by decide)) toldRun).bind fun s =>
      (s.step (.visit 0 toldAnswers)).bind fun _ =>
        (s.webhook (fun key data => key ++ data) (.visit 0 toldAnswers)).map
          fun request => (s.orders.rows.map MerchantOrder.id, s.isTold, request.url)) =
      some ([1], true, "https://shop.example/hook") := by
    decide +kernel
  obtain ⟨s, hs, hrun⟩ := Option.bind_eq_some_iff.mp hrun
  obtain ⟨s₁, hs₁, hrun⟩ := Option.bind_eq_some_iff.mp hrun
  obtain ⟨request, hpost, hdata⟩ := Option.map_eq_some_iff.mp hrun
  simp only [Prod.mk.injEq] at hdata
  obtain ⟨hids, htold, -⟩ := hdata
  have hidle := idle_of_exec (p := 0) (fun _ _ => rfl) (by simp [toldRun, Event.pass?]) hs
  have hpass : ∀ p pass, s.passes p = some pass → pass.now = 99 ∧ ∀ id rest t,
      pass.todo = id :: rest → pass.orders id = some t →
        t.cur.evmAddress = "0xab" ∧ t.cur.amountUsd = fiveDollars := by
    intro p pass hp
    by_cases hzero : p = 0
    · subst hzero
      simp only [System.isTold, hp, Option.all_some, Bool.and_eq_true, decide_eq_true_eq] at htold
      refine ⟨htold.1, fun id rest t htodo ht => ?_⟩
      have hnext := htold.2
      simp only [htodo, List.all_cons, ht, Option.all_some, Bool.and_eq_true,
        decide_eq_true_eq] at hnext
      exact hnext.1
    · rw [hidle p hzero] at hp
      cases hp
  obtain ⟨n, o, r, -, -, -, -, hn, ho, htells, -⟩ := webhooks_read
    (fun _ => rfl) hs hs₁ (exec_nil s₁)
    (by
      intro o ho
      have hid := List.mem_map_of_mem (f := MerchantOrder.id) ho
      rw [hids, List.mem_singleton] at hid
      rw [hid]
      norm_num)
    (by
      intro p pass hp
      rw [(hpass p pass hp).1]
      exact ⟨by norm_num, by norm_num⟩)
    (by
      intro pass id rest r t hp hnext ht _
      obtain ⟨haddress, hamount⟩ :=
        (hpass 0 pass hp).2 id rest t (Pass.nextVisit_eq_some hnext).1 ht
      obtain ⟨rounds, hrounds, hreads⟩ := roundReads_told
      exact ⟨_, rounds, keyedSettings, toldReads, hrounds, hreads, by rw [haddress, hamount]; rfl⟩)
    hpost
  exact ⟨s, s₁, request, n, o, r, hs, hs₁, hpost, hn, ho, htells⟩

end Gateway
