import Gateway.Foundations.Accounts
import Gateway.Merchant.Fees
import Gateway.Poll.Deliveries

/-!
# The books

The amount of an order that is confirmed for a volume-billed merchant is added to the volume of the
session's copy, in the cycle that the copy is in, and stored with the next commit. `Books` are kept
beside the system: the confirmations that have been committed, and for each merchant an account to
which their amounts are posted with each commit, cycle by cycle. As long as the visits decide
undecided orders and no confirmation is dropped, every confirmation is committed once, or still in
the session of its pass (`Committed`).
-/

namespace Gateway

open Foundations

/-! ## Accounts of volumes -/

/-- A contribution to a stored volume: its order, its amount and its clock. -/
abbrev VolumeEntry := Entry OrderId Timestamp ℚ

/-- The contributions to one merchant's stored volume, by the order they come from. -/
abbrev VolumeAccount := Account OrderId Timestamp ℚ

/-- The entries that some confirmations make in the account of a merchant. -/
def entriesFor (k : MerchantId) (cs : List Confirmation) : List VolumeEntry :=
  cs.filterMap fun c => c.contribution.bind fun x =>
    if x.merchant = k then some { owner := c.order, amount := x.amount, time := x.clock } else none

theorem mem_entriesFor {k : MerchantId} {cs : List Confirmation} {e : VolumeEntry} :
    e ∈ entriesFor k cs ↔ ∃ c ∈ cs, ∃ x ∈ c.contribution, x.merchant = k ∧
      e = { owner := c.order, amount := x.amount, time := x.clock } := by
  simp only [entriesFor, List.mem_filterMap, Option.bind_eq_some_iff, Option.ite_none_right_eq_some,
    Option.some.injEq, Option.mem_def, eq_comm (a := e)]

theorem entriesFor_append (k : MerchantId) (cs cs' : List Confirmation) :
    entriesFor k (cs ++ cs') = entriesFor k cs ++ entriesFor k cs' := List.filterMap_append

/-- The entries are those of different confirmations. -/
theorem owners_entriesFor_sublist (k : MerchantId) (cs : List Confirmation) :
    ((entriesFor k cs).map Entry.owner).Sublist (cs.map Confirmation.order) := by
  induction cs with
  | nil => exact List.Sublist.refl _
  | cons c cs ih =>
    rw [← List.singleton_append, entriesFor_append, List.map_append, List.map_append]
    refine List.Sublist.append ?_ ih
    cases hx : c.contribution with
    | none => simp [entriesFor, hx]
    | some x =>
      by_cases hk : x.merchant = k
      · simp [entriesFor, hx, hk]
      · simp [entriesFor, hx, hk]

namespace Merchant

/-- What a row says of its volume, as an account without entries. -/
def account (m : Merchant) : VolumeAccount where
  ends := m.billingCycleResetAt
  opening := m.monthlyVolumeUsd
  entries := []

/-- The row is in the cycle of the account, with its total as the volume. -/
structure StandsAt (m : Merchant) (a : VolumeAccount) : Prop where
  resetAt : m.billingCycleResetAt = a.ends
  volume : m.monthlyVolumeUsd = a.total

/-- The columns of the volume are stored as the session has them. -/
structure StoredAs (m row : Merchant) : Prop where
  resetAt : row.billingCycleResetAt = m.billingCycleResetAt
  volume : row.monthlyVolumeUsd = storeNumeric 2 m.monthlyVolumeUsd

/-- The columns of the volume are the same. -/
structure SameVolume (m m' : Merchant) : Prop where
  resetAt : m'.billingCycleResetAt = m.billingCycleResetAt
  volume : m'.monthlyVolumeUsd = m.monthlyVolumeUsd

theorem total_account (m : Merchant) : m.account.total = m.monthlyVolumeUsd := by
  simp [account, Account.total]

theorem standsAt_account (m : Merchant) : m.StandsAt m.account :=
  ⟨rfl, m.total_account.symm⟩

variable {m m' : Merchant} {a : VolumeAccount}

theorem StandsAt.same (h : m.StandsAt a) (hsame : m.SameVolume m') : m'.StandsAt a :=
  ⟨hsame.resetAt.trans h.resetAt, hsame.volume.trans h.volume⟩

theorem sameVolume_claimPayment (payment : Payment) (m : Merchant) :
    m.SameVolume (m.claimPayment payment) :=
  ⟨(sameCycle_claimPayment payment m).resetAt, (claimPayment_fees payment m).1⟩

/-- What is booked for a volume-billed merchant is posted to the account. -/
theorem StandsAt.bookVolume (h : m.StandsAt a) (hmode : m.billingMode = .volume)
    (e : VolumeEntry) : (m.bookVolume e.time e.amount).StandsAt (a.post monthlyReset e) := by
  have hover : m.cycleOver e.time = a.isOver e.time := by
    rw [cycleOver, Account.isOver, h.resetAt]
    cases a.ends with
    | none => rfl
    | some ends => simp
  obtain ⟨hlapse, hvolume, -⟩ := lapsePlan_cycle e.time (m.rollOver e.time)
  rw [Merchant.bookVolume, if_pos hmode]
  constructor
  · rw [Account.ends_post, ← hover, ← h.resetAt]
    refine hlapse.resetAt.trans ?_
    rw [rollOver]
    split_ifs <;> rfl
  · rw [Account.total_post, ← hover, ← h.volume]
    show ((m.rollOver e.time).lapsePlan e.time).monthlyVolumeUsd + e.amount = _
    rw [hvolume, rollOver]
    split_ifs
    · exact zero_add _
    · rfl

end Merchant

section Visit

variable {now : Timestamp} {a : Answers} {o o' : MerchantOrder} {m m₁ : Merchant}
  {c : Confirmation}

/-- A contribution is made to the merchant of the order. -/
theorem entriesFor_of_visit (h : visitOrder now a o (some m) = some (.paid o' (some m₁) c))
    {k : MerchantId} (hk : k ≠ m.id) : entriesFor k [c] = [] := by
  rcases contribution_of_visit h with ⟨hnone, -⟩ | ⟨m₀, payment, hm, -, hc⟩
  · cases hnone
  · cases hm
    have hne : ∀ x ∈ c.contribution, x.merchant ≠ k := by
      intro x hx
      rw [hc, Merchant.contribution] at hx
      split_ifs at hx
      · obtain rfl := Option.some.inj hx
        exact hk.symm
      · cases hx
    cases hx : c.contribution with
    | none => simp [entriesFor, hx]
    | some x => simp [entriesFor, hx, hne x hx]

/-- A visit posts the contribution of its confirmation, if there is one. -/
theorem standsAt_of_visit (h : visitOrder now a o (some m) = some (.paid o' (some m₁) c))
    {acc : VolumeAccount} (hm : m.StandsAt acc) :
    m₁.StandsAt (acc.postAll monthlyReset (entriesFor m.id [c])) := by
  rcases contribution_of_visit h with ⟨hnone, -⟩ | ⟨m₀, payment, hm₀, hm₁, hc⟩
  · cases hnone
  · cases hm₀
    cases hm₁
    have hclaimed := hm.same (Merchant.sameVolume_claimPayment payment m)
    have hmode := (sameCycle_claimPayment payment m).mode
    rw [Merchant.contribution] at hc
    split_ifs at hc with hvolume
    · have hentries : entriesFor m.id [c] =
          [{ owner := c.order, amount := payment.amount, time := a.clock }] := by
        simp [entriesFor, hc]
      rw [hentries, Account.postAll_cons, Account.postAll_nil]
      exact hclaimed.bookVolume (hmode.trans hvolume) ⟨c.order, payment.amount, a.clock⟩
    · have hentries : entriesFor m.id [c] = [] := by simp [entriesFor, hc]
      rw [hentries, Account.postAll_nil, Merchant.bookVolume, if_neg (by rwa [hmode])]
      exact hclaimed

end Visit

/-! ## The books -/

/-- The accounts of the merchants, and the confirmations that have been committed. -/
structure Books where
  accounts : MerchantId → VolumeAccount
  committed : List Confirmation

/-- Post what a session commits. -/
def Books.post (b : Books) (cs : List Confirmation) : Books where
  accounts := fun k => (b.accounts k).postAll monthlyReset (entriesFor k cs)
  committed := b.committed ++ cs

namespace System

/-- The session that the event commits. -/
def committing (s : System) : Event → Option Pass
  | .push p .commits => (s.passes p).filter fun pass => s.canSave pass
  | .finish p => (s.passes p).filter fun pass => s.canSave pass
  | _ => none

/-- Does another transaction leave the volume alone when it writes this merchant? -/
def keepsVolume (s : System) (m : Merchant) : Bool :=
  (s.merchants.find? m.id).any fun stored =>
    stored.billingCycleResetAt = m.billingCycleResetAt &&
      stored.monthlyVolumeUsd = m.monthlyVolumeUsd

end System

theorem System.sameVolume_of_keepsVolume {s : System} {m : Merchant} (h : s.keepsVolume m) :
    ∃ m₀, s.merchants.find? m.id = some m₀ ∧ m₀.SameVolume m := by
  obtain ⟨m₀, hf, hsame⟩ := (Option.any_eq_true _ _).mp h
  simp only [Bool.and_eq_true, decide_eq_true_eq] at hsame
  exact ⟨m₀, hf, hsame.1.symm, hsame.2.symm⟩

/-- A commit posts the session's confirmations; a row whose volume another transaction has written
opens its account anew. -/
def Books.note (s : System) (e : Event) (b : Books) : Books :=
  match e with
  | .other m _ =>
    if s.keepsVolume m then b
    else { b with accounts := Function.update b.accounts m.id m.account }
  | e => (s.committing e).elim b fun pass => b.post pass.unsaved

/-- The books at the start. -/
def System.openBooks (s : System) : Books where
  accounts := fun k => (s.merchants.find? k).elim ⟨none, 0, []⟩ Merchant.account
  committed := []

/-- The books after some events. -/
def System.books (s : System) (es : List Event) : Books :=
  history System.step Books.note s s.openBooks es

/-! ## What is committed -/

/-- Every confirmation is committed once, or still in the session of its pass; what is committed is
stored as paid, and the entries of the accounts are of committed confirmations. -/
structure Committed (s : System) (b : Books) : Prop where
  once : (b.committed.map Confirmation.order).Nodup
  paid : ∀ c ∈ b.committed, ∃ o, s.orders.find? c.order = some o ∧ o.status = .paid
  kept : ∀ c ∈ s.confirmed, c ∈ b.committed ∨ ∃ p pass, s.passes p = some pass ∧ c ∈ pass.unsaved
  session : ∀ p pass, s.passes p = some pass → (pass.unsaved.map Confirmation.order).Nodup
  entries : ∀ k, (b.accounts k).entries.Sublist (entriesFor k b.committed)

namespace Committed

variable {s s' : System} {b : Books} {p : PassId} {pass pass' : Pass}

/-- The owners of the entries of an account are different orders. -/
theorem owners_nodup (h : Committed s b) (k : MerchantId) :
    ((b.accounts k).entries.map Entry.owner).Nodup :=
  h.once.sublist (((h.entries k).map _).trans (owners_entriesFor_sublist k _))

/-- A pass goes on with its unsaved confirmations. -/
theorem setPass (h : Committed s b) (hnodup : (pass'.unsaved.map Confirmation.order).Nodup)
    (hp : ∀ pass, s.passes p = some pass → ∀ c ∈ pass.unsaved, c ∈ pass'.unsaved) :
    Committed (s.setPass p pass') b where
  once := h.once
  paid := h.paid
  kept := by
    intro c hc
    rcases h.kept c hc with hmem | ⟨q, other, hq, hmem⟩
    · exact .inl hmem
    · right
      by_cases hqp : q = p
      · subst hqp
        exact ⟨q, pass', Function.update_self .., hp other hq c hmem⟩
      · exact ⟨q, other, (Function.update_of_ne hqp ..).trans hq, hmem⟩
  session := by
    intro q other hq
    rcases System.passes_setPass hq with ⟨-, rfl⟩ | ⟨-, hold⟩
    · exact hnodup
    · exact h.session q other hold
  entries := h.entries

/-- A pass without unsaved confirmations ends. -/
theorem endPass (h : Committed s b)
    (hp : ∀ pass, s.passes p = some pass → pass.unsaved = []) : Committed (s.endPass p) b where
  once := h.once
  paid := h.paid
  kept := by
    intro c hc
    rcases h.kept c hc with hmem | ⟨q, other, hq, hmem⟩
    · exact .inl hmem
    · right
      by_cases hqp : q = p
      · subst hqp
        rw [hp other hq] at hmem
        cases hmem
      · exact ⟨q, other, (Function.update_of_ne hqp ..).trans hq, hmem⟩
  session := fun q other hq => h.session q other (System.passes_endPass hq).2
  entries := h.entries

/-- A commit moves the session's confirmations to the books. -/
theorem save (h : Committed s b) (hs : SessionsHold s) (hp : s.passes p = some pass)
    (stage : Stage) :
    Committed ((s.save pass).setPass p { pass.synced with stage := stage })
      (b.post pass.unsaved) where
  once := by
    show ((b.committed ++ pass.unsaved).map Confirmation.order).Nodup
    rw [List.map_append, List.nodup_append]
    refine ⟨h.once, h.session p pass hp, ?_⟩
    -- what is committed is paid, what is unsaved still pending
    intro i hi j hj hij
    obtain ⟨c, hc, rfl⟩ := List.mem_map.mp hi
    obtain ⟨c', hc', rfl⟩ := List.mem_map.mp hj
    obtain ⟨o, ho, hpaid⟩ := h.paid c hc
    obtain ⟨o', ho', hpend⟩ := hs.pending_of_unsaved hp hc'
    rw [hij, ho'] at ho
    cases ho
    rw [hpend] at hpaid
    cases hpaid
  paid := by
    have hok := hs.ok p pass hp
    intro c hc
    rcases List.mem_append.mp hc with hc | hc
    · obtain ⟨o, hf, hpaid⟩ := h.paid c hc
      obtain ⟨o', hf', -, -, -, ⟨-, rfl⟩ | ⟨-, -, -, hpend, -⟩⟩ := hok.find?_saved hf
      · exact ⟨o', hf', hpaid⟩
      · rw [hpaid] at hpend
        cases hpend
    · obtain ⟨⟨t, ht⟩, -⟩ := hok.unsaved c hc
      obtain ⟨o, hf, hcopy⟩ := hok.orders _ t ht
      obtain ⟨hne, hpaid⟩ := hcopy.unsaved c hc rfl
      obtain ⟨o', hf', -, -, -, ⟨hnot, -⟩ | ⟨t', ht', -, -, hst, -⟩⟩ := hok.find?_saved hf
      · exact absurd ⟨t, ht, hne⟩ hnot
      · obtain rfl : t = t' := Option.some.inj (ht.symm.trans ht')
        exact ⟨o', hf', hst.trans hpaid⟩
  kept := by
    intro c hc
    rcases h.kept c hc with hmem | ⟨q, other, hq, hmem⟩
    · exact .inl (List.mem_append_left _ hmem)
    · by_cases hqp : q = p
      · subst hqp
        obtain rfl : pass = other := Option.some.inj (hp.symm.trans hq)
        exact .inl (List.mem_append_right _ hmem)
      · exact .inr ⟨q, other, (Function.update_of_ne hqp ..).trans hq, hmem⟩
  session := by
    intro q other hq
    rcases System.passes_setPass hq with ⟨-, rfl⟩ | ⟨-, hold⟩
    · exact List.nodup_nil
    · exact h.session q other hold
  entries := by
    intro k
    show ((b.accounts k).postAll monthlyReset (entriesFor k pass.unsaved)).entries.Sublist
      (entriesFor k (b.committed ++ pass.unsaved))
    rw [entriesFor_append]
    exact (Account.entries_postAll_sublist _ _ _).trans ((h.entries k).append_right _)

/-- A pass visits its next order. -/
theorem visit (h : Committed s b) (hs : SessionsHold s) {id : OrderId} {rest : List OrderId}
    {t : Tracked MerchantOrder} {v : Visit} {a : Answers} (hp : s.passes p = some pass)
    (htodo : pass.todo = id :: rest) (ht : pass.orders id = some t)
    (hv : visitOrder pass.now a t.cur ((pass.merchants t.cur.merchantId).map Tracked.cur) =
      some v) : Committed (s.visited p pass id rest v) b := by
  have hok := hs.ok p pass hp
  have hnodup := h.session p pass hp
  have hsame : ∀ {pass'}, pass'.unsaved = pass.unsaved → Committed (s.setPass p pass') b := by
    intro pass' hun
    refine h.setPass (by rwa [hun]) fun pass₀ hp₀ => ?_
    obtain rfl : pass = pass₀ := Option.some.inj (hp.symm.trans hp₀)
    rw [hun]
    exact fun _ hc => hc
  rcases visitOrder_cases hv with rfl | rfl | ⟨o', m', c, rfl, hc⟩
  · exact hsame rfl
  · exact hsame rfl
  · obtain ⟨r, -, hcopy⟩ := hok.orders id t ht
    have horder : c.order = id := hc.order_eq.trans hcopy.cur_id
    have hset : Committed (s.setPass p (pass.afterVisit id rest (.paid o' m' c))) b := by
      refine h.setPass ?_ fun pass₀ hp₀ c' hc' => ?_
      · show ((pass.unsaved ++ [c]).map Confirmation.order).Nodup
        rw [List.map_append, List.nodup_append]
        refine ⟨hnodup, by simp, ?_⟩
        intro i hi j hj hij
        obtain ⟨c', hc', rfl⟩ := List.mem_map.mp hi
        obtain rfl : j = c.order := by simpa using hj
        exact hok.not_unsaved_of_todo (by simp [htodo]) c' hc' (hij.trans horder)
      · obtain rfl : pass = pass₀ := Option.some.inj (hp.symm.trans hp₀)
        exact List.mem_append_left _ hc'
    refine { hset with kept := fun c' hc' => ?_ }
    rcases List.mem_append.mp hc' with hc' | hc'
    · exact hset.kept c' hc'
    · refine .inr ⟨p, pass.afterVisit id rest (.paid o' m' c), Function.update_self .., ?_⟩
      exact List.mem_append_right _ hc'

/-- Another transaction commits. -/
theorem other (h : Committed s b) {m : Merchant} {order : Option MerchantOrder}
    (hs : s.other m order = some s') : Committed s' (b.note s (.other m order)) := by
  have hfind : ∀ {id o}, s.orders.find? id = some o → s'.orders.find? id = some o :=
    System.find?_other hs
  obtain ⟨-, orders, rfl, -⟩ := System.other_eq_some hs
  have hcommitted : (b.note s (.other m order)).committed = b.committed := by
    simp only [Books.note]
    split_ifs <;> rfl
  refine ⟨by rw [hcommitted]; exact h.once, ?_, by rw [hcommitted]; exact h.kept, h.session, ?_⟩
  · intro c hc
    rw [hcommitted] at hc
    obtain ⟨o, hf, hpaid⟩ := h.paid c hc
    exact ⟨o, hfind hf, hpaid⟩
  · intro k
    rw [hcommitted]
    simp only [Books.note]
    split_ifs
    · exact h.entries k
    · by_cases hk : k = m.id
      · subst hk
        simp only [Function.update_self]
        exact List.nil_sublist _
      · simp only [Function.update_of_ne hk]
        exact h.entries k

end Committed

/-! ## Notes of events -/

section Notes

variable {s : System} {b : Books} {p : PassId} {pass : Pass}

theorem note_push (hp : s.passes p = some pass) (hsave : s.canSave pass) :
    b.note s (.push p .commits) = b.post pass.unsaved := by
  simp [Books.note, System.committing, hp, Option.filter_some, hsave]

theorem note_finish (hp : s.passes p = some pass) (hsave : s.canSave pass) :
    b.note s (.finish p) = b.post pass.unsaved := by
  simp [Books.note, System.committing, hp, Option.filter_some, hsave]

theorem note_finish_lost (hp : s.passes p = some pass) (hlost : s.canSave pass = false) :
    b.note s (.finish p) = b := by
  simp [Books.note, System.committing, hp, Option.filter_some, hlost]

theorem note_mark (hp : s.passes p = some pass) {o : PushOutcome}
    (hlost : o = .commits → s.canSave pass = false) : b.note s (.push p o) = b := by
  cases o with
  | commits => simp [Books.note, System.committing, hp, Option.filter_some, hlost rfl]
  | _ => rfl

end Notes

/-- **What is confirmed is committed once**, as long as the visits decide undecided orders and no
pass that has confirmed something ends without a commit. -/
theorem Committed.step {s s' : System} {b : Books} (h : Committed s b) (hs : SessionsHold s)
    {e : Event} (hl : Lossless (fun _ => true) s e) (hstep : s.step e = some s') :
    Committed s' (b.note s e) := by
  have hend : ∀ {p pass}, s.passes p = some pass → pass ∈ s.dropped e →
      Committed (s.endPass p) b := by
    intro p pass hp hd
    refine h.endPass fun pass₀ hp₀ => ?_
    obtain rfl : pass = pass₀ := Option.some.inj (hp.symm.trans hp₀)
    exact List.eq_nil_iff_forall_not_mem.mpr fun c hc => by simpa using hl pass hd c hc
  have hsame : ∀ {p pass pass'}, s.passes p = some pass → pass'.unsaved = pass.unsaved →
      Committed (s.setPass p pass') b := by
    intro p pass pass' hp hun
    refine h.setPass (by rw [hun]; exact h.session p pass hp) fun pass₀ hp₀ c hc => ?_
    obtain rfl : pass = pass₀ := Option.some.inj (hp.symm.trans hp₀)
    rwa [hun]
  cases Move.of_step hstep with
  | none hp => exact h
  | begin hp _ =>
    refine h.setPass List.nodup_nil fun pass₀ hp₀ => ?_
    rw [hp] at hp₀
    cases hp₀
  | load hp _ => exact hsame hp rfl
  | visit hp _ htodo ht hv => exact h.visit hs hp htodo ht hv
  | raise hp hv => exact hend hp (by simp [System.dropped, hp, hv])
  | mark hp _ hlost =>
    rw [note_mark hp hlost.2]
    exact hsame hp rfl
  | pushSave hp _ hsave =>
    rw [note_push hp hsave]
    exact h.save hs hp _
  | @finishSave p pass hp hsave =>
    rw [note_finish hp hsave, ← System.endPass_setPass]
    refine (h.save hs hp .looping).endPass fun pass₀ hp₀ => ?_
    rcases System.passes_setPass hp₀ with ⟨-, rfl⟩ | ⟨hne, -⟩
    · rfl
    · exact absurd rfl hne
  | finishLost hp hlost =>
    rw [note_finish_lost hp hlost]
    exact hend hp (by simp [System.dropped, hp, hlost])
  | abort hp => exact hend hp hp
  | other hother => exact h.other hother

theorem Start.committed {s : System} (h : Start s) : Committed s s.openBooks where
  once := List.nodup_nil
  paid := by simp [System.openBooks]
  kept := by simp [h.confirmed]
  session := fun p pass hp => by rw [h.idle p] at hp; cases hp
  entries := by
    intro k
    have hnone : (s.openBooks.accounts k).entries = [] := by
      simp only [System.openBooks]
      cases s.merchants.find? k <;> rfl
    rw [hnone]
    exact List.nil_sublist _

end Gateway
