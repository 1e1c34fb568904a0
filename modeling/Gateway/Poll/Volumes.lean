import Gateway.Poll.Books

/-!
# The volumes and the books

A stored volume stands where the account of its merchant does, up to the rounding of the commits
(`VolumesHold`), as long as a visit adds to a volume only if the pass has read it as it is stored
and no other running pass has added to it, and other transactions leave such a volume alone
(`FreshVolumes`). Passes one after another meet this as long as nobody else writes the volumes
while one of them is running (`VolumesRead`).
-/

namespace Gateway

open Foundations

/-! ## Current volumes -/

namespace System

/-- The volume that the pass has read is the stored one, up to the rounding of its last commit, and
no other pass has added to it. -/
def Unbooked (s : System) (p : PassId) (pass : Pass) (k : MerchantId) : Prop :=
  (∀ m t, s.merchants.find? k = some m → pass.merchants k = some t → t.base.StoredAs m) ∧
    ∀ q pass', q ≠ p → s.passes q = some pass' → entriesFor k pass'.unsaved = []

/-- A visit that adds to a volume adds to one that nobody else has added to. -/
def BooksUnbooked (s : System) (p : PassId) (pass : Pass) (_ : OrderId) : Visit → Prop
  | .paid _ _ confirmation => ∀ x ∈ confirmation.contribution, s.Unbooked p pass x.merchant
  | _ => True

/-- Another transaction writes a volume only if no running pass has added to it. -/
def WritesUnbooked (s : System) : Event → Prop
  | .other m _ =>
    s.keepsVolume m ∨ ∀ p pass, s.passes p = some pass → entriesFor m.id pass.unsaved = []
  | _ => True

/-- The volumes are added to, and written, on current data. -/
def FreshVolumes (s : System) (e : Event) : Prop :=
  s.OnVisit s.BooksUnbooked e ∧ s.WritesUnbooked e

/-- The contributions, and the volumes that other transactions write, are of a kind. -/
def BooksIn (C : AddSubmonoid ℚ) (s : System) (e : Event) : Prop :=
  (s.OnVisit fun _ _ _ v =>
    match v with
    | .paid _ _ confirmation => ∀ x ∈ confirmation.contribution, x.amount ∈ C
    | _ => True) e ∧
  match e with
  | .other m _ => m.monthlyVolumeUsd ∈ C
  | _ => True

theorem booksIn_top (s : System) (e : Event) : s.BooksIn ⊤ e := by
  constructor
  · cases e with
    | visit p a =>
      intro pass id rest v _ _
      cases v with
      | paid o m c => exact fun x _ => AddSubmonoid.mem_top _
      | _ => trivial
    | _ => trivial
  · cases e with
    | other m order => exact AddSubmonoid.mem_top _
    | _ => trivial

end System

/-! ## Rounding -/

/-- Storing a volume of a kind takes it this far at most. -/
structure Rounding (C : AddSubmonoid ℚ) (ε : ℚ) : Prop where
  store : ∀ x ∈ C, storeNumeric 2 x ∈ C
  close : ∀ x ∈ C, |storeNumeric 2 x - x| ≤ ε

/-- Amounts in cents. -/
def cents : AddSubmonoid ℚ where
  carrier := {x | Scaled 2 x}
  add_mem' := Scaled.add
  zero_mem' := Scaled.zero 2

theorem rounding_top : Rounding ⊤ (1 / 200) where
  store := fun _ _ => AddSubmonoid.mem_top _
  close := fun x _ => (abs_storeNumeric_sub_le 2 x).trans_eq (by norm_num)

theorem rounding_cents : Rounding cents 0 where
  store := fun x hx => by
    rwa [storeNumeric_of_scaled le_rfl hx]
  close := fun x hx => by
    rw [storeNumeric_of_scaled le_rfl hx, sub_self, abs_zero]

theorem Rounding.nonneg {C : AddSubmonoid ℚ} {ε : ℚ} (h : Rounding C ε) : 0 ≤ ε :=
  (abs_nonneg _).trans (h.close 0 C.zero_mem)

/-- A row is in the cycle of an account, with its total as the volume up to the rounding of a
commit for each entry. -/
structure Merchant.StandsNear (ε : ℚ) (m : Merchant) (a : VolumeAccount) : Prop where
  resetAt : m.billingCycleResetAt = a.ends
  close : |m.monthlyVolumeUsd - a.total| ≤ 2 * ε * a.entries.length

/-- Without rounding the row stands at the account. -/
theorem Merchant.StandsNear.standsAt {m : Merchant} {a : VolumeAccount}
    (h : m.StandsNear 0 a) : m.StandsAt a := by
  refine ⟨h.resetAt, ?_⟩
  have hclose := h.close
  rw [mul_zero, zero_mul] at hclose
  exact sub_eq_zero.mp (abs_nonpos_iff.mp hclose)

/-! ## One pass -/

/-- What holds of a pass's copy `t` of the stored merchant `m`. -/
structure VolumeCopy (C : AddSubmonoid ℚ) (pass : Pass) (id : MerchantId) (t : Tracked Merchant)
    (m : Merchant) : Prop where
  stands : t.cur.StandsAt (t.base.account.postAll monthlyReset (entriesFor id pass.unsaved))
  base_mem : t.base.monthlyVolumeUsd ∈ C
  cur_mem : t.cur.monthlyVolumeUsd ∈ C
  /-- A volume with unsaved contributions is stored as it was read. -/
  row : entriesFor id pass.unsaved ≠ [] → t.base.StoredAs m

/-- What holds of a running pass. -/
structure VolumesOk (C : AddSubmonoid ℚ) (merchants : Table Merchant) (pass : Pass) : Prop where
  copy : ∀ id t m, pass.merchants id = some t → merchants.find? id = some m →
    VolumeCopy C pass id t m
  copied : ∀ id, pass.merchants id = none → entriesFor id pass.unsaved = []

namespace Merchant

variable {m m' row : Merchant}

/-- What is stored of a copy that was stored as it was read. -/
theorem StoredAs.write {t : Tracked Merchant} (h : t.base.StoredAs row) :
    t.cur.StoredAs (Merchant.write t row) := by
  constructor
  · show writeBack t.base.billingCycleResetAt t.cur.billingCycleResetAt row.billingCycleResetAt = _
    rw [h.resetAt, writeBack_fresh]
  · show writeBackAs (storeNumeric 2) t.base.monthlyVolumeUsd t.cur.monthlyVolumeUsd
      row.monthlyVolumeUsd = _
    rw [writeBackAs]
    split_ifs with hclean
    · rw [h.volume, hclean]
    · rfl

theorem SameVolume.write {t : Tracked Merchant} (h : t.base.SameVolume t.cur) (row : Merchant) :
    row.SameVolume (Merchant.write t row) := by
  constructor
  · show writeBack t.base.billingCycleResetAt t.cur.billingCycleResetAt row.billingCycleResetAt = _
    rw [h.resetAt]
    exact writeBackAs_clean _ _
  · show writeBackAs (storeNumeric 2) t.base.monthlyVolumeUsd t.cur.monthlyVolumeUsd
      row.monthlyVolumeUsd = _
    rw [h.volume]
    exact writeBackAs_clean _ _

theorem StoredAs.same (h : m.StoredAs row) (hsame : row.SameVolume m') : m.StoredAs m' :=
  ⟨hsame.resetAt.trans h.resetAt, hsame.volume.trans h.volume⟩

theorem StandsNear.same {ε : ℚ} {a : VolumeAccount} (h : m.StandsNear ε a)
    (hsame : m.SameVolume m') : m'.StandsNear ε a :=
  ⟨hsame.resetAt.trans h.resetAt, by rw [hsame.volume]; exact h.close⟩

end Merchant

namespace VolumeCopy

variable {C : AddSubmonoid ℚ} {ε : ℚ} {pass : Pass} {id : MerchantId} {t : Tracked Merchant}
  {m : Merchant}

/-- Without unsaved contributions the copy is as it was read. -/
theorem sameVolume (h : VolumeCopy C pass id t m) (hnone : entriesFor id pass.unsaved = []) :
    t.base.SameVolume t.cur := by
  have hstands := h.stands
  rw [hnone, Account.postAll_nil] at hstands
  exact ⟨hstands.resetAt, hstands.volume.trans t.base.total_account⟩

/-- Only the contributions to its merchant matter. -/
theorem congr {pass' : Pass} (h : VolumeCopy C pass id t m)
    (hsame : entriesFor id pass'.unsaved = entriesFor id pass.unsaved) :
    VolumeCopy C pass' id t m where
  stands := by
    rw [hsame]
    exact h.stands
  base_mem := h.base_mem
  cur_mem := h.cur_mem
  row := by
    rw [hsame]
    exact h.row

/-- A confirmation adds to the copy what it contributes. -/
theorem book {pass' : Pass} {m₁ : Merchant} {c : Confirmation} (h : VolumeCopy C pass id t m)
    (hunsaved : entriesFor id pass'.unsaved = entriesFor id pass.unsaved ++ entriesFor id [c])
    (hstands : m₁.StandsAt (t.base.account.postAll monthlyReset (entriesFor id pass'.unsaved)))
    (hread : ∀ x ∈ c.contribution, x.merchant = id → t.base.StoredAs m)
    (hin : ∀ x ∈ c.contribution, x.amount ∈ C) : VolumeCopy C pass' id (t.set m₁) m where
  stands := hstands
  base_mem := h.base_mem
  cur_mem := by
    rw [Tracked.set_cur, hstands.volume, hunsaved, Account.postAll_append]
    refine Account.total_postAll_mem _ C ?_ fun e he => ?_
    · rw [← h.stands.volume]
      exact h.cur_mem
    · obtain ⟨_, hc, x, hx, -, rfl⟩ := mem_entriesFor.mp he
      obtain rfl := List.mem_singleton.mp hc
      exact hin x hx
  row := by
    intro hne
    by_cases hold : entriesFor id pass.unsaved = []
    · -- the first contribution is made on current data
      rw [hunsaved, hold, List.nil_append] at hne
      obtain ⟨e, he⟩ := List.exists_mem_of_ne_nil _ hne
      obtain ⟨_, hc, x, hx, hk, -⟩ := mem_entriesFor.mp he
      obtain rfl := List.mem_singleton.mp hc
      exact hread x hx hk
    · exact h.row hold

theorem write_mem (hr : Rounding C ε) (h : VolumeCopy C pass id t m)
    (hm : m.monthlyVolumeUsd ∈ C) : (Merchant.write t m).monthlyVolumeUsd ∈ C := by
  show writeBackAs (storeNumeric 2) t.base.monthlyVolumeUsd t.cur.monthlyVolumeUsd
    m.monthlyVolumeUsd ∈ C
  rw [writeBackAs]
  split_ifs
  · exact hm
  · exact hr.store _ h.cur_mem

/-- **A commit posts the pass's contributions** to the account of a stored row. -/
theorem standsNear_write (hr : Rounding C ε) (h : VolumeCopy C pass id t m) {a : VolumeAccount}
    (ha : m.StandsNear ε a) : (Merchant.write t m).StandsNear ε
      (a.postAll monthlyReset (entriesFor id pass.unsaved)) := by
  by_cases hnone : entriesFor id pass.unsaved = []
  · rw [hnone, Account.postAll_nil]
    exact ha.same ((h.sameVolume hnone).write m)
  have hrow := h.row hnone
  have hwritten := hrow.write
  have hends : a.ends = t.base.account.ends := ha.resetAt.symm.trans hrow.resetAt
  obtain ⟨hends', hcase⟩ :=
    Account.postAll_compare monthlyReset hends (entriesFor id pass.unsaved)
  refine ⟨?_, ?_⟩
  · rw [hwritten.resetAt, h.stands.resetAt, hends']
  have hstored : |(Merchant.write t m).monthlyVolumeUsd - t.cur.monthlyVolumeUsd| ≤ ε := by
    rw [hwritten.volume]
    exact hr.close _ h.cur_mem
  have hpos : (1 : ℚ) ≤ (entriesFor id pass.unsaved).length := by
    exact_mod_cast List.length_pos_iff.mpr hnone
  have hε := hr.nonneg
  rcases hcase with ⟨hdiff, hentries⟩ | ⟨htotal, hentries⟩
  · -- the copy is as far from the account as what was read
    rw [← h.stands.volume, Merchant.total_account] at hdiff
    have hread : |m.monthlyVolumeUsd - t.base.monthlyVolumeUsd| ≤ ε := by
      rw [hrow.volume]
      exact hr.close _ h.base_mem
    have hnear := ha.close
    rw [hentries, List.length_append]
    push_cast
    have hgrow := mul_le_mul_of_nonneg_left hpos hε
    rw [abs_le] at hread hnear hstored ⊢
    constructor <;> linarith
  · have hlen : (1 : ℚ) ≤
        (a.postAll monthlyReset (entriesFor id pass.unsaved)).entries.length := by
      exact_mod_cast List.length_pos_iff.mpr hentries
    have hgrow := mul_le_mul_of_nonneg_left hlen hε
    rw [htotal, ← h.stands.volume]
    exact hstored.trans (by linarith)

end VolumeCopy

namespace VolumesOk

variable {C : AddSubmonoid ℚ} {merchants merchants' : Table Merchant} {s : System} {p : PassId}
  {pass pass' : Pass} {id : OrderId} {rest : List OrderId} {a : Answers} {o o' : MerchantOrder}
  {m' : Option Merchant} {c : Confirmation}

/-- Only the copies of merchants and the contributions matter. -/
theorem congr (h : VolumesOk C merchants pass) (hm : pass'.merchants = pass.merchants)
    (hc : ∀ k, entriesFor k pass'.unsaved = entriesFor k pass.unsaved) :
    VolumesOk C merchants pass' where
  copy := fun k t m ht hf => by
    exact (h.copy k t m (by rw [← hm, ht]) hf).congr (hc k)
  copied := fun k hk => by
    rw [hc]
    exact h.copied k (by rw [← hm, hk])

/-- Other sessions may write the volumes that the pass has not added to. -/
theorem mono (h : VolumesOk C merchants pass)
    (hok : ∀ id t, pass.merchants id = some t → ∃ m, merchants.find? id = some m)
    (hrows : ∀ id m, merchants.find? id = some m → ∃ m', merchants'.find? id = some m' ∧
      (entriesFor id pass.unsaved ≠ [] → m.SameVolume m')) : VolumesOk C merchants' pass where
  copy := by
    intro k t m₁ ht hf₁
    obtain ⟨m, hf⟩ := hok k t ht
    obtain ⟨m₂, hf₂, hsame⟩ := hrows k m hf
    obtain rfl : m₂ = m₁ := Option.some.inj (hf₂.symm.trans hf₁)
    have hcopy := h.copy k t m ht hf
    exact { hcopy with row := fun hne => (hcopy.row hne).same (hsame hne) }
  copied := h.copied

/-- A pass whose copies have just been read or committed. -/
theorem of_clean (hnone : pass.unsaved = [])
    (hcopy : ∀ id t, pass.merchants id = some t → t.cur = t.base ∧ t.cur.monthlyVolumeUsd ∈ C) :
    VolumesOk C merchants pass where
  copy := by
    intro k t m ht _
    obtain ⟨hclean, hmem⟩ := hcopy k t ht
    refine ⟨?_, hclean ▸ hmem, hmem, fun hne => absurd (by rw [hnone]; rfl) hne⟩
    rw [hnone, hclean]
    exact t.base.standsAt_account
  copied := fun k _ => by rw [hnone]; rfl

/-- A visit that finds a payment adds to the copy of the merchant what it contributes. -/
theorem paid (h : VolumesOk C s.merchants pass) (hok : SessionOk s.orders s.merchants pass)
    (hv : visitOrder pass.now a o ((pass.merchants o.merchantId).map Tracked.cur) =
      some (.paid o' m' c))
    (hc : Confirms o ((pass.merchants o.merchantId).map Tracked.cur) o' m' c)
    (hfresh : ∀ x ∈ c.contribution, s.Unbooked p pass x.merchant)
    (hin : ∀ x ∈ c.contribution, x.amount ∈ C) :
    VolumesOk C s.merchants (pass.afterVisit id rest (.paid o' m' c)) := by
  have hunsaved : ∀ k, entriesFor k (pass.afterVisit id rest (.paid o' m' c)).unsaved =
      entriesFor k pass.unsaved ++ entriesFor k [c] := fun k => entriesFor_append k _ _
  rcases merchants_of_confirms id rest hok hc with ⟨rfl, -⟩ | ⟨t₀, m₁, rfl, ht₀, hmer⟩
  · -- an order without its merchant contributes nothing
    rcases contribution_of_visit hv with ⟨-, -, hnone⟩ | ⟨_, _, -, hsome, -⟩
    · refine h.congr rfl fun k => ?_
      rw [hunsaved]
      simp [entriesFor, hnone]
    · cases hsome
  · have hid : t₀.cur.id = o.merchantId := (hok.merchants _ t₀ ht₀).1
    rw [ht₀, Option.map_some] at hv
    have hother : ∀ {k}, k ≠ o.merchantId → entriesFor k [c] = [] :=
      fun hk => entriesFor_of_visit hv (hid ▸ hk)
    constructor
    · intro k t m ht hf
      rw [hmer] at ht
      by_cases hk : k = o.merchantId
      · subst hk
        rw [Function.update_self] at ht
        cases ht
        have hcopy := h.copy _ t₀ m ht₀ hf
        have hstands := standsAt_of_visit hv hcopy.stands
        rw [hid, ← Account.postAll_append, ← hunsaved] at hstands
        refine hcopy.book (hunsaved _) hstands (fun x hx hxk => ?_) hin
        have hread := (hfresh x hx).1
        rw [hxk] at hread
        exact hread m t₀ hf ht₀
      · rw [Function.update_of_ne hk] at ht
        refine (h.copy k t m ht hf).congr ?_
        rw [hunsaved, hother hk, List.append_nil]
    · intro k hk
      rw [hmer] at hk
      by_cases hkm : k = o.merchantId
      · subst hkm
        rw [Function.update_self] at hk
        cases hk
      · rw [Function.update_of_ne hkm] at hk
        rw [hunsaved, hother hkm, List.append_nil]
        exact h.copied k hk

end VolumesOk

/-! ## All passes -/

/-- The rows stand where the accounts do, and only one pass has added to a volume. -/
structure VolumesHold (C : AddSubmonoid ℚ) (ε : ℚ) (s : System) (b : Books) : Prop where
  stored : ∀ m ∈ s.merchants.rows, m.monthlyVolumeUsd ∈ C ∧ m.StandsNear ε (b.accounts m.id)
  passes : ∀ p pass, s.passes p = some pass → VolumesOk C s.merchants pass
  exclusive : ∀ p q pass pass' k, p ≠ q → s.passes p = some pass → s.passes q = some pass' →
    entriesFor k pass.unsaved = [] ∨ entriesFor k pass'.unsaved = []

namespace VolumesHold

variable {C : AddSubmonoid ℚ} {ε : ℚ} {s s' : System} {b : Books} {p : PassId} {pass pass' : Pass}

theorem setPass (h : VolumesHold C ε s b) (hpass : VolumesOk C s.merchants pass')
    (hex : ∀ q other k, q ≠ p → s.passes q = some other →
      entriesFor k pass'.unsaved = [] ∨ entriesFor k other.unsaved = []) :
    VolumesHold C ε (s.setPass p pass') b where
  stored := h.stored
  passes := by
    intro q other hq
    rcases System.passes_setPass hq with ⟨rfl, rfl⟩ | ⟨-, hold⟩
    · exact hpass
    · exact h.passes q other hold
  exclusive := by
    intro q q' other other' k hne hq hq'
    rcases System.passes_setPass hq with ⟨rfl, rfl⟩ | ⟨hqp, hold⟩ <;>
      rcases System.passes_setPass hq' with ⟨rfl, rfl⟩ | ⟨hqp', hold'⟩
    · exact absurd rfl hne
    · exact hex q' other' k hqp' hold'
    · exact (hex q other k hqp hold).symm
    · exact h.exclusive q q' other other' k hne hold hold'

/-- A pass goes on with no new contribution. -/
theorem setPass_of_entries (h : VolumesHold C ε s b) (hp : s.passes p = some pass)
    (hpass : VolumesOk C s.merchants pass')
    (hc : ∀ k, entriesFor k pass'.unsaved = entriesFor k pass.unsaved) :
    VolumesHold C ε (s.setPass p pass') b :=
  h.setPass hpass fun q other k hq hother => by
    rw [hc]
    exact h.exclusive p q pass other k hq.symm hp hother

theorem endPass (h : VolumesHold C ε s b) (p : PassId) : VolumesHold C ε (s.endPass p) b where
  stored := h.stored
  passes := fun q other hq => h.passes q other (System.passes_endPass hq).2
  exclusive := fun q q' other other' k hne hq hq' =>
    h.exclusive q q' other other' k hne (System.passes_endPass hq).2 (System.passes_endPass hq').2

/-- The rows after a commit. -/
theorem row_of_saved (hr : Rounding C ε) (h : VolumesHold C ε s b) (hp : s.passes p = some pass)
    {id : MerchantId} {m : Merchant} (hf : s.merchants.find? id = some m) :
    ∃ m', (s.save pass).merchants.find? id = some m' ∧ m'.monthlyVolumeUsd ∈ C ∧
      m'.StandsNear ε ((b.accounts id).postAll monthlyReset (entriesFor id pass.unsaved)) ∧
      (entriesFor id pass.unsaved = [] → m.SameVolume m') := by
  have hok := h.passes p pass hp
  have hfind := s.find?_save_merchants pass id
  rw [hf] at hfind
  obtain ⟨hmem, hid⟩ := Table.find?_eq_some.mp hf
  obtain ⟨hin, hnear⟩ := h.stored m hmem
  rw [key_merchant] at hid
  rw [hid] at hnear
  cases ht : pass.merchants id with
  | none =>
    rw [ht] at hfind
    refine ⟨m, hfind, hin, ?_, fun _ => ⟨rfl, rfl⟩⟩
    rw [hok.copied id ht, Account.postAll_nil]
    exact hnear
  | some t =>
    rw [ht] at hfind
    have hcopy := hok.copy id t m ht hf
    exact ⟨_, hfind, hcopy.write_mem hr hin, hcopy.standsNear_write hr hnear,
      fun hnone => (hcopy.sameVolume hnone).write m⟩

/-- The pass commits and goes on. -/
theorem save (hr : Rounding C ε) (h : VolumesHold C ε s b) (hs : SessionsHold s)
    (hp : s.passes p = some pass) (stage : Stage) :
    VolumesHold C ε ((s.save pass).setPass p { pass.synced with stage := stage })
      (b.post pass.unsaved) where
  stored := by
    intro m' hm'
    have hf' : (s.save pass).merchants.find? m'.id = some m' := Table.find?_of_mem hm'
    cases hf : s.merchants.find? m'.id with
    | none =>
      rw [s.find?_save_merchants, hf] at hf'
      cases hf'
    | some m =>
      obtain ⟨m₁, hf₁, hin, hnear, -⟩ := h.row_of_saved hr hp hf
      obtain rfl : m₁ = m' := Option.some.inj (hf₁.symm.trans hf')
      exact ⟨hin, hnear⟩
  passes := by
    intro q other hq
    rcases System.passes_setPass hq with ⟨rfl, rfl⟩ | ⟨hqp, hold⟩
    · refine VolumesOk.of_clean rfl fun id t ht => ?_
      obtain ⟨t₀, ht₀, rfl⟩ := Option.map_eq_some_iff.mp ht
      obtain ⟨-, m, hf⟩ := (hs.ok q pass hp).merchants id t₀ ht₀
      exact ⟨rfl, ((h.passes q pass hp).copy id t₀ m ht₀ hf).cur_mem⟩
    · refine (h.passes q other hold).mono
        (fun id t ht => ((hs.ok q other hold).merchants id t ht).2) fun id m hf => ?_
      obtain ⟨m', hf', -, -, hsame⟩ := h.row_of_saved hr hp hf
      refine ⟨m', hf', fun hne => hsame ?_⟩
      exact (h.exclusive p q pass other id hqp.symm hp hold).resolve_right hne
  exclusive := by
    intro q q' other other' k hne hq hq'
    rcases System.passes_setPass hq with ⟨rfl, rfl⟩ | ⟨hqp, hold⟩
    · exact .inl rfl
    · rcases System.passes_setPass hq' with ⟨rfl, rfl⟩ | ⟨hqp', hold'⟩
      · exact .inr rfl
      · exact h.exclusive q q' other other' k hne hold hold'

/-- A pass visits its next order. -/
theorem visit (h : VolumesHold C ε s b) (hs : SessionsHold s) {id : OrderId} {rest : List OrderId}
    {t : Tracked MerchantOrder} {v : Visit} {a : Answers} (hp : s.passes p = some pass)
    (hv : visitOrder pass.now a t.cur ((pass.merchants t.cur.merchantId).map Tracked.cur) = some v)
    (hfresh : s.BooksUnbooked p pass id v)
    (hin : ∀ o m c, v = .paid o m c → ∀ x ∈ c.contribution, x.amount ∈ C) :
    VolumesHold C ε (s.visited p pass id rest v) b := by
  have hok := h.passes p pass hp
  rcases visitOrder_cases hv with rfl | rfl | ⟨o', m', c, rfl, hc⟩
  · exact h.setPass_of_entries hp (hok.congr rfl fun _ => rfl) fun _ => rfl
  · exact h.setPass_of_entries hp (hok.congr rfl fun _ => rfl) fun _ => rfl
  · have hset : VolumesHold C ε (s.setPass p (pass.afterVisit id rest (.paid o' m' c))) b := by
      refine h.setPass (hok.paid (hs.ok p pass hp) hv hc hfresh (hin _ _ c rfl)) ?_
      intro q other k hq hother
      rcases h.exclusive p q pass other k hq.symm hp hother with hnone | hnone
      · by_cases hnew : entriesFor k [c] = []
        · left
          show entriesFor k (pass.unsaved ++ [c]) = []
          rw [entriesFor_append, hnone, hnew, List.append_nil]
        · right
          obtain ⟨e, he⟩ := List.exists_mem_of_ne_nil _ hnew
          obtain ⟨_, hc', x, hx, rfl, -⟩ := mem_entriesFor.mp he
          obtain rfl := List.mem_singleton.mp hc'
          exact (hfresh x hx).2 q other hq hother
      · exact .inr hnone
    exact { hset with }

/-- Another transaction commits. -/
theorem other (h : VolumesHold C ε s b) (hs : SessionsHold s) {m : Merchant}
    {order : Option MerchantOrder} (hfresh : s.WritesUnbooked (.other m order))
    (hin : m.monthlyVolumeUsd ∈ C) (hstep : s.other m order = some s') :
    VolumesHold C ε s' (b.note s (.other m order)) := by
  obtain ⟨-, orders, rfl, -⟩ := System.other_eq_some hstep
  refine ⟨?_, ?_, h.exclusive⟩
  · intro m' hm'
    have hf' := Table.find?_of_mem hm'
    rw [key_merchant, Table.find?_put, key_merchant] at hf'
    by_cases hk : m.id = m'.id
    · rw [if_pos hk] at hf'
      cases hf'
      refine ⟨hin, ?_⟩
      simp only [Books.note]
      split_ifs with hkeep
      · obtain ⟨m₀, hf, hsame⟩ := System.sameVolume_of_keepsVolume hkeep
        obtain ⟨hmem, hid⟩ := Table.find?_eq_some.mp hf
        rw [key_merchant] at hid
        rw [← hid]
        exact (h.stored m₀ hmem).2.same hsame
      · show m.StandsNear ε (Function.update b.accounts m.id m.account m.id)
        rw [Function.update_self]
        have hstands := m.standsAt_account
        refine ⟨hstands.resetAt, ?_⟩
        rw [hstands.volume, sub_self, abs_zero]
        simp [Merchant.account]
    · rw [if_neg hk] at hf'
      obtain ⟨hmem, -⟩ := Table.find?_eq_some.mp hf'
      obtain ⟨hin', hnear⟩ := h.stored m' hmem
      refine ⟨hin', ?_⟩
      simp only [Books.note]
      split_ifs
      · exact hnear
      · show m'.StandsNear ε (Function.update b.accounts m.id m.account m'.id)
        rw [Function.update_of_ne (Ne.symm hk)]
        exact hnear
  · intro q other hq
    refine (h.passes q other hq).mono (fun id t ht => ((hs.ok q other hq).merchants id t ht).2) ?_
    intro id m₁ hf
    show ∃ m', (s.merchants.put m).find? id = some m' ∧ _
    rw [Table.find?_put, key_merchant]
    split_ifs with hk
    · subst hk
      refine ⟨m, rfl, fun hne => ?_⟩
      rcases hfresh with hkeep | hnone
      · obtain ⟨m₀, hf₀, hsame⟩ := System.sameVolume_of_keepsVolume hkeep
        obtain rfl : m₀ = m₁ := Option.some.inj (hf₀.symm.trans hf)
        exact hsame
      · exact absurd (hnone q other hq) hne
    · exact ⟨m₁, hf, fun _ => ⟨rfl, rfl⟩⟩

/-- **Fresh volumes stay in step with the accounts.** -/
theorem step (hr : Rounding C ε) (h : VolumesHold C ε s b) (hs : SessionsHold s) {e : Event}
    (hf : s.FreshVolumes e) (hin : s.BooksIn C e) (hstep : s.step e = some s') :
    VolumesHold C ε s' (b.note s e) := by
  cases Move.of_step hstep with
  | none hp => exact h
  | begin hp _ =>
    refine h.setPass (VolumesOk.of_clean rfl fun id t ht => ?_) fun _ _ _ _ _ => .inl rfl
    cases ht
  | @load p pass hp hst =>
    have hempty := (hs.ok p pass hp).opened hst
    refine h.setPass_of_entries hp (VolumesOk.of_clean hempty fun id t ht => ?_) fun _ => rfl
    simp only [System.loadedMerchants] at ht
    split_ifs at ht
    obtain ⟨m, hm, rfl⟩ := Option.map_eq_some_iff.mp ht
    exact ⟨rfl, (h.stored m (Table.find?_eq_some.mp hm).1).1⟩
  | @visit p a pass id rest t v hp hst htodo ht hv =>
    have hnext : pass.nextVisit a = some (id, rest, some v) := by
      simp [Pass.nextVisit, htodo, ht, hv]
    refine h.visit hs hp hv (hf.1 pass id rest v hp hnext) ?_
    rintro o m c rfl
    exact hin.1 pass id rest _ hp hnext
  | raise hp _ => exact h.endPass _
  | mark hp _ hlost =>
    rw [note_mark hp hlost.2]
    exact h.setPass_of_entries hp ((h.passes _ _ hp).congr rfl fun _ => rfl) fun _ => rfl
  | pushSave hp _ hsave =>
    rw [note_push hp hsave]
    exact h.save hr hs hp _
  | finishSave hp hsave =>
    rw [note_finish hp hsave, ← System.endPass_setPass]
    exact (h.save hr hs hp .looping).endPass _
  | finishLost hp hlost =>
    rw [note_finish_lost hp hlost]
    exact h.endPass _
  | abort hp => exact h.endPass _
  | other hother => exact h.other hs hf.2 hin.2 hother

end VolumesHold

theorem Start.volumesHold {C : AddSubmonoid ℚ} {ε : ℚ} {s : System} (h : Start s)
    (hin : ∀ m ∈ s.merchants.rows, m.monthlyVolumeUsd ∈ C) :
    VolumesHold C ε s s.openBooks where
  stored := by
    intro m hm
    have hf := Table.find?_of_mem hm
    rw [key_merchant] at hf
    have hstands := m.standsAt_account
    refine ⟨hin m hm, ?_⟩
    simp only [System.openBooks, hf, Option.elim_some]
    refine ⟨hstands.resetAt, ?_⟩
    rw [hstands.volume, sub_self, abs_zero]
    simp [Merchant.account]
  passes := fun p pass hp => by rw [h.idle p] at hp; cases hp
  exclusive := fun p _ pass _ _ _ hp => by rw [h.idle p] at hp; cases hp

/-! ## Passes one after another -/

/-- While a pass is running, other transactions leave the volumes alone. -/
def System.QuietVolumes (s : System) : Event → Prop
  | .other m _ => m.monthlyVolumeUsd ∈ cents ∧ (s.keepsVolume m ∨ ∀ p, s.passes p = none)
  | _ => True

/-- What the passes have read of the volumes is what is stored. -/
structure VolumesRead (s : System) : Prop where
  cents : ∀ m ∈ s.merchants.rows, m.monthlyVolumeUsd ∈ cents
  read : ∀ p pass k t m, s.passes p = some pass → pass.merchants k = some t →
    s.merchants.find? k = some m → t.base.StoredAs m

namespace VolumesRead

variable {s s' : System} {p : PassId} {pass pass' : Pass}

/-- A pass that runs alone adds to volumes as they are stored. -/
theorem fresh (h : VolumesRead s) (hsole : SoleHolds s) {e : Event} (hquiet : s.QuietVolumes e) :
    s.FreshVolumes e := by
  cases e with
  | visit p a =>
    refine ⟨?_, trivial⟩
    intro pass id rest v hp _
    cases v with
    | paid o m c =>
      refine fun x _ => ⟨fun m₀ t hf ht => h.read p pass _ t m₀ hp ht hf,
        fun q other hq hother => ?_⟩
      exact absurd (hsole.one q p other pass hother hp) hq
    | _ => trivial
  | other m order =>
    refine ⟨trivial, hquiet.2.imp_right fun hidle p pass hp => ?_⟩
    rw [hidle p] at hp
    cases hp
  | _ => exact ⟨trivial, trivial⟩

theorem setPass (h : VolumesRead s) (hpass : ∀ k t m, pass'.merchants k = some t →
    s.merchants.find? k = some m → t.base.StoredAs m) : VolumesRead (s.setPass p pass') where
  cents := h.cents
  read := by
    intro q other k t m hq ht hf
    rcases System.passes_setPass hq with ⟨rfl, rfl⟩ | ⟨-, hold⟩
    · exact hpass k t m ht hf
    · exact h.read q other k t m hold ht hf

theorem endPass (h : VolumesRead s) (p : PassId) : VolumesRead (s.endPass p) where
  cents := h.cents
  read := fun q other k t m hq => h.read q other k t m (System.passes_endPass hq).2

theorem save (h : VolumesRead s) (hsole : SoleHolds s) (hp : s.passes p = some pass)
    (stage : Stage) :
    VolumesRead ((s.save pass).setPass p { pass.synced with stage := stage }) where
  cents := by
    intro m' hm'
    have hf' : (s.save pass).merchants.find? m'.id = some m' := Table.find?_of_mem hm'
    rw [s.find?_save_merchants] at hf'
    obtain ⟨m, hf, hwrite⟩ := Option.map_eq_some_iff.mp hf'
    have hm := h.cents m (Table.find?_eq_some.mp hf).1
    cases ht : pass.merchants m'.id with
    | none =>
      rw [ht, Option.elim_none] at hwrite
      exact hwrite ▸ hm
    | some t =>
      rw [ht, Option.elim_some] at hwrite
      rw [← hwrite]
      show writeBackAs (storeNumeric 2) t.base.monthlyVolumeUsd t.cur.monthlyVolumeUsd
        m.monthlyVolumeUsd ∈ Gateway.cents
      rw [writeBackAs]
      split_ifs
      · exact hm
      · exact ⟨_, rfl⟩
  read := by
    intro q other k t m' hq ht hf'
    rcases System.passes_setPass hq with ⟨rfl, rfl⟩ | ⟨hqp, hold⟩
    · obtain ⟨t₀, ht₀, rfl⟩ := Option.map_eq_some_iff.mp ht
      change (s.save pass).merchants.find? k = some m' at hf'
      rw [s.find?_save_merchants] at hf'
      obtain ⟨m, hf, rfl⟩ := Option.map_eq_some_iff.mp hf'
      rw [ht₀]
      exact (h.read q pass k t₀ m hp ht₀ hf).write
    · exact absurd (hsole.one q p other pass hold hp) hqp

/-- **Serial passes read the volumes as they are stored.** -/
theorem step (h : VolumesRead s) (hsole : SoleHolds s) {e : Event} (hquiet : s.QuietVolumes e)
    (hs : s.step e = some s') : VolumesRead s' := by
  have hsame : ∀ {p pass pass'}, s.passes p = some pass →
      (∀ k t, pass'.merchants k = some t → ∃ t₀, pass.merchants k = some t₀ ∧ t.base = t₀.base) →
      VolumesRead (s.setPass p pass') := by
    intro p pass pass' hp hmer
    refine h.setPass fun k t m ht hf => ?_
    obtain ⟨t₀, ht₀, hbase⟩ := hmer k t ht
    rw [hbase]
    exact h.read p pass k t₀ m hp ht₀ hf
  cases Move.of_step hs with
  | none hp => exact h
  | begin hp _ =>
    refine h.setPass fun k t m ht _ => ?_
    cases ht
  | load hp _ =>
    refine h.setPass fun k t m ht hf => ?_
    simp only [System.loadedMerchants] at ht
    split_ifs at ht
    obtain ⟨m₀, hm₀, rfl⟩ := Option.map_eq_some_iff.mp ht
    obtain rfl : m₀ = m := Option.some.inj (hm₀.symm.trans hf)
    refine ⟨rfl, (storeNumeric_of_scaled le_rfl ?_).symm⟩
    exact h.cents m₀ (Table.find?_eq_some.mp hf).1
  | @visit p a pass id rest t v hp hst htodo ht hv =>
    have hset : VolumesRead (s.setPass p (pass.afterVisit id rest v)) := by
      refine hsame hp fun k t' ht' => ?_
      rcases Pass.merchants_afterVisit ht' with ht' | ⟨t₀, _, _, _, _, _, ht₀, rfl⟩
      · exact ⟨t', ht', rfl⟩
      · exact ⟨t₀, ht₀, rfl⟩
    cases v with
    | paid o m c => exact { hset with }
    | _ => exact hset
  | raise hp _ => exact h.endPass _
  | mark hp _ _ => exact hsame hp fun k t ht => ⟨t, ht, rfl⟩
  | pushSave hp _ _ => exact h.save hsole hp _
  | finishSave hp _ =>
    rw [← System.endPass_setPass]
    exact (h.save hsole hp .looping).endPass _
  | finishLost hp _ => exact h.endPass _
  | abort hp => exact h.endPass _
  | @other m order _ hother =>
    obtain ⟨-, orders, rfl, -⟩ := System.other_eq_some hother
    constructor
    · intro m' hm'
      have hf' := Table.find?_of_mem hm'
      rw [key_merchant, Table.find?_put, key_merchant] at hf'
      split_ifs at hf'
      · cases hf'
        exact hquiet.1
      · exact h.cents m' (Table.find?_eq_some.mp hf').1
    · intro q other k t m' hq ht hf'
      rw [Table.find?_put, key_merchant] at hf'
      split_ifs at hf' with hk
      · cases hf'
        subst hk
        rcases hquiet.2 with hkeep | hidle
        · obtain ⟨m₀, hf, hvolume⟩ := System.sameVolume_of_keepsVolume hkeep
          exact (h.read q other _ t m₀ hq ht hf).same hvolume
        · rw [hidle q] at hq
          cases hq
      · exact h.read q other k t m' hq ht hf'

end VolumesRead

end Gateway
