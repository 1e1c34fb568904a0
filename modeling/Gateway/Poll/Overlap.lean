import Gateway.Poll.Volumes

/-!
# Passes that overlap

Passes that run at the same time work on copies that may be stale, and write them back without
looking again. They lose nothing when every visit is `Fresh` (an order is decided only while it is
stored as pending and no other running pass has decided it; a claim is made only on the stored
watermark, which no other running pass has claimed on), the volumes are `FreshVolumes` likewise,
and no pass that has confirmed something ends without its commit. The program checks none of this,
and `overlapping_passes_lose` shows what happens otherwise: an order is confirmed twice, a paid
order is overwritten as expired, and a claim and a contribution to a volume are overwritten by
stale values.
-/

namespace Gateway

open Foundations

/-- The event works on current data, and drops no confirmation. -/
def Careful (s : System) (e : Event) : Prop :=
  s.Fresh e ∧ Lossless (fun _ => true) s e ∧ s.FreshVolumes e

/-- What holds when every event is careful. -/
structure CarefulHolds (s : System) : Prop where
  sessions : SessionsHold s
  ledger : LedgerHolds s
  told : Told (fun _ => true) s

theorem CarefulHolds.step {s s' : System} (h : CarefulHolds s) {e : Event} (hc : Careful s e)
    (hs : s.step e = some s') : CarefulHolds s' where
  sessions := h.sessions.step hc.1.1 hs
  ledger := h.ledger.step h.sessions hc.1.2 hs
  told := h.told.step h.sessions hc.1.1 hc.2.1 hs

theorem Start.carefulHolds {s : System} (h : Start s) : CarefulHolds s :=
  ⟨h.sessionsHold, h.ledgerHolds, h.told _⟩

/-- What is committed, after a run of careful events. -/
theorem committed_of_run {s₀ s : System} {es : List Event} (h0 : Start s₀)
    (run : Run System.step Careful s₀ es s) : Committed s (s₀.books es) := by
  have hstep : ∀ t e t' b, CarefulHolds t ∧ Committed t b → Careful t e → t.step e = some t' →
      CarefulHolds t' ∧ Committed t' (Books.note t e b) :=
    fun _ _ _ _ h hc hs => ⟨h.1.step hc hs, h.2.step h.1.sessions hc.2.1 hs⟩
  exact (run.history hstep ⟨h0.carefulHolds, h0.committed⟩).2

/-- The volumes after a run of careful events. -/
theorem volumes_of_run {C : AddSubmonoid ℚ} {ε : ℚ} (hr : Rounding C ε) {s₀ s : System}
    {es : List Event} (h0 : Start s₀) (hin : ∀ m ∈ s₀.merchants.rows, m.monthlyVolumeUsd ∈ C)
    (run : Run System.step Careful s₀ es s) (hC : Run System.step (System.BooksIn C) s₀ es s) :
    ∀ m ∈ s.merchants.rows, m.StandsNear ε ((s₀.books es).accounts m.id) := by
  have hstep : ∀ t e t' b, CarefulHolds t ∧ VolumesHold C ε t b → Careful t e ∧ t.BooksIn C e →
      t.step e = some t' → CarefulHolds t' ∧ VolumesHold C ε t' (Books.note t e b) :=
    fun _ _ _ _ h hc hs => ⟨h.1.step hc.1 hs, h.2.step hr h.1.sessions hc.1.2.2 hc.2 hs⟩
  have h := ((run.inter hC).history hstep ⟨h0.carefulHolds, h0.volumesHold hin⟩).2
  exact fun m hm => (h.stored m hm).2

/-- **Overlapping passes lose nothing** as long as every event is careful. No order is confirmed
twice, and a paid order stays as it was committed. Every watermark is the sum of the amounts of the
merchant's orders paid on Solana in its asset. Every confirmation is committed once, or still in the
session of its pass; a volume is the total of what has been posted to the account of its merchant
with the commits, up to the rounding of the commits, and exactly if all amounts are in cents. -/
theorem overlapping_passes {s₀ s : System} {es : List Event} (h0 : Start s₀)
    (run : Run System.step Careful s₀ es s) :
    (s.confirmed.map Confirmation.order).Nodup ∧
    (∀ es' s', Run System.step Careful s es' s' →
      ∀ o ∈ s.orders.rows, o.status = .paid → o ∈ s'.orders.rows) ∧
    (∀ m ∈ s.merchants.rows, ∀ a,
      m.consumed a = ((s.solanaPaid m.id a).map fun o => o.paidAmount.getD 0).sum) ∧
    ((s₀.books es).committed.map Confirmation.order).Nodup ∧
    (∀ c ∈ s.confirmed, c ∈ (s₀.books es).committed ∨
      ∃ p pass, s.passes p = some pass ∧ c ∈ pass.unsaved) ∧
    (∀ k, (((s₀.books es).accounts k).entries.map Entry.owner).Nodup) ∧
    (∀ m ∈ s.merchants.rows, m.StandsNear (1 / 200) ((s₀.books es).accounts m.id)) ∧
    ((∀ m ∈ s₀.merchants.rows, m.monthlyVolumeUsd ∈ cents) →
      Run System.step (System.BooksIn cents) s₀ es s →
      ∀ m ∈ s.merchants.rows, m.StandsAt ((s₀.books es).accounts m.id)) := by
  have hstep : ∀ t e t', CarefulHolds t → Careful t e → t.step e = some t' → CarefulHolds t' :=
    fun _ _ _ h hc hs => h.step hc hs
  have h : CarefulHolds s := run.invariant hstep h0.carefulHolds
  have hcommitted := committed_of_run h0 run
  refine ⟨by simpa using h.told.once, ?_, fun m hm a => h.ledger.consumed_eq_sum hm a,
    hcommitted.once, hcommitted.kept, hcommitted.owners_nodup, ?_, ?_⟩
  · intro es' s' run' o ho hpaid
    have hfresh := run'.strengthen hstep (fun _ _ _ _ hc _ => hc.1.1) h
    exact settled_of_run h.sessions hfresh o ho (by simp [hpaid])
  · exact volumes_of_run rounding_top h0 (fun _ _ => AddSubmonoid.mem_top _) run
      (run.mono fun t e _ => t.booksIn_top e)
  · intro hin hC m hm
    have hnear := volumes_of_run rounding_cents h0 hin run hC m hm
    exact hnear.standsAt

/-- A volume-billed merchant in a cycle that ends at time 1000. -/
def volumeMerchant : Merchant :=
  { sampleMerchant with billingMode := .volume, billingCycleResetAt := some 1000 }

/-- These orders of it, all pending. -/
def volumeSystem (orders : List OrderId) (h : orders.Nodup) : System :=
  { sampleSystem orders h with merchants := ⟨[volumeMerchant], by simp⟩ }

theorem start_volumeSystem (orders : List OrderId) (h : orders.Nodup) :
    Start (volumeSystem orders h) :=
  { start_sampleSystem orders h with
    marks := by
      intro m hm a
      obtain rfl : m = volumeMerchant := by simpa [volumeSystem] using hm
      cases a <;> rfl }

theorem overlapping_passes_committed :
    ∃ s, exec System.step (volumeSystem [1, 2] (by decide)) committedDelivery = some s ∧
      s.confirmed.map Confirmation.order = [1] ∧
      s.merchants.rows.map Merchant.monthlyVolumeUsd = [20] ∧
      ∀ m ∈ s.merchants.rows, m.StandsNear (1 / 200)
        (((volumeSystem [1, 2] (by decide)).books committedDelivery).accounts m.id) := by
  have hrun : ((exec (restrict (fun s e => Lossless (fun _ => true) s e) System.step)
      (volumeSystem [1, 2] (by decide)) committedDelivery).map fun s =>
        (s.confirmed.map Confirmation.order,
          s.merchants.rows.map Merchant.monthlyVolumeUsd)) = some ([1], [20]) := by
    decide +kernel
  obtain ⟨s, hs, hall⟩ := Option.map_eq_some_iff.mp hrun
  simp only [Prod.mk.injEq] at hall
  have hloss := Run.of_exec_restrict hs
  refine ⟨s, hloss.exec_eq, hall.1, hall.2, ?_⟩
  have hserial := serial_of_exec (p := 0) (by simp [volumeSystem, sampleSystem])
    (by simp [committedDelivery, Event.pass?]) hloss.exec_eq
  have hpos : Run System.step PositiveOrders (volumeSystem [1, 2] (by decide)) _ s :=
    .of_exec_of_forall (by simp [PositiveOrders, committedDelivery]) hloss.exec_eq
  have hquiet : Run System.step System.QuietVolumes (volumeSystem [1, 2] (by decide)) _ s :=
    .of_exec_of_forall (by simp [System.QuietVolumes, committedDelivery]) hloss.exec_eq
  have hstart := start_volumeSystem [1, 2] (by decide)
  have hserialStart : SerialHolds (volumeSystem [1, 2] (by decide)) := by
    refine hstart.serialHolds fun o ho => ?_
    obtain ⟨id, -, rfl⟩ := List.mem_map.mp ho
    norm_num [sampleOrder, Numeric.value]
  have hread : VolumesRead (volumeSystem [1, 2] (by decide)) := by
    refine ⟨fun m hm => ?_, fun p pass _ _ _ hp => by rw [hstart.idle p] at hp; cases hp⟩
    obtain rfl : m = volumeMerchant := by simpa [volumeSystem] using hm
    exact cents.zero_mem
  simp only [decide_eq_true_eq] at hloss
  have hstep : ∀ t e t', SerialHolds t ∧ VolumesRead t →
      ((Serial t e ∧ PositiveOrders t e) ∧ Lossless (fun _ => true) t e) ∧ t.QuietVolumes e →
      t.step e = some t' → SerialHolds t' ∧ VolumesRead t' :=
    fun _ _ _ h hok hs => ⟨h.1.step hok.1.1 hs, h.2.step h.1.toSoleHolds hok.2 hs⟩
  have run : Run System.step Careful (volumeSystem [1, 2] (by decide)) committedDelivery s :=
    (((hserial.inter hpos).inter hloss).inter hquiet).strengthen hstep
      (fun _ e _ h hok _ => ⟨⟨h.1.freshOrders e, h.1.claimsUnclaimed e⟩, hok.1.2,
        h.2.fresh h.1.toSoleHolds hok.2⟩) ⟨hserialStart, hread⟩
  exact (overlapping_passes hstart run).2.2.2.2.2.2.1

/-! ## Careless passes -/

/-- Two passes that have both read these orders and their merchant. -/
def bothOpen (now₁ now₂ : Timestamp) (ids : List OrderId) : List Event :=
  [.begin 1 now₁ (ids.map sampleOrder), .begin 2 now₂ (ids.map sampleOrder),
    .loadMerchants 1, .loadMerchants 2]

/-- A payment of $20 on BSC. -/
def bscAnswers : Answers :=
  { sampleAnswers 0 with evm := some (some { chain := .bsc, asset := .usdt, amount := 20 }) }

/-- **Overlapping passes lose updates**: two passes that see the same deposit both confirm the
order; a pass that finds an order expired overwrites that another one has found it paid; of two
claims on one watermark the stale one remains; and of two contributions to a volume, for different
orders, the one to the stale volume. -/
theorem overlapping_passes_lose :
    (∃ s, exec System.step (sampleSystem [1] (by decide)) (bothOpen 10 10 [1] ++
        [.visit 1 (sampleAnswers 20), .push 1 .quiet, .visit 2 (sampleAnswers 20), .push 2 .quiet,
          .finish 1, .finish 2]) = some s ∧
      s.confirmed.map Confirmation.order = [1, 1]) ∧
    (∃ s s', exec System.step (sampleSystem [1] (by decide)) (bothOpen 10 100 [1] ++
        [.visit 1 (sampleAnswers 20), .push 1 .quiet, .finish 1]) = some s ∧
      s.orders.rows.map MerchantOrder.status = [.paid] ∧
      exec System.step s [.visit 2 (sampleAnswers 20), .finish 2] = some s' ∧
      s'.orders.rows.map MerchantOrder.status = [.expired]) ∧
    (∃ s, exec System.step (sampleSystem [1, 2] (by decide)) (bothOpen 10 10 [1, 2] ++
        [.visit 1 (sampleAnswers 20), .push 1 .quiet, .visit 1 (sampleAnswers 20), .finish 1,
          .visit 2 (sampleAnswers 0), .visit 2 (sampleAnswers 20), .push 2 .quiet,
          .finish 2]) = some s ∧
      s.merchants.rows.map (Merchant.consumed · .usdc) = [20] ∧
      ((s.solanaPaid 1 .usdc).map fun o => o.paidAmount.getD 0).sum = 40) ∧
    ∃ s, exec System.step (volumeSystem [1, 2] (by decide)) (bothOpen 10 10 [1, 2] ++
        [.visit 2 (sampleAnswers 0), .visit 1 bscAnswers, .push 1 .quiet,
          .visit 1 (sampleAnswers 0), .finish 1, .visit 2 bscAnswers, .push 2 .quiet,
          .finish 2]) = some s ∧
      s.merchants.rows.map Merchant.monthlyVolumeUsd = [20] ∧
      (s.confirmed.filterMap Confirmation.contribution).map Contribution.amount = [20, 20] := by
  refine ⟨?_, ?_, ?_, ?_⟩
  · refine Option.map_eq_some_iff.mp (?_ : Option.map _ _ = some [1, 1])
    decide +kernel
  · have hpaid : ((exec System.step (sampleSystem [1] (by decide)) (bothOpen 10 100 [1] ++
        [.visit 1 (sampleAnswers 20), .push 1 .quiet, .finish 1])).map
        fun s => s.orders.rows.map MerchantOrder.status) = some [.paid] := by
      decide +kernel
    have hexpired : ((exec System.step (sampleSystem [1] (by decide)) ((bothOpen 10 100 [1] ++
        [.visit 1 (sampleAnswers 20), .push 1 .quiet, .finish 1]) ++
          [.visit 2 (sampleAnswers 20), .finish 2])).map
        fun s => s.orders.rows.map MerchantOrder.status) = some [.expired] := by
      decide +kernel
    obtain ⟨s, hs, hst⟩ := Option.map_eq_some_iff.mp hpaid
    rw [exec_append _ (bothOpen _ _ _ ++ _), hs, Option.bind_some] at hexpired
    obtain ⟨s', hs', hst'⟩ := Option.map_eq_some_iff.mp hexpired
    exact ⟨s, s', hs, hst, hs', hst'⟩
  · have hlost : ((exec System.step (sampleSystem [1, 2] (by decide)) (bothOpen 10 10 [1, 2] ++
        [.visit 1 (sampleAnswers 20), .push 1 .quiet, .visit 1 (sampleAnswers 20), .finish 1,
          .visit 2 (sampleAnswers 0), .visit 2 (sampleAnswers 20), .push 2 .quiet,
          .finish 2])).map fun s => (s.merchants.rows.map (Merchant.consumed · .usdc),
            ((s.solanaPaid 1 .usdc).map fun o => o.paidAmount.getD 0).sum)) =
        some ([20], 40) := by
      decide +kernel
    obtain ⟨s, hs, hall⟩ := Option.map_eq_some_iff.mp hlost
    simp only [Prod.mk.injEq] at hall
    exact ⟨s, hs, hall.1, hall.2⟩
  · have hvolume : ((exec System.step (volumeSystem [1, 2] (by decide)) (bothOpen 10 10 [1, 2] ++
        [.visit 2 (sampleAnswers 0), .visit 1 bscAnswers, .push 1 .quiet,
          .visit 1 (sampleAnswers 0), .finish 1, .visit 2 bscAnswers, .push 2 .quiet,
          .finish 2])).map fun s => (s.merchants.rows.map Merchant.monthlyVolumeUsd,
            (s.confirmed.filterMap Confirmation.contribution).map Contribution.amount)) =
        some ([20], [20, 20]) := by
      decide +kernel
    obtain ⟨s, hs, hall⟩ := Option.map_eq_some_iff.mp hvolume
    simp only [Prod.mk.injEq] at hall
    exact ⟨s, hs, hall.1, hall.2⟩

end Gateway
