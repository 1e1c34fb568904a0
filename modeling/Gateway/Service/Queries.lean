import Gateway.Checkout.Addresses
import Gateway.Service.Addresses
import Gateway.Settlement.CallData

/-!
# What the service asks about

The balances that decide the orders of the database are those of the accounts that their merchants'
keys have: whatever checkouts, switches and passes interleave, the call data for an order's address
is read by a token contract as a question about the public key at the order's index
(`service_queries`), and orders with different addresses are asked about by different call data.
-/

namespace Gateway

open Foundations

open Service in
/-- **The service asks about the accounts of its merchants.** In every interleaving, the balance
query for an order asks a token contract for the balance of the account of the public key at the
order's index under a key of its merchant, and queries about different addresses differ. -/
theorem service_queries {lib : Primitives} {s₀ s : Service} {es : List ServiceEvent}
    {owns : MerchantId → String → Prop} (h0 : s₀.Idle)
    (hpasses : ∀ p, s₀.system.passes p = none)
    (hslots : (s₀.system.orders.rows.map MerchantOrder.slot).Nodup)
    (hbelow : ∀ o ∈ s₀.system.orders.rows, ∃ m, s₀.system.merchants.find? o.merchantId = some m ∧
      o.evmDerivationIndex < m.nextEvmIndex)
    (hwhole : ∀ o ∈ s₀.system.orders.rows, o.Whole fairReceipt)
    (hderived : ∀ o ∈ s₀.system.orders.rows,
      o.DerivedFrom (deriveEvmAddress lib) (owns o.merchantId))
    (run : Run (Service.step (deriveEvmAddress lib))
      (fun s e => OnPoll System.ChecksEvm s e ∧ LoadsOwned owns e) s₀ es s) :
    (∀ o ∈ s.system.orders.rows, ∃ xpub x y, owns o.merchantId xpub ∧
      receiveKey lib o.evmDerivationIndex xpub = some (x, y) ∧
      balanceOfHolder? (balanceOfData o.evmAddress) = some (accountOf lib x y)) ∧
    ∀ o ∈ s.system.orders.rows, ∀ o' ∈ s.system.orders.rows,
      balanceOfData o.evmAddress = balanceOfData o'.evmAddress → o.evmAddress = o'.evmAddress := by
  obtain ⟨-, haddresses⟩ := addressesHold_of_run h0 hpasses hslots hbelow hwhole hderived run
  constructor
  · intro o ho
    obtain ⟨xpub, hxpub, hderive⟩ := haddresses.orders o ho
    obtain ⟨x, y, hkey, -, hasks⟩ := balanceOf_derived hderive
    exact ⟨xpub, x, y, hxpub, hkey, hasks _ rfl⟩
  · intro o ho o' ho' hdata
    obtain ⟨xpub, -, hderive⟩ := haddresses.orders o ho
    obtain ⟨xpub', -, hderive'⟩ := haddresses.orders o' ho'
    obtain ⟨x, y, -, haddress, hasks⟩ := balanceOf_derived hderive
    obtain ⟨x', y', -, haddress', hasks'⟩ := balanceOf_derived hderive'
    have haccounts : some (accountOf lib x y) = some (accountOf lib x' y') := by
      rw [← hasks _ rfl, hdata, hasks' _ rfl]
    rw [haddress, haddress', ← String.toList_inj, addressOf_toList, addressOf_toList,
      Option.some.inj haccounts]

/-! ### A derived order -/

/-- The merchant of an account, without orders. -/
def accountMerchant : Merchant := registeredMerchant 1 SampleAccount.first.xpub

/-- A service with that merchant only. -/
def accountService : Service where
  system := { sampleSystem [] List.nodup_nil with
    merchants := ⟨[accountMerchant], by decide +kernel⟩ }
  opened := fun _ => ⟨none, fun _ => none⟩

/-- The first checkout of that merchant. -/
def accountCheckout : List ServiceEvent :=
  [.checkout 1 (.load 1 accountMerchant), .checkout 1 (.check 1 (fiveRequest 1)),
    .checkout 1 (.reserve 1), .checkout 1 (.commit 1)]

/-- A value of a function, in front of the function. -/
theorem eq_ite_of_eq {derive : ℤ → String → Option String} {i : ℤ} {xpub address : String}
    (h : derive i xpub = some address) : derive = fun i' xpub' =>
      if i' = i ∧ xpub' = xpub then some address else derive i' xpub' := by
  funext i' xpub'
  split_ifs with hsame
  · rw [hsame.1, hsame.2, h]
  · rfl

/-- The checkout stores an order with the derived address. -/
theorem exec_accountCheckout : ∃ s o,
    exec (Service.step (deriveEvmAddress accountLibraries)) accountService accountCheckout =
        some s ∧
      s.system.orders.rows = [o] ∧ o.evmAddress = SampleAccount.first.address := by
  have hderive : deriveEvmAddress accountLibraries 0 SampleAccount.first.xpub =
      some SampleAccount.first.address := by
    rw [deriveEvmAddress, parseXpub_first, Option.bind_some, accountAddress_first]
  have hrun : (exec (Service.step (deriveEvmAddress accountLibraries)) accountService
      accountCheckout).map (fun s => s.system.orders.rows.map MerchantOrder.evmAddress) =
        some [SampleAccount.first.address] := by
    rw [eq_ite_of_eq hderive]
    decide +kernel
  obtain ⟨s, hs, hrows⟩ := Option.map_eq_some_iff.mp hrun
  obtain ⟨o, rest, ho, haddress, hrest⟩ := List.map_eq_cons_iff.mp hrows
  rw [List.map_eq_nil_iff.mp hrest] at ho
  exact ⟨s, o, hs, ho, haddress⟩

/-- The query for that order. -/
theorem service_queries_first : ∃ s o x y,
    exec (Service.step (deriveEvmAddress accountLibraries)) accountService accountCheckout =
        some s ∧
      s.system.orders.rows = [o] ∧
      receiveKey accountLibraries o.evmDerivationIndex SampleAccount.first.xpub = some (x, y) ∧
      balanceOfHolder? (balanceOfData SampleAccount.first.address) =
        some (accountOf accountLibraries x y) := by
  obtain ⟨s, o, hexec, hrows, haddress⟩ := exec_accountCheckout
  have run : Run (Service.step (deriveEvmAddress accountLibraries))
      (fun s e => Service.OnPoll System.ChecksEvm s e ∧
        Service.LoadsOwned (fun _ xpub => xpub = SampleAccount.first.xpub) e)
      accountService accountCheckout s := by
    refine .of_exec_of_forall (fun e he _ => ?_) hexec
    simp only [accountCheckout, List.mem_cons, List.not_mem_nil, or_false] at he
    rcases he with rfl | rfl | rfl | rfl
    · exact ⟨trivial, rfl⟩
    · exact ⟨trivial, trivial⟩
    · exact ⟨trivial, trivial⟩
    · exact ⟨trivial, trivial⟩
  obtain ⟨hasks, -⟩ := service_queries (fun _ => ⟨rfl, fun _ => rfl⟩) (fun _ => rfl)
    (by simp [accountService, sampleSystem]) (by simp [accountService, sampleSystem])
    (by simp [accountService, sampleSystem]) (by simp [accountService, sampleSystem]) run
  obtain ⟨xpub, x, y, rfl, hkey, hasks⟩ := hasks o (by rw [hrows]; exact List.mem_singleton_self o)
  rw [haddress] at hasks
  exact ⟨s, o, x, y, hexec, hrows, hkey, hasks⟩

end Gateway
