import Gateway.Merchant.Webhook
import Gateway.Settlement.EvmCheck

/-!
# What the wallet page is told

The page on which a customer pays from a browser wallet knows no constants. It builds a transfer of
what `wallet_connect_meta` lists: the id of a chain in hexadecimal, the contract of an asset, and
the decimals of its units, under the names that are shown. The check of a payment goes through the
tables under their own keys, and asks networks for their ids. Whatever balances the accepted
contracts have on these networks, the check finds a payment if and only if a token that the page is
told of covers the amount, in the units that it is told of; and it reports such a token, under the
names that the page has for it (`listed_tokens_pay`).
-/

namespace Gateway

open Foundations Foundations.Decimal

/-! ## The code -/

/-- `hex(n)`. -/
def hexText (n : ℤ) : String :=
  (if n < 0 then "-0x" else "0x") ++ String.ofList (Nat.toDigits 16 n.natAbs)

/-- `{key: value for …}`. -/
def comprehension {β : Type} (pairs : List (String × β)) : List (String × β) :=
  pairs.foldl (fun d x => Dict.insert x.1 x.2 d) []

/-- What the wallet page is told about an EVM chain. -/
structure ChainMeta where
  chainIdHex : String
  contracts : List (String × String)
  decimals : ℕ

/-- What it is told about Solana. -/
structure SolanaMeta where
  mints : List (String × String)
  decimals : ℕ
  rpc : String

/-- What `wallet_connect_meta` returns. -/
structure WalletConnectMeta where
  evmChains : List (String × ChainMeta)
  solana : SolanaMeta
  walletconnectProjectId : String

/-- The entry of a chain. -/
def chainMeta (chain : EvmChain) : ChainMeta where
  chainIdHex := hexText (chainIds chain)
  contracts := comprehension ((stablecoinContracts chain).map fun y => (y.2.text, y.1))
  decimals := evmStablecoinDecimals chain

/-- `wallet_connect_meta`; the chains are in the order of `_CHAIN_IDS`. -/
def walletConnectMeta (walletconnectProjectId : String) : WalletConnectMeta where
  evmChains := comprehension (([.ethereum, .bsc, .polygon] : List EvmChain).map fun chain =>
    ((PaidChain.evm chain).text, chainMeta chain))
  solana :=
    { mints := comprehension (solanaStablecoinMints.map fun y => (y.2.text, y.1))
      decimals := 6
      rpc := "https://api.mainnet-beta.solana.com" }
  walletconnectProjectId

/-! ## The tables of the check -/

/-- A token that the page is told of: the names of its chain and asset, the id that the page reads
for the chain, the contract, and the decimals. -/
def Listed (info : WalletConnectMeta) (chain asset : String) (id : ℤ) (contract : String)
    (decimals : ℕ) : Prop :=
  ∃ entry, (chain, entry) ∈ info.evmChains ∧ (asset, contract) ∈ entry.contracts ∧
    PyText.pyInt 16 entry.chainIdHex.toList = some id ∧ entry.decimals = decimals

theorem mem_evmChains {projectId chain : String} {entry : ChainMeta} :
    (chain, entry) ∈ (walletConnectMeta projectId).evmChains ↔
      ∃ c, chain = (PaidChain.evm c).text ∧ entry = chainMeta c := by
  have hdict : (walletConnectMeta projectId).evmChains =
      ([.ethereum, .bsc, .polygon] : List EvmChain).map fun c =>
        ((PaidChain.evm c).text, chainMeta c) := by
    refine Dict.foldl_insert_of_nodup ?_
    simp [PaidChain.text]
  rw [hdict, List.mem_map]
  constructor
  · rintro ⟨c, -, heq⟩
    obtain ⟨rfl, rfl⟩ := Prod.mk.inj heq
    exact ⟨c, rfl, rfl⟩
  · rintro ⟨c, rfl, rfl⟩
    refine ⟨c, ?_, rfl⟩
    cases c <;> simp

theorem mem_contracts {c : EvmChain} {asset contract : String} :
    (asset, contract) ∈ (chainMeta c).contracts ↔
      ∃ a, asset = a.text ∧ (contract, a) ∈ stablecoinContracts c := by
  have hdict : (chainMeta c).contracts =
      (stablecoinContracts c).map fun y => (y.2.text, y.1) := by
    refine Dict.foldl_insert_of_nodup ?_
    cases c <;> simp [stablecoinContracts, Asset.text]
  rw [hdict, List.mem_map]
  constructor
  · rintro ⟨⟨contract', a⟩, hmem, heq⟩
    obtain ⟨rfl, rfl⟩ := Prod.mk.inj heq
    exact ⟨a, rfl, hmem⟩
  · rintro ⟨a, rfl, hmem⟩
    exact ⟨(contract, a), hmem, rfl⟩

/-- The page reads the id that the check expects of the providers. -/
theorem pyInt_chainIdHex (c : EvmChain) :
    PyText.pyInt 16 (chainMeta c).chainIdHex.toList = some (chainIds c) := by
  cases c <;> decide

theorem mem_evmTokens {c : EvmChain} {contract : String} {a : Asset} :
    (contract, a) ∈ stablecoinContracts c ↔
      ∃ t ∈ evmTokens, t.chain = c ∧ t.contract = contract ∧ t.asset = a := by
  simp only [evmTokens, List.mem_flatMap, List.mem_map]
  constructor
  · intro hmem
    obtain ⟨x, hx, rfl⟩ : ∃ x ∈ evmRpcs, x.1 = c := by cases c <;> simp [evmRpcs]
    exact ⟨_, ⟨x, hx, _, hmem, rfl⟩, rfl, rfl, rfl⟩
  · rintro ⟨t, ⟨x, -, y, hy, rfl⟩, rfl, rfl, rfl⟩
    exact hy

/-- **The page is told of the accepted tokens**, and of no others. -/
theorem listed_iff {projectId chain asset contract : String} {id : ℤ} {decimals : ℕ} :
    Listed (walletConnectMeta projectId) chain asset id contract decimals ↔
      ∃ t ∈ evmTokens, chain = (PaidChain.evm t.chain).text ∧ asset = t.asset.text ∧
        id = chainIds t.chain ∧ contract = t.contract ∧
        decimals = evmStablecoinDecimals t.chain := by
  constructor
  · rintro ⟨entry, hentry, hcontract, hid, rfl⟩
    obtain ⟨c, rfl, rfl⟩ := mem_evmChains.mp hentry
    obtain ⟨a, rfl, hmem⟩ := mem_contracts.mp hcontract
    obtain ⟨t, ht, rfl, rfl, rfl⟩ := mem_evmTokens.mp hmem
    rw [pyInt_chainIdHex] at hid
    exact ⟨t, ht, rfl, rfl, (Option.some.inj hid).symm, rfl, rfl⟩
  · rintro ⟨t, ht, rfl, rfl, rfl, rfl, rfl⟩
    exact ⟨chainMeta t.chain, mem_evmChains.mpr ⟨_, rfl, rfl⟩,
      mem_contracts.mpr ⟨_, rfl, mem_evmTokens.mpr ⟨t, ht, rfl, rfl, rfl⟩⟩,
      pyInt_chainIdHex _, rfl⟩

/-! ## Transfers of the page -/

theorem EvmToken.covers_iff {balance : EvmToken → Option ℤ} {cents : ℤ} {t : EvmToken} :
    t.covers balance cents ↔ ∃ raw, balance t = some raw ∧ 0 < raw ∧
      99 * cents * 10 ^ evmStablecoinDecimals t.chain ≤ 10 ^ 4 * raw := by
  rw [covers]
  cases balance t with
  | none => simp
  | some raw => simp

section Transfers

variable {settings : Settings} {reads : ConsensusReads} {evmAddress : String} {x : Numeric 10 2}

section Tokens

variable {balance : EvmToken → Option ℤ} (hx : 0 < x.unscaled)
  (h : ReadsBalances settings reads evmAddress balance)

include hx h

theorem checkEvmPayment_eq_find : checkEvmPayment settings reads evmAddress x.value =
    some ((evmTokens.find? (EvmToken.covers balance x.unscaled)).map
      (EvmToken.payment balance)) := by
  rw [checkEvmPayment_eq]
  exact firstMatch_eq_find fun t ht => checkToken_eq hx h ht

/-- A payment that is found is the balance of a token. -/
theorem exists_token_of_found {m : EvmMatch}
    (hm : checkEvmPayment settings reads evmAddress x.value = some (some m)) :
    ∃ t ∈ evmTokens, ∃ raw, balance t = some raw ∧ 0 < raw ∧
      99 * x.unscaled * 10 ^ evmStablecoinDecimals t.chain ≤ 10 ^ 4 * raw ∧
      m.chain = t.chain ∧ m.asset = t.asset ∧
      m.amount = Context.default.round (t.quotient raw) := by
  rw [checkEvmPayment_eq_find hx h] at hm
  obtain ⟨t, hfind, rfl⟩ := Option.map_eq_some_iff.mp (Option.some.inj hm)
  obtain ⟨raw, hraw, hpos, hcovers⟩ := EvmToken.covers_iff.mp (List.find?_some hfind)
  refine ⟨t, List.mem_of_find?_eq_some hfind, raw, hraw, hpos, hcovers, rfl, rfl, ?_⟩
  simp only [EvmToken.payment, hraw, Option.getD_some]
  split_ifs with hsmall
  · exact (EvmToken.round_quotient hpos.le hsmall).symm
  · rfl

/-- A token that covers the amount is enough, whatever the others hold. -/
theorem exists_found_of_token {t : EvmToken} (ht : t ∈ evmTokens)
    (hcovers : t.covers balance x.unscaled) :
    ∃ m, checkEvmPayment settings reads evmAddress x.value = some (some m) := by
  obtain ⟨t', hfind⟩ := Option.isSome_iff_exists.mp (List.find?_isSome.mpr ⟨t, ht, hcovers⟩)
  rw [checkEvmPayment_eq_find hx h, hfind]
  exact ⟨_, rfl⟩

end Tokens

/-- **A transfer that the page builds pays.** Whatever the rounds decide about the contracts on the
networks of the ids, the check finds a payment if and only if, in a contract that the page is told
of, on the network of the id that it reads, they see 99% of the amount in units of the decimals that
it is told; and what the check reports is the balance of such a token, under the names that the page
has for it. -/
theorem listed_tokens_pay {held : ℤ → String → Option ℤ} (hx : 0 < x.unscaled)
    (h : ReadsBalances settings reads evmAddress fun t => held (chainIds t.chain) t.contract)
    (projectId : String) :
    ((∃ m, checkEvmPayment settings reads evmAddress x.value = some (some m)) ↔
      ∃ chain asset id contract decimals raw,
        Listed (walletConnectMeta projectId) chain asset id contract decimals ∧
          held id contract = some raw ∧ 0 < raw ∧
          99 * x.unscaled * 10 ^ decimals ≤ 10 ^ 4 * raw) ∧
    ∀ m, checkEvmPayment settings reads evmAddress x.value = some (some m) →
      ∃ id contract decimals raw, Listed (walletConnectMeta projectId) (PaidChain.evm m.chain).text
          m.asset.text id contract decimals ∧
        held id contract = some raw ∧ 99 * x.unscaled * 10 ^ decimals ≤ 10 ^ 4 * raw ∧
        m.amount = Context.default.round (raw / 10 ^ decimals) := by
  refine ⟨⟨?_, ?_⟩, ?_⟩
  · rintro ⟨m, hm⟩
    obtain ⟨t, ht, raw, hraw, hpos, hcovers, -⟩ := exists_token_of_found hx h hm
    exact ⟨_, _, _, _, _, raw, listed_iff.mpr ⟨t, ht, rfl, rfl, rfl, rfl, rfl⟩, hraw, hpos, hcovers⟩
  · rintro ⟨chain, asset, id, contract, decimals, raw, hlisted, hraw, hpos, hcovers⟩
    obtain ⟨t, ht, -, -, rfl, rfl, rfl⟩ := listed_iff.mp hlisted
    exact exists_found_of_token hx h ht (EvmToken.covers_iff.mpr ⟨raw, hraw, hpos, hcovers⟩)
  · intro m hm
    obtain ⟨t, ht, raw, hraw, -, hcovers, hchain, hasset, hamount⟩ := exists_token_of_found hx h hm
    refine ⟨_, _, _, raw, ?_, hraw, hcovers, hamount⟩
    rw [hchain, hasset]
    exact listed_iff.mpr ⟨t, ht, rfl, rfl, rfl, rfl, rfl⟩

end Transfers

/-- The balances of the sample, whatever the id is. -/
def sampleHeld (_ : ℤ) (contract : String) : Option ℤ := sampleBalance contract

/-- Five USDT on Ethereum, which the page finds under the id `0x1`. -/
theorem listed_tokens_pay_five_usdt :
    Listed (walletConnectMeta "") "ethereum" "USDT" 1 "0xdac17f958d2ee523a2206206994597c13d831ec7"
        6 ∧
      ∃ m, checkEvmPayment {} sampleReads "0x44" (⟨500, by decide⟩ : Numeric 10 2).value =
        some (some m) := by
  have hlisted : Listed (walletConnectMeta "") "ethereum" "USDT" 1
      "0xdac17f958d2ee523a2206206994597c13d831ec7" 6 :=
    ⟨chainMeta .ethereum, mem_evmChains.mpr ⟨.ethereum, rfl, rfl⟩,
      mem_contracts.mpr ⟨.usdt, rfl, List.mem_cons_self⟩, pyInt_chainIdHex .ethereum, rfl⟩
  have hreads : ReadsBalances {} sampleReads "0x44"
      fun t => sampleHeld (chainIds t.chain) t.contract := sampleReads_balances "0x44"
  have hpays := listed_tokens_pay (x := ⟨500, by decide⟩) (by decide) hreads ""
  exact ⟨hlisted, hpays.1.mpr ⟨_, _, _, _, _, 5000000, hlisted, rfl, by decide, by decide⟩⟩

end Gateway
