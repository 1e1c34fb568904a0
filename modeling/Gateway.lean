import Gateway.Foundations.Runs
import Gateway.Foundations.Decimal
import Gateway.Foundations.PyText
import Gateway.Foundations.Json
import Gateway.Foundations.Numeric
import Gateway.Foundations.Tables
import Gateway.Foundations.FirstMatch
import Gateway.Foundations.Ledger
import Gateway.Merchant.Records
import Gateway.Merchant.Billing
import Gateway.Settlement.SolanaCheck
import Gateway.Poll.Visit
import Gateway.Poll.System
import Gateway.Poll.Moves
import Gateway.Poll.Sessions
import Gateway.Poll.Watermarks
import Gateway.Poll.Sequential
import Gateway.Poll.Deliveries
import Gateway.Poll.Overlap
import Gateway.Poll.Chain
import Gateway.Poll.Arrivals
import Gateway.Poll.LonePass
import Gateway.Poll.Custody
import Gateway.Poll.Shortfall
import Gateway.Checkout.Transactions
import Gateway.Checkout.Indices
import Gateway.Checkout.Quota
import Gateway.Foundations.Dict
import Gateway.Settlement.Providers
import Gateway.Settlement.Consensus
import Gateway.Settlement.Quorum
import Gateway.Settlement.Spellings
import Gateway.Settlement.EvmCheck
import Gateway.Settlement.Breaker
import Gateway.Settlement.SolanaVerdict
import Gateway.Poll.Replies
import Gateway.Merchant.Cycles
import Gateway.Merchant.Fees
import Gateway.Poll.Expiry
import Gateway.Foundations.Pratt
import Gateway.Foundations.ShortCurve
import Gateway.Foundations.Bytes
import Gateway.Wallet.Bip32
import Gateway.Wallet.WatchOnly
import Gateway.Checkout.Addresses
import Gateway.Settlement.Splits
import Gateway.Foundations.TokenBucket
import Gateway.Settlement.Queries
import Gateway.Settlement.RateLimit
import Gateway.Wallet.Compression
import Gateway.Wallet.Paths
import Gateway.Checkout.Validation
import Gateway.Poll.Booking
import Gateway.Poll.Sweep
import Gateway.Poll.Fifo
import Gateway.Settlement.Backing
import Gateway.Poll.Rows
import Gateway.Poll.Backed
import Gateway.Service.Transactions
import Gateway.Service.Orders
import Gateway.Settlement.Cooldown
import Gateway.Settlement.Diagnostics
import Gateway.Push.Registry
import Gateway.Push.Posts
import Gateway.Service.Addresses
import Gateway.Foundations.Deposits
import Gateway.Service.Deposits
import Gateway.Foundations.Hex
import Gateway.Settlement.CallData
import Gateway.Service.Queries
import Gateway.Foundations.Binary64
import Gateway.Foundations.JsonText
import Gateway.Foundations.Calendar
import Gateway.Merchant.Webhook
import Gateway.Poll.Webhooks
import Gateway.Merchant.Floats
import Gateway.Settlement.WalletConnect
import Gateway.Foundations.Accounts
import Gateway.Poll.Volumes
import Gateway.Poll.Turns
