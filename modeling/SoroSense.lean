import SoroSense.Properties.Suppliers
import SoroSense.Properties.SharePrice
import SoroSense.Properties.Backing
import SoroSense.Properties.Liquidity
import SoroSense.Properties.Isolation
import SoroSense.Properties.Exit
import SoroSense.Properties.Coalition
import SoroSense.Properties.Pause
import SoroSense.Properties.Freeze
import SoroSense.Properties.ActivePool
import SoroSense.Properties.Shares
import SoroSense.Properties.Custody
import SoroSense.Properties.PoolList
import SoroSense.Properties.Exposure
import SoroSense.Properties.Payout
import SoroSense.Properties.Proposals
import SoroSense.Properties.Accrual
import SoroSense.Properties.Arithmetic
import SoroSense.Properties.Strangers
import SoroSense.Properties.Slots
import SoroSense.Lib.Keyed
import SoroSense.Lib.Timeline
import SoroSense.Backend.CostBasis
import SoroSense.Backend.EventReader
import SoroSense.Journal
import SoroSense.Properties.Replay
import SoroSense.Backend.Poller
import SoroSense.Properties.Publication
import SoroSense.Lib.AverageCost
import SoroSense.Backend.Catalog
import SoroSense.Backend.Earnings
import SoroSense.Properties.Views
import SoroSense.Properties.Truncation
import SoroSense.Properties.TotalEarned
import SoroSense.Lib.Session
import SoroSense.Backend.VaultClient
import SoroSense.Backend.Allocator
import SoroSense.Backend.Runner
import SoroSense.Backend.RunnerSpec
import SoroSense.Properties.ActiveRecord
import SoroSense.Properties.Seeding
import SoroSense.Properties.SwitchGate
import SoroSense.Properties.Dwell
import SoroSense.Properties.ExitApproval
import SoroSense.Properties.Preview
import SoroSense.Properties.Touches
import SoroSense.Properties.Basis
import SoroSense.Properties.Resume
import SoroSense.Properties.EarningsTimeline
import SoroSense.Properties.FaucetCooldown
import SoroSense.Properties.SwitchConverges
import SoroSense.Properties.RegistryLoop
import SoroSense.Backend.MockVault
import SoroSense.Properties.MockShares
import SoroSense.Properties.MockWrites
import SoroSense.Properties.MockGuards
import SoroSense.Lib.Quote
import SoroSense.Properties.Quotes
import SoroSense.Lib.Decimal
import SoroSense.JsText
import SoroSense.Backend.DemoSeed
import SoroSense.Frontend.Units
import SoroSense.Properties.Codecs
import SoroSense.Frontend.Withdraw
import SoroSense.Properties.EnteredAmount
import SoroSense.Properties.EntryPrice
import SoroSense.Lib.Leading
import SoroSense.Backend.Activity
import SoroSense.Properties.ActivityFeed
import SoroSense.Backend.Sentinel
import SoroSense.Properties.RiskScore
import SoroSense.Properties.NoChurn
import SoroSense.Properties.CompoundOnce
import SoroSense.Properties.BankRun
import SoroSense.Lib.Timer
import SoroSense.Backend.Realtime
import SoroSense.Properties.LiveProcess
import SoroSense.Properties.LivePrices
import SoroSense.Properties.FeedJournal
import SoroSense.Lib.Courier
import SoroSense.Backend.SeedRun
import SoroSense.Backend.Wire
import SoroSense.Backend.SentinelFreeze
import SoroSense.Properties.SeedRuns
import SoroSense.Properties.SeedReadback
import SoroSense.Properties.FreezePath
import SoroSense.Frontend.DepositScreen
import SoroSense.Properties.DepositVisits
import SoroSense.Frontend.SafeExit
import SoroSense.Properties.ExitTargets
import SoroSense.Properties.HiddenExits
import SoroSense.Properties.OfferedExits
import SoroSense.Properties.QuotedRates
