import GenPay.ReadCommitted.Program
import GenPay.ReadCommitted.System
import GenPay.Actions
import GenPay.AppendOnly
import GenPay.Authentication
import GenPay.Decisions
import GenPay.Deliveries
import GenPay.Reconciliation
import GenPay.Refinement
import GenPay.Hamilton
import GenPay.Signing
import GenPay.EndToEnd
import GenPay.References
import GenPay.Sufficiency
import GenPay.Attribution
import GenPay.Seeding
import GenPay.Commutation
import GenPay.Paths
import GenPay.Reversal
import GenPay.Batches
import GenPay.Totals
import GenPay.Sending
import GenPay.Currency
import GenPay.Cleanup
import GenPay.Paging
import GenPay.Buyer
import GenPay.Balances
import GenPay.LockOrder
import GenPay.Interleaving
import GenPay.Bookkeeping
import GenPay.Lifecycle
import GenPay.Agreement
import GenPay.Drift
import GenPay.Startup
import GenPay.Migration
import GenPay.Reading
import GenPay.Retries
import GenPay.Owners
import GenPay.Mandates
