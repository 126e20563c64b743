import TableFlow.Lib.Run
import TableFlow.Lib.Text
import TableFlow.Lib.Mvcc
import TableFlow.Lib.Script
import TableFlow.Lib.Decimal
import TableFlow.Lib.Owned
import TableFlow.Lib.Query
import TableFlow.Model
import TableFlow.Name
import TableFlow.Migration
import TableFlow.Service
import TableFlow.World
import TableFlow.Steps
import TableFlow.Invariant
import TableFlow.Waiting
import TableFlow.Booking
import TableFlow.Editing
import TableFlow.Answers
import TableFlow.Deadlock
import TableFlow.Orders
import TableFlow.Backfill
import TableFlow.Deployment
import TableFlow.Alone
import TableFlow.PhaseGuard
import TableFlow.Spelling
import TableFlow.Validity
import TableFlow.Rollout
import TableFlow.Alembic
import TableFlow.Rollback
import TableFlow.Contract
import TableFlow.Checkout
import TableFlow.Outage
import TableFlow.Seating
import TableFlow.Ordering
import TableFlow.Resuming
import TableFlow.IfMatch
import TableFlow.Totals
import TableFlow.Lookup
import TableFlow.Availability
import TableFlow.Downgrade
import TableFlow.Steady
import TableFlow.Reporting
import TableFlow.DualWrite
import TableFlow.Privacy
import TableFlow.Paging
import TableFlow.Readback
import TableFlow.Passwords
import TableFlow.Lifetime
import TableFlow.BookTable
import TableFlow.MyLists
import TableFlow.Lib.Double
import TableFlow.Prices
import TableFlow.Accounts
import TableFlow.SignIn
import TableFlow.Profiles
import TableFlow.Signups
import TableFlow.Products
import TableFlow.Authority
import TableFlow.EditRace
import TableFlow.Visiting
import TableFlow.Traffic
import TableFlow.Uptime
import TableFlow.Verdict
