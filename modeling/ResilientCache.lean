import ResilientCache.Exposition
import ResilientCache.Simulation.Session
import ResilientCache.Proofs.Call
import ResilientCache.Proofs.Reporting
import ResilientCache.Proofs.Degrading
import ResilientCache.Proofs.Matching
import ResilientCache.Proofs.Sweeping
import ResilientCache.Proofs.Holding
import ResilientCache.Proofs.Reference
import ResilientCache.Proofs.Refinement
import ResilientCache.Proofs.Hooks
import ResilientCache.Proofs.Keeping
import ResilientCache.Proofs.Availability
import ResilientCache.Proofs.Walking
import ResilientCache.Proofs.Loading
import ResilientCache.Proofs.Framing
import ResilientCache.Proofs.Arrival
import ResilientCache.Proofs.Atomicity
import ResilientCache.Proofs.LoadingOnce
import ResilientCache.Proofs.Stamps
import ResilientCache.Proofs.Accounts
import ResilientCache.Proofs.Infallible
import ResilientCache.Proofs.Absence
import ResilientCache.Proofs.Rewriting
import ResilientCache.Proofs.ReadingBack
import ResilientCache.Proofs.Surfacing
import ResilientCache.Proofs.Disturbing
import ResilientCache.Proofs.LookingAhead
import ResilientCache.Proofs.Fusing
import ResilientCache.Proofs.Sifting
import ResilientCache.Proofs.Computing
import ResilientCache.Proofs.LoadingAsComputing
import ResilientCache.Proofs.BulkEntries
import ResilientCache.Proofs.OneByOne
import ResilientCache.Proofs.Guarding
import ResilientCache.Proofs.LoadingInVain
import ResilientCache.Proofs.Undoing
import ResilientCache.Proofs.Emptying
import ResilientCache.Proofs.Tallying
import ResilientCache.Proofs.Scraping
import ResilientCache.Proofs.Exposing
