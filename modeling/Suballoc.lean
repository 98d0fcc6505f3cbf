import Suballoc.Session
import Suballoc.Settings
import Suballoc.SharedPool.Drill
import Suballoc.Proofs.Call
import Suballoc.Proofs.Tenancy
import Suballoc.Proofs.Guarded
import Suballoc.Proofs.Stack
import Suballoc.Proofs.Stack.History
import Suballoc.Proofs.Stack.Requests
import Suballoc.Proofs.Word.Alignment
import Suballoc.Proofs.SlotArray
import Suballoc.Proofs.Pool
import Suballoc.Proofs.Pool.Lifo
import Suballoc.Proofs.SharedPool
import Suballoc.Proofs.SharedPool.Sequential
import Suballoc.Proofs.SharedPool.Crew
import Suballoc.Proofs.SharedPool.Safety
import Suballoc.Proofs.SharedPool.Guarded
import Suballoc.Proofs.FreeList.Chain
import Suballoc.Proofs.FreeList.Relink
import Suballoc.Proofs.FreeList.Demand
import Suballoc.Proofs.FreeList.Search
import Suballoc.Proofs.FreeList.Tiling
import Suballoc.Proofs.FreeList.Take
import Suballoc.Proofs.FreeList.Placement
import Suballoc.Proofs.FreeList.Room
import Suballoc.Proofs.FreeList.Merge
import Suballoc.Proofs.FreeList.Return
import Suballoc.Proofs.FreeList.Stray
import Suballoc.Proofs.FreeList.Tenancy
import Suballoc.Proofs.FreeList.Moved
import Suballoc.Proofs.FreeList.Isolation
import Suballoc.Proofs.FreeList.Guarded
import Suballoc.Proofs.FreeList.Canonical
import Suballoc.Proofs.Engine.Pools
import Suballoc.Proofs.Engine.Blocks
import Suballoc.Proofs.Engine.Builds
import Suballoc.Proofs.SharedPool.Strategies
import Suballoc.Proofs.Engine.Guises
import Suballoc.Proofs.Engine.Refusals
import Suballoc.Proofs.Engine.Blank
import Suballoc.Proofs.Engine.Twins
import Suballoc.Proofs.Engine.Translation
import Suballoc.Proofs.Engine.Leases
import Suballoc.Proofs.Engine.Ownership
import Suballoc.Proofs.Engine.Guarded
import Suballoc.Proofs.Engine.Accounts
import Suballoc.Proofs.Stack.Scopes
import Suballoc.Proofs.Stack.Nesting
import Suballoc.Proofs.FreeList.Residue
import Suballoc.Proofs.Engine.DoubleRelease
import Suballoc.Proofs.Construction
import Suballoc.Proofs.SlotArray.Construction
import Suballoc.Proofs.Pool.Construction
